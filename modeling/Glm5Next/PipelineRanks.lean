import Mathlib.Logic.Function.Basic
import Mathlib.Algebra.Order.BigOperators.Group.Finset
import Mathlib.Algebra.Order.Group.Nat
import Glm5Next.DeferredResults

-- The ranks of a pipeline, each in its own execute_model and sample_tokens: the
-- hidden states that go from rank to rank, and the broadcast of the samples.
namespace Glm5Next.PipelineRanks

-- What a rank computes in a step. T is what the last rank samples and broadcasts
-- in it, D its draft_tokens, one storage for all steps.
structure Stages (S H T D : Type) where
  -- update_pp_decode_requests with the tensors of the popped entry, and the
  -- phases up to the batch.
  startStep : Nat → Nat → S → Option (T × D) → S
  forward : Nat → Nat → S → Option H → S × H
  -- sample_tokens on a rank that receives, and on the last one.
  receive : Nat → Nat → S → S
  sample : Nat → S → H → S × T
  -- What the drafter writes into draft_tokens.
  propose : Nat → S → H → D → D

-- What the scheduler outputs of a run say, the same to every rank.
structure Plan where
  numRanks : Nat
  numSteps : Nat
  -- total_num_scheduled_tokens > 0
  forwardPass : Nat → Bool
  -- compute_need_sampled_mask is not None
  needed : Nat → Bool
  ranks_pos : 0 < numRanks

def Plan.relays (plan : Plan) (n : Nat) : Bool := plan.forwardPass n && plan.needed n

inductive Phase where
  | start
  | receiving
  | ready
  | sampling
  deriving DecidableEq

structure Rank (S H T D : Type) where
  step : Nat
  phase : Phase
  state : S
  -- intermediate_tensors
  input : Option H
  -- What the forward returns. A captured graph writes it to one buffer.
  output : Option H
  -- _pp_send_work: the output is being sent.
  sending : Bool
  -- The pending receives by the step that posted them.
  queue : List (Option Nat)
  -- The tensors of a pending receive, once the broadcasts have run.
  inbox : Nat → Option (T × D)

structure System (S H T D : Type) where
  ranks : Nat → Rank S H T D
  -- Taken from rank p and not received by rank p + 1.
  channel : Nat → List H
  -- The samples that the last rank posted. The drafts are read where they stand,
  -- when their broadcast runs.
  relayed : Nat → Option T
  draftTokens : D

variable {S H T D : Type}

def System.set (sys : System S H T D) (p : Nat) (rank : Rank S H T D) : System S H T D :=
  { sys with ranks := Function.update sys.ranks p rank }

def System.initial (plan : Plan) (init : Nat → S) (drafts : D) : System S H T D where
  ranks p := ⟨0,.start,init p,none,none,false,if p + 1 = plan.numRanks then [] else List.replicate plan.numRanks none,
    fun _ => none⟩
  channel _ := []
  relayed _ := none
  draftTokens := drafts

-- `read` is what a draft broadcast finds once a later proposal writes there.
inductive Action (D : Type) where
  | start (p : Nat)
  | copy (p : Nat)
  | recv (p : Nat)
  | forward (p : Nat)
  | sample (p : Nat)
  | deliver (p n : Nat) (read : D)

-- main_stream.wait_event on the entry that this step pops.
def Rank.waited (r : Rank S H T D) : Bool := r.queue.head?.join.all fun n => (r.inbox n).isSome

def Rank.popped (r : Rank S H T D) : Option (T × D) := r.queue.head?.join.bind r.inbox

def popQueue : List (Option α) → List (Option α)
  | [] => []
  | _ :: rest => rest ++ [none]

def Rank.started (plan : Plan) (st : Stages S H T D) (p : Nat) (r : Rank S H T D) : Rank S H T D :=
  let r := { r with state := st.startStep p r.step r.state r.popped,queue := popQueue r.queue }
  if plan.forwardPass r.step then { r with phase := if p = 0 then .ready else .receiving }
  else { r with step := r.step + 1 }

def Rank.forwarded (plan : Plan) (st : Stages S H T D) (p : Nat) (r : Rank S H T D) : Rank S H T D :=
  let (state,tensors) := st.forward p r.step r.state r.input
  { r with state := state,output := some tensors,sending := decide (p + 1 < plan.numRanks),phase := .sampling }

def Rank.received (plan : Plan) (st : Stages S H T D) (p : Nat) (r : Rank S H T D) : Rank S H T D :=
  { r with
    state := st.receive p r.step r.state
    queue := if plan.relays r.step then r.queue.dropLast ++ [some r.step] else r.queue
    step := r.step + 1
    phase := .start }

def Rank.sampled (st : Stages S H T D) (r : Rank S H T D) (tensors : H) : Rank S H T D :=
  { r with state := (st.sample r.step r.state tensors).1,step := r.step + 1,phase := .start }

def System.overtaken (plan : Plan) (sys : System S H T D) (n : Nat) : Bool :=
  (List.range (sys.ranks (plan.numRanks - 1)).step).any fun m => decide (n < m) && plan.forwardPass m

def System.readDrafts (plan : Plan) (sys : System S H T D) (n : Nat) (read : D) : D :=
  if sys.overtaken plan n then read else sys.draftTokens

-- One operation of one rank, when nothing holds it up. A send may complete
-- before it is received; a broadcast needs its source and its receiver.
def act (plan : Plan) (st : Stages S H T D) (sys : System S H T D) : Action D → Option (System S H T D)
  | .start p =>
    let r := sys.ranks p
    if p < plan.numRanks ∧ r.phase = .start ∧ r.step < plan.numSteps ∧ r.sending = false ∧ r.waited = true then
      some (sys.set p (r.started plan st p))
    else none
  | .copy p =>
    let r := sys.ranks p
    if p + 1 < plan.numRanks ∧ r.sending = true then
      some { sys.set p { r with sending := false } with
        channel := Function.update sys.channel p (sys.channel p ++ r.output.toList) }
    else none
  | .recv p =>
    let r := sys.ranks (p + 1)
    match sys.channel p with
    | [] => none
    | tensors :: rest =>
      if p + 1 < plan.numRanks ∧ r.phase = .receiving then
        some { sys.set (p + 1) { r with input := some tensors,phase := .ready } with
          channel := Function.update sys.channel p rest }
      else none
  | .forward p =>
    let r := sys.ranks p
    if p < plan.numRanks ∧ r.phase = .ready then some (sys.set p (r.forwarded plan st p)) else none
  | .sample p =>
    let r := sys.ranks p
    if p < plan.numRanks ∧ r.phase = .sampling then
      if p + 1 = plan.numRanks then
        r.output.map fun tensors => { sys.set p (r.sampled st tensors) with
          relayed := if plan.relays r.step then
            Function.update sys.relayed r.step (some (st.sample r.step r.state tensors).2) else sys.relayed
          draftTokens := st.propose r.step r.state tensors sys.draftTokens }
      else some (sys.set p (r.received plan st p))
    else none
  | .deliver p n read =>
    let r := sys.ranks p
    if p + 1 < plan.numRanks ∧ n < r.step ∧ r.inbox n = none then
      (sys.relayed n).map fun t => sys.set p { r with
        inbox := Function.update r.inbox n (some (t,sys.readDrafts plan n read)) }
    else none

inductive Runs (plan : Plan) (st : Stages S H T D) (first : System S H T D) :
    List (Action D) → System S H T D → Prop where
  | nil : Runs plan st first [] first
  | snoc : Runs plan st first actions sys → act plan st sys action = some next →
      Runs plan st first (actions ++ [action]) next

def keepsUp (plan : Plan) (sys : System S H T D) : Action D → Bool
  | .deliver _ n _ => !sys.overtaken plan n
  | _ => true

inductive Undisturbed (plan : Plan) (st : Stages S H T D) (first : System S H T D) :
    List (Action D) → System S H T D → Prop where
  | nil : Undisturbed plan st first [] first
  | snoc : Undisturbed plan st first actions sys → act plan st sys action = some next → keepsUp plan sys action = true →
      Undisturbed plan st first (actions ++ [action]) next

def Resolves (handed : Nat → Nat → D) (sys : System S H T D) : Prop :=
  ∀ p n t, (sys.ranks p).inbox n = some t → handed p n = t.2

def System.handed (sys : System S H T D) (p n : Nat) : D := ((sys.ranks p).inbox n).elim sys.draftTokens Prod.snd

theorem handed_resolves (sys : System S H T D) : Resolves sys.handed sys := by
  intro p n t found
  simp [System.handed,found]

-- The same steps in sequence: one step after the other, and in it one rank
-- after the other. Rank p is handed `handed p n` as the drafts of step n.
section Reference
variable (plan : Plan) (st : Stages S H T D) (init : Nat → S) (handed : Nat → Nat → D)

def through (st : Stages S H T D) (n : Nat) (begun : Nat → S) : Nat → S × H
  | 0 => st.forward 0 n (begun 0) none
  | p + 1 => st.forward (p + 1) n (begun (p + 1)) (some (through st n begun p).2)

def begin_ (n : Nat) (before : (Nat → S) × (Nat → Option T)) (p : Nat) : S :=
  st.startStep p n (before.1 p) (if p + 1 = plan.numRanks ∨ n < plan.numRanks then none
    else (before.2 (n - plan.numRanks)).map fun t => (t,handed p (n - plan.numRanks)))

def sequential : Nat → (Nat → S) × (Nat → Option T)
  | 0 => (init,fun _ => none)
  | n + 1 =>
    let before := sequential n
    let begun := begin_ plan st handed n before
    if plan.forwardPass n then
      let last := plan.numRanks - 1
      let sampled := st.sample n (through st n begun last).1 (through st n begun last).2
      (fun p => if p = last then sampled.1 else st.receive p n (through st n begun p).1,
        if plan.needed n then Function.update before.2 n (some sampled.2) else before.2)
    else (begun,before.2)

def begun (n p : Nat) : S := begin_ plan st handed n (sequential plan st init handed n) p

def stage (n p : Nat) : S × H := through st n (begun plan st init handed n) p

def relay (n : Nat) : Option T := (sequential plan st init handed (n + 1)).2 n

theorem recorded (n m : Nat) : (sequential plan st init handed n).2 m = if m < n then relay plan st init handed m else none := by
  induction n with
  | zero => rfl
  | succ n ih =>
      by_cases same : m = n
      · subst same
        rw [if_pos (Nat.lt_succ_self m)]
        rfl
      · have kept : (sequential plan st init handed (n + 1)).2 m = (sequential plan st init handed n).2 m := by
          rw [sequential]
          cases plan.forwardPass n with
          | false => rfl
          | true => cases plan.needed n <;> simp [Function.update_of_ne same]
        have below : m < n + 1 ↔ m < n := by omega
        simp only [kept,ih,below]

theorem relay_exact (n : Nat) : relay plan st init handed n = if plan.relays n = true then
    some (st.sample n (stage plan st init handed n (plan.numRanks - 1)).1 (stage plan st init handed n (plan.numRanks - 1)).2).2
    else none := by
  have unset : (sequential plan st init handed n).2 n = none := by simp [recorded]
  rw [relay,sequential,Plan.relays]
  cases plan.forwardPass n with
  | false => simpa using unset
  | true =>
      cases plan.needed n with
      | false => simpa using unset
      | true =>
          simp only [if_true,Bool.true_and,Function.update_self]
          rfl

def draftsBefore (drafts : D) : Nat → D
  | 0 => drafts
  | n + 1 =>
    let last := plan.numRanks - 1
    if plan.forwardPass n then
      st.propose n (stage plan st init handed n last).1 (stage plan st init handed n last).2 (draftsBefore drafts n)
    else draftsBefore drafts n

theorem drafts_still (drafts : D) (still : ∀ m, n < m → m < k → plan.forwardPass m = false) (later : n < k) :
    draftsBefore plan st init handed drafts k = draftsBefore plan st init handed drafts (n + 1) := by
  induction k with
  | zero => cases later
  | succ k ih =>
      by_cases last : n = k
      · rw [last]
      · have idle : plan.forwardPass k = false := still k (by omega) (Nat.lt_succ_self k)
        rw [draftsBefore,idle,if_neg Bool.false_ne_true]
        exact ih (fun m after before => still m after (Nat.lt_succ_of_lt before)) (by omega)

theorem states_idle (idle : plan.forwardPass n = false) : (sequential plan st init handed (n + 1)).1 = begun plan st init handed n := by
  rw [sequential,idle]
  rfl

theorem states_last (runs : plan.forwardPass n = true) (last : p + 1 = plan.numRanks) :
    (sequential plan st init handed (n + 1)).1 p = (st.sample n (stage plan st init handed n p).1 (stage plan st init handed n p).2).1 := by
  have place : p = plan.numRanks - 1 := by omega
  rw [sequential,runs]
  simp only [if_true,place]
  rfl

theorem states_other (runs : plan.forwardPass n = true) (other : p + 1 ≠ plan.numRanks) :
    (sequential plan st init handed (n + 1)).1 p = st.receive p n (stage plan st init handed n p).1 := by
  have positive := plan.ranks_pos
  have place : p ≠ plan.numRanks - 1 := by omega
  rw [sequential,runs]
  simp only [if_true,place,if_false]
  rfl

end Reference

def Plan.done (plan : Plan) (n : Nat) : List Nat := (List.range n).filter plan.forwardPass

theorem done_succ (plan : Plan) (n : Nat) :
    plan.done (n + 1) = plan.done n ++ if plan.forwardPass n then [n] else [] := by
  unfold Plan.done
  rw [List.range_succ,List.filter_append]
  cases runs : plan.forwardPass n <;> simp [runs]

theorem done_next (plan : Plan) (runs : plan.forwardPass n = true) (later : n < k) :
    ∃ rest, plan.done k = plan.done n ++ n :: rest := by
  induction k with
  | zero => cases later
  | succ k ih =>
      rw [done_succ]
      by_cases last : n = k
      · subst last
        exact ⟨[],by simp [runs]⟩
      · obtain ⟨rest,same⟩ := ih (by omega)
        exact ⟨rest ++ if plan.forwardPass k then [k] else [],by simp [same]⟩

theorem done_le (plan : Plan) (below : n ≤ k) : (plan.done n).length ≤ (plan.done k).length :=
  ((List.range_sublist.mpr below).filter _).length_le

def Plan.entries (plan : Plan) (n : Nat) : List (Option Nat) :=
  (List.range n).map fun m => if plan.relays m then some m else none

theorem entries_succ (plan : Plan) (n : Nat) :
    plan.entries (n + 1) = plan.entries n ++ [if plan.relays n then some n else none] := by
  simp [Plan.entries,List.range_succ]

section Ranks
variable (plan : Plan) (st : Stages S H T D) (init : Nat → S) (handed : Nat → Nat → D)

def expected (n p : Nat) : Phase → S
  | .start => (sequential plan st init handed n).1 p
  | .receiving | .ready => begun plan st init handed n p
  | .sampling => (stage plan st init handed n p).1

def Plan.queueAt (p n : Nat) (phase : Phase) : List (Option Nat) :=
  if p + 1 = plan.numRanks then []
  else if phase = .start then DelayLine.line plan.numRanks none (plan.entries n)
  else popQueue (DelayLine.line plan.numRanks none (plan.entries n))

-- A rank is where the sequential run was at the same point.
structure Faithful (p : Nat) (r : Rank S H T D) : Prop where
  bound : r.step ≤ plan.numSteps
  running : r.phase ≠ .start → plan.forwardPass r.step = true ∧ r.step < plan.numSteps
  behind : r.phase = .receiving → p ≠ 0
  state : r.state = expected plan st init handed r.step p r.phase
  first : p = 0 → r.input = none
  input : r.phase = .ready → p ≠ 0 → r.input = some (stage plan st init handed r.step (p - 1)).2
  output : r.phase = .sampling → r.output = some (stage plan st init handed r.step p).2
  free : r.phase = .receiving ∨ r.phase = .ready → r.sending = false
  sends : r.sending = true → p + 1 < plan.numRanks ∧ r.output.isSome = true
  queue : r.queue = plan.queueAt p r.step r.phase
  inbox : ∀ m t, r.inbox m = some t → m < r.step ∧ relay plan st init handed m = some t.1 ∧ t.2 = handed p m

def Rank.sent (r : Rank S H T D) : List Nat := plan.done r.step ++ if r.phase = .sampling then [r.step] else []

def Rank.taken (r : Rank S H T D) : List Nat :=
  plan.done r.step ++ if r.phase = .ready ∨ r.phase = .sampling then [r.step] else []

def Rank.pending (r : Rank S H T D) : List H := if r.sending then r.output.toList else []

-- What rank p sent is what rank p + 1 received and what is on the way, in order.
def Linked (sys : System S H T D) (p : Nat) : Prop :=
  ((sys.ranks (p + 1)).taken plan).map (fun m => (stage plan st init handed m p).2) ++ sys.channel p ++ (sys.ranks p).pending =
    ((sys.ranks p).sent plan).map fun m => (stage plan st init handed m p).2

structure Holds (drafts : D) (sys : System S H T D) : Prop where
  faithful : ∀ p < plan.numRanks, Faithful plan st init handed p (sys.ranks p)
  linked : ∀ p, p + 1 < plan.numRanks → Linked plan st init handed sys p
  relayed : ∀ n, sys.relayed n = if n < (sys.ranks (plan.numRanks - 1)).step then relay plan st init handed n else none
  drafts : sys.draftTokens = draftsBefore plan st init handed drafts (sys.ranks (plan.numRanks - 1)).step

variable {plan st init handed} {drafts : D} {sys next : System S H T D}

theorem start_holds : Holds plan st init handed drafts (System.initial plan init drafts) := by
  refine ⟨fun p _ => ?_,fun p _ => ?_,fun n => (if_neg (Nat.not_lt_zero n)).symm,rfl⟩
  · refine ⟨Nat.zero_le _,by simp [System.initial],by simp [System.initial],rfl,fun _ => rfl,
      by simp [System.initial],by simp [System.initial],fun _ => rfl,by simp [System.initial],?_,
      by simp [System.initial]⟩
    simp [System.initial,Plan.queueAt,Plan.entries]
  · simp [Linked,System.initial,Rank.taken,Rank.sent,Rank.pending,Plan.done]

theorem set_linked (p : Nat) (r : Rank S H T D) (sent : r.sent plan = (sys.ranks p).sent plan)
    (taken : p ≠ 0 → r.taken plan = (sys.ranks p).taken plan) (pending : r.pending = (sys.ranks p).pending)
    (linked : Linked plan st init handed sys q) : Linked plan st init handed (sys.set p r) q := by
  unfold Linked System.set at *
  by_cases here : q = p
  · subst here
    simpa [sent,pending] using linked
  · by_cases next : q + 1 = p
    · subst next
      simpa [taken (Nat.succ_ne_zero q),here] using linked
    · simpa [here,next] using linked

theorem set_faithful (p : Nat) (r : Rank S H T D) (faithful : Faithful plan st init handed p r)
    (before : ∀ q < plan.numRanks, Faithful plan st init handed q (sys.ranks q)) :
    ∀ q < plan.numRanks, Faithful plan st init handed q ((sys.set p r).ranks q) := by
  intro q bound
  by_cases here : q = p
  · subst here
    simpa [System.set] using faithful
  · simpa [System.set,here] using before q bound

theorem popped_exact (r : Rank S H T D) (faithful : Faithful plan st init handed p r) (phase : r.phase = .start)
    (waited : r.waited = true) : r.popped = if p + 1 = plan.numRanks ∨ r.step < plan.numRanks then none
      else (relay plan st init handed (r.step - plan.numRanks)).map fun t => (t,handed p (r.step - plan.numRanks)) := by
  have queue := faithful.queue
  rw [phase,Plan.queueAt,if_pos rfl] at queue
  unfold Rank.popped Rank.waited at *
  by_cases last : p + 1 = plan.numRanks
  · rw [if_pos last] at queue
    simp [queue,last]
  · have length : (plan.entries r.step).length = r.step := by simp [Plan.entries]
    have positive := plan.ranks_pos
    rw [if_neg last] at queue
    rw [queue,DelayLine.line_head,length] at waited ⊢
    by_cases young : r.step < plan.numRanks
    · simp [young]
    · have bound : r.step - plan.numRanks < r.step := by omega
      have entry : (plan.entries r.step)[r.step - plan.numRanks]? =
          some (if plan.relays (r.step - plan.numRanks) then some (r.step - plan.numRanks) else none) := by
        simp [Plan.entries,bound]
      rw [if_neg young,entry] at waited ⊢
      rw [relay_exact]
      cases relays : plan.relays (r.step - plan.numRanks) with
      | false => simp [last,young]
      | true =>
          simp only [relays,if_true,Option.join_some,Option.all_some,Option.bind_some] at waited ⊢
          obtain ⟨⟨t,read⟩,found⟩ := Option.isSome_iff_exists.mp waited
          obtain ⟨_,held,same⟩ := faithful.inbox _ _ found
          rw [relay_exact,if_pos relays] at held
          dsimp only at same
          rw [found,held]
          simp [last,young,same]

theorem begun_popped (r : Rank S H T D) (faithful : Faithful plan st init handed p r) (phase : r.phase = .start)
    (waited : r.waited = true) : st.startStep p r.step r.state r.popped = begun plan st init handed r.step p := by
  have state := faithful.state
  rw [phase] at state
  rw [popped_exact r faithful phase waited,state,begun,begin_]
  by_cases young : p + 1 = plan.numRanks ∨ r.step < plan.numRanks
  · rw [if_pos young,if_pos young]
    rfl
  · have positive := plan.ranks_pos
    have below : r.step - plan.numRanks < r.step := by omega
    rw [if_neg young,if_neg young,recorded,if_pos below]
    rfl

theorem pop_line (plan : Plan) (pushed : List (Option Nat)) :
    popQueue (DelayLine.line plan.numRanks none pushed) = (DelayLine.line plan.numRanks none pushed).tail ++ [none] := by
  have length := DelayLine.line_length plan.numRanks none pushed
  have positive := plan.ranks_pos
  cases queue : DelayLine.line plan.numRanks none pushed with
  | nil =>
      rw [queue,List.length_nil] at length
      omega
  | cons front rest => rfl

theorem queue_idle (silent : plan.relays n = false) : plan.queueAt p (n + 1) .start = popQueue (plan.queueAt p n .start) := by
  unfold Plan.queueAt
  split
  · rfl
  · rw [if_pos rfl,if_pos rfl,pop_line,DelayLine.line_turn plan.ranks_pos,entries_succ,silent]
    rfl

theorem queue_popped (phase : Phase) (later : phase ≠ .start) :
    plan.queueAt p n phase = popQueue (plan.queueAt p n .start) := by
  unfold Plan.queueAt
  split
  · rfl
  · rw [if_pos rfl]

theorem started_idle (r : Rank S H T D) (idle : plan.forwardPass r.step = false) : r.started plan st p =
    { r with state := st.startStep p r.step r.state r.popped,queue := popQueue r.queue,step := r.step + 1 } := by
  simp [Rank.started,idle]

theorem started_runs (r : Rank S H T D) (runs : plan.forwardPass r.step = true) : r.started plan st p =
    { r with state := st.startStep p r.step r.state r.popped,queue := popQueue r.queue,
             phase := if p = 0 then .ready else .receiving } := by
  simp [Rank.started,runs]

theorem started_faithful (r : Rank S H T D) (faithful : Faithful plan st init handed p r) (phase : r.phase = .start)
    (below : r.step < plan.numSteps) (free : r.sending = false) (waited : r.waited = true) :
    Faithful plan st init handed p (r.started plan st p) := by
  have begins := begun_popped r faithful phase waited
  have queue := faithful.queue
  rw [phase] at queue
  cases runs : plan.forwardPass r.step with
  | false =>
      have silent : plan.relays r.step = false := by simp [Plan.relays,runs]
      rw [started_idle r runs]
      refine ⟨below,by simp [phase],by simp [phase],?_,faithful.first,by simp [phase],by simp [phase],fun _ => free,
        by simp [free],?_,?_⟩
      · simp only [phase,expected,states_idle plan st init handed runs]
        exact begins
      · simp only [phase,queue]
        exact (queue_idle silent).symm
      · intro m t found
        obtain ⟨early,held⟩ := faithful.inbox m t found
        exact ⟨Nat.lt_succ_of_lt early,held⟩
  | true =>
      rw [started_runs r runs]
      by_cases first : p = 0
      · simp only [first,if_true]
        subst first
        refine ⟨faithful.bound,fun _ => ⟨runs,below⟩,by simp,begins,faithful.first,by simp,by simp,fun _ => free,
          by simp [free],?_,faithful.inbox⟩
        simp only [queue]
        exact (queue_popped .ready (by simp)).symm
      · simp only [first,if_false]
        refine ⟨faithful.bound,fun _ => ⟨runs,below⟩,fun _ => first,begins,faithful.first,by simp,by simp,fun _ => free,
          by simp [free],?_,faithful.inbox⟩
        simp only [queue]
        exact (queue_popped .receiving (by simp)).symm

theorem set_relayed (p : Nat) (r : Rank S H T D) (silent : r.step = (sys.ranks p).step ∨
      r.step = (sys.ranks p).step + 1 ∧ plan.forwardPass (sys.ranks p).step = false)
    (relayed : ∀ n, sys.relayed n = if n < (sys.ranks (plan.numRanks - 1)).step then relay plan st init handed n else none)
    (n : Nat) : (sys.set p r).relayed n =
      if n < ((sys.set p r).ranks (plan.numRanks - 1)).step then relay plan st init handed n else none := by
  by_cases here : plan.numRanks - 1 = p
  · subst here
    rcases silent with same | ⟨next,silent⟩
    · simpa [System.set,same] using relayed n
    · have unset : relay plan st init handed (sys.ranks (plan.numRanks - 1)).step = none := by
        simp [relay_exact,Plan.relays,silent]
      simp only [System.set,Function.update_self,next,relayed n]
      by_cases same : n = (sys.ranks (plan.numRanks - 1)).step
      · simp [same,unset]
      · have below : n < (sys.ranks (plan.numRanks - 1)).step + 1 ↔ n < (sys.ranks (plan.numRanks - 1)).step := by omega
        simp only [below]
  · simpa [System.set,here] using relayed n

theorem set_drafts (p : Nat) (r : Rank S H T D) (silent : r.step = (sys.ranks p).step ∨
      r.step = (sys.ranks p).step + 1 ∧ plan.forwardPass (sys.ranks p).step = false)
    (before : sys.draftTokens = draftsBefore plan st init handed drafts (sys.ranks (plan.numRanks - 1)).step) :
    (sys.set p r).draftTokens = draftsBefore plan st init handed drafts ((sys.set p r).ranks (plan.numRanks - 1)).step := by
  by_cases here : plan.numRanks - 1 = p
  · subst here
    rcases silent with same | ⟨next,silent⟩
    · simpa [System.set,same] using before
    · simpa [System.set,next,draftsBefore,silent] using before
  · simpa [System.set,here] using before

theorem start_preserves (holds : Holds plan st init handed drafts sys) (acted : act plan st sys (.start p) = some next) :
    Holds plan st init handed drafts next := by
  unfold act at acted
  dsimp only at acted
  split at acted
  · rename_i guard
    obtain ⟨rank,phase,below,free,waited⟩ := guard
    cases acted
    have faithful := started_faithful _ (holds.faithful p rank) phase below free waited
    have step : ((sys.ranks p).started plan st p).step = (sys.ranks p).step ∨
        ((sys.ranks p).started plan st p).step = (sys.ranks p).step + 1 ∧ plan.forwardPass (sys.ranks p).step = false := by
      cases runs : plan.forwardPass (sys.ranks p).step with
      | false => exact Or.inr ⟨by rw [started_idle _ runs],rfl⟩
      | true => exact Or.inl (by rw [started_runs _ runs])
    refine ⟨set_faithful p _ faithful holds.faithful,fun q edge => ?_,set_relayed p _ step holds.relayed,
      set_drafts p _ step holds.drafts⟩
    apply set_linked p _ ?sent ?taken ?pending (holds.linked q edge)
    case sent =>
      cases runs : plan.forwardPass (sys.ranks p).step with
      | false => simp [Rank.sent,started_idle _ runs,done_succ,runs,phase]
      | true =>
          have early : (if p = 0 then Phase.ready else .receiving) ≠ .sampling := by split <;> simp
          simp [Rank.sent,started_runs _ runs,phase,early]
    case taken =>
      intro other
      cases runs : plan.forwardPass (sys.ranks p).step with
      | false => simp [Rank.taken,started_idle _ runs,done_succ,runs,phase]
      | true => simp [Rank.taken,started_runs _ runs,phase,other]
    case pending =>
      cases runs : plan.forwardPass (sys.ranks p).step with
      | false => simp [Rank.pending,started_idle _ runs]
      | true => simp [Rank.pending,started_runs _ runs]
  · cases acted

theorem copy_preserves (holds : Holds plan st init handed drafts sys) (acted : act plan st sys (.copy p) = some next) :
    Holds plan st init handed drafts next := by
  unfold act at acted
  dsimp only at acted
  split at acted
  · rename_i guard
    obtain ⟨rank,sending⟩ := guard
    cases acted
    have old := holds.faithful p (Nat.lt_of_succ_lt rank)
    have faithful : Faithful plan st init handed p { sys.ranks p with sending := false } :=
      ⟨old.bound,old.running,old.behind,old.state,old.first,old.input,old.output,fun _ => rfl,by simp,old.queue,old.inbox⟩
    refine ⟨set_faithful p _ faithful holds.faithful,fun q edge => ?_,
      set_relayed p { sys.ranks p with sending := false } (Or.inl rfl) holds.relayed,
      set_drafts p { sys.ranks p with sending := false } (Or.inl rfl) holds.drafts⟩
    have linked := holds.linked q edge
    unfold Linked System.set at *
    by_cases here : q = p
    · subst here
      simpa [Rank.pending,sending,Rank.sent] using linked
    · by_cases after : q + 1 = p
      · subst after
        simpa [Rank.taken,here] using linked
      · simpa [here,after] using linked
  · cases acted

theorem sent_done (r : Rank S H T D) (faithful : Faithful plan st init handed p r) : ∃ k, r.sent plan = plan.done k := by
  by_cases sampling : r.phase = .sampling
  · obtain ⟨runs,_⟩ := faithful.running (by simp [sampling])
    exact ⟨r.step + 1,by simp [Rank.sent,sampling,done_succ,runs]⟩
  · exact ⟨r.step,by simp [Rank.sent,sampling]⟩

theorem oldest_exact (faithful : Faithful plan st init handed p (sys.ranks p)) (phase : (sys.ranks (p + 1)).phase = .receiving)
    (runs : plan.forwardPass (sys.ranks (p + 1)).step = true) (linked : Linked plan st init handed sys p)
    (waiting : sys.channel p = tensors :: rest) : tensors = (stage plan st init handed (sys.ranks (p + 1)).step p).2 := by
  obtain ⟨k,sent⟩ := sent_done _ faithful
  have taken : (sys.ranks (p + 1)).taken plan = plan.done (sys.ranks (p + 1)).step := by simp [Rank.taken,phase]
  unfold Linked at linked
  rw [sent,taken,waiting,List.append_assoc] at linked
  have later : (sys.ranks (p + 1)).step < k := by
    by_contra early
    have short := done_le plan (Nat.le_of_not_lt early)
    have lengths := congrArg List.length linked
    simp only [List.length_append,List.length_map,List.length_cons] at lengths
    omega
  obtain ⟨rest',same⟩ := done_next plan runs later
  rw [same,List.map_append] at linked
  have tails := List.append_cancel_left linked
  rw [List.map_cons,List.cons_append] at tails
  exact (List.cons.inj tails).1

theorem recv_preserves (holds : Holds plan st init handed drafts sys) (acted : act plan st sys (.recv p) = some next) :
    Holds plan st init handed drafts next := by
  unfold act at acted
  dsimp only at acted
  cases waiting : sys.channel p with
  | nil =>
      rw [waiting] at acted
      cases acted
  | cons tensors rest =>
      rw [waiting] at acted
      dsimp only at acted
      split at acted
      · rename_i guard
        obtain ⟨rank,phase⟩ := guard
        cases acted
        have old := holds.faithful (p + 1) rank
        obtain ⟨runs,below⟩ := old.running (by simp [phase])
        have linked := holds.linked p rank
        -- the oldest hidden states on the way are those of the receiver's step
        have arrived : tensors = (stage plan st init handed (sys.ranks (p + 1)).step p).2 :=
          oldest_exact (holds.faithful p (Nat.lt_of_succ_lt rank)) phase runs linked waiting
        have faithful : Faithful plan st init handed (p + 1)
            { sys.ranks (p + 1) with input := some tensors,phase := .ready } := by
          have state := old.state
          have queue := old.queue
          rw [phase] at state queue
          refine ⟨old.bound,fun _ => ⟨runs,below⟩,by simp,state,by simp,?_,by simp,fun _ => old.free (Or.inl phase),
            old.sends,queue,old.inbox⟩
          intro _ _
          rw [arrived]
          rfl
        refine ⟨set_faithful (p + 1) _ faithful holds.faithful,fun q edge => ?_,
          set_relayed (p + 1) { sys.ranks (p + 1) with input := some tensors,phase := .ready } (Or.inl rfl) holds.relayed,
          set_drafts (p + 1) { sys.ranks (p + 1) with input := some tensors,phase := .ready } (Or.inl rfl) holds.drafts⟩
        have linked := holds.linked q edge
        unfold Linked System.set at *
        by_cases here : q = p
        · subst here
          rw [waiting] at linked
          simpa [Rank.taken,phase,arrived] using linked
        · by_cases self : q = p + 1
          · subst self
            simpa [Rank.sent,Rank.pending,phase] using linked
          · simpa [here,self] using linked
      · cases acted

theorem forwarded_faithful (r : Rank S H T D) (faithful : Faithful plan st init handed p r) (rank : p < plan.numRanks)
    (phase : r.phase = .ready) : Faithful plan st init handed p (r.forwarded plan st p) ∧
      (r.forwarded plan st p).output = some (stage plan st init handed r.step p).2 := by
  have state := faithful.state
  rw [phase] at state
  obtain ⟨runs,below⟩ := faithful.running (by simp [phase])
  have queue := faithful.queue
  rw [phase,queue_popped .ready (by simp)] at queue
  have computed : st.forward p r.step r.state r.input = stage plan st init handed r.step p := by
    rw [state]
    cases p with
    | zero =>
        rw [faithful.first rfl]
        rfl
    | succ p =>
        rw [faithful.input phase (Nat.succ_ne_zero p)]
        rfl
  have output : (r.forwarded plan st p).output = some (stage plan st init handed r.step p).2 := by
    simp [Rank.forwarded,computed]
  refine ⟨⟨faithful.bound,fun _ => ⟨runs,below⟩,by simp [Rank.forwarded],?_,faithful.first,by simp [Rank.forwarded],
    fun _ => output,by simp [Rank.forwarded],?_,?_,faithful.inbox⟩,output⟩
  · simp [Rank.forwarded,computed,expected]
  · intro sending
    exact ⟨by simpa [Rank.forwarded] using sending,by simp [Rank.forwarded]⟩
  · simp only [Rank.forwarded,queue]
    exact (queue_popped .sampling (by simp)).symm

theorem forward_preserves (holds : Holds plan st init handed drafts sys) (acted : act plan st sys (.forward p) = some next) :
    Holds plan st init handed drafts next := by
  unfold act at acted
  dsimp only at acted
  split at acted
  · rename_i guard
    obtain ⟨rank,phase⟩ := guard
    cases acted
    have old := holds.faithful p rank
    obtain ⟨faithful,output⟩ := forwarded_faithful _ old rank phase
    refine ⟨set_faithful p _ faithful holds.faithful,fun q edge => ?_,
      set_relayed p ((sys.ranks p).forwarded plan st p) (Or.inl rfl) holds.relayed,
      set_drafts p ((sys.ranks p).forwarded plan st p) (Or.inl rfl) holds.drafts⟩
    have linked := holds.linked q edge
    have free := old.free (Or.inr phase)
    have sending : ((sys.ranks p).forwarded plan st p).sending = decide (p + 1 < plan.numRanks) := rfl
    have sent : ((sys.ranks p).forwarded plan st p).sent plan = plan.done (sys.ranks p).step ++ [(sys.ranks p).step] := rfl
    have taken : ((sys.ranks p).forwarded plan st p).taken plan = (sys.ranks p).taken plan := by
      simp [Rank.taken,Rank.forwarded,phase]
    unfold Linked System.set at *
    by_cases here : q = p
    · subst here
      have before : (sys.ranks q).sent plan = plan.done (sys.ranks q).step := by simp [Rank.sent,phase]
      have pending : (sys.ranks q).pending = [] := by simp [Rank.pending,free]
      rw [before,pending,List.append_nil] at linked
      simp only [Function.update_self,Function.update_of_ne (Nat.succ_ne_self q),Rank.pending,sending,edge,
        decide_true,if_true,output,sent,Option.toList_some,linked,List.map_append,List.map_cons,List.map_nil]
    · by_cases after : q + 1 = p
      · subst after
        simpa [taken,here] using linked
      · simpa [here,after] using linked
  · cases acted

theorem queue_received (other : p + 1 ≠ plan.numRanks) (runs : plan.relays n = true) :
    (popQueue (plan.queueAt p n .start)).dropLast ++ [some n] = plan.queueAt p (n + 1) .start := by
  unfold Plan.queueAt
  rw [if_neg other,if_neg other,if_pos rfl,if_pos rfl,pop_line,List.dropLast_concat,DelayLine.line_turn plan.ranks_pos,
    entries_succ,if_pos runs]

theorem sample_preserves (holds : Holds plan st init handed drafts sys) (acted : act plan st sys (.sample p) = some next) :
    Holds plan st init handed drafts next := by
  unfold act at acted
  dsimp only at acted
  split at acted
  · rename_i guard
    obtain ⟨rank,phase⟩ := guard
    have old := holds.faithful p rank
    obtain ⟨runs,below⟩ := old.running (by simp [phase])
    have state := old.state
    have queue := old.queue
    rw [phase,queue_popped .sampling (by simp)] at queue
    rw [phase] at state
    have counted : plan.done ((sys.ranks p).step + 1) = plan.done (sys.ranks p).step ++ [(sys.ranks p).step] := by
      simp [done_succ,runs]
    have inbox : ∀ m t, (sys.ranks p).inbox m = some t →
        m < (sys.ranks p).step + 1 ∧ relay plan st init handed m = some t.1 ∧ t.2 = handed p m := by
      intro m t found
      obtain ⟨early,held⟩ := old.inbox m t found
      exact ⟨Nat.lt_succ_of_lt early,held⟩
    split at acted
    · rename_i last
      rw [old.output phase,Option.map_some] at acted
      cases acted
      have faithful : Faithful plan st init handed p
          ((sys.ranks p).sampled st (stage plan st init handed (sys.ranks p).step p).2) := by
        refine ⟨below,by simp [Rank.sampled],by simp [Rank.sampled],?_,old.first,by simp [Rank.sampled],
          by simp [Rank.sampled],by simp [Rank.sampled],old.sends,?_,inbox⟩
        · simp only [Rank.sampled,expected,state]
          exact (states_last plan st init handed runs last).symm
        · simp [Rank.sampled,queue,Plan.queueAt,last,popQueue]
      refine ⟨set_faithful p _ faithful holds.faithful,fun q edge => ?_,?_,?_⟩
      · have kept : Linked plan st init handed
            (sys.set p ((sys.ranks p).sampled st (stage plan st init handed (sys.ranks p).step p).2)) q := by
          apply set_linked p ((sys.ranks p).sampled st _) _ _ rfl (holds.linked q edge)
          · simp [Rank.sent,Rank.sampled,counted,phase]
          · intro _
            simp [Rank.taken,Rank.sampled,counted,phase]
        exact kept
      · intro n
        have place : plan.numRanks - 1 = p := by omega
        have before := holds.relayed n
        have posted := relay_exact plan st init handed (sys.ranks p).step
        rw [place] at before posted
        have below : n < (sys.ranks p).step + 1 ↔ n < (sys.ranks p).step ∨ n = (sys.ranks p).step := by omega
        simp only [System.set,place,Function.update_self,Rank.sampled,below,state,expected]
        by_cases same : n = (sys.ranks p).step
        · subst same
          rw [posted]
          cases relays : plan.relays (sys.ranks p).step <;> simp [before]
        · cases relays : plan.relays (sys.ranks p).step <;> simp [same,before]
      · have place : plan.numRanks - 1 = p := by omega
        have before := holds.drafts
        rw [place] at before
        simp [System.set,Rank.sampled,place,draftsBefore,runs,before,state,expected]
    · rename_i other
      cases acted
      have faithful : Faithful plan st init handed p ((sys.ranks p).received plan st p) := by
        refine ⟨below,by simp [Rank.received],by simp [Rank.received],?_,old.first,by simp [Rank.received],
          by simp [Rank.received],by simp [Rank.received],old.sends,?_,inbox⟩
        · simp only [Rank.received,expected,state]
          exact (states_other plan st init handed runs other).symm
        · simp only [Rank.received,queue]
          cases relays : plan.relays (sys.ranks p).step with
          | true => simpa using queue_received other relays
          | false => simpa using (queue_idle relays).symm
      refine ⟨set_faithful p _ faithful holds.faithful,fun q edge => ?_,?_,?_⟩
      · apply set_linked p ((sys.ranks p).received plan st p) _ _ rfl (holds.linked q edge)
        · simp [Rank.sent,Rank.received,counted,phase]
        · intro _
          simp [Rank.taken,Rank.received,counted,phase]
      · intro n
        have apart : plan.numRanks - 1 ≠ p := by omega
        simpa [System.set,apart] using holds.relayed n
      · have apart : plan.numRanks - 1 ≠ p := by omega
        simpa [System.set,apart] using holds.drafts
  · cases acted

theorem deliver_preserves {read : D} (holds : Holds plan st init handed drafts sys) (resolved : Resolves handed next)
    (acted : act plan st sys (.deliver p n read) = some next) : Holds plan st init handed drafts next := by
  simp only [act,Option.ite_none_right_eq_some,Option.map_eq_some_iff] at acted
  obtain ⟨⟨rank,joined,empty⟩,t,posted,rfl⟩ := acted
  have old := holds.faithful p (Nat.lt_of_succ_lt rank)
  have faithful : Faithful plan st init handed p { sys.ranks p with
      inbox := Function.update (sys.ranks p).inbox n (some (t,sys.readDrafts plan n read)) } := by
    refine ⟨old.bound,old.running,old.behind,old.state,old.first,old.input,old.output,old.free,old.sends,old.queue,?_⟩
    intro m u found
    by_cases same : m = n
    · subst same
      simp only [Function.update_self,Option.some.injEq] at found
      have relayed := holds.relayed m
      rw [posted] at relayed
      split at relayed
      · refine ⟨joined,found ▸ relayed.symm,?_⟩
        have given := resolved p m u (by simpa [System.set] using found)
        exact given.symm
      · cases relayed
    · simp only [Function.update_of_ne same] at found
      exact old.inbox m u found
  exact ⟨set_faithful p _ faithful holds.faithful,
    fun q edge => set_linked p { sys.ranks p with inbox := _ } rfl (fun _ => rfl) rfl (holds.linked q edge),
    set_relayed p { sys.ranks p with inbox := _ } (Or.inl rfl) holds.relayed,
    set_drafts p { sys.ranks p with inbox := _ } (Or.inl rfl) holds.drafts⟩

theorem act_preserves (holds : Holds plan st init handed drafts sys) (resolved : Resolves handed next)
    (acted : act plan st sys action = some next) : Holds plan st init handed drafts next := by
  cases action with
  | start p => exact start_preserves holds acted
  | copy p => exact copy_preserves holds acted
  | recv p => exact recv_preserves holds acted
  | forward p => exact forward_preserves holds acted
  | sample p => exact sample_preserves holds acted
  | deliver p n read => exact deliver_preserves holds resolved acted

theorem set_inbox (p : Nat) (r : Rank S H T D) (same : r.inbox = (sys.ranks p).inbox) (q : Nat) :
    ((sys.set p r).ranks q).inbox = (sys.ranks q).inbox := by
  by_cases here : q = p
  · subst here
    simpa [System.set] using same
  · simp [System.set,here]

-- Only a broadcast puts something into an inbox.
theorem act_inboxes (acted : act plan st sys action = some next) :
    (∀ q, (next.ranks q).inbox = (sys.ranks q).inbox) ∨
      ∃ p n read t, action = .deliver p n read ∧ (sys.ranks p).inbox n = none ∧ sys.relayed n = some t ∧
        next = sys.set p { sys.ranks p with
          inbox := Function.update (sys.ranks p).inbox n (some (t,sys.readDrafts plan n read)) } := by
  cases action with
  | start p =>
      simp only [act,Option.ite_none_right_eq_some,Option.some.injEq] at acted
      obtain ⟨_,rfl⟩ := acted
      refine Or.inl (set_inbox p _ ?_)
      cases runs : plan.forwardPass (sys.ranks p).step with
      | false => rw [started_idle _ runs]
      | true => rw [started_runs _ runs]
  | copy p =>
      simp only [act,Option.ite_none_right_eq_some,Option.some.injEq] at acted
      obtain ⟨_,rfl⟩ := acted
      exact Or.inl (set_inbox p { sys.ranks p with sending := false } rfl)
  | recv p =>
      simp only [act] at acted
      cases waiting : sys.channel p with
      | nil => simp [waiting] at acted
      | cons tensors rest =>
          simp only [waiting,Option.ite_none_right_eq_some,Option.some.injEq] at acted
          obtain ⟨_,rfl⟩ := acted
          exact Or.inl (set_inbox (p + 1) { sys.ranks (p + 1) with input := some tensors,phase := .ready } rfl)
  | forward p =>
      simp only [act,Option.ite_none_right_eq_some,Option.some.injEq] at acted
      obtain ⟨_,rfl⟩ := acted
      exact Or.inl (set_inbox p ((sys.ranks p).forwarded plan st p) rfl)
  | sample p =>
      simp only [act] at acted
      split at acted
      · split at acted
        · obtain ⟨tensors,_,rfl⟩ := Option.map_eq_some_iff.mp acted
          exact Or.inl (set_inbox p ((sys.ranks p).sampled st tensors) rfl)
        · cases acted
          exact Or.inl (set_inbox p ((sys.ranks p).received plan st p) rfl)
      · cases acted
  | deliver p n read =>
      simp only [act,Option.ite_none_right_eq_some,Option.map_eq_some_iff] at acted
      obtain ⟨⟨_,_,empty⟩,t,posted,same⟩ := acted
      exact Or.inr ⟨p,n,read,t,rfl,empty,posted,same.symm⟩

-- What was delivered stays, and what is new was read now.
theorem act_inbox (acted : act plan st sys action = some next) (found : (sys.ranks q).inbox m = some t) :
    (next.ranks q).inbox m = some t := by
  rcases act_inboxes acted with same | ⟨p,n,read,u,_,empty,_,rfl⟩
  · rw [same,found]
  · by_cases here : q = p
    · subst here
      have apart : m ≠ n := by
        rintro rfl
        cases empty.symm.trans found
      simpa [System.set,Function.update_of_ne apart] using found
    · simpa [System.set,here] using found

theorem act_delivers (acted : act plan st sys action = some next) (found : (next.ranks q).inbox m = some t) :
    (sys.ranks q).inbox m = some t ∨
      ∃ read, action = .deliver q m read ∧ sys.relayed m = some t.1 ∧ t.2 = sys.readDrafts plan m read := by
  rcases act_inboxes acted with same | ⟨p,n,read,u,rfl,_,posted,rfl⟩
  · rw [same] at found
    exact Or.inl found
  · by_cases here : q = p
    · subst here
      by_cases same : m = n
      · subst same
        simp only [System.set,Function.update_self,Option.some.injEq] at found
        subst found
        exact Or.inr ⟨read,rfl,posted,rfl⟩
      · exact Or.inl (by simpa [System.set,Function.update_of_ne same] using found)
    · exact Or.inl (by simpa [System.set,here] using found)

theorem resolves_before (acted : act plan st sys action = some next) (resolved : Resolves handed next) :
    Resolves handed sys :=
  fun q m t found => resolved q m t (act_inbox acted found)

theorem run_holds (run : Runs plan st (System.initial plan init drafts) actions sys) (resolved : Resolves handed sys) :
    Holds plan st init handed drafts sys := by
  induction run with
  | nil => exact start_holds
  | snoc _ acted ih => exact act_preserves (ih (resolves_before acted resolved)) resolved acted

-- A send that its receiver waits for, and a broadcast that every rank has
-- reached and that is the first not to have run everywhere: what has to go on
-- even if nothing is buffered.
def Prompt (plan : Plan) (sys : System S H T D) : Action D → Prop
  | .copy p => (sys.ranks (p + 1)).phase = .receiving ∧ sys.channel p = []
  | .deliver _ n _ => (∀ q < plan.numRanks, n < (sys.ranks q).step) ∧ ∀ q, q + 1 < plan.numRanks →
      ∀ m < n, plan.relays m = true → ((sys.ranks q).inbox m).isSome = true
  | _ => True

def place (plan : Plan) (sys : System S H T D) (p : Nat) : Nat := (sys.ranks p).step * plan.numRanks + p

def Moves (plan : Plan) (st : Stages S H T D) (sys : System S H T D) : Prop :=
  ∃ action next, act plan st sys action = some next ∧ Prompt plan sys action

def Behind (plan : Plan) (sys : System S H T D) (p : Nat) : Prop :=
  ∃ q < plan.numRanks, (sys.ranks q).step < plan.numSteps ∧ place plan sys q < place plan sys p

theorem behind_steps (later : (sys.ranks q).step < (sys.ranks p).step) (rank : q < plan.numRanks)
    (bound : (sys.ranks p).step ≤ plan.numSteps) : Behind plan sys p := by
  refine ⟨q,rank,Nat.lt_of_lt_of_le later bound,?_⟩
  have room := Nat.mul_le_mul_right plan.numRanks (Nat.succ_le_of_lt later)
  rw [Nat.succ_mul] at room
  unfold place
  omega

theorem sending_waits (holds : Holds plan st init handed drafts sys) (rank : p < plan.numRanks) (phase : (sys.ranks p).phase = .start)
    (sending : (sys.ranks p).sending = true) : Behind plan sys p := by
  have faithful := holds.faithful p rank
  obtain ⟨edge,output⟩ := faithful.sends sending
  obtain ⟨tensors,same⟩ := Option.isSome_iff_exists.mp output
  have linked := congrArg List.length (holds.linked p edge)
  simp only [Rank.pending,sending,if_true,same,Option.toList_some,Rank.sent,phase,Rank.taken,List.length_append,
    List.length_map,List.length_singleton] at linked
  refine behind_steps ?_ edge faithful.bound
  by_contra early
  have short := done_le plan (Nat.le_of_not_lt early)
  simp at linked
  omega

theorem broadcast_waits (holds : Holds plan st init handed drafts sys) (rank : p < plan.numRanks) (phase : (sys.ranks p).phase = .start)
    (waiting : (sys.ranks p).waited = false) : Moves plan st sys ∨ Behind plan sys p := by
  have faithful := holds.faithful p rank
  have queue := faithful.queue
  have positive := plan.ranks_pos
  unfold Rank.waited at waiting
  rw [phase,Plan.queueAt,if_pos rfl] at queue
  by_cases last : p + 1 = plan.numRanks
  · rw [if_pos last] at queue
    simp [queue] at waiting
  · have length : (plan.entries (sys.ranks p).step).length = (sys.ranks p).step := by simp [Plan.entries]
    rw [if_neg last] at queue
    rw [queue,DelayLine.line_head,length] at waiting
    by_cases young : (sys.ranks p).step < plan.numRanks
    · simp [young] at waiting
    · obtain ⟨m,early⟩ : ∃ m, (sys.ranks p).step = m + plan.numRanks := ⟨_,(Nat.sub_add_cancel (Nat.le_of_not_lt young)).symm⟩
      have bound : m < (sys.ranks p).step := by omega
      have entry : (plan.entries (sys.ranks p).step)[m]? = some (if plan.relays m then some m else none) := by
        simp [Plan.entries,bound]
      rw [if_neg young,early,Nat.add_sub_cancel,← early,entry] at waiting
      cases relays : plan.relays m with
      | false => simp [relays] at waiting
      | true =>
          have missing : (sys.ranks p).inbox m = none := by simpa [relays] using waiting
          classical
          by_cases all : ∀ q < plan.numRanks, m < (sys.ranks q).step
          · -- the first broadcast that some rank still waits for
            have some_waits : ∃ n, plan.relays n = true ∧ ∃ q, q + 1 < plan.numRanks ∧ (sys.ranks q).inbox n = none :=
              ⟨m,relays,p,by omega,missing⟩
            obtain ⟨relayed,q,edge,empty⟩ := Nat.find_spec some_waits
            have first := Nat.find_min' some_waits ⟨relays,p,by omega,missing⟩
            have joined : ∀ q < plan.numRanks, Nat.find some_waits < (sys.ranks q).step :=
              fun q rank => Nat.lt_of_le_of_lt first (all q rank)
            have posted : (sys.relayed (Nat.find some_waits)).isSome = true := by
              rw [holds.relayed,if_pos (joined _ (by omega)),relay_exact,if_pos relayed]
              rfl
            obtain ⟨t,found⟩ := Option.isSome_iff_exists.mp posted
            have enabled : (act plan st sys (.deliver q (Nat.find some_waits) sys.draftTokens)).isSome = true := by
              simp [act,edge,joined q (by omega),empty,found]
            obtain ⟨next,acted⟩ := Option.isSome_iff_exists.mp enabled
            refine Or.inl ⟨_,next,acted,joined,?_⟩
            intro other edge' n below relays'
            by_contra absent
            exact Nat.find_min some_waits below ⟨relays',other,edge',by simpa using absent⟩
          · push Not at all
            obtain ⟨q,rank',behind⟩ := all
            exact Or.inr (behind_steps (by omega) rank' faithful.bound)

theorem receiving_waits (holds : Holds plan st init handed drafts sys) (rank : p + 1 < plan.numRanks)
    (phase : (sys.ranks (p + 1)).phase = .receiving) : Moves plan st sys ∨ Behind plan sys (p + 1) := by
  have faithful := holds.faithful (p + 1) rank
  obtain ⟨runs,below⟩ := faithful.running (by simp [phase])
  cases waiting : sys.channel p with
  | cons tensors rest =>
      have enabled : (act plan st sys (.recv p)).isSome = true := by simp [act,waiting,rank,phase]
      obtain ⟨next,acted⟩ := Option.isSome_iff_exists.mp enabled
      exact Or.inl ⟨.recv p,next,acted,trivial⟩
  | nil =>
      cases sending : (sys.ranks p).sending with
      | true => exact Or.inl ⟨.copy p,_,if_pos ⟨rank,sending⟩,phase,waiting⟩
      | false =>
          obtain ⟨k,sent⟩ := sent_done _ (holds.faithful p (Nat.lt_of_succ_lt rank))
          have linked := congrArg List.length (holds.linked p rank)
          simp only [waiting,sent,Rank.pending,sending,Rank.taken,phase,List.length_append,List.length_map] at linked
          have early : (sys.ranks p).step ≤ (sys.ranks (p + 1)).step := by
            by_contra later
            obtain ⟨rest,same⟩ := done_next plan runs (Nat.lt_of_not_le later)
            have own : (plan.done (sys.ranks p).step).length ≤ (plan.done k).length := by
              rw [← sent]
              exact List.length_append ▸ Nat.le_add_right _ _
            rw [same,List.length_append,List.length_cons] at own
            simp at linked
            omega
          refine Or.inr ⟨p,Nat.lt_of_succ_lt rank,Nat.lt_of_le_of_lt early below,?_⟩
          have room := Nat.mul_le_mul_right plan.numRanks early
          unfold place
          omega

theorem rank_moves (holds : Holds plan st init handed drafts sys) (rank : p < plan.numRanks)
    (unfinished : (sys.ranks p).step < plan.numSteps) : Moves plan st sys ∨ Behind plan sys p := by
  have faithful := holds.faithful p rank
  cases phase : (sys.ranks p).phase with
  | start =>
      cases sending : (sys.ranks p).sending with
      | true => exact Or.inr (sending_waits holds rank phase sending)
      | false =>
          cases waited : (sys.ranks p).waited with
          | true => exact Or.inl ⟨.start p,_,if_pos ⟨rank,phase,unfinished,sending,waited⟩,trivial⟩
          | false => exact broadcast_waits holds rank phase waited
  | receiving =>
      cases p with
      | zero => exact absurd rfl (faithful.behind phase)
      | succ p => exact receiving_waits holds rank phase
  | ready => exact Or.inl ⟨.forward p,_,if_pos ⟨rank,phase⟩,trivial⟩
  | sampling =>
      have enabled : (act plan st sys (.sample p)).isSome = true := by
        by_cases last : p + 1 = plan.numRanks <;> simp [act,rank,phase,last,faithful.output phase]
      obtain ⟨next,acted⟩ := Option.isSome_iff_exists.mp enabled
      exact Or.inl ⟨.sample p,next,acted,trivial⟩

theorem unfinished_moves (holds : Holds plan st init handed drafts sys) (rank : p < plan.numRanks)
    (unfinished : (sys.ranks p).step < plan.numSteps) : Moves plan st sys := by
  -- a rank that cannot go on waits for one that is behind it
  induction at_place : place plan sys p using Nat.strong_induction_on generalizing p with
  | _ n ih =>
      rcases rank_moves holds rank unfinished with moves | ⟨q,rank',unfinished',behind⟩
      · exact moves
      · exact ih _ (at_place ▸ behind) rank' unfinished' rfl

-- Every operation brings its rank forward.
section Progress
open Finset

def Phase.weight : Phase → Nat
  | .start => 0
  | .receiving => 1
  | .ready => 2
  | .sampling => 4

def Rank.ahead (r : Rank S H T D) : Nat := 6 * r.step + r.phase.weight + (!r.sending).toNat

def Rank.weight (plan : Plan) (r : Rank S H T D) : Nat :=
  r.ahead + ∑ m ∈ range plan.numSteps, if (r.inbox m).isSome then 1 else 0

def progress (plan : Plan) (sys : System S H T D) : Nat := ∑ p ∈ range plan.numRanks, (sys.ranks p).weight plan

theorem weight_le (r : Rank S H T D) (faithful : Faithful plan st init handed p r) : r.weight plan ≤ 7 * plan.numSteps + 1 := by
  have arrived : ∑ m ∈ range plan.numSteps, (if (r.inbox m).isSome then 1 else 0) ≤ plan.numSteps := by
    have each := sum_le_card_nsmul (range plan.numSteps) (fun m => if (r.inbox m).isSome then 1 else 0) 1
      fun m _ => by split <;> simp
    simpa using each
  have flag : (!r.sending).toNat ≤ 1 := Bool.toNat_le _
  have bound := faithful.bound
  unfold Rank.weight Rank.ahead
  cases phase : r.phase with
  | start => simp only [Phase.weight]; omega
  | receiving => have below := (faithful.running (by simp [phase])).2; simp only [Phase.weight]; omega
  | ready => have below := (faithful.running (by simp [phase])).2; simp only [Phase.weight]; omega
  | sampling => have below := (faithful.running (by simp [phase])).2; simp only [Phase.weight]; omega

theorem set_progress (rank : p < plan.numRanks) (r : Rank S H T D) (grows : (sys.ranks p).weight plan < r.weight plan) :
    progress plan sys < progress plan (sys.set p r) := by
  refine sum_lt_sum (fun q _ => ?_) ⟨p,mem_range.mpr rank,by simpa [System.set] using grows⟩
  by_cases here : q = p
  · subst here
    simpa [System.set] using Nat.le_of_lt grows
  · simp [System.set,here]

theorem delivered_weight (r : Rank S H T D) (below : n < plan.numSteps) (empty : r.inbox n = none) (t : T × D) :
    r.weight plan < Rank.weight plan { r with inbox := Function.update r.inbox n (some t) } := by
  unfold Rank.weight
  refine Nat.add_lt_add_left ?_ _
  refine sum_lt_sum (fun m _ => ?_) ⟨n,mem_range.mpr below,by simp [empty]⟩
  by_cases same : m = n
  · simp [same,empty]
  · simp [same]

theorem weight_grows (r other : Rank S H T D) (inbox : other.inbox = r.inbox) (ahead : r.ahead < other.ahead) :
    r.weight plan < other.weight plan := by
  unfold Rank.weight
  rw [inbox]
  exact Nat.add_lt_add_right ahead _

theorem act_progress (holds : Holds plan st init handed drafts sys) (acted : act plan st sys action = some next) :
    progress plan sys < progress plan next := by
  cases action with
  | start p =>
      simp only [act,Option.ite_none_right_eq_some,Option.some.injEq] at acted
      obtain ⟨⟨rank,phase,_,free,_⟩,rfl⟩ := acted
      refine set_progress rank _ ?_
      cases runs : plan.forwardPass (sys.ranks p).step with
      | false =>
          rw [started_idle _ runs]
          refine weight_grows _ _ rfl ?_
          simp only [Rank.ahead]
          omega
      | true =>
          rw [started_runs _ runs]
          have early : 0 < (if p = 0 then Phase.ready else .receiving).weight := by split <;> decide
          refine weight_grows _ _ rfl ?_
          simp only [Rank.ahead,phase,Phase.weight] at early ⊢
          omega
  | copy p =>
      simp only [act,Option.ite_none_right_eq_some,Option.some.injEq] at acted
      obtain ⟨⟨rank,sending⟩,rfl⟩ := acted
      refine set_progress (Nat.lt_of_succ_lt rank) { sys.ranks p with sending := false } (weight_grows _ _ rfl ?_)
      simp [Rank.ahead,sending]
  | recv p =>
      simp only [act] at acted
      cases waiting : sys.channel p with
      | nil => simp [waiting] at acted
      | cons tensors rest =>
          simp only [waiting,Option.ite_none_right_eq_some,Option.some.injEq] at acted
          obtain ⟨⟨rank,phase⟩,rfl⟩ := acted
          refine set_progress rank { sys.ranks (p + 1) with input := some tensors,phase := .ready } (weight_grows _ _ rfl ?_)
          simp [Rank.ahead,phase,Phase.weight]
  | forward p =>
      simp only [act,Option.ite_none_right_eq_some,Option.some.injEq] at acted
      obtain ⟨⟨rank,phase⟩,rfl⟩ := acted
      have free := (holds.faithful p rank).free (Or.inr phase)
      refine set_progress rank _ (weight_grows _ _ rfl ?_)
      simp only [Rank.ahead,Rank.forwarded,phase,Phase.weight,free,Bool.not_false,Bool.toNat_true]
      omega
  | sample p =>
      simp only [act] at acted
      split at acted
      · rename_i guard
        obtain ⟨rank,phase⟩ := guard
        split at acted
        · obtain ⟨tensors,_,rfl⟩ := Option.map_eq_some_iff.mp acted
          refine set_progress rank ((sys.ranks p).sampled st tensors) (weight_grows _ _ rfl ?_)
          simp only [Rank.ahead,Rank.sampled,phase,Phase.weight]
          omega
        · cases acted
          refine set_progress rank _ (weight_grows _ _ rfl ?_)
          simp only [Rank.ahead,Rank.received,phase,Phase.weight]
          omega
      · cases acted
  | deliver p n read =>
      simp only [act,Option.ite_none_right_eq_some,Option.map_eq_some_iff] at acted
      obtain ⟨⟨rank,joined,empty⟩,t,_,rfl⟩ := acted
      have bound := (holds.faithful p (Nat.lt_of_succ_lt rank)).bound
      exact set_progress (Nat.lt_of_succ_lt rank) _
        (delivered_weight (sys.ranks p) (Nat.lt_of_lt_of_le joined bound) empty _)

theorem run_progress (run : Runs plan st (System.initial plan init drafts) actions sys) : actions.length ≤ progress plan sys := by
  induction run with
  | nil => exact Nat.zero_le _
  | snoc before acted ih =>
      have grows := act_progress (run_holds before (handed_resolves _)) acted
      rw [List.length_append,List.length_singleton]
      omega

theorem progress_le (holds : Holds plan st init handed drafts sys) : progress plan sys ≤ plan.numRanks * (7 * plan.numSteps + 1) := by
  have each := sum_le_card_nsmul (range plan.numRanks) (fun p => (sys.ranks p).weight plan) (7 * plan.numSteps + 1)
    fun p rank => weight_le _ (holds.faithful p (mem_range.mp rank))
  simpa [progress] using each

end Progress

theorem undisturbed_runs (run : Undisturbed plan st first actions sys) : Runs plan st first actions sys := by
  induction run with
  | nil => exact .nil
  | snoc _ acted _ ih => exact .snoc ih acted

theorem read_exact (holds : Holds plan st init handed drafts sys) (calm : sys.overtaken plan n = false)
    (posted : sys.relayed n = some t) (read : D) :
    sys.readDrafts plan n read = draftsBefore plan st init handed drafts (n + 1) := by
  have relayed := holds.relayed n
  rw [posted] at relayed
  split at relayed
  · rename_i later
    rw [System.readDrafts,calm,if_neg Bool.false_ne_true,holds.drafts]
    refine drafts_still plan st init handed drafts (fun m after before => ?_) later
    rw [System.overtaken,List.any_eq_false] at calm
    simpa [after] using calm m (List.mem_range.mpr before)
  · cases relayed

theorem undisturbed_exact (run : Undisturbed plan st (System.initial plan init drafts) actions sys)
    (resolved : Resolves handed sys) (found : (sys.ranks q).inbox m = some t) :
    t.2 = draftsBefore plan st init handed drafts (m + 1) := by
  induction run with
  | nil => cases found
  | snoc before acted calm ih =>
      have earlier := resolves_before acted resolved
      rcases act_delivers acted found with old | ⟨read,rfl,posted,same⟩
      · exact ih earlier old
      · rw [same]
        exact read_exact (run_holds (undisturbed_runs before) earlier) (by simpa [keepsUp] using calm) posted read

-- The queue of a rank is the queue of a worker that took the same steps, with each
-- pending receive under the step that posted it.
section Worker
open PpUtils WorkerLoop DeferredResults
variable {ReqId M : Type} {cfg : Config} {r : Runner ReqId M} {history : List (StepRecord ReqId)}

structure Plans (plan : Plan) (cfg : Config) (history : List (StepRecord ReqId)) : Prop where
  ranks : plan.numRanks = cfg.worldSize
  relays : ∀ n record, history[n]? = some record → plan.relays n = record.reserved.isSome

def reservedIn (history : List (StepRecord ReqId)) (n : Nat) : Option PendingRecv := history[n]?.bind StepRecord.reserved

theorem entries_reserved (plans : Plans plan cfg history) :
    (plan.entries history.length).map (fun entry => entry.bind (reservedIn history)) = history.map StepRecord.reserved := by
  refine List.ext_getElem? fun n => ?_
  by_cases inside : n < history.length
  · have found := List.getElem?_eq_getElem inside
    have relays := plans.relays n _ found
    simp only [Plan.entries,List.map_map,List.getElem?_map,List.getElem?_range inside,Option.map_some,found,
      Function.comp_apply,relays]
    cases reserved : history[n].reserved with
    | none => rfl
    | some pending => simp [reservedIn,found,reserved]
  · have short := Nat.le_of_not_lt inside
    simp [Plan.entries,short]

theorem worker_queue (run : PipelineRanks.Runs plan st (System.initial plan init drafts) actions sys)
    (other : p + 1 < plan.numRanks) (phase : (sys.ranks p).phase = .start) (valid : Invariant cfg r history)
    (plans : Plans plan cfg history) (step : (sys.ranks p).step = history.length) :
    r.ppHandler.queue = (sys.ranks p).queue.map fun entry => entry.bind (reservedIn history) := by
  have queue := ((run_holds run (handed_resolves sys)).faithful p (Nat.lt_of_succ_lt other)).queue
  rw [phase,step,Plan.queueAt,if_neg (Nat.ne_of_lt other),if_pos rfl] at queue
  rw [queue,DelayLine.line_map,entries_reserved plans,valid.queue,plans.ranks]
  rfl

-- What the next step of either takes off the queue.
theorem worker_pops (run : PipelineRanks.Runs plan st (System.initial plan init drafts) actions sys)
    (other : p + 1 < plan.numRanks) (phase : (sys.ranks p).phase = .start) (valid : Invariant cfg r history)
    (plans : Plans plan cfg history) (step : (sys.ranks p).step = history.length) :
    (getPrevSampledOutputs r.ppHandler).2.1 = (sys.ranks p).queue.head?.join.bind (reservedIn history) ∧
      (getPrevSampledOutputs r.ppHandler).1.queue = popQueue r.ppHandler.queue := by
  have queue := worker_queue run other phase valid plans step
  unfold getPrevSampledOutputs
  rw [queue]
  cases held : (sys.ranks p).queue with
  | nil => exact ⟨rfl,queue.trans (congrArg _ held)⟩
  | cons front rest =>
      cases front with
      | none => exact ⟨rfl,rfl⟩
      | some n =>
          cases reserved : reservedIn history n with
          | none => simp [reserved,popQueue]
          | some pending => simp [reserved,popQueue]

end Worker

def twoRanks : Plan where
  numRanks := 2
  numSteps := 3
  forwardPass _ := true
  needed _ := true
  ranks_pos := Nat.two_pos

def adding : Stages Nat Nat Nat Nat where
  startStep p n s t := s + t.elim 0 (fun t => t.1 + t.2) + p + n
  forward p n s h := (s + 1,s + h.getD 7 + p + n)
  receive _ _ s := s + 2
  sample _ s h := (s + 3,s + h)
  propose n s h _ := 100 * (n + 1) + s + h

def consuming : List (Action Nat) :=
  [.start 1,.start 0,.forward 0,.copy 0,.recv 0,.forward 1,.sample 1,.sample 0,.deliver 0 0 0,
    .start 0,.forward 0,.copy 0,.sample 0,.start 0]

theorem consuming_runs : ∃ sys, Undisturbed twoRanks adding (System.initial twoRanks (fun _ => 5) 0) consuming sys ∧
    (sys.ranks 0).phase = .ready ∧ (sys.ranks 0).step = 2 ∧ ∃ t, (sys.ranks 0).inbox 0 = some t := by
  have run : Undisturbed twoRanks adding (System.initial twoRanks (fun _ => 5) 0) consuming _ :=
    .snoc (.snoc (.snoc (.snoc (.snoc (.snoc (.snoc (.snoc (.snoc (.snoc (.snoc (.snoc (.snoc (.snoc .nil
      rfl rfl) rfl rfl) rfl rfl) rfl rfl) rfl rfl) rfl rfl) rfl rfl) rfl rfl) rfl rfl) rfl rfl) rfl rfl) rfl rfl)
      rfl rfl) rfl rfl
  exact ⟨_,run,rfl,rfl,_,rfl⟩

end Ranks

end Glm5Next.PipelineRanks
