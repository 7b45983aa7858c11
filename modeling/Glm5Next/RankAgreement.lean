import Glm5Next.RankStates
import Glm5Next.PpBroadcast
import Glm5Next.DraftRelay

-- The last rank and another rank of a pipeline, run side by side: the other
-- rank lags by the results in flight, and by nothing else.
namespace Glm5Next.RankAgreement
open PpUtils WorkerLoop SlotOwners SchedulerMirror AppliedRows DeferredResults StepPhases PpBroadcast AlignFlight RankStates
variable {ReqId S : Type} [DecidableEq ReqId]

-- One step of the last rank and of the other one.
structure Turn (ReqId : Type) where
  input : StepInput ReqId
  record : StepRecord ReqId
  other : StepInput ReqId
  otherRecord : StepRecord ReqId

def Turn.views (turn : Turn ReqId) : List (RowView ReqId) :=
  turn.record.batch.elim [] fun batch => batch.map viewRow

-- What the batch of the turn shows of a request, and where.
def Turn.row (turn : Turn ReqId) (reqId : ReqId) : Option (RowView ReqId × Nat) :=
  turn.views.zipIdx.find? fun entry => entry.1.1 = reqId

def Turn.needed (turn : Turn ReqId) (reqId : ReqId) : Option Nat :=
  (turn.row reqId).bind fun entry => if viewNeeded entry.1 then some entry.2 else none

def Turn.adds (turn : Turn ReqId) (reqId : ReqId) : Bool :=
  decide (reqId ∈ turn.input.out.scheduledNewReqs.map NewRequestData.reqId)

-- The request was sampled on the last rank and nobody is told.
def Turn.loses (turn : Turn ReqId) (reqId : ReqId) : Bool :=
  (turn.row reqId).elim false fun entry => !viewNeeded entry.1 &&
    (turn.input.relay.numSampled entry.2 != 0 || turn.input.relay.numRejected entry.2 != 0)

-- Turns are listed newest first. The relayed rows of a request in the last
-- `steps` turns, oldest first, since it was added last.
def inFlight : Nat → List (Turn ReqId) → ReqId → List (Relay × Nat)
  | 0,_,_ => []
  | _ + 1,[],_ => []
  | steps + 1,turn :: older,reqId =>
    (if turn.adds reqId then [] else inFlight steps older reqId) ++
      ((turn.needed reqId).map fun row => (turn.input.relay,row)).toList

def leaving : Nat → List (Turn ReqId) → ReqId → Option (Relay × Nat)
  | _,[],_ => none
  | 0,turn :: _,reqId => (turn.needed reqId).map fun row => (turn.input.relay,row)
  | steps + 1,turn :: older,reqId => if turn.adds reqId then none else leaving steps older reqId

def lost : List (Turn ReqId) → ReqId → Bool
  | [],_ => false
  | turn :: older,reqId => turn.loses reqId || !turn.adds reqId && lost older reqId

def drafted : List (Turn ReqId) → ReqId → Bool
  | [],_ => false
  | turn :: older,reqId => (turn.row reqId).elim (!turn.adds reqId && drafted older reqId) fun entry => viewNeeded entry.1

def settle (k : SlotKernels ReqId S) (s : S) (rows : List (Relay × Nat)) : S :=
  rows.foldl (fun s row => k.postUpdate s (row.1.sampledTokens.entry row.2) (row.1.numSampled row.2)
    (row.1.numRejected row.2) none) s

-- The other rank got the drafts that the last rank proposed in the turn.
def Turn.KeepsUp (cfg : Config) (turn : Turn ReqId) : Prop :=
  ∀ i j, i < turn.views.length → j < cfg.numSpeculativeSteps →
    turn.other.relay.draftTokens.entry i j = turn.input.relay.draftTokens.entry i j

def redraft (drafts : Nat → Int) (rows : List (Relay × Nat)) : Nat → Int :=
  rows.foldl (fun _ row => row.1.draftTokens.entry row.2) drafts

theorem in_flight_leaves (steps : Nat) (turns : List (Turn ReqId)) (reqId : ReqId) :
    inFlight (steps + 1) turns reqId = (leaving steps turns reqId).toList ++ inFlight steps turns reqId := by
  induction steps generalizing turns with
  | zero =>
      cases turns with
      | nil => rfl
      | cons turn older => cases added : turn.adds reqId <;> simp [inFlight,leaving]
  | succ steps ih =>
      cases turns with
      | nil => rfl
      | cons turn older =>
          rw [inFlight,ih,leaving,inFlight]
          cases added : turn.adds reqId <;> simp

theorem leaving_exact (steps : Nat) (turns : List (Turn ReqId)) (reqId : ReqId) (relay : Relay) (row : Nat) :
    leaving steps turns reqId = some (relay,row) ↔ ∃ turn, turns[steps]? = some turn ∧ turn.input.relay = relay ∧
      turn.needed reqId = some row ∧ ∀ later ∈ turns.take steps, later.adds reqId = false := by
  induction steps generalizing turns with
  | zero =>
      cases turns with
      | nil => simp [leaving]
      | cons turn older => simp [leaving,and_comm]
  | succ steps ih =>
      cases turns with
      | nil => simp [leaving]
      | cons turn older =>
          rw [leaving]
          cases added : turn.adds reqId with
          | true => simp [added]
          | false => simp [ih,added]

theorem in_flight_spaced (steps : Nat) (turns : List (Turn ReqId)) (reqId : ReqId)
    (spaced : ∀ recent ∈ turns.take steps, recent.needed reqId = none) : inFlight steps turns reqId = [] := by
  induction steps generalizing turns with
  | zero => rfl
  | succ steps ih =>
      cases turns with
      | nil => rfl
      | cons turn older =>
          rw [List.take_succ_cons,List.forall_mem_cons] at spaced
          simp [inFlight,spaced.1,ih older spaced.2]

theorem redraft_append (drafts : Nat → Int) (left rest : List (Relay × Nat)) :
    redraft drafts (left ++ rest) = redraft (redraft drafts left) rest := List.foldl_append

theorem redraft_congr (rows : List (Relay × Nat)) (same : drafts j = drafts' j) :
    redraft drafts rows j = redraft drafts' rows j := by
  induction rows generalizing drafts drafts' with
  | nil => exact same
  | cons row rest ih => exact ih rfl

theorem settle_advance (documented : k.Documented) (s : S) (rows : List (Relay × Nat)) (queryLen : Nat) :
    settle k (k.postUpdateNumComputed s queryLen) rows = k.postUpdateNumComputed (settle k s rows) queryLen := by
  induction rows generalizing s with
  | nil => rfl
  | cons row rest ih =>
      simp only [settle,List.foldl_cons] at ih ⊢
      rw [documented.apart,ih]

theorem row_exact (turn : Turn ReqId) (distinct : (turn.views.map Prod.fst).Nodup) (view : RowView ReqId) (i : Nat) :
    turn.row reqId = some (view,i) ↔ turn.views[i]? = some view ∧ view.1 = reqId := by
  constructor
  · intro found
    have named : view.1 = reqId := by simpa using List.find?_some found
    exact ⟨List.mem_zipIdx_iff_getElem?.mp (List.mem_of_find?_eq_some found),named⟩
  · intro ⟨found,named⟩
    have listed : (view,i) ∈ turn.views.zipIdx := List.mem_zipIdx_iff_getElem?.mpr found
    have present : (turn.row reqId).isSome := List.find?_isSome.mpr ⟨_,listed,by simpa using named⟩
    obtain ⟨⟨other,j⟩,chosen⟩ := Option.isSome_iff_exists.mp present
    have same : other.1 = reqId := by simpa using List.find?_some chosen
    have at_j : turn.views[j]? = some other := List.mem_zipIdx_iff_getElem?.mp (List.mem_of_find?_eq_some chosen)
    have bound := (List.getElem?_eq_some_iff.mp found).1
    have place : i = j := by
      refine (List.getElem?_inj (by simpa using bound) distinct).mp ?_
      rw [List.getElem?_map,List.getElem?_map,found,at_j]
      exact congrArg some (named.trans same.symm)
    subst place
    rw [found] at at_j
    cases at_j
    exact chosen

theorem row_none (turn : Turn ReqId) (absent : turn.row reqId = none) : ∀ view ∈ turn.views, view.1 ≠ reqId := by
  intro view member named
  obtain ⟨i,found⟩ := List.mem_iff_getElem?.mp member
  have missing := List.find?_eq_none.mp absent (view,i) (List.mem_zipIdx_iff_getElem?.mpr found)
  exact missing (by simpa using named)

-- What happens between the two steps of a turn: one scheduler output for both,
-- what the sampler hands over, and a matched broadcast of it. Nothing is said of
-- the drafts, which are sent from the buffer that the next proposal writes.
structure Relayed (cfg : Config) (turn : Turn ReqId) : Prop where
  same : turn.input.out = turn.other.out
  sampled : ∀ batch, turn.record.batch = some batch → Sampled cfg batch turn.input.relay
  counted : ∀ i, turn.input.relay.numSampled i ≤ turn.input.relay.sampledTokens.cols
  delivered : SamplesDelivered turn.record.sent turn.other.relay

inductive Joint (cfg : Config) (k : SlotKernels ReqId S) (last other : Nat → S) :
    List (Turn ReqId) → Runner ReqId (Nat → S) → Runner ReqId (Nat → S) → Prop where
  | start : Joint cfg k last other [] (Runner.init cfg true last) (Runner.init cfg false other)
  | turn : Joint cfg k last other turns one two →
      step cfg (rankDevice k) one turn.input = some (one',turn.record) →
      step cfg (rankDevice k) two turn.other = some (two',turn.otherRecord) →
      Relayed cfg turn → Joint cfg k last other (turn :: turns) one' two'

section Steps
variable {M : Type} {cfg : Config} {dev : Device ReqId M} {r next : Runner ReqId M} {input : StepInput ReqId}
  {record : StepRecord ReqId}

theorem step_scheduled (stepped : step cfg dev r input = some (next,record)) :
    record.batch = none ↔ input.out.totalNumScheduledTokens = 0 := by
  unfold step at stepped
  simp only [Option.bind_eq_bind,Option.bind_eq_some_iff,Prod.exists] at stepped
  obtain ⟨middle,executed,ran,stepped⟩ := stepped
  have facts := execute_mirror r ran
  cases batched : executed.batch with
  | none =>
      simp only [batched,Option.pure_def,Option.some.injEq,Prod.mk.injEq] at stepped
      obtain ⟨rfl,rfl⟩ := stepped
      exact ⟨fun _ => facts.idle batched,fun _ => batched⟩
  | some batch =>
      simp only [batched,Option.bind_eq_some_iff,Option.pure_def,Option.some.injEq,Prod.mk.injEq,
        Prod.exists] at stepped
      obtain ⟨finished,sent,posted,sampled,rfl,rfl⟩ := stepped
      exact ⟨by simp,fun zero => absurd zero (facts.busy batch batched).1⟩

-- A step: the phases before the batch, then the batch if there is one.
structure StepParts (cfg : Config) (dev : Device ReqId M) (next : Runner ReqId M) (input : StepInput ReqId)
    (record : StepRecord ReqId) (ready : Runner ReqId M) : Prop where
  table : next.reqStates = ready.reqStates
  idle : record.batch = none → next = ready
  busy : ∀ batch, record.batch = some batch →
    prepareInputs (cfg.numSpeculativeSteps + 1) ready.reqStates input.out = some batch ∧
    ∃ sent posted, sampleTokens cfg dev (forwarded dev ready batch) batch input.relay = some (next,sent,posted)

omit [DecidableEq ReqId] in
theorem sample_table (samples : sampleTokens cfg dev r batch relay = some (next,sent,posted)) :
    next.reqStates = r.reqStates := by
  cases rank : r.ppHandler.isLastRank with
  | false => exact (sample_other rank samples).1
  | true => exact (sample_last rank samples).1

theorem step_parts (stepped : step cfg dev r input = some (next,record)) :
    ∃ ready, prepared dev r input = some (ready,record.freed) ∧ StepParts cfg dev next input record ready := by
  obtain ⟨ready,prepares,_,_,⟨idle,rfl⟩ | ⟨batch,sent,posted,ran,batched,samples⟩⟩ := step_phases stepped
  · exact ⟨next,prepares,rfl,fun _ => rfl,by simp [idle]⟩
  · have table : next.reqStates = (forwarded dev ready batch).reqStates := sample_table samples
    refine ⟨ready,prepares,table,by simp [ran],?_⟩
    intro other same
    cases ran.symm.trans same
    exact ⟨batched,sent,posted,samples⟩

end Steps

structure TurnFacts (cfg : Config) (turn : Turn ReqId) : Prop where
  views : (turn.otherRecord.batch.elim [] fun batch => batch.map viewRow) = turn.views
  distinct : (turn.views.map Prod.fst).Nodup
  arrived : ∀ pending, turn.otherRecord.reserved = some pending → SamplesArrived cfg turn.input.relay pending
  counted : ∀ i, turn.input.relay.numSampled i ≤ turn.input.relay.sampledTokens.cols
  drafts : cfg.relayDraftTokens = true → ∀ pending, turn.otherRecord.reserved = some pending →
    ∃ tensor, pending.draftTokens = some tensor ∧ tensor.entry = turn.other.relay.draftTokens.entry

section Turns
variable {cfg : Config} {k : SlotKernels ReqId S} {one one' two two' : Runner ReqId (Nat → S)} {turn : Turn ReqId}

theorem step_views {M : Type} {dev : Device ReqId M} {r next : Runner ReqId M}
    (stepped : step cfg dev r input = some (next,record)) :
    (record.batch.elim [] fun batch => batch.map viewRow) = if input.out.totalNumScheduledTokens = 0 then [] else
      batchViews (cfg.numSpeculativeSteps + 1) (mirrors next.reqStates) input.out := by
  obtain ⟨ready,_,parts⟩ := step_parts stepped
  have scheduled := step_scheduled stepped
  cases batched : record.batch with
  | none =>
      rw [if_pos (scheduled.mp batched)]
      rfl
  | some batch =>
      have busy : input.out.totalNumScheduledTokens ≠ 0 := fun zero => by
        rw [scheduled.mpr zero] at batched
        cases batched
      rw [if_neg busy,parts.table]
      exact batch_views (parts.busy batch batched).1

theorem views_distinct {M : Type} {dev : Device ReqId M} {r next : Runner ReqId M}
    (stepped : step cfg dev r input = some (next,record)) :
    ((record.batch.elim [] fun batch => batch.map viewRow).map Prod.fst).Nodup := by
  obtain ⟨ready,_,parts⟩ := step_parts stepped
  cases batched : record.batch with
  | none => exact List.nodup_nil
  | some batch =>
      rw [Option.elim_some,List.map_map]
      exact batch_distinct (parts.busy batch batched).1

theorem turn_facts (stepped : step cfg (rankDevice k) one turn.input = some (one',turn.record))
    (stepped' : step cfg (rankDevice k) two turn.other = some (two',turn.otherRecord)) (relayed : Relayed cfg turn)
    (last : one.ppHandler.isLastRank = true) (valid : Invariant cfg two history)
    (mirrored : mirrors one.reqStates = mirrors two.reqStates) :
    TurnFacts cfg turn ∧ mirrors one'.reqStates = mirrors two'.reqStates := by
  have script := step_script one stepped
  have script' := step_script two stepped'
  have after : mirrors one'.reqStates = mirrors two'.reqStates := by
    rw [script.mirror,script'.mirror,mirrored,relayed.same]
  have views := step_views stepped
  have views' := step_views stepped'
  obtain ⟨front,rest,queued⟩ := valid.queued
  have reserves := (step_facts two valid.rank queued stepped').reserves
  refine ⟨⟨?_,views_distinct stepped,?_,relayed.counted,?_⟩,after⟩
  · rw [views',Turn.views,views,relayed.same,after]
  · intro pending reserved
    obtain ⟨_,signatures,payload⟩ := script.last last relayed.sampled
    obtain ⟨batch,mask,source⟩ := reserves pending reserved
    obtain ⟨_,posts,viewed⟩ := script'.other valid.rank
    refine samples_arrive payload source ?_ relayed.delivered
    rw [signatures,← viewed batch source.ran,posts,mirrored,relayed.same]
  · intro relays pending reserved
    obtain ⟨batch,mask,source⟩ := reserves pending reserved
    exact ⟨_,source.drafts.trans (if_pos relays),rfl⟩

-- The turns so far as the other rank sees them. A row of an older turn has
-- kept its slot just where its request was not added again.
structure Followed (cfg : Config) (turns : List (Turn ReqId)) (two : Runner ReqId (Nat → S)) : Prop where
  valid : Invariant cfg two (turns.map Turn.otherRecord).reverse
  owned : ∀ i (turn : Turn ReqId) batch, turns[i]? = some turn → turn.otherRecord.batch = some batch → ∀ entry ∈ batch,
    (∀ later ∈ turns.take i, entry.idxMapping ∉ later.otherRecord.freed) →
    (entry.reqId,entry.idxMapping) ∈ two.reqStates.reqIdToIndex
  since : ∀ reqId slot, (reqId,slot) ∈ two.reqStates.reqIdToIndex → ∀ i (turn : Turn ReqId) batch,
    turns[i]? = some turn → turn.otherRecord.batch = some batch → ∀ entry ∈ batch,
    (entry.reqId = reqId ∧ (∀ later ∈ turns.take i, later.adds reqId = false) ↔
      entry.idxMapping = slot ∧ ∀ later ∈ turns.take i, slot ∉ later.otherRecord.freed)

theorem added_news (relayed : Relayed cfg turn) (reqId : ReqId) :
    turn.adds reqId = true ↔ reqId ∈ turn.other.out.scheduledNewReqs.map NewRequestData.reqId := by
  unfold Turn.adds
  rw [relayed.same]
  exact decide_eq_true_iff

theorem followed_step (followed : Followed cfg turns two) (relayed : Relayed cfg turn)
    (stepped : step cfg (rankDevice k) two turn.other = some (two',turn.otherRecord)) :
    Followed cfg (turn :: turns) two' := by
  have valid := step_preserves two two' _ followed.valid stepped
  obtain ⟨front,rest,queued⟩ := followed.valid.queued
  have facts := step_facts two followed.valid.rank queued stepped
  obtain ⟨ready,prepares,parts⟩ := step_parts stepped
  have table : (updatePpDecodeRequests (rankDevice k) two).1.reqStates = two.reqStates := deferred_table _ two
  refine ⟨by simpa using valid,?_,?_⟩
  · intro i source batch found ran entry member unfreed
    cases i with
    | zero =>
        cases found
        exact facts.owned batch ran entry member
    | succ i =>
        have now : entry.idxMapping ∉ turn.otherRecord.freed := unfreed turn (by simp)
        have before : ∀ later ∈ turns.take i, entry.idxMapping ∉ later.otherRecord.freed :=
          fun later listed => unfreed later (by simp [listed])
        exact facts.keeps _ _ (followed.owned i source batch found ran entry member before) now
  · intro reqId slot held i source batch found ran entry member
    cases i with
    | zero =>
        cases found
        have owner := facts.owned batch ran entry member
        simp only [List.take_zero,List.not_mem_nil,false_implies,implies_true,and_true]
        constructor
        · rintro rfl
          exact slot_unique two'.reqStates owner held
        · rintro rfl
          exact owner_unique two'.reqStates owner held
    | succ i =>
        have held : (reqId,slot) ∈ ready.reqStates.reqIdToIndex := parts.table ▸ held
        simp only [List.take_succ_cons,List.forall_mem_cons]
        rcases prepared_hold prepares held with ⟨⟨new,listed,named,_⟩,unused⟩ | ⟨old,owned,unfreed,_⟩
        · have added : turn.adds reqId = true := (added_news relayed reqId).mpr (List.mem_map.mpr ⟨new,listed,named⟩)
          simp only [added,Bool.true_eq_false,false_and,and_false,false_iff,not_and]
          rintro rfl unfreed kept
          have owner := followed.owned i source batch found ran entry member kept
          rw [table] at unused
          rcases unused with freed | unused
          · exact unfreed freed
          · exact unused (List.mem_map.mpr ⟨_,owner,rfl⟩)
        · have old : turn.adds reqId = false := by
            rw [← Bool.not_eq_true,added_news relayed]
            exact old
          rw [table] at owned
          simpa [old,unfreed] using followed.since reqId slot owned i source batch found ran entry member

theorem reversed_at {α : Type} (xs : List α) (bound : n < xs.length) :
    xs.reverse[xs.reverse.length - (n + 1)]? = xs[n]? := by
  rw [List.length_reverse,List.getElem?_reverse (by omega)]
  congr 1
  omega

theorem reversed_after {α : Type} (xs : List α) (bound : n < xs.length) (good : α → Prop) :
    (∀ u x, xs.reverse.length - (n + 1) < u → xs.reverse[u]? = some x → good x) ↔ ∀ x ∈ xs.take n, good x := by
  rw [List.length_reverse]
  constructor
  · intro each x member
    obtain ⟨j,found⟩ := List.mem_iff_getElem?.mp member
    rw [List.getElem?_take] at found
    obtain ⟨below,found⟩ : j < n ∧ xs[j]? = some x := by
      split at found
      · rename_i below
        exact ⟨below,found⟩
      · cases found
    refine each (xs.length - 1 - j) x (by omega) ?_
    rw [List.getElem?_reverse (by omega),← found]
    congr 1
    omega
  · intro each u x after found
    have inside := (List.getElem?_eq_some_iff.mp found).1
    rw [List.length_reverse] at inside
    rw [List.getElem?_reverse inside] at found
    have inside : (xs.take n)[xs.length - 1 - u]? = some x := by
      rw [List.getElem?_take_of_lt (by omega),found]
    exact each x (List.mem_of_getElem? inside)

theorem needed_exact (facts : TurnFacts cfg turn) (reqId : ReqId) (row : Nat) :
    turn.needed reqId = some row ↔ ∃ batch mask entry, turn.otherRecord.batch = some batch ∧ batch[row]? = some entry ∧
      entry.reqId = reqId ∧ computeNeedSampledMask batch = some mask ∧ mask[row]? = some true := by
  have views := facts.views
  constructor
  · intro needed
    obtain ⟨⟨view,i⟩,found,chosen⟩ := Option.bind_eq_some_iff.mp needed
    obtain ⟨at_i,named⟩ := (row_exact turn facts.distinct view i).mp found
    dsimp only at chosen
    split at chosen
    · rename_i continues
      cases chosen
      cases ran : turn.otherRecord.batch with
      | none =>
          rw [ran] at views
          rw [← views] at at_i
          cases at_i
      | some batch =>
          rw [ran] at views
          rw [← views,Option.elim_some,List.getElem?_map] at at_i
          obtain ⟨entry,at_row,rfl⟩ := Option.map_eq_some_iff.mp at_i
          have decided : producesSample entry = true ∧ notFinishing entry = true := Bool.and_eq_true_iff.mp continues
          obtain ⟨mask,masked,at_mask⟩ := (mask_row batch row).mpr ⟨entry,at_row,decided⟩
          exact ⟨batch,mask,entry,rfl,at_row,named,masked,at_mask⟩
    · cases chosen
  · intro ⟨batch,mask,entry,ran,at_row,named,masked,at_mask⟩
    obtain ⟨other,found,decided⟩ := (mask_row batch row).mp ⟨mask,masked,at_mask⟩
    cases at_row.symm.trans found
    have continues : viewNeeded (viewRow entry) = true := Bool.and_eq_true_iff.mpr decided
    have at_view : turn.views[row]? = some (viewRow entry) := by
      rw [← views,ran,Option.elim_some,List.getElem?_map,at_row]
      rfl
    have chosen := (row_exact turn facts.distinct (viewRow entry) row).mpr ⟨at_view,named⟩
    unfold Turn.needed
    rw [chosen,Option.bind_some,if_pos continues]

theorem needed_inside {turn : Turn ReqId} (needed : turn.needed reqId = some row) : row < turn.views.length := by
  obtain ⟨⟨view,i⟩,found,chosen⟩ := Option.bind_eq_some_iff.mp needed
  dsimp only at chosen
  split at chosen
  · cases chosen
    exact (List.getElem?_eq_some_iff.mp (List.mem_zipIdx_iff_getElem?.mp (List.mem_of_find?_eq_some found))).1
  · cases chosen

theorem leaves_applied (followed : Followed cfg turns two) (known : ∀ turn ∈ turns, TurnFacts cfg turn)
    (facts : StepFacts cfg two two' delivered record) (world : cfg.worldSize = steps + 1)
    (held : (reqId,slot) ∈ two.reqStates.reqIdToIndex) (row : Nat) :
    (slot,row) ∈ appliedRows record.outputs ↔ ∃ relay, leaving steps turns reqId = some (relay,row) := by
  have at_step (bound : steps < turns.length) := reversed_at (turns.map Turn.otherRecord) (by simpa using bound)
  have after_step (bound : steps < turns.length) := reversed_after (turns.map Turn.otherRecord)
    (by simpa using bound) fun later => slot ∉ later.freed
  rw [applied_due followed.valid facts]
  constructor
  · intro ⟨entry,due⟩
    have bound : steps < turns.length := Nat.lt_of_succ_le (by simpa [world] using due.old)
    obtain ⟨source,batch,mask,found,ran,at_row,masked,needed⟩ := due.needed
    have kept := due.kept
    rw [world,at_step bound,List.getElem?_map] at found
    rw [world] at kept
    obtain ⟨turn,at_turn,rfl⟩ := Option.map_eq_some_iff.mp found
    have named : entry.reqId = reqId :=
      owner_unique two.reqStates (facts.owners ▸ due_owned followed.valid facts due) held
    have unfreed := (after_step bound).mp kept
    have fresh := ((followed.since reqId slot held steps turn batch at_turn ran entry (List.mem_of_getElem? at_row)).mpr
      ⟨due.slot_exact,by simpa [← List.map_take] using unfreed⟩).2
    refine ⟨turn.input.relay,(leaving_exact _ _ _ _ _).mpr ⟨turn,at_turn,rfl,?_,fresh⟩⟩
    exact (needed_exact (known turn (List.mem_of_getElem? at_turn)) reqId row).mpr
      ⟨batch,mask,entry,ran,at_row,named,masked,needed⟩
  · intro ⟨relay,leaves⟩
    obtain ⟨turn,at_turn,_,needed,fresh⟩ := (leaving_exact _ _ _ _ _).mp leaves
    have bound := (List.getElem?_eq_some_iff.mp at_turn).1
    obtain ⟨batch,mask,entry,ran,at_row,named,masked,at_mask⟩ :=
      (needed_exact (known turn (List.mem_of_getElem? at_turn)) reqId row).mp needed
    obtain ⟨placed,unfreed⟩ := (followed.since reqId slot held steps turn batch at_turn ran entry
      (List.mem_of_getElem? at_row)).mp ⟨named,fresh⟩
    refine ⟨entry,by simp [world]; omega,placed,⟨turn.otherRecord,batch,mask,?_,ran,at_row,masked,at_mask⟩,?_⟩
    · rw [world,at_step bound,List.getElem?_map,at_turn]
      rfl
    · rw [world]
      exact (after_step bound).mpr (by simpa [← List.map_take] using unfreed)

-- What the consume of the next step does to one slot of the other rank.
structure Consumed (cfg : Config) (k : SlotKernels ReqId S) (two : Runner ReqId (Nat → S)) (slot : Nat)
    (left : Option (Relay × Nat)) (calm : Prop) : Prop where
  state : (updatePpDecodeRequests (rankDevice k) two).1.device slot = settle k (two.device slot) left.toList
  drafts : cfg.relayDraftTokens = true → calm → ∀ j < cfg.numSpeculativeSteps,
    (updatePpDecodeRequests (rankDevice k) two).1.draftTokens slot j = redraft (two.draftTokens slot) left.toList j

theorem consumed_exact (documented : k.Documented) (followed : Followed cfg turns two)
    (known : ∀ turn ∈ turns, TurnFacts cfg turn) (facts : StepFacts cfg two two' delivered record)
    (outputs : record.outputs = (updatePpDecodeRequests (rankDevice k) two).2.2) (world : cfg.worldSize = steps + 1)
    (held : (reqId,slot) ∈ two.reqStates.reqIdToIndex) :
    Consumed cfg k two slot (leaving steps turns reqId) (∀ turn ∈ turns, turn.KeepsUp cfg) := by
  have applied := leaves_applied followed known facts world held
  obtain ⟨device,drafts⟩ := deferred_launches (rankDevice k) two
  rw [← outputs] at device drafts
  cases produced : record.outputs with
  | none =>
      rw [produced] at applied device drafts
      have still : leaving steps turns reqId = none := by
        cases left : leaving steps turns reqId with
        | none => rfl
        | some entry =>
            have wrong := (applied entry.2).mpr ⟨entry.1,left⟩
            cases wrong
      rw [still]
      exact ⟨congrFun device slot,fun _ _ j _ => congrFun (congrFun drafts slot) j⟩
  | some out =>
      have once : ((validRows out.idxMapping).map Prod.fst).Nodup := by
        apply valid_slots_nodup
        intro other a b one two
        have valid : ∀ {row}, (other,row) ∈ validRows out.idxMapping → (other,row) ∈ appliedRows record.outputs := by
          intro row member
          rw [produced]
          exact member
        obtain ⟨entry,due⟩ := (applied_due followed.valid facts other a).mp (valid one)
        have owner := due_owned followed.valid facts due
        rw [facts.owners] at owner
        have listed := leaves_applied followed known facts world owner
        obtain ⟨relay,at_a⟩ := (listed a).mp (valid one)
        obtain ⟨relay',at_b⟩ := (listed b).mp (valid two)
        cases at_a.symm.trans at_b
        rfl
      rw [produced] at applied device drafts
      cases left : leaving steps turns reqId with
      | none =>
          have apart : slot ∉ (validRows out.idxMapping).map Prod.fst := by
            intro member
            obtain ⟨⟨_,row⟩,valid,rfl⟩ := List.mem_map.mp member
            obtain ⟨relay,wrong⟩ := (applied row).mp valid
            cases left.symm.trans wrong
          refine ⟨(congrFun device slot).trans (post_update_apart two.device apart),fun _ _ j _ => congrFun ?_ j⟩
          refine (congrFun drafts slot).trans ?_
          rw [Option.elim_some]
          cases out.draftTokens with
          | none => rfl
          | some tensor => exact scatter_drafts_apart apart
      | some entry =>
          obtain ⟨relay,row⟩ := entry
          have valid : (slot,row) ∈ validRows out.idxMapping := (applied row).mpr ⟨relay,left⟩
          obtain ⟨turn,at_turn,rfl,needed,_⟩ := (leaving_exact _ _ _ _ _).mp left
          have bound := (List.getElem?_eq_some_iff.mp at_turn).1
          obtain ⟨source,found,filtered⟩ := source_step followed.valid facts (by simp [world]; omega)
          rw [world,reversed_at (turns.map Turn.otherRecord) (by simpa using bound),List.getElem?_map,at_turn] at found
          cases found
          rw [produced] at filtered
          obtain ⟨pending,reserved,kept⟩ := Option.bind_eq_some_iff.mp filtered.symm
          obtain ⟨tokens,sampled,rejected,relayed⟩ := filter_tensors kept
          have source := known turn (List.mem_of_getElem? at_turn)
          have arrived := source.arrived pending reserved
          constructor
          · refine (congrFun device slot).trans ((post_update_row once two.device valid).trans ?_)
            rw [tokens,sampled,rejected,arrived.counts.1,arrived.counts.2]
            refine documented.reads _ _ _ _ _ _ fun j below => ?_
            exact arrived.inside row j (Int.ofNat_lt.mp (Int.lt_of_lt_of_le below (source.counted row)))
          · intro relays calm j column
            refine (congrFun (congrFun drafts slot) j).trans ?_
            obtain ⟨tensor,stored,same⟩ := source.drafts relays pending reserved
            rw [Option.elim_some,relayed,stored,Option.elim_some,scatter_drafts_row once valid,same]
            exact calm turn (List.mem_of_getElem? at_turn) row j (needed_inside needed) column

-- How far the other rank is behind on one slot, with these rows to come.
structure Behind (cfg : Config) (k : SlotKernels ReqId S) (one two : Runner ReqId (Nat → S)) (slot slot' : Nat)
    (flying : List (Relay × Nat)) (kept drafted : Bool) (calm : Prop) : Prop where
  state : kept = true → one.device slot = settle k (two.device slot') flying
  drafts : cfg.relayDraftTokens = true → calm → drafted = true → ∀ j < cfg.numSpeculativeSteps,
    one.draftTokens slot j = redraft (two.draftTokens slot') flying j

omit [DecidableEq ReqId] in
theorem Behind.calmer (behind : Behind cfg k one two slot slot' flying kept relayed calm) (more : calm' → calm) :
    Behind cfg k one two slot slot' flying kept relayed calm' :=
  ⟨behind.state,fun relays calm => behind.drafts relays (more calm)⟩

-- Between two turns, and as the batch of a turn is prepared.
def Lags (cfg : Config) (k : SlotKernels ReqId S) (turns : List (Turn ReqId)) (one two : Runner ReqId (Nat → S)) : Prop :=
  ∀ reqId slot slot', (reqId,slot) ∈ one.reqStates.reqIdToIndex → (reqId,slot') ∈ two.reqStates.reqIdToIndex →
    Behind cfg k one two slot slot' (inFlight cfg.worldSize turns reqId) (!lost turns reqId) (drafted turns reqId)
      (∀ turn ∈ turns, turn.KeepsUp cfg)

def LagsReady (cfg : Config) (k : SlotKernels ReqId S) (turns : List (Turn ReqId)) (turn : Turn ReqId)
    (ready ready' : Runner ReqId (Nat → S)) : Prop :=
  ∀ reqId slot slot', (reqId,slot) ∈ ready.reqStates.reqIdToIndex → (reqId,slot') ∈ ready'.reqStates.reqIdToIndex →
    Behind cfg k ready ready' slot slot'
      (if turn.adds reqId then [] else inFlight (cfg.worldSize - 1) turns reqId)
      (turn.adds reqId || !lost turns reqId) (!turn.adds reqId && drafted turns reqId)
      (∀ turn ∈ turns, turn.KeepsUp cfg)

omit [DecidableEq ReqId] in
theorem last_deferred {M : Type} {dev : Device ReqId M} {r : Runner ReqId M} (queued : r.ppHandler.queue = []) :
    (updatePpDecodeRequests dev r).1 = r := by
  unfold updatePpDecodeRequests getPrevSampledOutputs
  rw [queued]

theorem ready_lags (documented : k.Documented) (followed : Followed cfg turns two)
    (known : ∀ turn ∈ turns, TurnFacts cfg turn) (lags : Lags cfg k turns one two) (queued : one.ppHandler.queue = [])
    (same : turn.input.out = turn.other.out) (prepares : prepared (rankDevice k) one turn.input = some (ready,freed))
    (prepares' : prepared (rankDevice k) two turn.other = some (ready',freed'))
    (stepped : step cfg (rankDevice k) two turn.other = some (two',turn.otherRecord)) :
    LagsReady cfg k turns turn ready ready' := by
  intro reqId slot slot' held held'
  have position : cfg.worldSize = (cfg.worldSize - 1) + 1 := (Nat.succ_pred_eq_of_pos cfg.world_pos).symm
  have drafts := prepared_drafts prepares
  have drafts' := prepared_drafts prepares'
  have table' : (updatePpDecodeRequests (rankDevice k) two).1.reqStates = two.reqStates := deferred_table _ two
  have hold := prepared_hold prepares held
  have hold' := prepared_hold prepares' held'
  rw [last_deferred queued] at hold drafts
  rw [← same] at hold'
  cases added : turn.adds reqId with
  | true =>
      have listed : reqId ∈ turn.input.out.scheduledNewReqs.map NewRequestData.reqId := of_decide_eq_true added
      rcases hold with ⟨⟨new,member,named,state⟩,_⟩ | kept
      · rcases hold' with ⟨⟨new',member',named',state'⟩,_⟩ | kept
        · have same : new = new' :=
            List.inj_on_of_nodup_map turn.input.out.new_nodup member member' (named.trans named'.symm)
          refine ⟨fun _ => ?_,by simp⟩
          rw [state,state',same]
          rfl
        · exact absurd listed kept.old
      · exact absurd listed kept.old
  | false =>
      have unlisted : reqId ∉ turn.input.out.scheduledNewReqs.map NewRequestData.reqId := of_decide_eq_false added
      rcases hold with ⟨⟨new,member,named,_⟩,_⟩ | kept
      · exact absurd (List.mem_map.mpr ⟨new,member,named⟩) unlisted
      · rcases hold' with ⟨⟨new,member,named,_⟩,_⟩ | kept'
        · exact absurd (List.mem_map.mpr ⟨new,member,named⟩) unlisted
        · obtain ⟨front,rest,queue⟩ := followed.valid.queued
          have owned : (reqId,slot') ∈ two.reqStates.reqIdToIndex := table' ▸ kept'.held
          obtain ⟨_,_,_,outputs,_⟩ := step_phases stepped
          have facts := step_facts two followed.valid.rank queue stepped
          have consumed := consumed_exact documented followed known facts outputs position owned
          have behind := lags reqId slot slot' kept.held owned
          rw [position,in_flight_leaves] at behind
          constructor
          · intro whole
            rw [kept.same,kept'.same,consumed.state,behind.state whole]
            exact List.foldl_append
          · intro relays calm whole j column
            rw [drafts,drafts',behind.drafts relays calm whole j column,redraft_append]
            exact redraft_congr _ (consumed.drafts relays calm j column).symm

theorem slot_row {s : ReqStates ReqId} {out : SchedulerOutput ReqId}
    (batched : prepareInputs decodeQueryLen s out = some batch) (held : (reqId,slot) ∈ s.reqIdToIndex)
    (member : row ∈ batch) : row.idxMapping = slot ↔ row.reqId = reqId := by
  have owner := batch_owned batched row member
  constructor
  · rintro rfl
    exact owner_unique s owner held
  · rintro rfl
    exact slot_unique s owner held

theorem absent_slot {s : ReqStates ReqId} {out : SchedulerOutput ReqId}
    (batched : prepareInputs decodeQueryLen s out = some batch) (held : (reqId,slot) ∈ s.reqIdToIndex)
    (absent : ∀ view ∈ batch.map viewRow, view.1 ≠ reqId) : slot ∉ batch.map BatchRow.idxMapping := by
  intro member
  obtain ⟨row,listed,placed⟩ := List.mem_map.mp member
  exact absent (viewRow row) (List.mem_map_of_mem listed) ((slot_row batched held listed).mp placed)

theorem turn_lags (documented : k.Documented) (lags : LagsReady cfg k turns turn ready ready')
    (parts : StepParts cfg (rankDevice k) one' turn.input turn.record ready)
    (parts' : StepParts cfg (rankDevice k) two' turn.other turn.otherRecord ready') (facts : TurnFacts cfg turn)
    (idle : turn.record.batch = none ↔ turn.otherRecord.batch = none) (last : ready.ppHandler.isLastRank = true)
    (other : ready'.ppHandler.isLastRank = false) : Lags cfg k (turn :: turns) one' two' := by
  intro reqId slot slot' held held'
  rw [parts.table] at held
  rw [parts'.table] at held'
  have behind := lags reqId slot slot' held held'
  have position : cfg.worldSize = (cfg.worldSize - 1) + 1 := (Nat.succ_pred_eq_of_pos cfg.world_pos).symm
  rw [position,inFlight]
  cases batched : turn.record.batch with
  | none =>
      have absent : turn.row reqId = none := by simp [Turn.row,Turn.views,batched]
      rw [parts.idle batched,parts'.idle (idle.mp batched)]
      have before : (∀ recent ∈ turn :: turns, recent.KeepsUp cfg) → ∀ older ∈ turns, older.KeepsUp cfg :=
        fun calm older member => calm older (List.mem_cons_of_mem turn member)
      have kept := behind.calmer before
      simpa [Turn.needed,Turn.loses,lost,drafted,absent] using kept
  | some batch =>
      cases batched' : turn.otherRecord.batch with
      | none =>
          rw [idle.mpr batched'] at batched
          cases batched
      | some batch' =>
          obtain ⟨prepares,sent,posted,samples⟩ := parts.busy batch batched
          obtain ⟨prepares',sent',posted',samples'⟩ := parts'.busy batch' batched'
          have here := sampled_last last (batch_slots_distinct prepares) samples
          have there := sampled_other other (batch_slots_distinct prepares') samples'
          have views : turn.views = batch.map viewRow := by
            rw [Turn.views,batched]
            rfl
          have views' : turn.views = batch'.map viewRow := by
            rw [← facts.views,batched']
            rfl
          cases found : turn.row reqId with
          | none =>
              have absent := row_none turn found
              have apart := absent_slot prepares held (views ▸ absent)
              have apart' := absent_slot prepares' held' (views' ▸ absent)
              constructor
              · intro kept
                have before := behind.state (by simpa [lost,Turn.loses,found] using kept)
                rw [here.apart slot apart,there.apart slot' apart']
                simpa [Turn.needed,found] using before
              · intro relays calm kept
                have before := behind.drafts relays (fun older member => calm older (List.mem_cons_of_mem _ member))
                  (by simpa [drafted,found] using kept)
                rw [here.draft_apart slot apart,there.draft]
                simpa [Turn.needed,found] using before
          | some entry =>
              obtain ⟨view,i⟩ := entry
              obtain ⟨at_i,named⟩ := (row_exact turn facts.distinct view i).mp found
              have at_row := at_i
              have at_row' := at_i
              rw [views,List.getElem?_map] at at_row
              rw [views',List.getElem?_map] at at_row'
              obtain ⟨row,listed,rfl⟩ := Option.map_eq_some_iff.mp at_row
              obtain ⟨row',listed',same⟩ := Option.map_eq_some_iff.mp at_row'
              have query : row'.numScheduledTokens = row.numScheduledTokens := congrArg (fun view => view.2.2) same
              have placed : row.idxMapping = slot :=
                (slot_row prepares held (List.mem_of_getElem? listed)).mpr named
              have placed' : row'.idxMapping = slot' :=
                (slot_row prepares' held' (List.mem_of_getElem? listed')).mpr ((congrArg Prod.fst same).trans named)
              have one_row := here.row i row listed
              have two_row := there.row row' (List.mem_of_getElem? listed')
              rw [placed] at one_row
              rw [placed',query] at two_row
              cases continues : viewNeeded (viewRow row) with
              | true =>
                  have needed : turn.needed reqId = some i := by simp [Turn.needed,found,continues]
                  constructor
                  · intro kept
                    have before := behind.state (by simpa [lost,Turn.loses,found,continues] using kept)
                    rw [one_row,two_row,needed,settle,List.foldl_append]
                    have caught := settle_advance documented (ready'.device slot')
                      (if turn.adds reqId then [] else inFlight (cfg.worldSize - 1) turns reqId) row.numScheduledTokens
                    rw [← before] at caught
                    refine (documented.split _ _ _ _ _).symm.trans ?_
                    exact congrArg (fun s => k.postUpdate s _ _ _ none) caught.symm
                  · intro relays _ _ j _
                    have draft := here.draft relays i row listed
                    rw [placed] at draft
                    rw [draft,needed,redraft,List.foldl_append]
                    rfl
              | false =>
                  have needed : turn.needed reqId = none := by simp [Turn.needed,found,continues]
                  constructor
                  · intro kept
                    have whole : (turn.adds reqId || !lost turns reqId) = true ∧
                        turn.input.relay.numSampled i = 0 ∧ turn.input.relay.numRejected i = 0 := by
                      simp only [lost,Turn.loses,found,Option.elim_some,continues] at kept
                      revert kept
                      cases turn.adds reqId <;> cases lost turns reqId <;> simp
                    rw [one_row,two_row,needed,whole.2.1,whole.2.2,documented.unsampled,behind.state whole.1]
                    simp [settle_advance documented]
                  · intro _ _ wrong
                    simp [drafted,found,continues] at wrong

-- What holds after any number of turns.
structure Reached (cfg : Config) (k : SlotKernels ReqId S) (turns : List (Turn ReqId))
    (one two : Runner ReqId (Nat → S)) : Prop where
  last : one.ppHandler.isLastRank = true
  queued : one.ppHandler.queue = []
  followed : Followed cfg turns two
  known : ∀ turn ∈ turns, TurnFacts cfg turn
  mirrored : mirrors one.reqStates = mirrors two.reqStates
  lags : Lags cfg k turns one two

theorem ready_handler (prepares : prepared (rankDevice k) one input = some (ready,freed))
    (queued : one.ppHandler.queue = []) (last : one.ppHandler.isLastRank = true) :
    ready.ppHandler.isLastRank = true ∧ ready.ppHandler.queue = [] := by
  obtain ⟨rank,queue⟩ := prepared_handler one input prepares
  rw [last_deferred queued] at rank queue
  exact ⟨rank.trans last,queue.trans queued⟩

theorem step_handler (parts : StepParts cfg (rankDevice k) one' input record ready)
    (last : ready.ppHandler.isLastRank = true) : one'.ppHandler = ready.ppHandler := by
  cases ran : record.batch with
  | none => rw [parts.idle ran]
  | some batch =>
      obtain ⟨_,sent,posted,samples⟩ := parts.busy batch ran
      have same : one'.ppHandler = (forwarded (rankDevice k) ready batch).ppHandler := (sample_last last samples).2.1
      exact same

theorem start_reached (last other : Nat → S) :
    Reached cfg k ([] : List (Turn ReqId)) (Runner.init cfg true last) (Runner.init cfg false other) := by
  refine ⟨rfl,rfl,⟨init_invariant cfg other,by simp,by simp⟩,by simp,rfl,?_⟩
  intro reqId slot slot' held
  cases held

theorem reached_step (documented : k.Documented) (reached : Reached cfg k turns one two)
    (stepped : step cfg (rankDevice k) one turn.input = some (one',turn.record))
    (stepped' : step cfg (rankDevice k) two turn.other = some (two',turn.otherRecord)) (relayed : Relayed cfg turn) :
    Reached cfg k (turn :: turns) one' two' := by
  obtain ⟨facts,mirrored⟩ := turn_facts stepped stepped' relayed reached.last reached.followed.valid reached.mirrored
  obtain ⟨ready,prepares,parts⟩ := step_parts stepped
  obtain ⟨ready',prepares',parts'⟩ := step_parts stepped'
  obtain ⟨last,queued⟩ := ready_handler prepares reached.queued reached.last
  have handler := step_handler parts last
  have followed := followed_step reached.followed relayed stepped'
  have lags := ready_lags documented reached.followed reached.known reached.lags reached.queued relayed.same
    prepares prepares' stepped'
  have idle : turn.record.batch = none ↔ turn.otherRecord.batch = none := by
    rw [step_scheduled stepped,step_scheduled stepped',relayed.same]
  have other : ready'.ppHandler.isLastRank = false := by
    obtain ⟨rank,_⟩ := prepared_handler two turn.other prepares'
    exact rank.trans ((deferred_keeps _ two).2.trans reached.followed.valid.rank)
  refine ⟨handler ▸ last,handler ▸ queued,followed,?_,mirrored,turn_lags documented lags parts parts' facts idle last other⟩
  intro older member
  rcases List.mem_cons.mp member with rfl | member
  · exact facts
  · exact reached.known older member

theorem joint_reached (documented : k.Documented) (joint : Joint cfg k last other turns one two) :
    Reached cfg k turns one two := by
  induction joint with
  | start => exact start_reached last other
  | turn _ stepped stepped' relayed ih => exact reached_step documented ih stepped stepped' relayed

-- A turn keeps up where its draft broadcast runs before a later proposal writes the
-- buffer it is sent from.
omit [DecidableEq ReqId] in
theorem keeps_up_relayed {calls : List (DraftRelay.Call ReqId)} (batched : turn.record.batch = some call.batch)
    (proposed : call.relay = turn.input.relay) (listed : calls[n]? = some call)
    (played : SideStream.play DraftRelay.MainOp.apply (DraftRelay.Send.read cfg) (DraftRelay.keepsUp cfg)
      (SideStream.start (DraftRelay.program cfg 0 calls) initial) ticks = some s)
    (arrived : (.draft n rows,payload) ∈ s.delivered) (handed : turn.other.relay.draftTokens = payload.tensor) :
    turn.KeepsUp cfg := by
  obtain ⟨sender,found,_,exact⟩ := DraftRelay.relayed_drafts cfg calls initial ticks played arrived
  obtain rfl : call = sender := Option.some.inj (listed.symm.trans found)
  intro i j row column
  have inside : i < call.batch.length := by simpa [Turn.views,batched] using row
  rw [handed,exact i j inside column,proposed]

-- What the forward of any turn reads, on the last rank and on another rank.
theorem ranks_agree (documented : k.Documented) (turn : Turn ReqId) (joint : Joint cfg k last other turns one two)
    (same : turn.input.out = turn.other.out) (prepares : prepared (rankDevice k) one turn.input = some (ready,freed))
    (prepares' : prepared (rankDevice k) two turn.other = some (ready',freed'))
    (stepped : step cfg (rankDevice k) two turn.other = some (two',turn.otherRecord))
    (held : (reqId,slot) ∈ ready.reqStates.reqIdToIndex) (held' : (reqId,slot') ∈ ready'.reqStates.reqIdToIndex) :
    (turn.adds reqId = true → ready.device slot = ready'.device slot') ∧
    (turn.adds reqId = false → lost turns reqId = false →
      ready.device slot = settle k (ready'.device slot') (inFlight (cfg.worldSize - 1) turns reqId)) ∧
    (cfg.relayDraftTokens = true → (∀ earlier ∈ turns, earlier.KeepsUp cfg) →
      turn.adds reqId = false → drafted turns reqId = true → ∀ j < cfg.numSpeculativeSteps,
      ready.draftTokens slot j = redraft (ready'.draftTokens slot') (inFlight (cfg.worldSize - 1) turns reqId) j) ∧
    ((∀ recent ∈ turns.take (cfg.worldSize - 1), recent.needed reqId = none) →
      inFlight (cfg.worldSize - 1) turns reqId = []) := by
  have reached := joint_reached documented joint
  have behind := ready_lags documented reached.followed reached.known reached.lags reached.queued same prepares
    prepares' stepped reqId slot slot' held held'
  refine ⟨?_,?_,?_,in_flight_spaced _ turns reqId⟩
  · intro added
    simpa [added,settle] using behind.state (by simp [added])
  · intro old whole
    simpa [old] using behind.state (by simp [old,whole])
  · intro relays calm old whole j column
    simpa [old] using behind.drafts relays calm (by simp [old,whole]) j column

end Turns

structure SlotState where
  numComputed : Int
  lastSampled : Int
  generated : List Int
  deriving DecidableEq

def sampleKernels : SlotKernels Nat SlotState where
  addRequest new := ⟨new.numComputedTokens,0,[]⟩
  postUpdate s tokens sampled rejected queryLen := {
    numComputed := s.numComputed + queryLen.elim 0 Int.ofNat - rejected
    lastSampled := if 0 < sampled then tokens (sampled.toNat - 1) else s.lastSampled
    generated := s.generated ++ (List.range sampled.toNat).map tokens }
  postUpdateNumComputed s queryLen := { s with numComputed := s.numComputed + queryLen }

theorem sample_documented : sampleKernels.Documented where
  split s tokens sampled rejected queryLen := by simp [sampleKernels]
  apart s tokens sampled rejected queryLen := by
    simp only [sampleKernels,SlotState.mk.injEq,and_true,Option.elim_none]
    omega
  unsampled s tokens queryLen := by simp [sampleKernels]
  reads s tokens tokens' sampled rejected queryLen same := by
    have last : (if 0 < sampled then tokens (sampled.toNat - 1) else s.lastSampled) =
        if 0 < sampled then tokens' (sampled.toNat - 1) else s.lastSampled := by
      split
      · exact same _ (by omega)
      · rfl
    have all : (List.range sampled.toNat).map tokens = (List.range sampled.toNat).map tokens' := by
      refine List.map_congr_left fun j member => same j ?_
      have below := List.mem_range.mp member
      omega
    simp only [sampleKernels,last,all]

def deliver : List Collective → Relay
  | tokens :: counts :: rest => ⟨tokens.tensor,counts.tensor.entry 0,counts.tensor.entry 1,
      rest.head?.elim ⟨0,0,fun _ _ => 0⟩ Collective.tensor⟩
  | _ => ⟨⟨0,0,fun _ _ => 0⟩,fun _ => 0,fun _ => 0,⟨0,0,fun _ _ => 0⟩⟩

theorem deliver_exact (sent : List Collective) : SamplesDelivered sent (deliver sent) := by
  intro tokens counts rest same
  subst same
  exact ⟨rfl,rfl,rfl⟩

theorem decode_adds_none : (([] : List (NewRequestData Nat)).map NewRequestData.reqId).Nodup := List.nodup_nil

theorem decode_schedules_once : ([((3 : Nat),2)].map Prod.fst).Nodup := List.nodup_singleton 3

def decodeStep : StepInput Nat where
  out := ⟨[],[],[],[⟨3,2,none⟩],[(3,2)],fun _ => 1,decode_adds_none,decode_schedules_once⟩
  slots := []
  relay := deliver []

def emptySlots (_ : Nat) : SlotState := ⟨0,0,[]⟩

theorem ranks_agree_decode : ∃ turns one two ready freed ready' freed',
    Joint twoRanks sampleKernels emptySlots emptySlots turns one two ∧
    prepared (rankDevice sampleKernels) one decodeStep = some (ready,freed) ∧
    prepared (rankDevice sampleKernels) two decodeStep = some (ready',freed') ∧
    ready.device 4 = ready'.device 9 ∧ ready.draftTokens 4 0 = ready'.draftTokens 9 0 ∧ ready.device 4 = ⟨2,42,[42]⟩ := by
  have computed : (do
      let (one,record) ← step twoRanks (rankDevice sampleKernels) (Runner.init twoRanks true emptySlots) (narrowStep 4)
      let other := { narrowStep 9 with relay := deliver record.sent }
      let (two,record') ← step twoRanks (rankDevice sampleKernels) (Runner.init twoRanks false emptySlots) other
      let (one,quiet) ← step twoRanks (rankDevice sampleKernels) one idleStep
      let (two,quiet') ← step twoRanks (rankDevice sampleKernels) two idleStep
      let turns : List (Turn Nat) := [⟨idleStep,quiet,idleStep,quiet'⟩,⟨narrowStep 4,record,other,record'⟩]
      let (ready,_) ← prepared (rankDevice sampleKernels) one decodeStep
      let (ready',_) ← prepared (rankDevice sampleKernels) two decodeStep
      let (_,_) ← step twoRanks (rankDevice sampleKernels) two decodeStep
      return decide (record.batch.map List.length = some 1 ∧ (deliver record.sent).draftTokens.entry 0 0 = 43 ∧
        quiet.batch.isNone ∧
        quiet.sent.length = 0 ∧ lost turns 3 = false ∧ drafted turns 3 ∧ (inFlight 1 turns 3).length = 0 ∧
        ready.reqStates.reqIdToIndex = [(3,4)] ∧ ready'.reqStates.reqIdToIndex = [(3,9)] ∧
        ready.device 4 = ⟨2,42,[42]⟩)) = some true := by decide +kernel
  simp only [Option.bind_eq_bind,Option.bind_eq_some_iff,Prod.exists,Option.pure_def,Option.some.injEq,
    decide_eq_true_eq,Option.isNone_iff_eq_none] at computed
  obtain ⟨one,record,ran,two,record',ran',one',quiet,idle,two',quiet',idle',ready,freed,prepares,ready',freed',
    prepares',two'',last,stepped,single,draft,unbatched,silent,whole,fresh,spaced,table,table',state⟩ := computed
  have first : Relayed twoRanks (⟨narrowStep 4,record,{ narrowStep 9 with relay := deliver record.sent },record'⟩ : Turn Nat) := by
    refine ⟨rfl,?_,fun _ => Int.le_refl 1,deliver_exact _⟩
    intro batch batched
    rw [batched] at single
    have length : batch.length = 1 := Option.some.inj single
    exact ⟨by rw [length]; rfl,Nat.le_succ 1,by rw [length]; rfl,rfl⟩
  have second : Relayed twoRanks (⟨idleStep,quiet,idleStep,quiet'⟩ : Turn Nat) := by
    refine ⟨rfl,by simp [unbatched],fun _ => Int.le_refl 1,?_⟩
    rw [List.length_eq_zero_iff.mp silent]
    intro tokens counts rest same
    cases same
  have calm : ∀ earlier ∈ ([⟨idleStep,quiet,idleStep,quiet'⟩,
      ⟨narrowStep 4,record,{ narrowStep 9 with relay := deliver record.sent },record'⟩] : List (Turn Nat)),
      earlier.KeepsUp twoRanks := by
    intro earlier member i j row column
    rcases List.mem_pair.mp member with rfl | rfl
    · simp [Turn.views,unbatched] at row
    · have short : i < 1 := by
        obtain ⟨batch,batched,length⟩ := Option.map_eq_some_iff.mp single
        simpa [Turn.views,batched,length] using row
      obtain rfl : i = 0 := Nat.lt_one_iff.mp short
      obtain rfl : j = 0 := Nat.lt_one_iff.mp column
      exact draft
  have joint := Joint.turn (Joint.turn .start ran ran' first) idle idle' second
  have held : (3,4) ∈ ready.reqStates.reqIdToIndex := by simp [table]
  have held' : (3,9) ∈ ready'.reqStates.reqIdToIndex := by simp [table']
  obtain ⟨_,states,drafts,_⟩ := ranks_agree sample_documented ⟨decodeStep,last,decodeStep,last⟩ joint rfl
    prepares prepares' stepped held held'
  have settled : inFlight (twoRanks.worldSize - 1) _ 3 = [] := List.length_eq_zero_iff.mp spaced
  have states := states rfl whole
  have drafts := drafts rfl calm rfl fresh 0 Nat.zero_lt_one
  rw [settled] at states drafts
  exact ⟨_,one',two',ready,freed,ready',freed',joint,prepares,prepares',states,drafts,state⟩

end Glm5Next.RankAgreement
