import Glm5Next.ScalarAlign

namespace Glm5Next.AlignLockstep
open MambaAlign AlignKernels PointUpdates TiledGrid ScalarAlign Lockstep
variable {ReqId : Type}

structure Seat where
  slot : Nat
  seed : Option Nat
  deriving DecidableEq, Repr

section Rules
variable [DecidableEq ReqId]

def leave (roster : ReqId → Option Seat) (step : Step ReqId) : ReqId → Option Seat :=
  fun reqId => if reqId ∈ step.leaving then none else roster reqId

def join (roster : ReqId → Option Seat) (step : Step ReqId) : ReqId → Option Seat :=
  modifies (fun _ (new : NewRequest ReqId) _ => some ⟨new.slot,some new.numComputed⟩) roster
    (step.added.map fun new => (new.reqId,new))

def start (roster : ReqId → Option Seat) (step : Step ReqId) : ReqId → Option Seat :=
  modifies (fun _ _ seat => seat.map fun seat => { seat with seed := none }) roster step.byRequest

-- A request is added where it is unknown, at a free slot. The rows of a step
-- name distinct requests at their slots; the first one sees the count the
-- request was added with.
structure Allowed (roster : ReqId → Option Seat) (step : Step ReqId) : Prop where
  ids : (step.added.map NewRequest.reqId).Nodup
  slots : (step.added.map NewRequest.slot).Nodup
  unknown : ∀ new ∈ step.added, leave roster step new.reqId = none
  free : ∀ new ∈ step.added, ∀ reqId seat, leave roster step reqId = some seat → seat.slot ≠ new.slot
  rows : (step.rows.map Row.reqId).Nodup
  seated : ∀ row ∈ step.rows, ∃ seed, join (leave roster step) step row.reqId = some ⟨row.slot,seed⟩ ∧
    ∀ count ∈ seed, count = row.numComputed

def histories (ReqId : Type) [DecidableEq ReqId] : Rules (ReqId → Option Seat) (Step ReqId) where
  Allowed := Allowed
  next roster step := start (join (leave roster step) step) step

end Rules

structure Waits (ac : AlignConfig) (count : Nat) (e : Entry) (a : AlignState) : Prop where
  absent : e.mambaStateIdx = none
  seeded : a.stateIdx = ((count : Int) - 1) / ac.blockSize
  fresh : e.numAccepted = 1
  one : a.numAccepted = 1

structure Runs (e : Entry) (a : AlignState) : Prop where
  column : e.mambaStateIdx = some a.stateIdx
  low : -1 ≤ a.stateIdx
  accepted : e.numAccepted = a.numAccepted
  counted : 0 < a.numAccepted

inductive Matched (ac : AlignConfig) (align : Nat → AlignState) : Option Seat → Entry → Prop where
  | away (absent : e.mambaStateIdx = none) : Matched ac align none e
  | waits (waiting : Waits ac count e (align slot)) : Matched ac align (some ⟨slot,some count⟩) e
  | runs (running : Runs e (align slot)) : Matched ac align (some ⟨slot,none⟩) e

structure Related (ac : AlignConfig) (roster : ReqId → Option Seat) (s : ReqId → Entry) (align : Nat → AlignState) :
    Prop where
  matched : ∀ reqId, Matched ac align (roster reqId) (s reqId)
  apart : ∀ one two seat other, roster one = some seat → roster two = some other → seat.slot = other.slot → one = two

section Matching
variable {ac : AlignConfig} {align after : Nat → AlignState} {e : Entry} {a : AlignState}

theorem Matched.elsewhere (matched : Matched ac align seat e) (same : ∀ s ∈ seat, after s.slot = align s.slot) :
    Matched ac after seat e := by
  cases matched with
  | away absent => exact .away absent
  | waits waiting => exact .waits (by rw [same _ rfl]; exact waiting)
  | runs running => exact .runs (by rw [same _ rfl]; exact running)

theorem added_waits (ac : AlignConfig) (count : Nat) (a : AlignState) (absent : e.mambaStateIdx = none) :
    Waits ac count { e with numAccepted := 1 } (addRequest ac.cacheBlockSize count a) where
  absent := absent
  seeded := by rw [← ac.block_same]; rfl
  fresh := rfl
  one := rfl

theorem new_column_low (blockSize computedAfter : Nat) : -1 ≤ newStateIdx blockSize computedAfter := by
  unfold newStateIdx
  generalize (computedAfter + blockSize - 1) / blockSize = blocks
  omega

theorem Matched.read {row : Row ReqId} (matched : Matched ac align (some ⟨row.slot,seed⟩) e)
    (seen : ∀ count ∈ seed, count = row.numComputed) :
    prevStateIdx ac row e = (align row.slot).stateIdx ∧ -1 ≤ (align row.slot).stateIdx ∧
      e.numAccepted = (align row.slot).numAccepted ∧ 0 < (align row.slot).numAccepted := by
  cases matched with
  | waits waiting =>
      obtain ⟨absent,seeded,fresh,one⟩ := waiting
      have positive := ac.block_pos
      cases seen _ rfl
      refine ⟨by rw [prevStateIdx,absent,seeded]; rfl,?_,fresh.trans one.symm,by rw [one]; decide⟩
      rw [seeded]
      exact Int.le_ediv_of_mul_le (by omega) (by omega)
  | runs running =>
      obtain ⟨column,low,accepted,counted⟩ := running
      exact ⟨by rw [prevStateIdx,column]; rfl,low,accepted,counted⟩

theorem Matched.preprocess {row : Row ReqId} (matched : Matched ac align (some ⟨row.slot,seed⟩) e)
    (seen : ∀ count ∈ seed, count = row.numComputed) :
    let after := preprocessMambaAlign ac.blockSize (row.numComputed + row.numScheduled) (align row.slot)
    Runs (preprocessRow ac row e).1 after ∧ (preprocessRow ac row e).2 = fusedMigration after := by
  obtain ⟨prev,low,accepted,counted⟩ := matched.read seen
  have same := preprocess_same prev low accepted counted
  have positive : 0 < (preprocessMambaAlign ac.blockSize (row.numComputed + row.numScheduled) (align row.slot)).numAccepted := by
    simp only [preprocessMambaAlign]
    split
    · exact Nat.one_pos
    · exact counted
  exact ⟨by rw [same]; exact ⟨rfl,new_column_low _ _,rfl,positive⟩,by rw [same]⟩

-- Where the loop stages arrays for the precopy kernel, no assertion fails and
-- the kernel copies what the scalar loop copies.
theorem Matched.staged {row : Row ReqId} (matched : Matched ac align (some ⟨row.slot,seed⟩) e)
    (seen : ∀ count ∈ seed, count = row.numComputed) :
    ∃ staged, stageRow ac row e = some ((preprocessRow ac row e).1,staged) ∧
      precopyStaged staged =
        (fusedMigration (preprocessMambaAlign ac.blockSize (row.numComputed + row.numScheduled) (align row.slot))).copy := by
  obtain ⟨_,low,accepted,counted⟩ := matched.read seen
  have kept : ∀ column, e.mambaStateIdx = some column → -1 ≤ column := by
    intro column entry
    cases matched with
    | waits waiting => exact absurd (entry.symm.trans waiting.absent) nofun
    | runs running =>
        cases entry.symm.trans running.column
        exact low
  obtain ⟨staged,stages,copies,_⟩ := @staged_same _ ac row e kept (by omega)
  exact ⟨staged,stages,by rw [copies,(matched.preprocess seen).2]⟩

theorem Runs.scatter (running : Runs e a) (numSampled : Nat) :
    Runs { e with numAccepted := max numSampled 1 } (scatterNumAccepted numSampled a) where
  column := running.column
  low := running.low
  accepted := rfl
  counted := Nat.lt_of_lt_of_le Nat.one_pos (Nat.le_max_right _ _)

theorem Runs.settlement (ac : AlignConfig) (running : Runs e a) (row : Row ReqId) :
    scalarSettlement ac row e = some (fusedSettlement ac row a) := by
  rw [scalarSettlement,running.column,Option.map_some,running.accepted,fusedSettlement,precomputed_same]

theorem Runs.settle (running : Runs e a) (settlement : Settlement) :
    Runs (if settlement.reset then { e with numAccepted := 1 } else e)
      (if settlement.reset then { a with numAccepted := 1 } else a) := by
  cases settlement.reset with
  | true => exact ⟨running.column,running.low,rfl,Nat.one_pos⟩
  | false => exact running

end Matching

section Phases
variable [DecidableEq ReqId] {ac : AlignConfig} {roster : ReqId → Option Seat} {s : ReqId → Entry}
  {align : Nat → AlignState} {step : Step ReqId}

theorem cleanup_exact (ids : List ReqId) (s : ReqId → Entry) (reqId : ReqId) :
    ids.foldl (fun s reqId => modify s reqId fun e => { e with mambaStateIdx := none }) s reqId =
      if reqId ∈ ids then { s reqId with mambaStateIdx := none } else s reqId := by
  induction ids generalizing s with
  | nil => rfl
  | cons id rest ih =>
      rw [List.foldl_cons,ih]
      by_cases same : reqId = id
      · simp [PointUpdates.modify,same]
      · simp [PointUpdates.modify,same]

theorem enroll_cleanup (step : Step ReqId) (s : ReqId → Entry) :
    cleanupMambaStateIdx step (enroll step s) = enroll step (cleanupMambaStateIdx step s) := by
  have cleaned : ∀ s, cleanupMambaStateIdx step s = fun reqId =>
      if reqId ∈ step.leaving then { s reqId with mambaStateIdx := none } else s reqId :=
    fun s => funext fun reqId => cleanup_exact step.leaving s reqId
  rw [cleaned,cleaned,enroll,enroll]
  refine (modifies_map _ (fun reqId e => if reqId ∈ step.leaving then { e with mambaStateIdx := none } else e)
    (fun reqId _ e => ?_) s _).symm
  split <;> rfl

theorem leave_related (related : Related ac roster s align) (step : Step ReqId) :
    Related ac (leave roster step) (cleanupMambaStateIdx step s) align := by
  have kept : ∀ reqId seat, leave roster step reqId = some seat → roster reqId = some seat := by
    intro reqId seat found
    unfold leave at found
    split at found
    · cases found
    · exact found
  refine ⟨fun reqId => ?_,fun one two seat other first second => related.apart one two seat other (kept _ _ first) (kept _ _ second)⟩
  rw [cleanupMambaStateIdx,cleanup_exact,leave]
  split
  · exact .away rfl
  · exact related.matched reqId

theorem join_new (ids : (step.added.map NewRequest.reqId).Nodup) (member : new ∈ step.added) :
    join roster step new.reqId = some ⟨new.slot,some new.numComputed⟩ := row_exact _ _ ids member

theorem join_kept (roster : ReqId → Option Seat) (unlisted : reqId ∉ step.added.map NewRequest.reqId) :
    join roster step reqId = roster reqId := row_apart _ _ unlisted

theorem join_cases (ids : (step.added.map NewRequest.reqId).Nodup) (found : join roster step reqId = some seat) :
    (∃ new ∈ step.added, new.reqId = reqId ∧ new.slot = seat.slot) ∨ roster reqId = some seat := by
  by_cases listed : reqId ∈ step.added.map NewRequest.reqId
  · obtain ⟨new,member,rfl⟩ := List.mem_map.mp listed
    rw [join_new ids member] at found
    cases found
    exact .inl ⟨new,member,rfl,rfl⟩
  · exact .inr ((join_kept roster listed).symm.trans found)

theorem Matched.absent (matched : Matched ac align none e) : e.mambaStateIdx = none := by
  cases matched with
  | away absent => exact absent

theorem join_matched (related : Related ac (leave roster step) s align) (allowed : Allowed roster step) (reqId : ReqId) :
    Matched ac (fusedAdd ac step align) (join (leave roster step) step reqId) (enroll step s reqId) := by
  unfold enroll fusedAdd
  by_cases listed : reqId ∈ step.added.map NewRequest.reqId
  · obtain ⟨new,member,rfl⟩ := List.mem_map.mp listed
    have before := related.matched new.reqId
    rw [allowed.unknown new member] at before
    rw [join_new allowed.ids member,row_exact _ s allowed.ids member]
    refine .waits ?_
    rw [row_exact _ align allowed.slots member]
    exact added_waits ac new.numComputed _ before.absent
  · rw [join_kept _ listed,row_apart _ s listed]
    refine (related.matched reqId).elsewhere fun seat found => row_apart _ _ fun taken => ?_
    obtain ⟨new,member,same⟩ := List.mem_map.mp taken
    exact allowed.free new member reqId seat found same.symm

theorem join_related (related : Related ac (leave roster step) s align) (allowed : Allowed roster step) :
    Related ac (join (leave roster step) step) (enroll step s) (fusedAdd ac step align) := by
  refine ⟨join_matched related allowed,?_⟩
  intro one two seat other first second same
  rcases join_cases allowed.ids first with ⟨new,member,rfl,here⟩ | first
  · rcases join_cases allowed.ids second with ⟨newer,joined,rfl,there⟩ | second
    · rw [List.inj_on_of_nodup_map allowed.slots member joined (here.trans (same.trans there.symm))]
    · exact absurd (here.trans same).symm (allowed.free new member two other second)
  · rcases join_cases allowed.ids second with ⟨newer,joined,rfl,there⟩ | second
    · exact absurd (same.trans there.symm) (allowed.free newer joined one seat first)
    · exact related.apart one two seat other first second same

omit [DecidableEq ReqId] in
theorem slots_distinct (related : Related ac roster s align) {rows : List (Row ReqId)}
    (ids : (rows.map Row.reqId).Nodup) (seated : ∀ row ∈ rows, ∃ seed, roster row.reqId = some ⟨row.slot,seed⟩) :
    (rows.map Row.slot).Nodup := by
  refine List.Nodup.map_on (fun row member other also same => ?_) ids.of_map
  obtain ⟨_,first⟩ := seated row member
  obtain ⟨_,second⟩ := seated other also
  exact List.inj_on_of_nodup_map ids member also (related.apart _ _ _ _ first second same)

theorem turn_related {X : Type} {rows : List (Row ReqId)} {after : ReqId → Option Seat} (arg : Row ReqId → X)
    (change : X → Entry → Entry) (turn : X → AlignState → AlignState) (related : Related ac roster s align)
    (ids : (rows.map Row.reqId).Nodup) (seated : ∀ row ∈ rows, ∃ seed, roster row.reqId = some ⟨row.slot,seed⟩)
    (placed : ∀ row ∈ rows, after row.reqId = some ⟨row.slot,none⟩)
    (kept : ∀ reqId, reqId ∉ rows.map Row.reqId → after reqId = roster reqId)
    (runs : ∀ row ∈ rows, Runs (change (arg row) (s row.reqId)) (turn (arg row) (align row.slot))) :
    Related ac after (modifies (fun _ => change) s (rows.map fun row => (row.reqId,arg row)))
      (modifies (fun _ => turn) align (rows.map fun row => (row.slot,arg row))) := by
  have slots := slots_distinct related ids seated
  constructor
  · intro reqId
    by_cases listed : reqId ∈ rows.map Row.reqId
    · obtain ⟨row,member,rfl⟩ := List.mem_map.mp listed
      rw [placed row member,row_exact _ s ids member]
      refine .runs ?_
      rw [row_exact _ align slots member]
      exact runs row member
    · rw [kept reqId listed,row_apart _ s listed]
      refine (related.matched reqId).elsewhere fun seat found => row_apart _ _ fun taken => ?_
      obtain ⟨row,member,same⟩ := List.mem_map.mp taken
      obtain ⟨_,sits⟩ := seated row member
      cases related.apart _ _ _ _ sits found same
      exact listed (List.mem_map_of_mem member)
  · have before : ∀ reqId seat, after reqId = some seat → ∃ old, roster reqId = some old ∧ old.slot = seat.slot := by
      intro reqId seat found
      by_cases listed : reqId ∈ rows.map Row.reqId
      · obtain ⟨row,member,rfl⟩ := List.mem_map.mp listed
        obtain ⟨_,sits⟩ := seated row member
        rw [placed row member] at found
        cases found
        exact ⟨_,sits,rfl⟩
      · exact ⟨seat,(kept reqId listed).symm.trans found,rfl⟩
    intro one two seat other first second same
    obtain ⟨old,first,here⟩ := before one seat first
    obtain ⟨older,second,there⟩ := before two other second
    exact related.apart one two old older first second (here.trans (same.trans there.symm))

end Phases

section Steps
variable [DecidableEq ReqId] {ac : AlignConfig} {roster : ReqId → Option Seat} {s : ReqId → Entry}
  {align : Nat → AlignState} {step : Step ReqId}

theorem mapM_found {A B : Type} {f : A → Option B} {g : A → B} (xs : List A) (found : ∀ x ∈ xs, f x = some (g x)) :
    xs.mapM f = some (xs.map g) := by
  induction xs with
  | nil => rfl
  | cons x rest ih =>
      rw [List.mapM_cons,found x List.mem_cons_self,ih fun y member => found y (List.mem_cons_of_mem _ member)]
      rfl

theorem start_placed (allowed : Allowed roster step) {row : Row ReqId} (member : row ∈ step.rows) :
    start (join (leave roster step) step) step row.reqId = some ⟨row.slot,none⟩ := by
  obtain ⟨_,sits,_⟩ := allowed.seated row member
  rw [start,Step.byRequest,row_exact _ _ allowed.rows member,sits]
  rfl

theorem start_kept (roster : ReqId → Option Seat) (unlisted : reqId ∉ step.rows.map Row.reqId) :
    start roster step reqId = roster reqId := row_apart _ _ unlisted

theorem Matched.runs_at (matched : Matched ac align (some ⟨slot,none⟩) e) : Runs e (align slot) := by
  cases matched with
  | runs running => exact running

theorem prepared_related (related : Related ac (join (leave roster step) step) s align) (allowed : Allowed roster step) :
    Related ac (start (join (leave roster step) step) step)
      (modifies (fun _ row e => (preprocessRow ac row e).1) s step.byRequest) (fusedPreprocess ac step align) := by
  apply turn_related (fun row => row) (fun row e => (preprocessRow ac row e).1)
    (fun row => preprocessMambaAlign ac.blockSize (row.numComputed + row.numScheduled)) related allowed.rows
  · intro row member
    exact ⟨_,(allowed.seated row member).choose_spec.1⟩
  · exact fun row member => start_placed allowed member
  · exact fun reqId unlisted => start_kept _ unlisted
  · intro row member
    obtain ⟨seed,sits,seen⟩ := allowed.seated row member
    have matched := related.matched row.reqId
    rw [sits] at matched
    exact (matched.preprocess seen).1

theorem migration_same (related : Related ac (join (leave roster step) step) s align) (allowed : Allowed roster step)
    (member : row ∈ step.rows) :
    (preprocessRow ac row (s row.reqId)).2 = fusedMigration (fusedPreprocess ac step align row.slot) := by
  have slots := slots_distinct related allowed.rows fun row member => ⟨_,(allowed.seated row member).choose_spec.1⟩
  obtain ⟨seed,sits,seen⟩ := allowed.seated row member
  have matched := related.matched row.reqId
  rw [sits] at matched
  rw [fusedPreprocess,Step.bySlot,row_exact _ align slots member]
  exact (matched.preprocess seen).2

-- After the preprocess the rows of the step run, and stay where they are.
structure Underway (roster : ReqId → Option Seat) (step : Step ReqId) : Prop where
  ids : (step.rows.map Row.reqId).Nodup
  placed : ∀ row ∈ step.rows, roster row.reqId = some ⟨row.slot,none⟩

theorem Underway.turn {X : Type} (underway : Underway roster step) (related : Related ac roster s align)
    (arg : Row ReqId → X) (change : X → Entry → Entry) (turn : X → AlignState → AlignState)
    (runs : ∀ row ∈ step.rows, ∀ e a, Runs e a → Runs (change (arg row) e) (turn (arg row) a)) :
    Related ac roster (modifies (fun _ => change) s (step.rows.map fun row => (row.reqId,arg row)))
      (modifies (fun _ => turn) align (step.rows.map fun row => (row.slot,arg row))) := by
  apply turn_related arg change turn related underway.ids
  · exact fun row member => ⟨none,underway.placed row member⟩
  · exact underway.placed
  · exact fun _ _ => rfl
  · intro row member
    have matched := related.matched row.reqId
    rw [underway.placed row member] at matched
    exact runs row member _ _ matched.runs_at

omit [DecidableEq ReqId] in
theorem Underway.runs (underway : Underway roster step) (related : Related ac roster s align) (member : row ∈ step.rows) :
    Runs (s row.reqId) (align row.slot) := by
  have matched := related.matched row.reqId
  rw [underway.placed row member] at matched
  exact matched.runs_at

theorem scalar_step_exact {ac : AlignConfig} {prepared : ReqId → Entry}
    (preprocessed : preprocessMamba ac step (enroll step s) = (prepared,migrations))
    (settled : (step.rows.mapM fun row => scalarSettlement ac row (countSampled step prepared row.reqId)) = some settlements) :
    scalarStep ac s step =
      some (resetCounts step settlements (countSampled step prepared),⟨migrations,settlements⟩) := by
  simp [scalarStep,preprocessed,settled]

-- Every step reports the same on both sides and keeps them related.
theorem step_agree (ac : AlignConfig) :
    Agree (histories ReqId) (scalarStep ac) (fun align step => some (fusedStep ac align step)) (Related ac) := by
  intro roster s align step related allowed
  have joined := join_related (leave_related related step) allowed
  rw [← enroll_cleanup] at joined
  have underway : Underway ((histories ReqId).next roster step) step :=
    ⟨allowed.rows,fun row member => start_placed allowed member⟩
  have counted := underway.turn (prepared_related joined allowed) (fun row => row)
    (fun row e => { e with numAccepted := max row.numSampled 1 }) (fun row => scatterNumAccepted row.numSampled)
    fun row _ _ _ running => running.scatter row.numSampled
  have swept : preprocessMamba ac step (enroll step s) = _ :=
    rows_sweep (preprocessRow ac) (cleanupMambaStateIdx step (enroll step s)) allowed.rows
  have migrated := List.map_congr_left fun (row : Row ReqId) member => migration_same joined allowed member
  have settled := mapM_found step.rows fun row member => Runs.settlement ac (underway.runs counted member) row
  have reset := underway.turn counted
    (fun row => fusedSettlement ac row (fusedScatter step (fusedPreprocess ac step (fusedAdd ac step align)) row.slot))
    (fun settlement e => if settlement.reset then { e with numAccepted := 1 } else e)
    (fun settlement a => if settlement.reset then { a with numAccepted := 1 } else a)
    fun row _ _ _ running => running.settle _
  refine ⟨_,_,_,scalar_step_exact (swept.trans (congrArg (Prod.mk _) migrated)) settled,rfl,?_⟩
  rw [resetCounts,fusedReset,List.zip_map',List.zip_map']
  exact reset

-- From the empty dictionary, whatever the arrays of the GPU still hold, both
-- paths decide the same in every step of every history. The second part is
-- about the postprocess kernel alone.
theorem fused_refines_scalar (ac : AlignConfig) (counts : ReqId → Nat) (align : Nat → AlignState)
    (history : List (Step ReqId)) (allowed : (histories ReqId).AllowedAll (fun _ => none) history) :
    (∃ outcomes, (trace (scalarStep ac) (fun reqId => ⟨none,counts reqId⟩) history).map Prod.snd = some outcomes ∧
      (trace (fun align step => some (fusedStep ac align step)) align history).map Prod.snd = some outcomes) ∧
    ∀ numAccepted srcBlockIdx numComputed numScheduled numDraft : Int,
      postprocessDecision ac.blockSize numAccepted srcBlockIdx
          (.precomputed (numComputed + numScheduled - numDraft + numAccepted - 1)) =
        postprocessDecision ac.blockSize numAccepted srcBlockIdx (.counted numComputed numScheduled numDraft) := by
  have nobody : Related ac (fun _ => none) (fun reqId : ReqId => ⟨none,counts reqId⟩) align :=
    ⟨fun _ => .away rfl,fun _ _ _ _ found => nomatch found⟩
  obtain ⟨_,_,outcomes,scalar,fused,_⟩ := traces_agree (step_agree ac) history nobody allowed
  exact ⟨⟨outcomes,by rw [scalar]; rfl,by rw [fused]; rfl⟩,fun _ _ _ _ _ => precomputed_same _ _ _ _ _ _⟩

end Steps

theorem six_pos : 0 < 6 := Nat.succ_pos 5

def sampleConfig : AlignConfig where
  blockSize := 6
  cacheBlockSize := 6
  maxBlocks := 11
  numSpeculativeBlocks := 2
  states := []
  block_pos := six_pos
  block_same := rfl

def sampleHistory : List (Step Nat) :=
  [⟨[],[],[],[⟨7,3,0⟩],[⟨7,3,0,8,0,1⟩]⟩,
    ⟨[],[],[],[],[⟨7,3,8,6,5,5⟩]⟩,
    ⟨[],[],[7],[⟨7,5,12⟩],[⟨7,5,12,2,1,2⟩]⟩]

theorem sample_allowed : (histories Nat).AllowedAll (fun _ => none) sampleHistory := by
  refine ⟨⟨by decide,by decide,?_,?_,by decide,?_⟩,⟨by decide,by decide,nofun,nofun,by decide,?_⟩,
    ⟨by decide,by decide,?_,?_,by decide,?_⟩,trivial⟩
  · simp [leave]
  · simp [leave]
  · intro row member
    cases List.mem_singleton.mp member
    exact ⟨_,rfl,by decide⟩
  · intro row member
    cases List.mem_singleton.mp member
    exact ⟨_,rfl,by decide⟩
  · intro row member
    cases List.mem_singleton.mp member
    rfl
  · intro row member reqId seat found
    cases List.mem_singleton.mp member
    by_cases same : reqId = 7
    · subst same
      cases found
    · simp [histories,leave,start,join,modifies,PointUpdates.modify,Step.leaving,Step.byRequest,same] at found
  · intro row member
    cases List.mem_singleton.mp member
    exact ⟨_,rfl,by decide⟩

theorem sample_refines :
    (∃ outcomes, (trace (scalarStep sampleConfig) (fun _ => ⟨none,0⟩) sampleHistory).map Prod.snd = some outcomes ∧
      (trace (fun align step => some (fusedStep sampleConfig align step)) (fun _ => ⟨5,2,5,1⟩) sampleHistory).map
        Prod.snd = some outcomes) ∧
    ∀ numAccepted srcBlockIdx numComputed numScheduled numDraft : Int,
      postprocessDecision 6 numAccepted srcBlockIdx
          (.precomputed (numComputed + numScheduled - numDraft + numAccepted - 1)) =
        postprocessDecision 6 numAccepted srcBlockIdx (.counted numComputed numScheduled numDraft) :=
  fused_refines_scalar sampleConfig (fun _ => 0) (fun _ => ⟨5,2,5,1⟩) sampleHistory sample_allowed

end Glm5Next.AlignLockstep
