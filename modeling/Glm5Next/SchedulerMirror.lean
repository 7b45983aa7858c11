import Glm5Next.SlotOwners

namespace Glm5Next.SchedulerMirror
open PpUtils WorkerLoop SlotOwners
variable {ReqId M : Type}

structure MirrorEntry where
  numComputedTokens : Nat
  prefillLen : Nat
  maxSeqLen : Nat
  deriving DecidableEq, Repr

-- The CPU mirrors of all requests, without slots: a function of the scheduler
-- outputs alone, hence the same on every rank.
abbrev Mirrors (ReqId : Type) := ReqId → Option MirrorEntry

def entryAt (s : ReqStates ReqId) (slot : Nat) : MirrorEntry :=
  ⟨s.numComputedTokensNp slot,s.prefillLenNp slot,s.maxSeqLen slot⟩

-- What a row shows of its request, its slot aside.
abbrev RowView (ReqId : Type) := ReqId × Option MirrorEntry × Nat

def viewRow (row : BatchRow ReqId) : RowView ReqId :=
  (row.reqId,some ⟨row.numComputedTokens,row.prefillLen,row.maxSeqLen⟩,row.numScheduledTokens)

def viewNeeded (view : RowView ReqId) : Bool :=
  view.2.1.elim false fun entry =>
    decide (entry.prefillLen ≤ entry.numComputedTokens + view.2.2) &&
      decide (max entry.numComputedTokens entry.prefillLen + 1 < entry.maxSeqLen)

theorem mask_view (batch : InputBatch ReqId) :
    computeNeedSampledMask batch =
      if ((batch.map viewRow).map viewNeeded).any id then some ((batch.map viewRow).map viewNeeded) else none := by
  unfold computeNeedSampledMask
  simp only [List.map_map]
  rfl

variable [DecidableEq ReqId] {cfg : Config} {dev : Device ReqId M}

def mirrors (s : ReqStates ReqId) : Mirrors ReqId := fun reqId => (s.index reqId).map (entryAt s)

def removeMirrors (m : Mirrors ReqId) (ids : List ReqId) : Mirrors ReqId :=
  fun reqId => if reqId ∈ ids then none else m reqId

def addMirror (m : Mirrors ReqId) (new : NewRequestData ReqId) : Mirrors ReqId :=
  fun reqId => if reqId = new.reqId then some ⟨new.numComputedTokens,new.prefillLen,new.maxSeqLen⟩ else m reqId

def updateMirror (m : Mirrors ReqId) (req : CachedRequestData ReqId) : Mirrors ReqId :=
  fun reqId => if reqId = req.reqId then
    (m reqId).map fun entry => { entry with numComputedTokens := req.numComputedTokens } else m reqId

def stepMirrors (m : Mirrors ReqId) (out : SchedulerOutput ReqId) : Mirrors ReqId :=
  out.scheduledCachedReqs.foldl updateMirror
    (out.scheduledNewReqs.foldl addMirror (removeMirrors m (out.finishedReqIds ++ out.preemptedReqIds)))

def batchViews (decodeQueryLen : Nat) (m : Mirrors ReqId) (out : SchedulerOutput ReqId) : List (RowView ReqId) :=
  (sortBatchReqIds decodeQueryLen out).map fun req => (req.1,m req.1,req.2)

theorem mirror_exact (s : ReqStates ReqId) (held : (reqId,slot) ∈ s.reqIdToIndex) :
    mirrors s reqId = some (entryAt s slot) := by
  simp [mirrors,(index_exact s reqId slot).mpr held]

theorem mirror_absent (s : ReqStates ReqId) (absent : ∀ slot, (reqId,slot) ∉ s.reqIdToIndex) :
    mirrors s reqId = none := by
  simp [mirrors,(index_none s reqId).mpr absent]

-- Tables that hold the same request in the same slot show the same mirror when
-- the arrays agree on the slot.
theorem mirror_same (s t : ReqStates ReqId) (table : ∀ slot, (reqId,slot) ∈ t.reqIdToIndex ↔ (reqId,slot) ∈ s.reqIdToIndex)
    (arrays : ∀ slot, (reqId,slot) ∈ s.reqIdToIndex → entryAt t slot = entryAt s slot) :
    mirrors t reqId = mirrors s reqId := by
  cases found : s.index reqId with
  | none =>
      have absent := (index_none s reqId).mp found
      rw [mirror_absent s absent,mirror_absent t fun slot held => absent slot ((table slot).mp held)]
  | some slot =>
      have held := (index_exact s reqId slot).mp found
      rw [mirror_exact s held,mirror_exact t ((table slot).mpr held),arrays slot held]

theorem remove_mirror (r : Runner ReqId M) (gone : ReqId) :
    mirrors (removeRequest r gone).1.reqStates = removeMirrors (mirrors r.reqStates) [gone] := by
  funext reqId
  have table := remove_entries r gone
  have arrays : entryAt (removeRequest r gone).1.reqStates = entryAt r.reqStates := by
    unfold removeRequest
    cases found : r.reqStates.index gone <;> simp [ReqStates.removeRequest,found] <;> rfl
  by_cases same : reqId = gone
  · subst same
    rw [mirror_absent _ (by simp [table])]
    simp [removeMirrors]
  · rw [mirror_same r.reqStates _ (by simp [table,same]) (by simp [arrays])]
    simp [removeMirrors,same]

theorem removes_mirror (r : Runner ReqId M) (ids : List ReqId) :
    mirrors (removeRequests r ids).1.reqStates = removeMirrors (mirrors r.reqStates) ids := by
  induction ids generalizing r with
  | nil => funext reqId; simp [removeRequests,removeMirrors]
  | cons gone rest ih =>
      simp only [removeRequests]
      rw [ih,remove_mirror]
      funext reqId
      by_cases same : reqId = gone <;> simp [removeMirrors,same]

theorem add_mirror (s next : ReqStates ReqId) (added : s.addRequest new slot = some next) :
    mirrors next = addMirror (mirrors s) new := by
  obtain ⟨unlisted,free,table⟩ := add_parts added
  funext reqId
  have arrays : ∀ i, entryAt next i = if i = slot then
      ⟨new.numComputedTokens,new.prefillLen,new.maxSeqLen⟩ else entryAt s i := by
    intro i
    unfold ReqStates.addRequest at added
    split at added
    · cases added
      by_cases here : i = slot <;> simp [entryAt,here]
    · cases added
  by_cases same : reqId = new.reqId
  · subst same
    have held : (new.reqId,slot) ∈ next.reqIdToIndex := by rw [table]; simp
    rw [mirror_exact next held,arrays]
    simp [addMirror]
  · rw [mirror_same s next]
    · simp [addMirror,same]
    · intro i
      rw [table]
      simp [same]
    · intro i held
      have other : i ≠ slot := fun equal => free (List.mem_map.mpr ⟨_,held,equal⟩)
      rw [arrays,if_neg other]

theorem adds_mirror (news : List (NewRequestData ReqId)) (slots : List Nat) (r next : Runner ReqId M)
    (added : addRequests dev r news slots = some (next,freed)) :
    mirrors next.reqStates = news.foldl addMirror (mirrors r.reqStates) := by
  induction news generalizing r slots freed with
  | nil =>
      obtain ⟨rfl,rfl⟩ : r = next ∧ [] = freed := by simpa [addRequests] using added
      rfl
  | cons new rest ih =>
      cases slots with
      | nil => cases added
      | cons slot slots =>
          simp only [addRequests,Option.bind_eq_bind,Option.bind_eq_some_iff,Option.pure_def,
            Option.some.injEq,Prod.mk.injEq,Prod.exists] at added
          obtain ⟨reqStates,inserted,last,later,ran,rfl,rfl⟩ := added
          rw [ih slots _ ran,List.foldl_cons]
          congr 1
          dsimp only
          rw [add_mirror _ reqStates inserted,remove_mirror]
          -- the old incarnation of a re-added request is overwritten anyway
          funext reqId
          by_cases same : reqId = new.reqId <;> simp [addMirror,removeMirrors,same]

theorem updates_mirror (reqs : List (CachedRequestData ReqId)) (r next : Runner ReqId M)
    (updated : updateRequests dev r reqs = some next) :
    mirrors next.reqStates = reqs.foldl updateMirror (mirrors r.reqStates) := by
  induction reqs generalizing r with
  | nil =>
      obtain rfl : r = next := by simpa [updateRequests] using updated
      rfl
  | cons req rest ih =>
      simp only [updateRequests,updateRequest,Option.bind_eq_bind,Option.bind_eq_some_iff,
        Option.pure_def,Option.some.injEq] at updated
      obtain ⟨middle,⟨reqIndex,found,rfl⟩,ran⟩ := updated
      have held := (index_exact _ _ _).mp found
      rw [ih _ ran,List.foldl_cons]
      congr 1
      funext reqId
      by_cases same : reqId = req.reqId
      · subst same
        simp only [updateMirror,if_true,mirror_exact r.reqStates held,Option.map_some]
        have moved : ∀ t : ReqStates ReqId, t.reqIdToIndex = r.reqStates.reqIdToIndex →
            mirrors t req.reqId = some (entryAt t reqIndex) :=
          fun t table => mirror_exact t (table ▸ held)
        refine Eq.trans (moved _ ?_) ?_
        · rfl
        · simp [entryAt]
      · simp only [updateMirror,same,if_false]
        refine mirror_same _ _ (fun slot => Iff.rfl) ?_
        intro slot other
        have apart : slot ≠ reqIndex := by
          intro equal
          exact same (owner_unique r.reqStates (equal ▸ other) held)
        simp [entryAt,apart]

theorem batch_views {s : ReqStates ReqId} {out : SchedulerOutput ReqId}
    (batched : prepareInputs decodeQueryLen s out = some batch) :
    batch.map viewRow = batchViews decodeQueryLen (mirrors s) out := by
  refine mapM_map ?_ batched
  intro req row built
  simp only [batchRow,Option.bind_eq_bind,Option.bind_eq_some_iff,Option.pure_def,Option.some.injEq] at built
  obtain ⟨idx,found,rfl⟩ := built
  rw [mirror_exact s ((index_exact s _ _).mp found)]
  rfl

end Glm5Next.SchedulerMirror
