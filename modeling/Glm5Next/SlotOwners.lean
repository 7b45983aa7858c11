import Glm5Next.WorkerLoop

namespace Glm5Next.SlotOwners
open PpUtils WorkerLoop
variable {ReqId M : Type}

theorem owner_unique (s : ReqStates ReqId) (one : (a,slot) ∈ s.reqIdToIndex)
    (two : (b,slot) ∈ s.reqIdToIndex) : a = b :=
  congrArg Prod.fst (List.inj_on_of_nodup_map s.slots_nodup one two rfl)

theorem slot_unique (s : ReqStates ReqId) (one : (a,i) ∈ s.reqIdToIndex)
    (two : (a,j) ∈ s.reqIdToIndex) : i = j :=
  congrArg Prod.snd (List.inj_on_of_nodup_map s.ids_nodup one two rfl)

-- What a phase of the step did to the slots: `freed` lists the slots it freed,
-- and nothing else about ownership or counters changed for the slots it kept.
structure Frees (before after : Runner ReqId M) (freed : List Nat) : Prop where
  queue : after.ppHandler.queue = before.ppHandler.queue
  rank : after.ppHandler.isLastRank = before.ppHandler.isLastRank
  counter : ∀ slot, after.ppHandler.reqIdxGen slot =
    before.ppHandler.reqIdxGen slot + BitVec.ofNat 32 (freed.count slot)
  keeps : ∀ reqId slot, (reqId,slot) ∈ before.reqStates.reqIdToIndex → slot ∉ freed →
    (reqId,slot) ∈ after.reqStates.reqIdToIndex
  owned : ∀ slot ∈ freed, slot ∈ before.reqStates.slots

theorem Frees.refl (r : Runner ReqId M) : Frees r r [] :=
  ⟨rfl,rfl,by simp,fun _ _ member _ => member,by simp⟩

theorem Frees.grow (r : Runner ReqId M) (s : ReqStates ReqId) (device : M)
    (grows : ∀ entry ∈ r.reqStates.reqIdToIndex, entry ∈ s.reqIdToIndex) :
    Frees r { r with reqStates := s,device := device } [] :=
  ⟨rfl,rfl,by simp,fun _ _ member _ => grows _ member,by simp⟩

theorem nodup_toList (freed : Option Nat) : freed.toList.Nodup := by cases freed <;> simp

variable [DecidableEq ReqId] {cfg : Config} {dev : Device ReqId M}

theorem index_exact (s : ReqStates ReqId) (reqId : ReqId) (slot : Nat) :
    s.index reqId = some slot ↔ (reqId,slot) ∈ s.reqIdToIndex := by
  unfold ReqStates.index
  constructor
  · intro found
    obtain ⟨row,at_row,rfl⟩ := Option.map_eq_some_iff.mp found
    have same : row.1 = reqId := by simpa using List.find?_some at_row
    simpa [← same] using List.mem_of_find?_eq_some at_row
  · intro member
    have present : (s.reqIdToIndex.find? fun row => row.1 = reqId).isSome := by
      rw [List.find?_isSome]; exact ⟨_,member,by simp⟩
    obtain ⟨row,at_row⟩ := Option.isSome_iff_exists.mp present
    have same : row.1 = reqId := by simpa using List.find?_some at_row
    have equal := List.inj_on_of_nodup_map s.ids_nodup (List.mem_of_find?_eq_some at_row) member same
    simp [at_row,equal]

theorem index_none (s : ReqStates ReqId) (reqId : ReqId) :
    s.index reqId = none ↔ ∀ slot, (reqId,slot) ∉ s.reqIdToIndex := by
  rw [Option.eq_none_iff_forall_ne_some]
  exact forall_congr' fun slot => not_congr (index_exact s reqId slot)

theorem add_parts {s : ReqStates ReqId} (added : s.addRequest new slot = some next) :
    new.reqId ∉ s.reqIdToIndex.map Prod.fst ∧ slot ∉ s.slots ∧
      next.reqIdToIndex = (new.reqId,slot) :: s.reqIdToIndex := by
  unfold ReqStates.addRequest at added
  split at added
  · rename_i free
    cases added
    exact ⟨free.1,free.2,rfl⟩
  · cases added

theorem remove_frees (r : Runner ReqId M) (reqId : ReqId) :
    Frees r (removeRequest r reqId).1 (removeRequest r reqId).2.toList := by
  unfold removeRequest
  cases found : r.reqStates.index reqId with
  | none =>
      have absent := (index_none _ _).mp found
      refine ⟨by simp [ReqStates.removeRequest,found],by simp [ReqStates.removeRequest,found],
        by simp [ReqStates.removeRequest,found],?_,by simp [ReqStates.removeRequest,found]⟩
      intro other slot member _
      have different : other ≠ reqId := fun same => absent slot (same ▸ member)
      simpa [ReqStates.removeRequest,found] using And.intro member different
  | some idx =>
      have held := (index_exact _ _ _).mp found
      refine ⟨by simp [ReqStates.removeRequest,found,onReqIdxFreed],
        by simp [ReqStates.removeRequest,found,onReqIdxFreed],?_,?_,?_⟩
      · intro slot
        by_cases same : slot = idx
        · subst same; simp [ReqStates.removeRequest,found,onReqIdxFreed]
        · have other : List.count slot [idx] = 0 := List.count_eq_zero.mpr (by simpa using same)
          simp [ReqStates.removeRequest,found,onReqIdxFreed,same,other]
      · intro other slot member kept
        simp only [ReqStates.removeRequest,found,Option.toList_some,List.mem_singleton] at kept ⊢
        have different : other ≠ reqId := by
          intro same
          exact kept (slot_unique r.reqStates member (same ▸ held))
        simpa using And.intro member different
      · intro slot member
        simp only [ReqStates.removeRequest,found,Option.toList_some,List.mem_singleton] at member
        exact List.mem_map.mpr ⟨_,held,member.symm⟩

theorem remove_entries (r : Runner ReqId M) (reqId : ReqId) :
    (removeRequest r reqId).1.reqStates.reqIdToIndex =
      r.reqStates.reqIdToIndex.filter fun row => row.1 ≠ reqId := by
  unfold removeRequest
  cases found : r.reqStates.index reqId <;> simp [ReqStates.removeRequest,found]

theorem remove_freed (r : Runner ReqId M) (reqId : ReqId) (slot : Nat) :
    slot ∈ (removeRequest r reqId).2.toList ↔ (reqId,slot) ∈ r.reqStates.reqIdToIndex := by
  rw [← index_exact]
  unfold removeRequest
  cases found : r.reqStates.index reqId with
  | none => simp [ReqStates.removeRequest,found]
  | some idx => simp [ReqStates.removeRequest,found,eq_comm]

@[simp] theorem remove_device (r : Runner ReqId M) (reqId : ReqId) :
    (removeRequest r reqId).1.device = r.device := by
  unfold removeRequest
  cases found : r.reqStates.index reqId <;> simp [ReqStates.removeRequest,found]

-- Two phases in a row. `parted` is what a later free must not repeat.
theorem Frees.trans (one : Frees before middle first) (two : Frees middle after second)
    (parted : ∀ slot ∈ second, slot ∈ before.reqStates.slots) :
    Frees before after (first ++ second) where
  queue := two.queue.trans one.queue
  rank := two.rank.trans one.rank
  counter slot := by
    rw [two.counter,one.counter,List.count_append,BitVec.ofNat_add,BitVec.add_assoc]
  keeps reqId slot member kept := by
    rw [List.mem_append,not_or] at kept
    exact two.keeps _ _ (one.keeps _ _ member kept.1) kept.2
  owned slot member := by
    rcases List.mem_append.mp member with early | late
    · exact one.owned slot early
    · exact parted slot late

-- The slots freed belong to requests among `ids`, each of which frees once.
structure FreesOf (before after : Runner ReqId M) (ids : List ReqId) (freed : List Nat) : Prop
    extends Frees before after freed where
  once : freed.Nodup
  source : ∀ slot ∈ freed, ∃ reqId ∈ ids, (reqId,slot) ∈ before.reqStates.reqIdToIndex

theorem removes_free (r : Runner ReqId M) (ids : List ReqId) :
    FreesOf r (removeRequests r ids).1 ids (removeRequests r ids).2 ∧
      (removeRequests r ids).1.reqStates.reqIdToIndex =
        r.reqStates.reqIdToIndex.filter fun row => row.1 ∉ ids := by
  induction ids generalizing r with
  | nil => exact ⟨⟨Frees.refl r,by simp [removeRequests],by simp [removeRequests]⟩,by simp [removeRequests]⟩
  | cons reqId rest ih =>
      obtain ⟨later,table⟩ := ih (removeRequest r reqId).1
      have entries := remove_entries r reqId
      have source : ∀ slot ∈ (removeRequests (removeRequest r reqId).1 rest).2,
          ∃ id ∈ rest, id ≠ reqId ∧ (id,slot) ∈ r.reqStates.reqIdToIndex := by
        intro slot member
        obtain ⟨id,listed,held⟩ := later.source slot member
        rw [entries] at held
        have parts := List.mem_filter.mp held
        exact ⟨id,listed,by simpa using parts.2,parts.1⟩
      refine ⟨⟨?_,?_,?_⟩,?_⟩
      · exact (remove_frees r reqId).trans later.toFrees fun slot member => by
          obtain ⟨id,_,_,held⟩ := source slot member
          exact List.mem_map.mpr ⟨_,held,rfl⟩
      · refine List.nodup_append.mpr ⟨nodup_toList _,later.once,?_⟩
        intro slot early other late same
        subst same
        obtain ⟨id,_,different,held⟩ := source slot late
        exact different (owner_unique r.reqStates held ((remove_freed r reqId slot).mp early))
      · intro slot member
        rcases List.mem_append.mp member with early | late
        · exact ⟨reqId,by simp,(remove_freed r reqId slot).mp early⟩
        · obtain ⟨id,listed,_,held⟩ := source slot late
          exact ⟨id,by simp [listed],held⟩
      · simp only [removeRequests]
        rw [table,entries,List.filter_filter]
        congr 1
        funext row
        by_cases same : row.1 = reqId <;> simp [same]

theorem adds_free (news : List (NewRequestData ReqId)) (slots : List Nat) (r next : Runner ReqId M)
    (fresh : (news.map NewRequestData.reqId).Nodup) (added : addRequests dev r news slots = some (next,freed)) :
    FreesOf r next (news.map NewRequestData.reqId) freed := by
  induction news generalizing r slots freed with
  | nil =>
      obtain ⟨rfl,rfl⟩ : r = next ∧ [] = freed := by simpa [addRequests] using added
      exact ⟨Frees.refl r,by simp,by simp⟩
  | cons new rest ih =>
      cases slots with
      | nil => cases added
      | cons slot slots =>
          obtain ⟨unlisted,fresh⟩ := List.nodup_cons.mp fresh
          simp only [addRequests,Option.bind_eq_bind,Option.bind_eq_some_iff,Option.pure_def,
            Option.some.injEq,Prod.mk.injEq,Prod.exists] at added
          obtain ⟨reqStates,inserted,last,later,ran,rfl,rfl⟩ := added
          have table := (add_parts inserted).2.2
          have entries := remove_entries r new.reqId
          have rested := ih slots _ fresh ran
          have source : ∀ slot ∈ later, ∃ id ∈ rest.map NewRequestData.reqId,
              id ≠ new.reqId ∧ (id,slot) ∈ r.reqStates.reqIdToIndex := by
            intro slot member
            obtain ⟨id,listed,held⟩ := rested.source slot member
            have different : id ≠ new.reqId := fun same => unlisted (same ▸ listed)
            rw [table] at held
            rcases List.mem_cons.mp held with equal | held
            · exact absurd (congrArg Prod.fst equal) different
            · rw [entries] at held
              exact ⟨id,listed,different,(List.mem_filter.mp held).1⟩
          have inserts := (remove_frees r new.reqId).trans (Frees.grow (removeRequest r new.reqId).1 reqStates
            (dev.addRequest (removeRequest r new.reqId).1.device slot new)
            fun entry member => by rw [table]; exact List.mem_cons_of_mem _ member) (by simp)
          rw [List.append_nil] at inserts
          refine ⟨inserts.trans rested.toFrees fun slot member => ?_,?_,?_⟩
          · obtain ⟨id,_,_,held⟩ := source slot member
            exact List.mem_map.mpr ⟨_,held,rfl⟩
          · refine List.nodup_append.mpr ⟨nodup_toList _,rested.once,?_⟩
            intro slot early other late same
            subst same
            obtain ⟨id,_,different,held⟩ := source slot late
            exact different (owner_unique r.reqStates held ((remove_freed r new.reqId slot).mp early))
          · intro slot member
            rcases List.mem_append.mp member with early | late
            · exact ⟨new.reqId,by simp,(remove_freed r new.reqId slot).mp early⟩
            · obtain ⟨id,listed,_,held⟩ := source slot late
              exact ⟨id,List.mem_cons_of_mem _ listed,held⟩

theorem updates_free (reqs : List (CachedRequestData ReqId)) (r next : Runner ReqId M)
    (updated : updateRequests dev r reqs = some next) : Frees r next [] := by
  induction reqs generalizing r with
  | nil =>
      obtain rfl : r = next := by simpa [updateRequests] using updated
      exact Frees.refl r
  | cons req rest ih =>
      simp only [updateRequests,updateRequest,Option.bind_eq_bind,Option.bind_eq_some_iff,
        Option.pure_def,Option.some.injEq] at updated
      obtain ⟨middle,⟨reqIndex,_,rfl⟩,ran⟩ := updated
      have rested := ih _ ran
      exact ⟨rested.queue,rested.rank,rested.counter,rested.keeps,rested.owned⟩

theorem mapM_member {f : α → Option β} {xs : List α} {ys : List β} (mapped : xs.mapM f = some ys) :
    ∀ y ∈ ys, ∃ x ∈ xs, f x = some y := by
  induction xs generalizing ys with
  | nil =>
      obtain rfl : [] = ys := by simpa using mapped
      simp
  | cons x rest ih =>
      simp only [List.mapM_cons,Option.bind_eq_bind,Option.bind_eq_some_iff,Option.pure_def,
        Option.some.injEq] at mapped
      obtain ⟨first,at_x,later,ran,rfl⟩ := mapped
      intro y member
      rcases List.mem_cons.mp member with rfl | member
      · exact ⟨x,by simp,at_x⟩
      · obtain ⟨source,listed,built⟩ := ih ran y member
        exact ⟨source,by simp [listed],built⟩

theorem batch_owned {s : ReqStates ReqId} (batched : prepareInputs decodeQueryLen s out = some batch) :
    ∀ row ∈ batch, (row.reqId,row.idxMapping) ∈ s.reqIdToIndex := by
  intro row member
  obtain ⟨req,_,built⟩ := mapM_member batched row member
  simp only [batchRow,Option.bind_eq_bind,Option.bind_eq_some_iff,Option.pure_def,Option.some.injEq] at built
  obtain ⟨idx,found,rfl⟩ := built
  exact (index_exact _ _ _).mp found

theorem mapM_map {f : α → Option β} {g : β → γ} {h : α → γ} (agree : ∀ x y, f x = some y → g y = h x)
    {xs : List α} {ys : List β} (mapped : xs.mapM f = some ys) : ys.map g = xs.map h := by
  induction xs generalizing ys with
  | nil =>
      obtain rfl : [] = ys := by simpa using mapped
      rfl
  | cons x rest ih =>
      simp only [List.mapM_cons,Option.bind_eq_bind,Option.bind_eq_some_iff,Option.pure_def,
        Option.some.injEq] at mapped
      obtain ⟨first,at_x,later,ran,rfl⟩ := mapped
      rw [List.map_cons,List.map_cons,agree x first at_x,ih ran]

theorem batch_distinct {s : ReqStates ReqId} {out : SchedulerOutput ReqId}
    (batched : prepareInputs decodeQueryLen s out = some batch) : (batch.map BatchRow.reqId).Nodup := by
  have same : batch.map BatchRow.reqId = (sortBatchReqIds decodeQueryLen out).map Prod.fst := by
    refine mapM_map ?_ batched
    intro req row built
    simp only [batchRow,Option.bind_eq_bind,Option.bind_eq_some_iff,Option.pure_def,Option.some.injEq] at built
    obtain ⟨idx,_,rfl⟩ := built
    rfl
  rw [same]
  exact ((List.mergeSort_perm _ _).map Prod.fst).nodup_iff.mpr out.scheduled_nodup

end Glm5Next.SlotOwners
