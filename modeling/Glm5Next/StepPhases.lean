import Glm5Next.DeferredResults

namespace Glm5Next.StepPhases
open PpUtils WorkerLoop SlotOwners DeferredResults
variable {ReqId M : Type} {cfg : Config} {dev : Device ReqId M}

section Step
variable [DecidableEq ReqId]

theorem batch_slots_distinct {s : ReqStates ReqId} {out : SchedulerOutput ReqId}
    (batched : prepareInputs decodeQueryLen s out = some batch) : (batch.map BatchRow.idxMapping).Nodup := by
  have requests := List.pairwise_map.mp (batch_distinct batched)
  refine List.pairwise_map.mpr (requests.imp_of_mem ?_)
  intro one two at_one at_two different same
  have owner := batch_owned batched one at_one
  rw [same] at owner
  exact different (owner_unique s owner (batch_owned batched two at_two))

-- The phases before the batch; second component: the slots freed.
def prepared (dev : Device ReqId M) (r : Runner ReqId M) (input : StepInput ReqId) :
    Option (Runner ReqId M × List Nat) := do
  let (r,_,_) := updatePpDecodeRequests dev r
  let (r,finished) := finishRequests r input.out
  let (r,readded) ← addRequests dev r input.out.scheduledNewReqs input.slots
  let r ← updateRequests dev r input.out.scheduledCachedReqs
  return (r,finished ++ readded)

def forwarded (dev : Device ReqId M) (r : Runner ReqId M) (batch : InputBatch ReqId) : Runner ReqId M :=
  { r with device := dev.forward (dev.preprocessState r.device batch) batch }

theorem prepared_handler (r : Runner ReqId M) (input : StepInput ReqId)
    (prepares : prepared dev r input = some (ready,freed)) :
    ready.ppHandler.isLastRank = (updatePpDecodeRequests dev r).1.ppHandler.isLastRank ∧
    ready.ppHandler.queue = (updatePpDecodeRequests dev r).1.ppHandler.queue := by
  simp only [prepared,Option.bind_eq_bind,Option.bind_eq_some_iff,Option.pure_def,Option.some.injEq,
    Prod.mk.injEq,Prod.exists] at prepares
  obtain ⟨grown,readded,added,last,updated,rfl,rfl⟩ := prepares
  obtain ⟨queue,rank,_,_,_⟩ := phases_free _ input.out input.slots added updated
  exact ⟨rank,queue⟩

theorem step_phases (stepped : step cfg dev r input = some (next,record)) :
    ∃ ready, prepared dev r input = some (ready,record.freed) ∧
      record.owners = r.reqStates.reqIdToIndex ∧ record.outputs = (updatePpDecodeRequests dev r).2.2 ∧
      (record.batch = none ∧ next = ready ∨
        ∃ batch sent posted, record.batch = some batch ∧
          prepareInputs (cfg.numSpeculativeSteps + 1) ready.reqStates input.out = some batch ∧
          sampleTokens cfg dev (forwarded dev ready batch) batch input.relay = some (next,sent,posted)) := by
  unfold step executeModel at stepped
  simp only [Option.bind_eq_bind,Option.bind_eq_some_iff,Option.pure_def,Prod.exists] at stepped
  obtain ⟨middle,executed,⟨grown,readded,added,ready,updated,executes⟩,stepped⟩ := stepped
  have prepares : prepared dev r input = some (ready,(finishRequests (updatePpDecodeRequests dev r).1 input.out).2 ++ readded) := by
    simp only [prepared,Option.bind_eq_bind,Option.pure_def,added,updated,Option.bind_some]
  split at executes
  · cases executes
    simp only [Option.some.injEq,Prod.mk.injEq] at stepped
    obtain ⟨rfl,rfl⟩ := stepped
    exact ⟨_,prepares,rfl,rfl,Or.inl ⟨rfl,rfl⟩⟩
  · simp only [Option.bind_eq_some_iff,Option.some.injEq,Prod.mk.injEq] at executes
    obtain ⟨batch,batched,rfl,rfl⟩ := executes
    simp only [Option.bind_eq_some_iff,Option.some.injEq,Prod.mk.injEq,Prod.exists] at stepped
    obtain ⟨sampled,sent,posted,samples,rfl,rfl⟩ := stepped
    exact ⟨_,prepares,rfl,rfl,Or.inr ⟨batch,sent,posted,rfl,batched,samples⟩⟩

theorem removes_keep (r : Runner ReqId M) (ids : List ReqId) : (removeRequests r ids).1.device = r.device := by
  induction ids generalizing r with
  | nil => rfl
  | cons reqId rest ih => exact (ih _).trans (remove_device r reqId)

section Kept
variable {α : Type} (read : M → α)

theorem adds_keep (added : ∀ m slot new, read (dev.addRequest m slot new) = read m)
    (news : List (NewRequestData ReqId)) (slots : List Nat) (r next : Runner ReqId M)
    (adds : addRequests dev r news slots = some (next,freed)) : read next.device = read r.device := by
  induction news generalizing r slots freed with
  | nil =>
      obtain ⟨rfl,rfl⟩ : r = next ∧ [] = freed := by simpa [addRequests] using adds
      rfl
  | cons new rest ih =>
      cases slots with
      | nil => cases adds
      | cons slot slots =>
          simp only [addRequests,Option.bind_eq_bind,Option.bind_eq_some_iff,Option.pure_def,
            Option.some.injEq,Prod.mk.injEq,Prod.exists] at adds
          obtain ⟨reqStates,inserted,last,later,ran,rfl,rfl⟩ := adds
          have kept := (ih slots _ ran).trans (added _ slot new)
          rw [remove_device] at kept
          exact kept

theorem updates_keep (appended : ∀ m slot ids, read (dev.appendBlockIds m slot ids) = read m)
    (reqs : List (CachedRequestData ReqId)) (r next : Runner ReqId M)
    (updated : updateRequests dev r reqs = some next) : read next.device = read r.device := by
  induction reqs generalizing r with
  | nil =>
      obtain rfl : r = next := by simpa [updateRequests] using updated
      rfl
  | cons req rest ih =>
      simp only [updateRequests,updateRequest,Option.bind_eq_bind,Option.bind_eq_some_iff,
        Option.pure_def,Option.some.injEq] at updated
      obtain ⟨middle,⟨reqIndex,_,rfl⟩,ran⟩ := updated
      refine (ih _ ran).trans ?_
      cases req.newBlockIds with
      | none => rfl
      | some blockIds => exact appended _ _ _

-- What no phase before the batch touches is as the deferred phase left it.
theorem prepared_keeps (added : ∀ m slot new, read (dev.addRequest m slot new) = read m)
    (appended : ∀ m slot ids, read (dev.appendBlockIds m slot ids) = read m) (r : Runner ReqId M)
    (input : StepInput ReqId) (prepares : prepared dev r input = some (ready,freed)) :
    read ready.device = read (updatePpDecodeRequests dev r).1.device := by
  simp only [prepared,Option.bind_eq_bind,Option.bind_eq_some_iff,Option.pure_def,Option.some.injEq,
    Prod.mk.injEq,Prod.exists] at prepares
  obtain ⟨grown,readded,adds,last,updated,rfl,rfl⟩ := prepares
  have finished := removes_keep (updatePpDecodeRequests dev r).1 (input.out.finishedReqIds ++ input.out.preemptedReqIds)
  rw [updates_keep read appended _ grown last updated,adds_keep read added _ _ _ grown adds]
  exact congrArg read finished

end Kept

end Step

end Glm5Next.StepPhases
