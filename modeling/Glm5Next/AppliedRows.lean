import Glm5Next.WorkerLoop

namespace Glm5Next.AppliedRows
open PpUtils WorkerLoop
variable {M ReqId : Type}

def validRows (idxMapping : List Int) : List (Nat × Nat) :=
  idxMapping.zipIdx.filterMap fun entry => if entry.1 < 0 then none else some (entry.1.toNat,entry.2)

def appliedRows (outputs : Option SampledOutputs) : List (Nat × Nat) :=
  outputs.elim [] fun out => validRows out.idxMapping

theorem valid_row (idxMapping : List Int) (slot row : Nat) :
    (slot,row) ∈ validRows idxMapping ↔ idxMapping[row]? = some (slot : Int) := by
  unfold validRows
  rw [List.mem_filterMap]
  constructor
  · rintro ⟨⟨idx,i⟩,listed,chosen⟩
    rw [List.mem_zipIdx_iff_getElem?] at listed
    dsimp only at listed chosen
    split at chosen
    · cases chosen
    · cases chosen
      rename_i natural
      rw [listed,Int.toNat_of_nonneg (Int.not_lt.mp natural)]
  · intro found
    refine ⟨(slot,row),List.mem_zipIdx_iff_getElem?.mpr found,?_⟩
    simp

theorem valid_rows_nodup (idxMapping : List Int) : ((validRows idxMapping).map Prod.snd).Nodup := by
  have rows : (idxMapping.zipIdx.map Prod.snd).Nodup := by
    rw [List.zipIdx_map_snd]; exact List.nodup_range'
  unfold validRows
  refine List.pairwise_map.mpr (List.pairwise_filterMap.mpr ?_)
  refine (List.pairwise_map.mp rows).imp ?_
  intro a b different target chosen other chosen'
  split at chosen
  · cases chosen
  · split at chosen'
    · cases chosen'
    · cases chosen; cases chosen'
      exact different

theorem mask_select_cons (keep : Bool) (valid : List Bool) (x : α) (xs : List α) :
    maskSelect (keep :: valid) (x :: xs) =
      if keep then x :: maskSelect valid xs else maskSelect valid xs := by
  cases keep <;> simp [maskSelect]

theorem scatter_targets (idxMapping : List Int) (start : Nat) :
    ((maskSelect (idxMapping.map fun idx => decide (0 ≤ idx)) idxMapping).map Int.toNat).zip
        (maskSelect (idxMapping.map fun idx => decide (0 ≤ idx)) (List.range' start idxMapping.length)) =
      (idxMapping.zipIdx start).filterMap fun entry => if entry.1 < 0 then none else some (entry.1.toNat,entry.2) := by
  induction idxMapping generalizing start with
  | nil => simp [maskSelect]
  | cons idx rest ih =>
      simp only [List.map_cons,List.length_cons,List.range'_succ,mask_select_cons,List.zipIdx_cons,
        List.filterMap_cons]
      by_cases natural : 0 ≤ idx
      · simp [natural,Int.not_lt.mpr natural,ih]
      · simp [natural,Int.not_le.mp natural,ih]

theorem scatter_exact (draftTokens : Nat → Nat → Int) (idxMapping : List Int) (relayed : Tensor2) :
    scatterDraftTokens draftTokens idxMapping relayed =
      (validRows idxMapping).foldl (writeDraftRow relayed) draftTokens := by
  simp only [scatterDraftTokens,List.range_eq_range',scatter_targets,validRows]

theorem post_update_exact (dev : Device ReqId M) (m : M) (idxMapping : List Int) (sampledTokens : Tensor2)
    (numSampled numRejected : Nat → Int) (batch : Option (InputBatch ReqId)) :
    postUpdate dev m idxMapping sampledTokens numSampled numRejected batch =
      (validRows idxMapping).foldl (fun m target =>
        dev.postUpdateRow m target.1 (sampledTokens.entry target.2) (numSampled target.2) (numRejected target.2)
          (batch.bind fun b => b[target.2]?.map BatchRow.numScheduledTokens)) m := by
  unfold postUpdate validRows
  rw [List.foldl_filterMap]
  congr 1
  funext m entry
  by_cases negative : entry.1 < 0 <;> simp [negative]

-- The deferred phase changes the device by post_update over the applied rows
-- and the draft tokens by writing the relayed rows to the same targets.
theorem deferred_phase_exact (dev : Device ReqId M) (r : Runner ReqId M) :
    (updatePpDecodeRequests dev r).1.device = (updatePpDecodeRequests dev r).2.2.elim r.device (fun out =>
      dev.postprocessState ((appliedRows (updatePpDecodeRequests dev r).2.2).foldl (fun m target =>
        dev.postUpdateRow m target.1 (out.sampledTokens.entry target.2) (out.numSampled target.2)
          (out.numRejected target.2) none) r.device) out.idxMapping out.numSampled) ∧
    (updatePpDecodeRequests dev r).1.draftTokens = ((updatePpDecodeRequests dev r).2.2.bind
      SampledOutputs.draftTokens).elim r.draftTokens (fun relayed =>
        (appliedRows (updatePpDecodeRequests dev r).2.2).foldl (writeDraftRow relayed) r.draftTokens) := by
  unfold updatePpDecodeRequests
  cases popped : getPrevSampledOutputs r.ppHandler with
  | mk ppHandler rest =>
      obtain ⟨consumed,outputs⟩ := rest
      cases outputs with
      | none => exact ⟨rfl,rfl⟩
      | some out =>
          refine ⟨?_,?_⟩
          · simp [postprocessSampled,post_update_exact,appliedRows]
          · cases relayed : out.draftTokens with
            | none => simp [relayed]
            | some relayed => simp [relayed,scatter_exact,appliedRows]

-- The entry of a pending receive that decides about one of its rows.
theorem exclude_row (h : PPHandler) (slot : PendingRecv) (i : Nat) :
    (excludeMask h slot)[i]? = (do
      let idx ← slot.idxMapping[i]?
      let gen ← slot.genAtReceive[i]?
      let needed ← slot.needSampledMask[i]?
      return h.reqIdxGen idx != gen || !needed) := by
  simp only [excludeMask,List.getElem?_zipWith]
  cases slot.idxMapping[i]? <;> cases slot.genAtReceive[i]? <;> cases slot.needSampledMask[i]? <;> rfl

theorem filter_applied (h : PPHandler) (pending : PendingRecv)
    (lengths : (excludeMask h pending).length = pending.idxMapping.length) (slot row : Nat) :
    (slot,row) ∈ appliedRows (filterExcluded h pending) ↔
      pending.idxMapping[row]? = some slot ∧ (excludeMask h pending)[row]? = some false := by
  unfold filterExcluded
  dsimp only
  split
  · split
    · rename_i all
      simp only [appliedRows,Option.elim_none,List.not_mem_nil,false_iff,not_and]
      intro _ kept
      have out := List.all_eq_true.mp all _ (List.mem_of_getElem? kept)
      simp at out
    · simp only [appliedRows,Option.elim_some,valid_row,List.getElem?_zipWith]
      cases excluded : (excludeMask h pending)[row]? with
      | none => simp
      | some out =>
          cases found : pending.idxMapping[row]? with
          | none => simp
          | some idx => cases out <;> simp
  · rename_i none_out
    simp only [appliedRows,Option.elim_some,valid_row,List.getElem?_map]
    cases found : pending.idxMapping[row]? with
    | none => simp
    | some idx =>
        have bound : row < (excludeMask h pending).length := by
          rw [lengths]; exact (List.getElem?_eq_some_iff.mp found).1
        have kept : (excludeMask h pending)[row] = false := by
          have absent := List.any_eq_false.mp (Bool.eq_false_iff.mpr none_out) _ (List.getElem_mem bound)
          simpa using absent
        simp [List.getElem?_eq_getElem bound,kept]

theorem filter_tensors {h : PPHandler} {pending : PendingRecv} (kept : filterExcluded h pending = some out) :
    out.sampledTokens = pending.sampledTokens ∧ out.numSampled = pending.numSampled ∧
      out.numRejected = pending.numRejected ∧ out.draftTokens = pending.draftTokens := by
  unfold filterExcluded at kept
  dsimp only at kept
  split at kept
  · split at kept
    · cases kept
    · cases kept
      exact ⟨rfl,rfl,rfl,rfl⟩
  · cases kept
    exact ⟨rfl,rfl,rfl,rfl⟩

theorem filter_row (h : PPHandler) (pending : PendingRecv)
    (gens : pending.genAtReceive.length = pending.idxMapping.length)
    (masks : pending.needSampledMask.length = pending.idxMapping.length) (slot row : Nat) :
    (slot,row) ∈ appliedRows (filterExcluded h pending) ↔
      pending.idxMapping[row]? = some slot ∧ pending.needSampledMask[row]? = some true ∧
        pending.genAtReceive[row]? = some (h.reqIdxGen slot) := by
  have lengths : (excludeMask h pending).length = pending.idxMapping.length := by
    simp [excludeMask,gens,masks]
  rw [filter_applied h pending lengths,exclude_row]
  refine and_congr_right fun found => ?_
  rw [found]
  cases pending.genAtReceive[row]? with
  | none => simp
  | some gen =>
      cases pending.needSampledMask[row]? with
      | none => simp
      | some needed => cases needed <;> simp [@eq_comm _ gen]

end Glm5Next.AppliedRows
