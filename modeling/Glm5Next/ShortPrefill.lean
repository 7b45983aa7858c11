import Glm5Next.SparseRows

namespace Glm5Next.ShortPrefill
open IndexerChunks ChunkGroups PrefillWindows ExpandedPools SparseRows

def sparsePrefill (cfg : IndexerConfig) (poolSize : Nat) (topK : Nat → Nat → Nat → List Int) (empty : Nat → Nat)
    (blockTable : Nat → Nat → Nat) (reqs : List Request) (numDecodes : Nat) (buffer : Nat → Nat → Int) :
    Nat → Nat → Int :=
  (prefillChunks poolSize empty reqs numDecodes blockTable cfg.workspaceSize cfg.maxLogitsBytes).foldl
    (chunkTopk poolSize topK fun token => (positionsOf reqs).getD token 0) buffer

section Batch
variable (cfg : IndexerConfig) (poolSize : Nat) (topK : Nat → Nat → Nat → List Int) (empty : Nat → Nat)
  (blockTable : Nat → Nat → Nat) (reqs : List Request) (numDecodes paddedTokens : Nat)
  (topkIndicesBuffer : Nat → Nat → Int)

theorem cleared_row (before : token < queryStartLoc reqs reqs.length) (col : Nat) :
    clearRows (queryStartLoc reqs reqs.length + paddedTokens) topkIndicesBuffer token col = -1 :=
  if_pos (Nat.lt_add_right paddedTokens before)

theorem short_taken (short : ∀ req ∈ reqs.drop numDecodes, req.seqLen ≤ cfg.topkTokens)
    (found : reqs[r]? = some req) (inside : k < req.queryLen) (prefill : numDecodes ≤ r) :
    shortPrefill cfg.topkTokens reqs numDecodes = true := by
  obtain ⟨before,after,_⟩ := token_bounds reqs numDecodes found inside
  have reached := after prefill
  have longest : maxPrefillSeqLen reqs numDecodes ≤ cfg.topkTokens := by
    unfold maxPrefillSeqLen
    cases listed : ((reqs.drop numDecodes).map Request.seqLen).max? with
    | none => exact Nat.zero_le _
    | some longest =>
        obtain ⟨req,member,rfl⟩ := List.mem_map.mp (List.max?_mem listed)
        exact short req member
  exact decide_eq_true ⟨by omega,longest⟩

-- Both paths write every position up to the token's own.
theorem short_prefill_agrees (positive : 0 < poolSize)
    (selects : ∀ token ks ke, ke - ks ≤ cfg.topkTokens / poolSize →
      TopKRow (cfg.topkTokens / poolSize) (ke - ks) (topK token ks ke))
    (short : ∀ req ∈ reqs.drop numDecodes, req.seqLen ≤ cfg.topkTokens)
    (found : reqs[r]? = some req) (inside : k < req.queryLen) (prefill : numDecodes ≤ r)
    (scored : queryStartLoc reqs r + k ∈ (prefillChunks poolSize empty reqs numDecodes blockTable cfg.workspaceSize
      cfg.maxLogitsBytes).flatMap chunkRows) :
    let buffer := clearRows (queryStartLoc reqs reqs.length + paddedTokens) topkIndicesBuffer
    let width := bufferWidth poolSize cfg.topkTokens
    let fast := indexRow (prefillIndices cfg poolSize topK empty blockTable reqs numDecodes buffer) width
      (queryStartLoc reqs r + k)
    let sparse := indexRow (sparsePrefill cfg poolSize topK empty blockTable reqs numDecodes buffer) width
      (queryStartLoc reqs r + k)
    ∀ x, x ≠ -1 → (x ∈ fast ↔ 0 ≤ x ∧ x ≤ (req.contextLen + k : Nat)) ∧ (x ∈ fast ↔ x ∈ sparse) := by
  intro buffer width fast sparse x kept
  have taken := short_taken cfg reqs numDecodes short found inside prefill
  have before := (token_bounds reqs numDecodes found inside).1
  have listed : req ∈ reqs.drop numDecodes := by
    refine List.mem_iff_getElem?.mpr ⟨r - numDecodes,?_⟩
    rw [List.getElem?_drop,Nat.add_sub_cancel' prefill,found]
  have fits : req.contextLen + k + 1 ≤ cfg.topkTokens := by
    have limit := short req listed
    unfold Request.seqLen at limit
    omega
  have pools : (req.contextLen + k + 1) / poolSize ≤ cfg.topkTokens / poolSize := Nat.div_le_div_right fits
  have fastRow := short_row cfg poolSize topK empty blockTable reqs numDecodes buffer positive found inside prefill taken
  have sparseRow := chunked_row cfg poolSize topK empty blockTable reqs numDecodes buffer positive found inside
    (fun ks ke window => selects _ ks ke (by rw [window]; exact pools)) scored
    (cleared_row reqs paddedTokens topkIndicesBuffer before)
  rw [Nat.min_eq_right pools] at fastRow sparseRow
  have every := full_row_exact positive fastRow kept
  exact ⟨every,every.trans (full_row_exact positive sparseRow kept).symm⟩

end Batch

def limitConfig : IndexerConfig := ⟨⟨true,false,3⟩,512,65536,1048576⟩

def limitRequests : List Request := [⟨0,17⟩,⟨510,2⟩]

theorem short_prefill_agrees_limit :
    (511 : Int) ∈ indexRow (prefillIndices limitConfig 4 (fun _ ks ke => firstIds (512 / 4) (ke - ks)) (fun _ => 0)
      (fun _ _ => 0) limitRequests 0 (clearRows (queryStartLoc limitRequests limitRequests.length + 0) fun _ _ => 7))
      (bufferWidth 4 512) (queryStartLoc limitRequests 1 + 1) ↔
    (511 : Int) ∈ indexRow (sparsePrefill limitConfig 4 (fun _ ks ke => firstIds (512 / 4) (ke - ks)) (fun _ => 0)
      (fun _ _ => 0) limitRequests 0 (clearRows (queryStartLoc limitRequests limitRequests.length + 0) fun _ _ => 7))
      (bufferWidth 4 512) (queryStartLoc limitRequests 1 + 1) := by
  have found : limitRequests[1]? = some ⟨510,2⟩ := rfl
  have scored := pooled_covered limitConfig 4 (fun _ => 0) (fun _ _ => 0) limitRequests 0 found
    (show 1 < 2 by decide) (by decide) (by decide)
  have agrees := short_prefill_agrees limitConfig 4 (fun _ ks ke => firstIds (512 / 4) (ke - ks)) (fun _ => 0)
    (fun _ _ => 0) limitRequests 0 0 (fun _ _ => 7) (by decide) (fun _ ks ke _ => first_ids_exact (512 / 4) (ke - ks))
    (by decide) found (by decide) (by decide) scored
  exact (agrees 511 (by decide)).2

end Glm5Next.ShortPrefill
