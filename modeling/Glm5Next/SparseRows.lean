import Glm5Next.DecodeLayout
import Glm5Next.PrefillWindows

namespace Glm5Next.SparseRows
open IndexerChunks ChunkGroups PrefillWindows ExpandedPools DecodeLayout

structure IndexerConfig where
  decode : DecodeConfig
  topkTokens : Nat
  workspaceSize : Nat
  maxLogitsBytes : Nat

def positionsOf (reqs : List Request) : List Nat :=
  reqs.flatMap fun req => (List.range req.queryLen).map fun k => req.contextLen + k

-- One slot for every selected position and for the tail, in tiles of 128.
def bufferWidth (poolSize topkTokens : Nat) : Nat :=
  (topkTokens + (if poolSize > 1 then poolSize - 1 else 0) + 128 - 1) / 128 * 128

-- buffer[token_start : token_start + n,: cols] = rows
def storeRows (buffer : Nat → Nat → Int) (tokenStart : Nat) (rows : List (List Int)) : Nat → Nat → Int :=
  fun token col =>
    if token < tokenStart then buffer token col
    else match rows[token - tokenStart]? with
      | none => buffer token col
      | some row => row.getD col (buffer token col)

def maxPrefillSeqLen (reqs : List Request) (numDecodes : Nat) : Nat :=
  ((reqs.drop numDecodes).map Request.seqLen).max?.getD 0

def shortPrefill (topkTokens : Nat) (reqs : List Request) (numDecodes : Nat) : Bool :=
  let nPrefill := queryStartLoc reqs reqs.length - queryStartLoc reqs numDecodes
  decide (nPrefill > 0 ∧ maxPrefillSeqLen reqs numDecodes ≤ topkTokens)

def fillShortPrefill (buffer : Nat → Nat → Int) (width numDecodeTokens numTokens : Nat) (positions : Nat → Nat) :
    Nat → Nat → Int :=
  fun token col =>
    if numDecodeTokens ≤ token ∧ token < numTokens ∧ col < width then
      if col > positions token then -1 else col
    else buffer token col

-- One chunk of the sparse prefill; `topK` is what the primitive selects for a
-- token among the keys ks..ke-1.
def chunkTopk (poolSize : Nat) (topK : Nat → Nat → Nat → List Int) (positions : Nat → Nat)
    (buffer : Nat → Nat → Int) (chunk : PrefillChunkMetadata) : Nat → Nat → Int :=
  storeRows buffer chunk.tokenStart ((List.range (chunk.tokenEnd - chunk.tokenStart)).map fun row =>
    expandPoolsAndAppendTail poolSize
      (topK (chunk.tokenStart + row) (chunk.cuSeqlenKs row) (chunk.cuSeqlenKe row))
      (positions (chunk.tokenStart + row) + 1))

-- buffer[: n] = -1
def clearRows (n : Nat) (buffer : Nat → Nat → Int) : Nat → Nat → Int :=
  fun token col => if token < n then -1 else buffer token col

-- The prefill part; without a prefill request nothing is written.
def prefillIndices (cfg : IndexerConfig) (poolSize : Nat) (topK : Nat → Nat → Nat → List Int) (empty : Nat → Nat)
    (blockTable : Nat → Nat → Nat) (reqs : List Request) (numDecodes : Nat) (buffer : Nat → Nat → Int) :
    Nat → Nat → Int :=
  let positions := fun token => (positionsOf reqs).getD token 0
  if reqs.length - numDecodes > 0 then
    if shortPrefill cfg.topkTokens reqs numDecodes then
      fillShortPrefill buffer (bufferWidth poolSize cfg.topkTokens) (queryStartLoc reqs numDecodes)
        (queryStartLoc reqs reqs.length) positions
    else
      (prefillChunks poolSize empty reqs numDecodes blockTable cfg.workspaceSize cfg.maxLogitsBytes).foldl
        (chunkTopk poolSize topK positions) buffer
  else buffer

-- The index buffer after the op; hidden states may have rows beyond the
-- batch's tokens.
def sparseAttnIndexerKpool (cfg : IndexerConfig) (poolSize : Nat) (prefillTopK : Nat → Nat → Nat → List Int)
    (decodeTopK : Nat → Int → List Int) (unpackSeq : UnpackSeq) (empty : Nat → Nat) (blockTable : Nat → Nat → Nat)
    (reqs : List Request) (numDecodes paddedTokens : Nat) (topkIndicesBuffer : Nat → Nat → Int) : Nat → Nat → Int :=
  let positions := fun token => (positionsOf reqs).getD token 0
  let prefilled := prefillIndices cfg poolSize prefillTopK empty blockTable reqs numDecodes
    (clearRows (queryStartLoc reqs reqs.length + paddedTokens) topkIndicesBuffer)
  if numDecodes > 0 then
    storeRows prefilled 0 (decodeRows cfg.decode poolSize decodeTopK unpackSeq positions
      ((reqs.take numDecodes).map Request.seqLen) (queryLens (reqs.take numDecodes)) (queryStartLoc reqs numDecodes))
  else prefilled

def indexRow (buffer : Nat → Nat → Int) (width token : Nat) : List Int := (List.range width).map (buffer token)

theorem position_exact (found : reqs[r]? = some req) (inside : k < req.queryLen) :
    (positionsOf reqs).getD (queryStartLoc reqs r + k) 0 = req.contextLen + k := by
  have flat : (positionsOf reqs)[queryStartLoc reqs r + k]? = some (req.contextLen + k) := by
    unfold positionsOf queryStartLoc queryLens
    induction reqs generalizing r with
    | nil => simp at found
    | cons head rest ih =>
        rw [List.flatMap_cons]
        cases r with
        | zero =>
            obtain rfl : head = req := by simpa using found
            rw [Ragged.start_zero,Nat.zero_add,List.getElem?_append_left (by simpa using inside),List.getElem?_map,
              List.getElem?_range inside,Option.map_some]
        | succ r =>
            rw [List.map_cons,Ragged.start_cons,Nat.add_assoc,List.getElem?_append_right (by simp)]
            simp only [List.length_map,List.length_range,Nat.add_sub_cancel_left]
            exact ih (by simpa using found)
  rw [List.getD_eq_getElem?_getD,flat,Option.getD_some]

theorem store_apart (buffer : Nat → Nat → Int) (tokenStart : Nat) (rows : List (List Int))
    (apart : token < tokenStart ∨ tokenStart + rows.length ≤ token) :
    storeRows buffer tokenStart rows token = buffer token := by
  funext col
  unfold storeRows
  rcases apart with before | past
  · exact if_pos before
  · by_cases before : token < tokenStart
    · exact if_pos before
    · rw [if_neg before,List.getElem?_eq_none (by omega)]

theorem stored_row (buffer : Nat → Nat → Int) (tokenStart width token : Nat) (rows : List (List Int))
    (after : tokenStart ≤ token) (listed : rows[token - tokenStart]? = some row) (fits : row.length ≤ width)
    (cleared : ∀ col, buffer token col = -1) :
    indexRow (storeRows buffer tokenStart rows) width token = row ++ List.replicate (width - row.length) (-1) := by
  apply List.ext_getElem?
  intro col
  unfold indexRow
  by_cases inside : col < width
  · rw [List.getElem?_map,List.getElem?_range inside,Option.map_some,storeRows,if_neg (by omega),listed]
    dsimp only
    rw [cleared]
    by_cases stored : col < row.length
    · rw [List.getElem?_append_left stored,List.getD_eq_getElem?_getD,List.getElem?_eq_getElem stored,
        Option.getD_some]
    · rw [List.getElem?_append_right (by omega),List.getElem?_replicate,if_pos (by omega),
        List.getD_eq_getElem?_getD,List.getElem?_eq_none (by omega),Option.getD_none]
  · rw [List.getElem?_eq_none (by simp; omega),List.getElem?_eq_none (by simp; omega)]

theorem expanded_fits (sized : ids.length = topkTokens / poolSize) (positive : 0 < poolSize) (seqLen : Nat) :
    (expandPoolsAndAppendTail poolSize ids seqLen).length ≤ bufferWidth poolSize topkTokens := by
  have whole := Nat.div_mul_le_self topkTokens poolSize
  rw [expandPoolsAndAppendTail,List.length_map,List.length_range,sized,bufferWidth]
  split
  · omega
  · omega

theorem chunk_apart (token : Nat) (apart : token ∉ chunkRows chunk) :
    chunkTopk poolSize topK positions buffer chunk token = buffer token := by
  rw [chunkRows,List.mem_range'_1] at apart
  apply store_apart
  rw [List.length_map,List.length_range]
  omega

theorem chunks_apart (chunks : List PrefillChunkMetadata) (token : Nat) (apart : token ∉ chunks.flatMap chunkRows) :
    chunks.foldl (chunkTopk poolSize topK positions) buffer token = buffer token := by
  induction chunks generalizing buffer with
  | nil => rfl
  | cons chunk rest ih =>
      rw [List.flatMap_cons,List.mem_append,not_or] at apart
      rw [List.foldl_cons,ih apart.2,chunk_apart token apart.1]

theorem chunks_written (chunks : List PrefillChunkMetadata) (positions : Nat → Nat) (width : Nat) (once : (chunks.flatMap chunkRows).Nodup)
    (member : chunk ∈ chunks) (row : token ∈ chunkRows chunk)
    (fits : (expandPoolsAndAppendTail poolSize (topK token (chunk.cuSeqlenKs (token - chunk.tokenStart))
      (chunk.cuSeqlenKe (token - chunk.tokenStart))) (positions token + 1)).length ≤ width)
    (cleared : ∀ col, buffer token col = -1) :
    ∃ padding, (∀ x ∈ padding, x = -1) ∧
      indexRow (chunks.foldl (chunkTopk poolSize topK positions) buffer) width token =
        expandPoolsAndAppendTail poolSize (topK token (chunk.cuSeqlenKs (token - chunk.tokenStart))
          (chunk.cuSeqlenKe (token - chunk.tokenStart))) (positions token + 1) ++ padding := by
  induction chunks generalizing buffer with
  | nil => cases member
  | cons first rest ih =>
      rw [List.flatMap_cons,List.nodup_append] at once
      obtain ⟨_,once_rest,disjoint⟩ := once
      rw [List.foldl_cons]
      rcases List.mem_cons.mp member with rfl | later
      · have apart : token ∉ rest.flatMap chunkRows := fun twice => disjoint token row token twice rfl
        rw [indexRow,chunks_apart rest token apart]
        rw [chunkRows,List.mem_range'_1] at row
        refine ⟨_,?_,stored_row buffer chunk.tokenStart width token _ row.1 ?_ fits cleared⟩
        · intro x padded
          exact List.eq_of_mem_replicate padded
        · rw [List.getElem?_map,List.getElem?_range (by omega),Option.map_some,Nat.add_sub_cancel' row.1]
      · have apart : token ∉ chunkRows first := by
          intro twice
          exact disjoint token twice token (List.mem_flatMap.mpr ⟨chunk,later,row⟩) rfl
        exact ih once_rest later fun col => by rw [chunk_apart token apart,cleared]

theorem window_toNat (cfg : DecodeConfig) (several : 1 < poolSize) (decodeLens : List Nat) (req : Request) (k : Nat) :
    (decodeWindow cfg poolSize decodeLens req.seqLen req.queryLen k).toNat =
      if useNative cfg decodeLens then (req.seqLen + k + 1 - maxDecodeLen decodeLens) / poolSize
      else (req.contextLen + k + 1) / poolSize := by
  unfold decodeWindow Request.seqLen
  split
  · by_cases reached : maxDecodeLen decodeLens ≤ req.contextLen + req.queryLen + k + 1
    · have counted : ((req.contextLen + req.queryLen : Nat) : Int) - maxDecodeLen decodeLens + 1 + k =
          ((req.contextLen + req.queryLen + k + 1 - maxDecodeLen decodeLens : Nat) : Int) := by omega
      rw [counted]
      exact Int.toNat_natCast _
    · have none_left : req.contextLen + req.queryLen + k + 1 - maxDecodeLen decodeLens = 0 := by omega
      rw [none_left,Nat.zero_div]
      apply Int.toNat_of_nonpos
      apply Int.ediv_nonpos_of_nonpos_of_neg
      · omega
      · omega
  · have counted : ((req.contextLen + req.queryLen : Nat) : Int) - req.queryLen + k + 1 =
        ((req.contextLen + k + 1 : Nat) : Int) := by omega
    rw [counted]
    exact Int.toNat_natCast _

section Batch
variable (cfg : IndexerConfig) (poolSize : Nat) (prefillTopK : Nat → Nat → Nat → List Int)
  (decodeTopK : Nat → Int → List Int) (unpackSeq : UnpackSeq) (empty : Nat → Nat) (blockTable : Nat → Nat → Nat)
  (reqs : List Request) (numDecodes paddedTokens : Nat) (topkIndicesBuffer : Nat → Nat → Int)

-- When the row of query token `k` of request `r` is written in full. A prefill
-- token is served by the short path or by a group that has a pool; a native
-- decode row counts its keys back from the longest request's last token.
def RowServed (r k : Nat) (req : Request) : Prop :=
  if r < numDecodes then
    useNative cfg.decode (queryLens (reqs.take numDecodes)) = true →
      min (cfg.topkTokens / poolSize)
        ((req.seqLen + k + 1 - maxDecodeLen (queryLens (reqs.take numDecodes))) / poolSize) =
      min (cfg.topkTokens / poolSize) ((req.contextLen + k + 1) / poolSize)
  else
    shortPrefill cfg.topkTokens reqs numDecodes = true ∨
      ∃ group ∈ prefillGroups poolSize reqs numDecodes cfg.workspaceSize cfg.maxLogitsBytes,
        group.start + numDecodes ≤ r ∧ r < group.stop + numDecodes ∧ HasPool poolSize reqs numDecodes group

theorem prefill_apart (buffer : Nat → Nat → Int) (token : Nat) (before : token < queryStartLoc reqs numDecodes) :
    prefillIndices cfg poolSize prefillTopK empty blockTable reqs numDecodes buffer token = buffer token := by
  unfold prefillIndices
  split
  · split
    · funext col
      exact if_neg (by omega)
    · apply chunks_apart
      intro row
      obtain ⟨group,_,_,low,_⟩ := ((rows_exact poolSize empty reqs numDecodes blockTable cfg.workspaceSize
        cfg.maxLogitsBytes).2 token).mp row
      have ordered := query_start_mono reqs numDecodes (group.start + numDecodes) (Nat.le_add_left _ _)
      omega
  · rfl

theorem token_bounds (found : reqs[r]? = some req) (inside : k < req.queryLen) :
    queryStartLoc reqs r + k < queryStartLoc reqs reqs.length ∧
    (numDecodes ≤ r → queryStartLoc reqs numDecodes ≤ queryStartLoc reqs r + k) ∧
    (r < numDecodes → queryStartLoc reqs r + k < queryStartLoc reqs numDecodes) := by
  have row : (queryLens reqs)[r]? = some req.queryLen := by simp [queryLens,found]
  have bound := (List.getElem?_eq_some_iff.mp found).1
  refine ⟨Ragged.row_inside row inside bound,?_,?_⟩
  · intro later
    have ordered := query_start_mono reqs _ _ later
    omega
  · intro earlier
    exact Ragged.row_inside row inside earlier

theorem short_row (buffer : Nat → Nat → Int) (positive : 0 < poolSize) (found : reqs[r]? = some req)
    (inside : k < req.queryLen) (prefill : numDecodes ≤ r)
    (short : shortPrefill cfg.topkTokens reqs numDecodes = true) :
    SparseRow poolSize (min (cfg.topkTokens / poolSize) ((req.contextLen + k + 1) / poolSize)) (req.contextLen + k)
      (indexRow (prefillIndices cfg poolSize prefillTopK empty blockTable reqs numDecodes buffer)
        (bufferWidth poolSize cfg.topkTokens) (queryStartLoc reqs r + k)) := by
  obtain ⟨before,after,_⟩ := token_bounds reqs numDecodes found inside
  have bound := (List.getElem?_eq_some_iff.mp found).1
  have longest : req.seqLen ≤ maxPrefillSeqLen reqs numDecodes := by
    apply List.le_max?_getD_of_mem
    refine List.mem_map.mpr ⟨req,?_,rfl⟩
    refine List.mem_iff_getElem?.mpr ⟨r - numDecodes,?_⟩
    rw [List.getElem?_drop,Nat.add_sub_cancel' prefill,found]
  have fits : req.contextLen + k + 1 ≤ cfg.topkTokens := by
    have limit := (of_decide_eq_true short).2
    unfold Request.seqLen at longest
    omega
  have width : cfg.topkTokens ≤ bufferWidth poolSize cfg.topkTokens := by
    unfold bufferWidth
    split
    · omega
    · omega
  have row : indexRow (prefillIndices cfg poolSize prefillTopK empty blockTable reqs numDecodes buffer)
      (bufferWidth poolSize cfg.topkTokens) (queryStartLoc reqs r + k) =
        (List.range (bufferWidth poolSize cfg.topkTokens)).map fun col =>
          if col > req.contextLen + k then -1 else (col : Int) := by
    apply List.map_congr_left
    intro col listed
    have column := List.mem_range.mp listed
    unfold prefillIndices
    rw [if_pos (by omega),if_pos short,fillShortPrefill,if_pos ⟨after prefill,before,column⟩,
      position_exact found inside]
  rw [row,Nat.min_eq_right (Nat.div_le_div_right fits)]
  exact causal_row_exact positive (by omega)

theorem group_of (prefill : numDecodes ≤ r) (bound : r < reqs.length) :
    ∃ group ∈ prefillGroups poolSize reqs numDecodes workspaceSize maxLogitsBytes,
      group.start + numDecodes ≤ r ∧ r < group.stop + numDecodes := by
  have tiles := split_groups_tile workspaceSize (maxLogitsBytes / 4) 0 (prefillPairs poolSize reqs numDecodes)
    (fun r => r) fun _ _ ordered => ordered
  have listed : r - numDecodes ∈ List.range' 0 (0 + (prefillPairs poolSize reqs numDecodes).length - 0) := by
    rw [List.mem_range'_1,prefillPairs,List.length_map,List.length_drop]
    omega
  rw [← tiles] at listed
  obtain ⟨group,member,row⟩ := List.mem_flatMap.mp listed
  rw [List.mem_range'_1] at row
  exact ⟨group,member,by omega,by omega⟩

theorem token_covered (found : reqs[r]? = some req) (inside : k < req.queryLen) :
    queryStartLoc reqs r + k ∈ (prefillChunks poolSize empty reqs numDecodes blockTable cfg.workspaceSize
      cfg.maxLogitsBytes).flatMap chunkRows ↔
    ∃ group ∈ prefillGroups poolSize reqs numDecodes cfg.workspaceSize cfg.maxLogitsBytes,
      group.start + numDecodes ≤ r ∧ r < group.stop + numDecodes ∧ HasPool poolSize reqs numDecodes group := by
  rw [(rows_exact poolSize empty reqs numDecodes blockTable cfg.workspaceSize cfg.maxLogitsBytes).2]
  refine exists_congr fun group => and_congr_right fun _ => ?_
  have row : (queryLens reqs)[r]? = some req.queryLen := by simp [queryLens,found]
  constructor
  · rintro ⟨held,low,high⟩
    refine ⟨?_,?_,held⟩
    · by_contra early
      have before := Ragged.row_inside row inside (Nat.lt_of_not_le early)
      unfold queryStartLoc at low
      omega
    · by_contra late
      have beyond := query_start_mono reqs _ _ (Nat.le_of_not_lt late)
      omega
  · rintro ⟨first,last,held⟩
    refine ⟨held,?_,Ragged.row_inside row inside last⟩
    have start := query_start_mono reqs _ _ first
    omega

-- A request with a whole pool is always in a group that is scored.
theorem pooled_covered (found : reqs[r]? = some req) (inside : k < req.queryLen) (prefill : numDecodes ≤ r)
    (held : req.seqLen / poolSize ≠ 0) :
    queryStartLoc reqs r + k ∈ (prefillChunks poolSize empty reqs numDecodes blockTable cfg.workspaceSize
      cfg.maxLogitsBytes).flatMap chunkRows := by
  have bound := (List.getElem?_eq_some_iff.mp found).1
  obtain ⟨group,member,first,last⟩ := group_of poolSize reqs numDecodes prefill bound
  refine (token_covered cfg poolSize empty blockTable reqs numDecodes found inside).mpr
    ⟨group,member,first,last,r - numDecodes,req,by omega,by omega,?_,Nat.pos_of_ne_zero held⟩
  rw [Nat.sub_add_cancel prefill,found]

theorem chunked_row (buffer : Nat → Nat → Int) (positive : 0 < poolSize)
    (found : reqs[r]? = some req) (inside : k < req.queryLen)
    (selects : ∀ ks ke, ke - ks = (req.contextLen + k + 1) / poolSize →
      TopKRow (cfg.topkTokens / poolSize) (ke - ks) (prefillTopK (queryStartLoc reqs r + k) ks ke))
    (covered : queryStartLoc reqs r + k ∈ (prefillChunks poolSize empty reqs numDecodes blockTable cfg.workspaceSize
      cfg.maxLogitsBytes).flatMap chunkRows)
    (cleared : ∀ col, buffer (queryStartLoc reqs r + k) col = -1) :
    SparseRow poolSize (min (cfg.topkTokens / poolSize) ((req.contextLen + k + 1) / poolSize)) (req.contextLen + k)
      (indexRow ((prefillChunks poolSize empty reqs numDecodes blockTable cfg.workspaceSize cfg.maxLogitsBytes).foldl
        (chunkTopk poolSize prefillTopK fun token => (positionsOf reqs).getD token 0) buffer)
        (bufferWidth poolSize cfg.topkTokens) (queryStartLoc reqs r + k)) := by
  obtain ⟨chunk,member,row⟩ := List.mem_flatMap.mp covered
  obtain ⟨group,slice,s,built,_,at_s,place,low,high⟩ := row_place poolSize empty reqs numDecodes blockTable
    cfg.workspaceSize cfg.maxLogitsBytes member row found inside rfl
  have window := (built.window s k req at_s inside low high).ke_exact
  rw [← place] at window
  have counted := Nat.sub_eq_of_eq_add' window
  have top := selects (chunk.cuSeqlenKs (queryStartLoc reqs r + k - chunk.tokenStart))
    (chunk.cuSeqlenKe (queryStartLoc reqs r + k - chunk.tokenStart)) counted
  rw [counted] at top
  have once := (rows_exact poolSize empty reqs numDecodes blockTable cfg.workspaceSize cfg.maxLogitsBytes).1
  obtain ⟨padding,empties,written⟩ := chunks_written _ (fun token => (positionsOf reqs).getD token 0)
    (bufferWidth poolSize cfg.topkTokens) once member row (expanded_fits top.size positive _) cleared
  rw [written,position_exact found inside]
  exact expanded_row_exact positive top (Nat.le_refl _) padding empties

theorem sparse_prefill_row (buffer : Nat → Nat → Int) (several : 1 < poolSize)
    (selects : ∀ token ks ke, TopKRow (cfg.topkTokens / poolSize) (ke - ks) (prefillTopK token ks ke))
    (found : reqs[r]? = some req) (inside : k < req.queryLen) (prefill : numDecodes ≤ r)
    (long : shortPrefill cfg.topkTokens reqs numDecodes = false)
    (covered : queryStartLoc reqs r + k ∈ (prefillChunks poolSize empty reqs numDecodes blockTable cfg.workspaceSize
      cfg.maxLogitsBytes).flatMap chunkRows)
    (cleared : ∀ col, buffer (queryStartLoc reqs r + k) col = -1) :
    SparseRow poolSize (min (cfg.topkTokens / poolSize) ((req.contextLen + k + 1) / poolSize)) (req.contextLen + k)
      (indexRow (prefillIndices cfg poolSize prefillTopK empty blockTable reqs numDecodes buffer)
        (bufferWidth poolSize cfg.topkTokens) (queryStartLoc reqs r + k)) := by
  have bound := (List.getElem?_eq_some_iff.mp found).1
  unfold prefillIndices
  rw [if_pos (by omega),if_neg (by simp [long])]
  exact chunked_row cfg poolSize prefillTopK empty blockTable reqs numDecodes buffer (Nat.zero_lt_of_lt several) found
    inside (fun ks ke _ => selects _ ks ke) covered cleared

-- A row no chunk covers stays empty, and its token has a tail.
theorem unserved_row (buffer : Nat → Nat → Int) (several : 1 < poolSize) (found : reqs[r]? = some req)
    (inside : k < req.queryLen) (prefill : numDecodes ≤ r)
    (long : shortPrefill cfg.topkTokens reqs numDecodes = false)
    (uncovered : queryStartLoc reqs r + k ∉ (prefillChunks poolSize empty reqs numDecodes blockTable cfg.workspaceSize
      cfg.maxLogitsBytes).flatMap chunkRows)
    (cleared : ∀ col, buffer (queryStartLoc reqs r + k) col = -1) :
    ¬ SparseRow poolSize count (req.contextLen + k)
      (indexRow (prefillIndices cfg poolSize prefillTopK empty blockTable reqs numDecodes buffer)
        (bufferWidth poolSize cfg.topkTokens) (queryStartLoc reqs r + k)) := by
  have bound := (List.getElem?_eq_some_iff.mp found).1
  have poolless : req.seqLen / poolSize = 0 := by
    by_contra held
    exact uncovered (pooled_covered cfg poolSize empty blockTable reqs numDecodes found inside prefill held)
  have short : req.contextLen + k + 1 < poolSize := by
    have limit := (Nat.div_eq_zero_iff_lt (by omega)).mp poolless
    unfold Request.seqLen at limit
    omega
  apply empty_row_refused short
  intro x listed
  obtain ⟨col,_,rfl⟩ := List.mem_map.mp listed
  unfold prefillIndices
  rw [if_pos (by omega),if_neg (by simp [long]),chunks_apart _ _ uncovered,cleared]

theorem decode_token_row (unpacks : Unpacks unpackSeq) (several : 1 < poolSize) (scheduled : ∀ req ∈ reqs.take numDecodes, 0 < req.queryLen)
    (decode_selects : ∀ row window, TopKRow (cfg.topkTokens / poolSize) (Int.toNat window) (decodeTopK row window))
    (found : reqs[r]? = some req) (inside : k < req.queryLen) (decode : r < numDecodes) :
    SparseRow poolSize (min (cfg.topkTokens / poolSize) (decodeWindow cfg.decode poolSize
        (queryLens (reqs.take numDecodes)) req.seqLen req.queryLen k).toNat) (req.contextLen + k)
      (indexRow (sparseAttnIndexerKpool cfg poolSize prefillTopK decodeTopK unpackSeq empty blockTable reqs numDecodes
        paddedTokens topkIndicesBuffer) (bufferWidth poolSize cfg.topkTokens) (queryStartLoc reqs r + k)) := by
  obtain ⟨before,_,first⟩ := token_bounds reqs numDecodes found inside
  have among : (reqs.take numDecodes)[r]? = some req := by rw [List.getElem?_take_of_lt decode,found]
  have lens : (queryLens (reqs.take numDecodes))[r]? = some req.queryLen := by
    rw [queryLens,List.getElem?_map,among]
    rfl
  have length : ((reqs.take numDecodes).map Request.seqLen)[r]? = some req.seqLen := by
    rw [List.getElem?_map,among]
    rfl
  have start : Ragged.start (queryLens (reqs.take numDecodes)) r = queryStartLoc reqs r := by
    rw [queryLens,List.map_take]
    exact Ragged.start_take _ _ (Nat.le_of_lt decode)
  have total : (queryLens (reqs.take numDecodes)).sum = queryStartLoc reqs numDecodes := by
    rw [queryLens,List.map_take]
    rfl
  have positive : ∀ len ∈ queryLens (reqs.take numDecodes), 0 < len := by
    intro len listed
    obtain ⟨other,member,rfl⟩ := List.mem_map.mp listed
    exact scheduled other member
  obtain ⟨row,written⟩ := decode_row_exact unpacks cfg.decode poolSize decodeTopK (fun token => (positionsOf reqs).getD token 0)
    positive lens length inside
  rw [start,total,position_exact found inside] at written
  have top := decode_selects row (decodeWindow cfg.decode poolSize (queryLens (reqs.take numDecodes)) req.seqLen
    req.queryLen k)
  have cleared : ∀ col, prefillIndices cfg poolSize prefillTopK empty blockTable reqs numDecodes
      (clearRows (queryStartLoc reqs reqs.length + paddedTokens) topkIndicesBuffer) (queryStartLoc reqs r + k) col =
        -1 := by
    intro col
    rw [prefill_apart cfg poolSize prefillTopK empty blockTable reqs numDecodes _ _ (first decode)]
    exact if_pos (by omega)
  have stored := stored_row _ 0 (bufferWidth poolSize cfg.topkTokens) (queryStartLoc reqs r + k) _ (Nat.zero_le _)
    written (expanded_fits top.size (Nat.zero_lt_of_lt several) _) cleared
  unfold sparseAttnIndexerKpool
  dsimp only
  rw [if_pos (by omega),stored]
  refine expanded_row_exact (by omega) top ?_ _ fun x padded => List.eq_of_mem_replicate padded
  rw [window_toNat cfg.decode several]
  split
  · apply Nat.div_le_div_right
    have wide := len_le_max (List.mem_of_getElem? lens)
    unfold Request.seqLen
    omega
  · exact Nat.le_refl _

theorem decode_apart (unpacks : Unpacks unpackSeq) (found : reqs[r]? = some req) (inside : k < req.queryLen) (prefill : numDecodes ≤ r) :
    sparseAttnIndexerKpool cfg poolSize prefillTopK decodeTopK unpackSeq empty blockTable reqs numDecodes paddedTokens
      topkIndicesBuffer (queryStartLoc reqs r + k) =
    prefillIndices cfg poolSize prefillTopK empty blockTable reqs numDecodes
      (clearRows (queryStartLoc reqs reqs.length + paddedTokens) topkIndicesBuffer) (queryStartLoc reqs r + k) := by
  obtain ⟨_,after,_⟩ := token_bounds reqs numDecodes found inside
  have total : (queryLens (reqs.take numDecodes)).sum = queryStartLoc reqs numDecodes := by
    rw [queryLens,List.map_take]
    rfl
  unfold sparseAttnIndexerKpool
  split
  · apply store_apart
    have rows := rows_length_le unpacks cfg.decode poolSize decodeTopK (fun token => (positionsOf reqs).getD token 0)
      ((reqs.take numDecodes).map Request.seqLen) (queryLens (reqs.take numDecodes))
    have later := after prefill
    rw [total] at rows
    omega
  · rfl

theorem sparse_rows_exact (unpacks : Unpacks unpackSeq) (several : 2 ≤ poolSize) (scheduled : ∀ req ∈ reqs.take numDecodes, 0 < req.queryLen)
    (prefill_selects : ∀ token ks ke, TopKRow (cfg.topkTokens / poolSize) (ke - ks) (prefillTopK token ks ke))
    (decode_selects : ∀ row window, TopKRow (cfg.topkTokens / poolSize) (Int.toNat window) (decodeTopK row window))
    (found : reqs[r]? = some req) (inside : k < req.queryLen) :
    SparseRow poolSize (min (cfg.topkTokens / poolSize) ((req.contextLen + k + 1) / poolSize)) (req.contextLen + k)
      (indexRow (sparseAttnIndexerKpool cfg poolSize prefillTopK decodeTopK unpackSeq empty blockTable reqs numDecodes
        paddedTokens topkIndicesBuffer) (bufferWidth poolSize cfg.topkTokens) (queryStartLoc reqs r + k)) ↔
    RowServed cfg poolSize reqs numDecodes r k req := by
  have bound := (List.getElem?_eq_some_iff.mp found).1
  obtain ⟨before,_,_⟩ := token_bounds reqs numDecodes found inside
  unfold RowServed
  by_cases decode : r < numDecodes
  · have row := decode_token_row cfg poolSize prefillTopK decodeTopK unpackSeq empty blockTable reqs numDecodes paddedTokens
      topkIndicesBuffer unpacks several scheduled decode_selects found inside decode
    rw [window_toNat cfg.decode several] at row
    rw [if_pos decode]
    constructor
    · intro claimed native
      rw [if_pos native] at row
      exact pool_count_unique (by omega) row claimed
    · intro counted
      split at row
      · rename_i native
        rwa [counted native] at row
      · exact row
  · have prefill := Nat.le_of_not_lt decode
    have cleared : ∀ col, clearRows (queryStartLoc reqs reqs.length + paddedTokens) topkIndicesBuffer
        (queryStartLoc reqs r + k) col = -1 := fun col => if_pos (by omega)
    have same := decode_apart cfg poolSize prefillTopK decodeTopK unpackSeq empty blockTable reqs numDecodes paddedTokens
      topkIndicesBuffer unpacks found inside prefill
    rw [if_neg decode,indexRow,same,← indexRow]
    cases short : shortPrefill cfg.topkTokens reqs numDecodes with
    | true =>
        exact iff_of_true (short_row cfg poolSize prefillTopK empty blockTable reqs numDecodes _ (Nat.zero_lt_of_lt several) found inside
          prefill short) (Or.inl rfl)
    | false =>
        rw [← token_covered cfg poolSize empty blockTable reqs numDecodes found inside]
        constructor
        · intro claimed
          right
          by_contra uncovered
          exact unserved_row cfg poolSize prefillTopK empty blockTable reqs numDecodes _ several found inside prefill
            short uncovered cleared claimed
        · intro served
          have covered := served.resolve_left (by simp)
          exact sparse_prefill_row cfg poolSize prefillTopK empty blockTable reqs numDecodes _ several prefill_selects
            found inside prefill short covered cleared

end Batch

def firstIds (k window : Nat) : List Int :=
  (List.range (min k window)).map Int.ofNat ++ List.replicate (k - min k window) (-1)

theorem first_ids_exact (k window : Nat) : TopKRow k window (firstIds k window) := by
  have kept : (firstIds k window).filter (fun id => decide (0 ≤ id)) =
      (List.range (min k window)).map Int.ofNat := by
    rw [firstIds,List.filter_append,List.filter_replicate,List.filter_eq_self.mpr]
    · simp
    · intro id listed
      obtain ⟨n,_,rfl⟩ := List.mem_map.mp listed
      simp
  refine ⟨?_,?_,?_,?_⟩
  · rw [firstIds,List.length_append,List.length_map,List.length_range,List.length_replicate]
    omega
  · intro id listed
    rcases List.mem_append.mp listed with chosen | padded
    · obtain ⟨n,counted,rfl⟩ := List.mem_map.mp chosen
      have inside := List.mem_range.mp counted
      right
      exact ⟨Int.natCast_nonneg n,by simp only [Int.ofNat_eq_natCast]; omega⟩
    · exact Or.inl (List.eq_of_mem_replicate padded)
  · rw [kept]
    exact List.nodup_range.map fun a b same => Int.ofNat.inj same
  · rw [kept,List.length_map,List.length_range]

def flattenedConfig : IndexerConfig := ⟨⟨true,false,3⟩,512,65536,1048576⟩

-- Two verify tokens after nine, batched with a prompt of 1024.
theorem sparse_rows_exact_verify :
    SparseRow 4 (min (512 / 4) ((9 + 1 + 1) / 4)) (9 + 1)
      (indexRow (sparseAttnIndexerKpool flattenedConfig 4 (fun _ ks ke => firstIds (512 / 4) (ke - ks))
        (fun _ window => firstIds (512 / 4) window.toNat) unpackRows (fun _ => 0) (fun _ p => p) [⟨9,2⟩,⟨0,1024⟩] 1 0 fun _ _ => 0)
        (bufferWidth 4 512) (queryStartLoc [⟨9,2⟩,⟨0,1024⟩] 0 + 1)) :=
  (sparse_rows_exact flattenedConfig 4 _ _ _ _ _ [⟨9,2⟩,⟨0,1024⟩] 1 0 _ unpack_rows_documented (by decide) (by decide)
    (fun _ _ _ => first_ids_exact _ _) (fun _ _ => first_ids_exact _ _) (by rfl : _ = some ⟨9,2⟩) (by decide)).mpr
      (by intro native; cases native)

-- A prompt of two tokens before one of 1024: the budget of one MiB parts them.
theorem short_prompt_unserved :
    (∀ ks ke, TopKRow (512 / 4) (ke - ks) (firstIds (512 / 4) (ke - ks))) ∧
    ¬ SparseRow 4 (min (512 / 4) ((0 + 0 + 1) / 4)) (0 + 0)
      (indexRow (sparseAttnIndexerKpool flattenedConfig 4 (fun _ ks ke => firstIds (512 / 4) (ke - ks))
        (fun _ window => firstIds (512 / 4) window.toNat) unpackRows (fun _ => 0) (fun _ p => p) [⟨0,2⟩,⟨0,1024⟩] 0 0 fun _ _ => 0)
        (bufferWidth 4 512) (queryStartLoc [⟨0,2⟩,⟨0,1024⟩] 0 + 0)) := by
  have groups : prefillGroups 4 [⟨0,2⟩,⟨0,1024⟩] 0 65536 1048576 = [⟨0,1,2,0⟩,⟨1,2,1024,256⟩] := by
    simp [prefillGroups,prefillPairs,splitGroups,nextGroup,grow,Request.seqLen]
  refine ⟨fun _ _ => first_ids_exact _ _,?_⟩
  have uncovered : ¬ ∃ group ∈ prefillGroups 4 [⟨0,2⟩,⟨0,1024⟩] 0 65536 1048576,
      group.start + 0 ≤ 0 ∧ 0 < group.stop + 0 ∧ HasPool 4 [⟨0,2⟩,⟨0,1024⟩] 0 group := by
    rw [groups]
    rintro ⟨group,member,first,last,r,req,low,high,found,held⟩
    rcases List.mem_cons.mp member with rfl | member
    · obtain rfl : r = 0 := Nat.lt_one_iff.mp high
      cases found
      simp [Request.seqLen] at held
    · obtain rfl := List.mem_singleton.mp member
      exact absurd first (by decide)
  have apart := mt (token_covered flattenedConfig 4 (fun _ => 0) (fun _ p => p) [⟨0,2⟩,⟨0,1024⟩] 0
    (by rfl : _ = some ⟨0,2⟩) (by decide : 0 < 2)).mp uncovered
  rw [indexRow,decode_apart flattenedConfig 4 _ _ _ _ _ [⟨0,2⟩,⟨0,1024⟩] 0 0 _ unpack_rows_documented (by rfl : _ = some ⟨0,2⟩)
    (by decide : 0 < 2) (Nat.le_refl _),← indexRow]
  refine unserved_row flattenedConfig 4 _ _ _ [⟨0,2⟩,⟨0,1024⟩] 0 _ (by decide) (by rfl : _ = some ⟨0,2⟩)
    (by decide : 0 < 2) (Nat.le_refl _) (by decide) apart ?_
  intro col
  exact if_pos (by decide)

end Glm5Next.SparseRows
