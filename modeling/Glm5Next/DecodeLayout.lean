import Glm5Next.ExpandedPools
import Glm5Next.Ragged
import Glm5Next.StoreWrites

namespace Glm5Next.DecodeLayout
open ExpandedPools StoreWrites

structure DecodeConfig where
  useFlattening : Bool
  supportsVarlen : Bool
  numSpeculativeTokens : Nat

-- One row of context lengths for each row of the logits grid.
structure DecodeMetadata where
  seqLens : List (List Int)
  decodeLens : List Nat
  requiresPadding : Bool

def maxDecodeLen (decodeLens : List Nat) : Nat := decodeLens.max?.getD 0

def minDecodeLen (decodeLens : List Nat) : Nat := decodeLens.min?.getD 0

def useNative (cfg : DecodeConfig) (decodeLens : List Nat) : Bool :=
  !(cfg.useFlattening || cfg.supportsVarlen) && decide (maxDecodeLen decodeLens ≤ 1 + cfg.numSpeculativeTokens)

def prepareUniformDecode (seqLens decodeLens : List Nat) (numDecodeTokens : Nat) : List (List Int) :=
  let maxDecodeLen := maxDecodeLen decodeLens
  (List.range numDecodeTokens).map fun idx =>
    [(seqLens.getD (idx / maxDecodeLen) 0 : Int) - maxDecodeLen + (idx % maxDecodeLen : Nat) + 1]

def prepareVariableDecode (seqLens decodeLens : List Nat) (numDecodeTokens : Nat) : List (List Int) :=
  let expandedOffsets := (Ragged.owners decodeLens).map fun b =>
    (seqLens.getD b 0 : Int) - decodeLens.getD b 0 - Ragged.start decodeLens b
  (expandedOffsets.zipIdx.map fun (offset,i) => [offset + i + 1]) ++
    List.replicate (numDecodeTokens - decodeLens.sum) [0]

-- Token j of a native row attends to L - max_decode_len + j + 1 keys.
def prepareNativeDecode (cfg : DecodeConfig) (seqLens decodeLens : List Nat) : List (List Int) :=
  seqLens.map fun (seqLen : Nat) =>
    if 1 + cfg.numSpeculativeTokens > 1 then
      (List.range (maxDecodeLen decodeLens)).map fun (j : Nat) => (seqLen : Int) - maxDecodeLen decodeLens + 1 + j
    else [(seqLen : Int)]

def prepareDecodeTensors (cfg : DecodeConfig) (seqLens decodeLens : List Nat) (numDecodeTokens : Nat) :
    DecodeMetadata :=
  if useNative cfg decodeLens then
    ⟨prepareNativeDecode cfg seqLens decodeLens,decodeLens,
      decide (minDecodeLen decodeLens ≠ maxDecodeLen decodeLens)⟩
  else if cfg.supportsVarlen = false ∧ minDecodeLen decodeLens = maxDecodeLen decodeLens ∧
      decodeLens.length * maxDecodeLen decodeLens = numDecodeTokens then
    ⟨prepareUniformDecode seqLens decodeLens numDecodeTokens,List.replicate numDecodeTokens 1,false⟩
  else ⟨prepareVariableDecode seqLens decodeLens numDecodeTokens,List.replicate numDecodeTokens 1,false⟩

def buildDecodeMetadata (cfg : DecodeConfig) (compressRatio : Nat) (seqLens decodeLens : List Nat)
    (numDecodeTokens : Nat) : DecodeMetadata :=
  let tensors := prepareDecodeTensors cfg seqLens decodeLens numDecodeTokens
  let seqLensIsBufferView :=
    useNative cfg decodeLens && decide (1 + cfg.numSpeculativeTokens > 1) ||
      !useNative cfg decodeLens && decide (maxDecodeLen decodeLens > 1)
  let compressed := tensors.seqLens.map fun row => row.map (· / (compressRatio : Int))
  if seqLensIsBufferView then { tensors with seqLens := compressed }
  else
    { tensors with
      seqLens := (List.range numDecodeTokens).map fun i =>
        if i < decodeLens.length then compressed.getD i [] else [0] }

def decodeGrid (decode : DecodeMetadata) (numDecodeTokens : Nat) : Nat × Nat :=
  let batchSize := decode.decodeLens.length
  (batchSize,if decode.requiresPadding then maxDecodeLen decode.decodeLens else numDecodeTokens / batchSize)

def buildDecodeScatterIndices (decodeLens : List Nat) (n : Nat) : List (Nat × Nat) :=
  let reqId := Ragged.owners decodeLens
  (List.range n).map fun i => (reqId.getD i 0,i - Ragged.start decodeLens (reqId.getD i 0))

-- The scatter is dtype-agnostic.
def scatterDecodeTokensByRequest (tokens : Nat → α) (padValue : α) (scatterIndices : List (Nat × Nat)) :
    Nat × Nat → α :=
  writes (fun _ => padValue) (scatterIndices.zipIdx.map fun (place,i) => (place,tokens i))

def decodeTopkSeqLens (positions : Nat → Nat) (decodeLens : List Nat) (numDecodeTokens nextN : Nat)
    (requiresPadding : Bool) (row : Nat) : Nat :=
  if requiresPadding then
    let padded := scatterDecodeTokensByRequest (fun i => (positions i : Int)) (-1)
      (buildDecodeScatterIndices decodeLens numDecodeTokens)
    (padded (row / nextN,row % nextN) + 1).toNat
  else positions row + 1

def rowWindow (decode : DecodeMetadata) (nextN row : Nat) : Int :=
  (decode.seqLens.getD (row / nextN) []).getD (row % nextN) 0

-- unpack_seq_triton: the width, the rows of the [B, width] grid and the lengths.
abbrev UnpackSeq := Nat → (Nat → Nat → List Int) → List Nat → List (List Int)

-- The rows of each sequence without the padding behind them.
structure Unpacks (unpackSeq : UnpackSeq) : Prop where
  length : ∀ width rows lens, (∀ len ∈ lens, len ≤ width) → (unpackSeq width rows lens).length = lens.sum
  entry : ∀ width rows lens (r len k : Nat), (∀ len ∈ lens, len ≤ width) → lens[r]? = some len → k < len →
    (unpackSeq width rows lens)[Ragged.start lens r + k]? = some (rows r k)

-- The rows the decode stage hands to the index buffer; `topK` is what the
-- primitive selects for a row of the grid with so many candidates.
def topkRows (poolSize : Nat) (topK : Nat → Int → List Int) (unpackSeq : UnpackSeq) (positions : Nat → Nat)
    (decode : DecodeMetadata) (numDecodeTokens : Nat) : List (List Int) :=
  let (batchSize,nextN) := decodeGrid decode numDecodeTokens
  let out := fun row =>
    expandPoolsAndAppendTail poolSize (topK row (rowWindow decode nextN row))
      (decodeTopkSeqLens positions decode.decodeLens numDecodeTokens nextN decode.requiresPadding row)
  if decode.requiresPadding then unpackSeq nextN (fun b t => out (b * nextN + t)) decode.decodeLens
  else (List.range (batchSize * nextN)).map out

def decodeRows (cfg : DecodeConfig) (poolSize : Nat) (topK : Nat → Int → List Int) (unpackSeq : UnpackSeq)
    (positions : Nat → Nat) (seqLens decodeLens : List Nat) (numDecodeTokens : Nat) : List (List Int) :=
  topkRows poolSize topK unpackSeq positions (buildDecodeMetadata cfg poolSize seqLens decodeLens numDecodeTokens)
    numDecodeTokens

theorem len_le_max (member : len ∈ lens) : len ≤ maxDecodeLen lens := List.le_max?_getD_of_mem member

theorem min_le_len (member : len ∈ lens) : minDecodeLen lens ≤ len := List.min?_getD_le_of_mem member

theorem lens_uniform (same : minDecodeLen lens = maxDecodeLen lens) (member : len ∈ lens) :
    len = maxDecodeLen lens := by
  have low := min_le_len member
  have high := len_le_max member
  omega

theorem native_fits (native : useNative cfg decodeLens = true) :
    maxDecodeLen decodeLens ≤ 1 + cfg.numSpeculativeTokens := by
  simp only [useNative,Bool.and_eq_true,decide_eq_true_iff] at native
  exact native.2

-- The lengths are copied only in a batch of single tokens.
theorem copied_single (copied : ¬ (useNative cfg decodeLens && decide (1 + cfg.numSpeculativeTokens > 1) ||
    !useNative cfg decodeLens && decide (maxDecodeLen decodeLens > 1)) = true) : maxDecodeLen decodeLens ≤ 1 := by
  cases native : useNative cfg decodeLens with
  | true =>
      have fits := native_fits native
      simp [native] at copied
      omega
  | false =>
      simp [native] at copied
      omega

section Token
variable {decodeLens seqLens : List Nat} {r k len seqLen : Nat}

theorem uniform_token (k : Nat) (same : minDecodeLen decodeLens = maxDecodeLen decodeLens)
    (found : decodeLens[r]? = some len) :
    len = maxDecodeLen decodeLens ∧ Ragged.start decodeLens r + k = r * maxDecodeLen decodeLens + k ∧
      decodeLens.sum = decodeLens.length * maxDecodeLen decodeLens := by
  have uniform : ∀ len ∈ decodeLens, len = maxDecodeLen decodeLens := fun _ member => lens_uniform same member
  have own := uniform len (List.mem_of_getElem? found)
  have bound := (List.getElem?_eq_some_iff.mp found).1
  refine ⟨own,?_,?_⟩
  · rw [Ragged.start_uniform uniform (Nat.le_of_lt bound)]
  · rw [← Ragged.start_length,Ragged.start_uniform uniform (Nat.le_refl _)]

theorem token_before (found : decodeLens[r]? = some len) (inside : k < len) :
    Ragged.start decodeLens r + k < decodeLens.sum := by
  rw [← Ragged.start_length]
  exact Ragged.row_inside found inside (List.getElem?_eq_some_iff.mp found).1

theorem uniform_decode_exact (same : minDecodeLen decodeLens = maxDecodeLen decodeLens)
    (found : decodeLens[r]? = some len) (length : seqLens[r]? = some seqLen) (inside : k < len)
    (counted : Ragged.start decodeLens r + k < numDecodeTokens) :
    (prepareUniformDecode seqLens decodeLens numDecodeTokens)[Ragged.start decodeLens r + k]? =
      some [(seqLen : Int) - len + k + 1] := by
  obtain ⟨own,flat,_⟩ := uniform_token k same found
  have wide : k < maxDecodeLen decodeLens := own ▸ inside
  unfold prepareUniformDecode
  dsimp only
  rw [List.getElem?_map,List.getElem?_range counted,Option.map_some,flat,Ragged.grid_row wide,Ragged.grid_col wide,
    List.getD_eq_getElem?_getD,length,Option.getD_some,← own]

theorem variable_decode_exact (found : decodeLens[r]? = some len) (length : seqLens[r]? = some seqLen)
    (inside : k < len) :
    (prepareVariableDecode seqLens decodeLens numDecodeTokens)[Ragged.start decodeLens r + k]? =
      some [(seqLen : Int) - len + k + 1] := by
  have owner := Ragged.owners_get found inside
  have bound := (List.getElem?_eq_some_iff.mp owner).1
  unfold prepareVariableDecode
  dsimp only
  rw [List.getElem?_append_left (by simpa using bound),List.getElem?_map,List.getElem?_zipIdx,List.getElem?_map,owner]
  simp only [Option.map_some,List.getD_eq_getElem?_getD,found,length,Option.getD_some]
  congr 2
  omega

theorem native_entry (cfg : DecodeConfig) (fits : maxDecodeLen decodeLens ≤ 1 + cfg.numSpeculativeTokens)
    (length : seqLens[r]? = some seqLen) (wide : k < maxDecodeLen decodeLens) :
    ∃ row, (prepareNativeDecode cfg seqLens decodeLens)[r]? = some row ∧
      row[k]? = some ((seqLen : Int) - maxDecodeLen decodeLens + 1 + k) := by
  unfold prepareNativeDecode
  rw [List.getElem?_map,length,Option.map_some]
  refine ⟨_,rfl,?_⟩
  by_cases speculative : 1 + cfg.numSpeculativeTokens > 1
  · rw [if_pos speculative,List.getElem?_map,List.getElem?_range wide]
    rfl
  · rw [if_neg speculative]
    obtain rfl : k = 0 := by omega
    have single : maxDecodeLen decodeLens = 1 := by omega
    rw [single]
    simp

theorem native_decode_exact (cfg : DecodeConfig) (fits : maxDecodeLen decodeLens ≤ 1 + cfg.numSpeculativeTokens)
    (found : decodeLens[r]? = some len) (length : seqLens[r]? = some seqLen) (inside : k < len) :
    ∃ row, (prepareNativeDecode cfg seqLens decodeLens)[r]? = some row ∧
      row[k]? = some ((seqLen : Int) - maxDecodeLen decodeLens + 1 + k) :=
  native_entry cfg fits length (Nat.lt_of_lt_of_le inside (len_le_max (List.mem_of_getElem? found)))

def decodeWindow (cfg : DecodeConfig) (poolSize : Nat) (decodeLens : List Nat) (seqLen len k : Nat) : Int :=
  (if useNative cfg decodeLens then (seqLen : Int) - maxDecodeLen decodeLens + 1 + k
    else (seqLen : Int) - len + k + 1) / (poolSize : Int)

theorem all_single (scheduled : ∀ len ∈ decodeLens, 0 < len) (single : maxDecodeLen decodeLens ≤ 1) :
    decodeLens.sum = decodeLens.length := by
  have uniform : ∀ len ∈ decodeLens, len = 1 := by
    intro len member
    have low := scheduled len member
    have high := len_le_max member
    omega
  rw [← Ragged.start_length,Ragged.start_uniform uniform (Nat.le_refl _),Nat.mul_one]

-- Also in a batch that captured graphs fill up with requests of length zero.
theorem compressed_row (cfg : DecodeConfig) (poolSize : Nat)
    (listed : (prepareDecodeTensors cfg seqLens decodeLens numDecodeTokens).seqLens[i]? = some row)
    (bound : i < numDecodeTokens) (copied : maxDecodeLen decodeLens ≤ 1 → i < decodeLens.length) :
    (buildDecodeMetadata cfg poolSize seqLens decodeLens numDecodeTokens).seqLens[i]? =
      some (row.map (· / (poolSize : Int))) := by
  have divided : ((prepareDecodeTensors cfg seqLens decodeLens numDecodeTokens).seqLens.map
      fun row => row.map (· / (poolSize : Int)))[i]? = some (row.map (· / (poolSize : Int))) := by
    rw [List.getElem?_map,listed,Option.map_some]
  unfold buildDecodeMetadata
  dsimp only
  split
  · exact divided
  · rename_i unviewed
    have single := copied_single unviewed
    rw [List.getElem?_map,List.getElem?_range bound,Option.map_some,if_pos (copied single),
      List.getD_eq_getElem?_getD,divided,Option.getD_some]

theorem compressed_exact (cfg : DecodeConfig) (poolSize : Nat) (scheduled : ∀ len ∈ decodeLens, 0 < len)
    (listed : (prepareDecodeTensors cfg seqLens decodeLens decodeLens.sum).seqLens[i]? = some row)
    (bound : i < decodeLens.sum) :
    (buildDecodeMetadata cfg poolSize seqLens decodeLens decodeLens.sum).seqLens[i]? =
      some (row.map (· / (poolSize : Int))) := by
  apply compressed_row cfg poolSize listed bound
  intro single
  rw [← all_single scheduled single]
  exact bound

theorem flattened_row (cfg : DecodeConfig) (flattened : useNative cfg decodeLens = false)
    (counted : decodeLens.sum ≤ numDecodeTokens) (found : decodeLens[r]? = some len) (length : seqLens[r]? = some seqLen)
    (inside : k < len) :
    (prepareDecodeTensors cfg seqLens decodeLens numDecodeTokens).decodeLens = List.replicate numDecodeTokens 1 ∧
    (prepareDecodeTensors cfg seqLens decodeLens numDecodeTokens).requiresPadding = false ∧
    (prepareDecodeTensors cfg seqLens decodeLens numDecodeTokens).seqLens[Ragged.start decodeLens r + k]? =
      some [(seqLen : Int) - len + k + 1] := by
  have before := Nat.lt_of_lt_of_le (token_before found inside) counted
  unfold prepareDecodeTensors
  rw [if_neg (by simp [flattened])]
  split
  · rename_i uniform
    exact ⟨rfl,rfl,uniform_decode_exact uniform.2.1 found length inside before⟩
  · exact ⟨rfl,rfl,variable_decode_exact found length inside⟩

theorem flattened_exact (cfg : DecodeConfig) (flattened : useNative cfg decodeLens = false)
    (found : decodeLens[r]? = some len) (length : seqLens[r]? = some seqLen) (inside : k < len) :
    (prepareDecodeTensors cfg seqLens decodeLens decodeLens.sum).decodeLens = List.replicate decodeLens.sum 1 ∧
    (prepareDecodeTensors cfg seqLens decodeLens decodeLens.sum).requiresPadding = false ∧
    (prepareDecodeTensors cfg seqLens decodeLens decodeLens.sum).seqLens[Ragged.start decodeLens r + k]? =
      some [(seqLen : Int) - len + k + 1] :=
  flattened_row cfg flattened (Nat.le_refl _) found length inside

theorem native_exact (cfg : DecodeConfig) (native : useNative cfg decodeLens = true)
    (found : decodeLens[r]? = some len) (length : seqLens[r]? = some seqLen) (inside : k < len) :
    (prepareDecodeTensors cfg seqLens decodeLens decodeLens.sum).decodeLens = decodeLens ∧
    (prepareDecodeTensors cfg seqLens decodeLens decodeLens.sum).requiresPadding =
      decide (minDecodeLen decodeLens ≠ maxDecodeLen decodeLens) ∧
    ∃ row, (prepareDecodeTensors cfg seqLens decodeLens decodeLens.sum).seqLens[r]? = some row ∧
      row[k]? = some ((seqLen : Int) - maxDecodeLen decodeLens + 1 + k) := by
  have fits := native_fits native
  unfold prepareDecodeTensors
  rw [if_pos native]
  exact ⟨rfl,rfl,native_decode_exact cfg fits found length inside⟩

theorem built_lens (cfg : DecodeConfig) (poolSize : Nat) (seqLens decodeLens : List Nat) (n : Nat) :
    (buildDecodeMetadata cfg poolSize seqLens decodeLens n).decodeLens =
      (prepareDecodeTensors cfg seqLens decodeLens n).decodeLens := by
  unfold buildDecodeMetadata
  dsimp only
  split <;> rfl

theorem built_padding (cfg : DecodeConfig) (poolSize : Nat) (seqLens decodeLens : List Nat) (n : Nat) :
    (buildDecodeMetadata cfg poolSize seqLens decodeLens n).requiresPadding =
      (prepareDecodeTensors cfg seqLens decodeLens n).requiresPadding := by
  unfold buildDecodeMetadata
  dsimp only
  split <;> rfl

theorem row_window_exact (decode : DecodeMetadata) (listed : decode.seqLens[r]? = some row)
    (entry : row[k]? = some window) (at_r : i / nextN = r) (at_k : i % nextN = k) :
    rowWindow decode nextN i = window := by
  simp only [rowWindow,at_r,at_k,List.getD_eq_getElem?_getD,listed,Option.getD_some,entry]

theorem place_exact (found : decodeLens[r]? = some len) (inside : k < len) :
    (buildDecodeScatterIndices decodeLens decodeLens.sum)[Ragged.start decodeLens r + k]? = some (r,k) := by
  have owner := Ragged.owners_get found inside
  simp only [buildDecodeScatterIndices]
  rw [List.getElem?_map,List.getElem?_range (token_before found inside),Option.map_some,
    List.getD_eq_getElem?_getD,owner,Option.getD_some,Nat.add_sub_cancel_left]

theorem place_parts (listed : (buildDecodeScatterIndices decodeLens decodeLens.sum)[i]? = some (r,k)) :
    ∃ len, decodeLens[r]? = some len ∧ k < len ∧ i = Ragged.start decodeLens r + k := by
  have bound : i < decodeLens.sum := by
    have := (List.getElem?_eq_some_iff.mp listed).1
    simpa [buildDecodeScatterIndices] using this
  obtain ⟨s,len,k',found,inside,rfl⟩ := Ragged.locate decodeLens bound
  rw [place_exact found inside] at listed
  cases listed
  exact ⟨len,found,inside,rfl⟩

theorem scattered_exact (tokens : Nat → α) (padValue : α) (found : decodeLens[r]? = some len) (inside : k < len) :
    scatterDecodeTokensByRequest tokens padValue (buildDecodeScatterIndices decodeLens decodeLens.sum) (r,k) =
      tokens (Ragged.start decodeLens r + k) := by
  unfold scatterDecodeTokensByRequest
  apply writes_exact
  · refine List.mem_map.mpr ⟨((r,k),Ragged.start decodeLens r + k),?_,rfl⟩
    exact List.mem_zipIdx_iff_getElem?.mpr (place_exact found inside)
  · intro entry member same
    obtain ⟨⟨⟨s,t⟩,i⟩,listed,rfl⟩ := List.mem_map.mp member
    rw [List.mem_zipIdx_iff_getElem?] at listed
    dsimp only at listed same ⊢
    obtain ⟨_,_,_,rfl⟩ := place_parts listed
    cases same
    rfl

theorem scattered_pad (tokens : Nat → α) (padValue : α) (found : decodeLens[r]? = some len) (past : len ≤ k) :
    scatterDecodeTokensByRequest tokens padValue (buildDecodeScatterIndices decodeLens decodeLens.sum) (r,k) = padValue := by
  unfold scatterDecodeTokensByRequest
  apply writes_apart
  intro entry member same
  obtain ⟨⟨⟨s,t⟩,i⟩,listed,rfl⟩ := List.mem_map.mp member
  rw [List.mem_zipIdx_iff_getElem?] at listed
  dsimp only at listed same
  obtain ⟨len',found',inside,_⟩ := place_parts listed
  cases same
  rw [found] at found'
  cases found'
  omega

theorem unpadded_row (decode : DecodeMetadata) (nextN : Nat) (unpadded : decode.requiresPadding = false)
    (grid : decode.decodeLens.length * nextN = n) (bound : i < n) :
    (topkRows poolSize topK unpackSeq positions decode n)[i]? =
      some (expandPoolsAndAppendTail poolSize (topK i (rowWindow decode nextN i)) (positions i + 1)) := by
  have width : n / decode.decodeLens.length = nextN := by
    subst grid
    apply Nat.mul_div_cancel_left
    apply Nat.pos_of_ne_zero
    intro none_held
    rw [none_held,Nat.zero_mul] at bound
    exact Nat.not_lt_zero _ bound
  simp only [topkRows,decodeGrid,decodeTopkSeqLens,unpadded,Bool.false_eq_true,if_false,width,grid]
  rw [List.getElem?_map,List.getElem?_range bound,Option.map_some]

theorem padded_row (unpacks : Unpacks unpackSeq) (decode : DecodeMetadata) (padded : decode.requiresPadding = true)
    (lens : decode.decodeLens = decodeLens) (found : decodeLens[r]? = some len) (inside : k < len) :
    (topkRows poolSize topK unpackSeq positions decode decodeLens.sum)[Ragged.start decodeLens r + k]? =
      some (expandPoolsAndAppendTail poolSize
        (topK (r * maxDecodeLen decodeLens + k) (rowWindow decode (maxDecodeLen decodeLens)
          (r * maxDecodeLen decodeLens + k))) (positions (Ragged.start decodeLens r + k) + 1)) := by
  have wide := Nat.lt_of_lt_of_le inside (len_le_max (List.mem_of_getElem? found))
  simp only [topkRows,decodeGrid,decodeTopkSeqLens,padded,if_true,lens]
  rw [unpacks.entry _ _ _ _ _ _ (fun _ member => len_le_max member) found inside,Ragged.grid_row wide,
    Ragged.grid_col wide,scattered_exact _ _ found inside]
  congr 2

theorem rows_length_le (unpacks : Unpacks unpackSeq) (cfg : DecodeConfig) (poolSize : Nat) (topK : Nat → Int → List Int)
    (positions : Nat → Nat) (seqLens decodeLens : List Nat) :
    (decodeRows cfg poolSize topK unpackSeq positions seqLens decodeLens decodeLens.sum).length ≤ decodeLens.sum := by
  unfold decodeRows topkRows decodeGrid
  dsimp only
  split
  · rename_i padded
    rw [built_padding] at padded
    rw [built_lens]
    have lens : (prepareDecodeTensors cfg seqLens decodeLens decodeLens.sum).decodeLens = decodeLens := by
      unfold prepareDecodeTensors at padded ⊢
      split at padded
      · rename_i native
        rw [if_pos native]
      · split at padded <;> cases padded
    rw [lens]
    exact Nat.le_of_eq (unpacks.length _ _ _ fun _ member => len_le_max member)
  · rw [List.length_map,List.length_range]
    exact Nat.mul_div_le _ _

theorem decode_row_exact (unpacks : Unpacks unpackSeq) (cfg : DecodeConfig) (poolSize : Nat) (topK : Nat → Int → List Int)
    (positions : Nat → Nat) (scheduled : ∀ len ∈ decodeLens, 0 < len) (found : decodeLens[r]? = some len)
    (length : seqLens[r]? = some seqLen) (inside : k < len) :
    ∃ row, (decodeRows cfg poolSize topK unpackSeq positions seqLens decodeLens decodeLens.sum)[Ragged.start decodeLens r + k]? =
      some (expandPoolsAndAppendTail poolSize (topK row (decodeWindow cfg poolSize decodeLens seqLen len k))
        (positions (Ragged.start decodeLens r + k) + 1)) := by
  have before := token_before found inside
  have lens := built_lens cfg poolSize seqLens decodeLens decodeLens.sum
  have padding := built_padding cfg poolSize seqLens decodeLens decodeLens.sum
  unfold decodeRows decodeWindow
  cases native : useNative cfg decodeLens with
  | false =>
      obtain ⟨singles,unpadded,listed⟩ := flattened_exact cfg native found length inside
      have divided := compressed_exact cfg poolSize scheduled listed before
      refine ⟨Ragged.start decodeLens r + k,?_⟩
      rw [unpadded_row _ 1 (padding.trans unpadded) (by rw [lens,singles]; simp) before,
        row_window_exact _ divided rfl (Nat.div_one _) (Nat.mod_one _)]
      rfl
  | true =>
      obtain ⟨same_lens,padded,row,listed,entry⟩ := native_exact cfg native found length inside
      have request : r < decodeLens.sum :=
        Nat.lt_of_le_of_lt (Nat.le_trans (Ragged.row_le_start scheduled
          (Nat.le_of_lt (List.getElem?_eq_some_iff.mp found).1)) (Nat.le_add_right _ k)) before
      have divided := compressed_exact cfg poolSize scheduled listed request
      have window : (row.map (· / (poolSize : Int)))[k]? =
          some (((seqLen : Int) - maxDecodeLen decodeLens + 1 + k) / (poolSize : Int)) := by
        rw [List.getElem?_map,entry,Option.map_some]
      have wide := Nat.lt_of_lt_of_le inside (len_le_max (List.mem_of_getElem? found))
      by_cases uniform : minDecodeLen decodeLens = maxDecodeLen decodeLens
      · obtain ⟨_,flat,total⟩ := uniform_token k uniform found
        refine ⟨Ragged.start decodeLens r + k,?_⟩
        rw [unpadded_row _ (maxDecodeLen decodeLens) (padding.trans (padded.trans (by simp [uniform])))
          (by rw [lens,same_lens,total]) before,
          row_window_exact _ divided window (flat ▸ Ragged.grid_row wide) (flat ▸ Ragged.grid_col wide)]
        rfl
      · refine ⟨r * maxDecodeLen decodeLens + k,?_⟩
        rw [padded_row unpacks _ (padding.trans (padded.trans (by simp [uniform]))) (lens.trans same_lens) found inside,
          row_window_exact _ divided window (Ragged.grid_row wide) (Ragged.grid_col wide)]
        rfl

end Token

def unpackRows : UnpackSeq := fun _ rows lens =>
  lens.zipIdx.flatMap fun (len,b) => (List.range len).map (rows b)

theorem unpack_rows_documented : Unpacks unpackRows := by
  refine ⟨fun _ rows lens _ => ?_,fun _ rows lens r len k _ found inside => ?_⟩
  · have sizes : lens.zipIdx.map (fun row => ((List.range row.1).map (rows row.2)).length) = lens := by
      simp only [List.length_map,List.length_range]
      exact List.zipIdx_map_fst 0 lens
    rw [unpackRows,List.length_flatMap,sizes]
  · have flat := Ragged.flat_get (fun len b => (List.range len).map (rows b)) (by simp) found inside
    rw [unpackRows,flat,List.getElem?_map,List.getElem?_range inside,Option.map_some]

end Glm5Next.DecodeLayout
