import Glm5Next.DecodeLayout
import Glm5Next.MqaLogits

namespace Glm5Next.PagedLogits
open DecodeLayout MqaLogits PoolPages

-- The builder off the SM100 family: next_n outside (1, 2) is flattened.
def sm80 (numSpeculativeTokens : Nat) : DecodeConfig where
  useFlattening := decide (1 + numSpeculativeTokens ≠ 1 ∧ 1 + numSpeculativeTokens ≠ 2)
  supportsVarlen := false
  numSpeculativeTokens := numSpeculativeTokens

-- The decodes of a step. Only the batch of a captured graph is filled up, with
-- requests of length zero behind the others and tokens that no request owns.
structure DecodeBatch where
  seqLens : List Nat
  queryLens : List Nat
  padding : Nat
  numDecodeTokens : Nat
  positive : ∀ len ∈ queryLens, 0 < len
  listed : seqLens.length = queryLens.length + padding
  grown : ∀ r len seqLen : Nat, queryLens[r]? = some len → seqLens[r]? = some seqLen → len ≤ seqLen
  counted : queryLens.sum ≤ numDecodeTokens
  filled : padding = 0 → numDecodeTokens = queryLens.sum

def DecodeBatch.decodeLens (batch : DecodeBatch) : List Nat := batch.queryLens ++ List.replicate batch.padding 0

structure ScoreInputs (layout : PageLayout) where
  nextPowerOf2 : Nat → Nat
  power : TiledGrid.NextPower nextPowerOf2
  numHeads : Nat
  qQuant : Nat → Nat → Nat → UInt8
  weights : Nat → Nat → ℚ
  kvCache : Nat → UInt8
  float32 : List UInt8 → ℚ
  -- In kernel blocks, of which `factor` make one page.
  blockTable : Nat → Nat → Nat
  kernelColumns : Nat
  factor : Nat
  maxSeqLen : Nat

-- `stale` is what expanded_block_table_buffer held before.
def prepareBlockTable (cfg : DecodeConfig) (decodeLens : List Nat) (numDecodeTokens : Nat)
    (blockTable stale : Nat → Nat → Nat) : Nat → Nat → Nat :=
  if useNative cfg decodeLens then blockTable
  else if cfg.supportsVarlen = false ∧ minDecodeLen decodeLens = maxDecodeLen decodeLens ∧
      decodeLens.length * maxDecodeLen decodeLens = numDecodeTokens then
    fun idx => blockTable (idx / maxDecodeLen decodeLens)
  else fun idx =>
    match (Ragged.owners decodeLens)[idx]? with
    | some r => blockTable r
    | none => fun column => if column = 0 then 0 else stale idx column

-- block_table[:,::factor] // factor
def translate (factor : Nat) (blockTable : Nat → Nat → Nat) : Nat → Nat → Nat :=
  fun row column => blockTable row (column * factor) / factor

-- pack_seq_triton on tokens of any type, with the value that pads a sequence.
abbrev PackSeq := (α : Type) → (Nat → α) → α → List Nat → Nat → Nat → α

-- Token t of sequence b is at its place in the padded grid.
structure Packs (packSeq : PackSeq) : Prop where
  token : ∀ (α : Type) (tokens : Nat → α) (padValue : α) (lens : List Nat) (b t len : Nat), lens[b]? = some len → t < len →
    packSeq α tokens padValue lens b t = tokens (Ragged.start lens b + t)

def decodeArgs (cfg : DecodeConfig) (poolSize : Nat) (batch : DecodeBatch) {layout : PageLayout}
    (inputs : ScoreInputs layout) (packSeq : PackSeq) (padByte : UInt8) (stale : Nat → Nat → Nat) : PagedArgs layout :=
  let decode := buildDecodeMetadata cfg poolSize batch.seqLens batch.decodeLens batch.numDecodeTokens
  let (batchSize,nextN) := decodeGrid decode batch.numDecodeTokens
  { nextPowerOf2 := inputs.nextPowerOf2
    power := inputs.power
    batch := batchSize
    nextN := nextN
    numHeads := inputs.numHeads
    maxModelLen := inputs.maxSeqLen
    q := fun b t =>
      if decode.requiresPadding then packSeq _ inputs.qQuant (fun _ _ => padByte) decode.decodeLens b t
      else inputs.qQuant (b * nextN + t)
    kvCache := inputs.kvCache
    float32 := inputs.float32
    weights := fun row =>
      if decode.requiresPadding then packSeq _ inputs.weights (fun _ => 0) decode.decodeLens (row / nextN) (row % nextN)
      else inputs.weights row
    -- The kernel takes its pointer for that of a [B] tensor.
    contextLens := fun i => decode.seqLens.flatten.getD i 0
    blockTables := translate inputs.factor
      (prepareBlockTable cfg batch.decodeLens batch.numDecodeTokens inputs.blockTable stale)
    tableColumns := (inputs.kernelColumns + inputs.factor - 1) / inputs.factor }

-- Row b * next_n + t of the grid: after flattening every token is a row.
def gridRow (cfg : DecodeConfig) (decodeLens : List Nat) (b t : Nat) : Nat :=
  if useNative cfg decodeLens then b * maxDecodeLen decodeLens + t else Ragged.start decodeLens b + t

theorem decode_sum (batch : DecodeBatch) : batch.decodeLens.sum = batch.queryLens.sum := by
  simp [DecodeBatch.decodeLens]

section Request
variable {batch : DecodeBatch} {b t len : Nat}

theorem scheduled_request (found : batch.decodeLens[b]? = some len) (inside : t < len) :
    batch.queryLens[b]? = some len := by
  unfold DecodeBatch.decodeLens at found
  by_cases scheduled : b < batch.queryLens.length
  · rwa [List.getElem?_append_left scheduled] at found
  · rw [List.getElem?_append_right (Nat.le_of_not_lt scheduled)] at found
    have zero := (List.mem_replicate.mp (List.mem_of_getElem? found)).2
    omega

theorem request_le_start (found : batch.decodeLens[b]? = some len) (inside : t < len) :
    b ≤ Ragged.start batch.decodeLens b := by
  have bound := (List.getElem?_eq_some_iff.mp (scheduled_request found inside)).1
  have own := Ragged.row_le_start batch.positive (Nat.le_of_lt bound)
  unfold DecodeBatch.decodeLens Ragged.start
  rw [List.take_append_of_le_length (Nat.le_of_lt bound)]
  exact own

theorem some_token (found : batch.decodeLens[b]? = some len) (inside : t < len) : 0 < maxDecodeLen batch.decodeLens :=
  Nat.zero_lt_of_lt (Nat.lt_of_lt_of_le inside (len_le_max (List.mem_of_getElem? found)))

theorem token_counted (found : batch.decodeLens[b]? = some len) (inside : t < len) :
    Ragged.start batch.decodeLens b + t < batch.numDecodeTokens := by
  have before := token_before found inside
  rw [decode_sum] at before
  exact Nat.lt_of_lt_of_le before batch.counted

theorem request_counted (found : batch.decodeLens[b]? = some len) (inside : t < len) :
    b < batch.numDecodeTokens := by
  have request := request_le_start found inside
  have token := token_counted found inside
  omega

-- In a batch of single tokens a token's flat place is its request's, or before it.
theorem single_start (single : maxDecodeLen lens ≤ 1) (bound : r ≤ lens.length) : Ragged.start lens r ≤ r := by
  induction r with
  | zero => exact Nat.le_of_eq (Ragged.start_zero lens)
  | succ r ih =>
      rw [Ragged.start_succ (List.getElem?_eq_getElem bound)]
      have before := ih (Nat.le_of_succ_le bound)
      have own := Nat.le_trans (len_le_max (List.getElem_mem bound)) single
      omega

-- A batch with zero lengths needs padding; one without is not filled up.
theorem unpadded_exact (found : batch.decodeLens[b]? = some len) (inside : t < len)
    (uniform : minDecodeLen batch.decodeLens = maxDecodeLen batch.decodeLens) :
    batch.numDecodeTokens = batch.decodeLens.sum := by
  rw [decode_sum]
  apply batch.filled
  by_contra padded
  have zero : 0 ∈ batch.decodeLens := by
    unfold DecodeBatch.decodeLens
    exact List.mem_append_right _ (List.mem_replicate.mpr ⟨padded,rfl⟩)
  have least := min_le_len zero
  have most := len_le_max (List.mem_of_getElem? found)
  omega

end Request

section Builder
variable {seqLens decodeLens : List Nat} {n width : Nat}

-- A row of the builder is a prepared one in pools, or fills up a batch of single tokens.
theorem built_rows (cfg : DecodeConfig) (poolSize : Nat)
    (long : ∀ i < n, i < decodeLens.length → i < (prepareDecodeTensors cfg seqLens decodeLens n).seqLens.length)
    (member : row ∈ (buildDecodeMetadata cfg poolSize seqLens decodeLens n).seqLens) :
    (∃ prepared ∈ (prepareDecodeTensors cfg seqLens decodeLens n).seqLens,
      row = prepared.map (· / (poolSize : Int))) ∨ maxDecodeLen decodeLens ≤ 1 ∧ row = [0] := by
  unfold buildDecodeMetadata at member
  dsimp only at member
  split at member
  · obtain ⟨prepared,listed,rfl⟩ := List.mem_map.mp member
    exact Or.inl ⟨prepared,listed,rfl⟩
  · rename_i unviewed
    obtain ⟨i,counted,rfl⟩ := List.mem_map.mp member
    have before := List.mem_range.mp counted
    by_cases request : i < decodeLens.length
    · have inside := long i before request
      refine Or.inl ⟨_,List.getElem_mem inside,?_⟩
      rw [if_pos request,List.getD_eq_getElem?_getD,List.getElem?_map,List.getElem?_eq_getElem inside]
      rfl
    · exact Or.inr ⟨copied_single unviewed,if_neg request⟩

theorem flattened_prepared (cfg : DecodeConfig) (flattened : useNative cfg decodeLens = false)
    (counted : decodeLens.sum ≤ n) (spoken : 0 < maxDecodeLen decodeLens) (bounded : ∀ seqLen ∈ seqLens, seqLen ≤ width) :
    (prepareDecodeTensors cfg seqLens decodeLens n).seqLens.length = n ∧
    ∀ row ∈ (prepareDecodeTensors cfg seqLens decodeLens n).seqLens, row.length = 1 ∧
      ∀ x ∈ row, x ≤ (width : Int) := by
  have entries : ∀ r, seqLens.getD r 0 ≤ width := by
    intro r
    rw [List.getD_eq_getElem?_getD]
    cases found : seqLens[r]? with
    | none => exact Nat.zero_le _
    | some seqLen => exact bounded seqLen (List.mem_of_getElem? found)
  unfold prepareDecodeTensors
  rw [if_neg (by simp [flattened])]
  split
  · refine ⟨by simp [prepareUniformDecode],?_⟩
    intro row member
    obtain ⟨idx,_,rfl⟩ := List.mem_map.mp member
    refine ⟨rfl,fun x listed => ?_⟩
    have own := entries (idx / maxDecodeLen decodeLens)
    have slot := Nat.mod_lt idx spoken
    rw [List.mem_singleton.mp listed]
    omega
  · refine ⟨by simp [prepareVariableDecode,Ragged.owners_length,counted],?_⟩
    intro row member
    rcases List.mem_append.mp member with token | filler
    · obtain ⟨⟨offset,i⟩,listed,rfl⟩ := List.mem_map.mp token
      rw [List.mem_zipIdx_iff_getElem?,List.getElem?_map] at listed
      obtain ⟨b,owner,same⟩ := Option.map_eq_some_iff.mp listed
      obtain ⟨len,k,found,inside,place⟩ := Ragged.owner_exact.mp owner
      refine ⟨rfl,fun x held => ?_⟩
      have own := entries b
      rw [List.mem_singleton.mp held]
      dsimp only at same place ⊢
      simp only [List.getD_eq_getElem?_getD,found,Option.getD_some] at same own
      omega
    · rw [(List.mem_replicate.mp filler).2]
      refine ⟨rfl,fun x held => ?_⟩
      rw [List.mem_singleton.mp held]
      exact Int.natCast_nonneg width

theorem native_prepared (cfg : DecodeConfig) (native : useNative cfg decodeLens = true)
    (spoken : 0 < maxDecodeLen decodeLens) (bounded : ∀ seqLen ∈ seqLens, seqLen ≤ width) :
    prepareDecodeTensors cfg seqLens decodeLens n =
      ⟨prepareNativeDecode cfg seqLens decodeLens,decodeLens,
        decide (minDecodeLen decodeLens ≠ maxDecodeLen decodeLens)⟩ ∧
    (prepareNativeDecode cfg seqLens decodeLens).length = seqLens.length ∧
    ∀ row ∈ prepareNativeDecode cfg seqLens decodeLens, row.length = maxDecodeLen decodeLens ∧
      ∀ x ∈ row, x ≤ (width : Int) := by
  have fits := native_fits native
  refine ⟨if_pos native,by simp [prepareNativeDecode],?_⟩
  intro row member
  obtain ⟨seqLen,listed,rfl⟩ := List.mem_map.mp member
  have own := bounded seqLen listed
  split
  · refine ⟨by simp,fun x held => ?_⟩
    obtain ⟨j,slot,rfl⟩ := List.mem_map.mp held
    have inside := List.mem_range.mp slot
    omega
  · refine ⟨?_,fun x held => ?_⟩
    · show 1 = maxDecodeLen decodeLens
      omega
    · rw [List.mem_singleton.mp held]
      omega

end Builder

theorem flatten_grid (rows : List (List α)) (width : ∀ row ∈ rows, row.length = w) (found : rows[r]? = some row)
    (entry : row[k]? = some x) : rows.flatten[r * w + k]? = some x := by
  have inside := (List.getElem?_eq_some_iff.mp entry).1
  have bound := (List.getElem?_eq_some_iff.mp found).1
  have uniform : ∀ len ∈ rows.map fun row => row.length, len = w := by
    intro len member
    obtain ⟨row,listed,rfl⟩ := List.mem_map.mp member
    exact width row listed
  have joined := Ragged.joined_get rows (fun row => row) found inside
  rw [Ragged.start_uniform uniform (by rw [List.length_map]; exact Nat.le_of_lt bound),entry] at joined
  rwa [← List.flatMap_id']

structure Placed (args : PagedArgs layout) (inputs : ScoreInputs layout) (row token : Nat) (table : Nat → Nat)
    (context reach : Int) : Prop where
  inside : row < args.batch * args.nextN
  q : args.q (row / args.nextN) (row % args.nextN) = inputs.qQuant token
  weights : args.weights row = inputs.weights token
  table : args.blockTables (row / args.nextN) = table
  length : args.contextLens (row / args.nextN) = context
  causal : context - args.nextN + (row % args.nextN : Nat) = reach

section Rows
variable {batch : DecodeBatch} {b t len seqLen : Nat} {layout : PageLayout}

theorem tokens_cover (batch : DecodeBatch) : batch.decodeLens.sum ≤ batch.numDecodeTokens := by
  rw [decode_sum]
  exact batch.counted

theorem built_shape (cfg : DecodeConfig) (positive : 0 < poolSize) (found : batch.decodeLens[b]? = some len) (inside : t < len)
    (bounded : ∀ seqLen ∈ batch.seqLens, seqLen ≤ width) :
    ∀ row ∈ (buildDecodeMetadata cfg poolSize batch.seqLens batch.decodeLens batch.numDecodeTokens).seqLens,
      row.length = (if useNative cfg batch.decodeLens then maxDecodeLen batch.decodeLens else 1) ∧
      ∀ x ∈ row, x ≤ (width : Int) := by
  have spoken := some_token found inside
  have requests : batch.decodeLens.length = batch.seqLens.length := by
    rw [batch.listed]
    simp [DecodeBatch.decodeLens]
  intro row member
  have pooled : ∀ prepared : List Int, (∀ x ∈ prepared, x ≤ (width : Int)) →
      ∀ x ∈ prepared.map (· / (poolSize : Int)), x ≤ (width : Int) := by
    intro prepared below x held
    obtain ⟨y,listed,rfl⟩ := List.mem_map.mp held
    have monotone := Int.ediv_le_ediv (Int.natCast_pos.mpr positive) (below y listed)
    exact Int.le_trans monotone (Int.ediv_le_self _ (Int.natCast_nonneg width))
  cases native : useNative cfg batch.decodeLens with
  | false =>
      obtain ⟨long,shape⟩ := flattened_prepared cfg native (tokens_cover batch) spoken bounded
      rcases built_rows cfg poolSize (fun i counted _ => Nat.lt_of_lt_of_eq counted long.symm) member with ⟨prepared,listed,rfl⟩ | ⟨_,rfl⟩
      · obtain ⟨single,below⟩ := shape prepared listed
        exact ⟨by simpa using single,pooled prepared below⟩
      · exact ⟨rfl,by simp⟩
  | true =>
      obtain ⟨tensors,long,shape⟩ := native_prepared (n := batch.numDecodeTokens) cfg native spoken bounded
      have within : ∀ i < batch.numDecodeTokens, i < batch.decodeLens.length →
          i < (prepareDecodeTensors cfg batch.seqLens batch.decodeLens batch.numDecodeTokens).seqLens.length := by
        intro i _ request
        rw [tensors]
        show i < (prepareNativeDecode cfg batch.seqLens batch.decodeLens).length
        rw [long,← requests]
        exact request
      rcases built_rows cfg poolSize within member with ⟨prepared,listed,rfl⟩ | ⟨single,rfl⟩
      · rw [tensors] at listed
        obtain ⟨full,below⟩ := shape prepared listed
        exact ⟨by simpa using full,pooled prepared below⟩
      · refine ⟨?_,by simp⟩
        show 1 = maxDecodeLen batch.decodeLens
        omega

theorem contexts_bounded (cfg : DecodeConfig) (positive : 0 < poolSize) (inputs : ScoreInputs layout) (packSeq : PackSeq) (padByte : UInt8)
    (stale : Nat → Nat → Nat) (found : batch.decodeLens[b]? = some len) (inside : t < len)
    (bounded : ∀ seqLen ∈ batch.seqLens, seqLen ≤ inputs.maxSeqLen) (i : Nat) :
    (decodeArgs cfg poolSize batch inputs packSeq padByte stale).contextLens i ≤ inputs.maxSeqLen := by
  show (buildDecodeMetadata cfg poolSize batch.seqLens batch.decodeLens batch.numDecodeTokens).seqLens.flatten.getD i 0
    ≤ (inputs.maxSeqLen : Int)
  rw [List.getD_eq_getElem?_getD]
  cases read : (buildDecodeMetadata cfg poolSize batch.seqLens batch.decodeLens
      batch.numDecodeTokens).seqLens.flatten[i]? with
  | none => exact Int.natCast_nonneg _
  | some x =>
      obtain ⟨row,listed,held⟩ := List.mem_flatten.mp (List.mem_of_getElem? read)
      exact (built_shape cfg positive found inside bounded row listed).2 x held

theorem expanded_table (cfg : DecodeConfig) (flattened : useNative cfg batch.decodeLens = false)
    (blockTable stale : Nat → Nat → Nat) (found : batch.decodeLens[b]? = some len) (inside : t < len) :
    prepareBlockTable cfg batch.decodeLens batch.numDecodeTokens blockTable stale
      (Ragged.start batch.decodeLens b + t) = blockTable b := by
  unfold prepareBlockTable
  rw [if_neg (by simp [flattened])]
  split
  · rename_i uniform
    obtain ⟨own,flat,_⟩ := uniform_token t uniform.2.1 found
    dsimp only
    rw [flat,Ragged.grid_row (own ▸ inside)]
  · dsimp only
    rw [Ragged.owners_get found inside]

theorem flattened_grid (cfg : DecodeConfig) (flattened : useNative cfg batch.decodeLens = false)
    (inputs : ScoreInputs layout) (packSeq : PackSeq) (padByte : UInt8) (stale : Nat → Nat → Nat)
    (found : batch.decodeLens[b]? = some len) (length : batch.seqLens[b]? = some seqLen) (inside : t < len) :
    (decodeArgs cfg poolSize batch inputs packSeq padByte stale).batch = batch.numDecodeTokens ∧
    (decodeArgs cfg poolSize batch inputs packSeq padByte stale).nextN = 1 ∧
    (buildDecodeMetadata cfg poolSize batch.seqLens batch.decodeLens batch.numDecodeTokens).requiresPadding = false := by
  have token := token_counted found inside
  obtain ⟨singles,unpadded,_⟩ := flattened_row cfg flattened (tokens_cover batch) found length inside
  have lens := (built_lens cfg poolSize batch.seqLens batch.decodeLens batch.numDecodeTokens).trans singles
  have padding := (built_padding cfg poolSize batch.seqLens batch.decodeLens batch.numDecodeTokens).trans unpadded
  refine ⟨?_,?_,padding⟩
  · show List.length _ = _
    rw [lens,List.length_replicate]
  · show (if _ then _ else batch.numDecodeTokens / List.length _) = 1
    rw [padding,lens,List.length_replicate]
    exact Nat.div_self (Nat.zero_lt_of_lt token)

theorem flattened_exact (cfg : DecodeConfig) (flattened : useNative cfg batch.decodeLens = false)
    (positive : 0 < poolSize) (found : batch.decodeLens[b]? = some len) (length : batch.seqLens[b]? = some seqLen)
    (inside : t < len) (bounded : ∀ seqLen ∈ batch.seqLens, seqLen ≤ width) :
    (buildDecodeMetadata cfg poolSize batch.seqLens batch.decodeLens batch.numDecodeTokens).seqLens.flatten[
      Ragged.start batch.decodeLens b + t]? = some (((seqLen : Int) - len + t + 1) / (poolSize : Int)) := by
  obtain ⟨_,_,listed⟩ := flattened_row cfg flattened (tokens_cover batch) found length inside
  have copied : maxDecodeLen batch.decodeLens ≤ 1 → Ragged.start batch.decodeLens b + t < batch.decodeLens.length := by
    intro single
    have bound := (List.getElem?_eq_some_iff.mp found).1
    have place := single_start single (Nat.le_of_lt bound)
    have own := Nat.le_trans (len_le_max (List.mem_of_getElem? found)) single
    omega
  have row := compressed_row cfg poolSize listed (token_counted found inside) copied
  have shape : ∀ row ∈ (buildDecodeMetadata cfg poolSize batch.seqLens batch.decodeLens
      batch.numDecodeTokens).seqLens, row.length = 1 := by
    intro row member
    have own := (built_shape cfg positive found inside bounded row member).1
    rwa [flattened] at own
  have entry : ([(seqLen : Int) - len + t + 1].map (· / (poolSize : Int)))[0]? =
      some (((seqLen : Int) - len + t + 1) / (poolSize : Int)) := rfl
  have read := flatten_grid _ shape row entry
  rwa [Nat.mul_one,Nat.add_zero] at read

theorem flattened_placed (cfg : DecodeConfig) (flattened : useNative cfg batch.decodeLens = false)
    (positive : 0 < poolSize) (inputs : ScoreInputs layout) (packSeq : PackSeq) (padByte : UInt8) (stale : Nat → Nat → Nat)
    (found : batch.decodeLens[b]? = some len) (length : batch.seqLens[b]? = some seqLen) (inside : t < len)
    (bounded : ∀ seqLen ∈ batch.seqLens, seqLen ≤ inputs.maxSeqLen) :
    Placed (decodeArgs cfg poolSize batch inputs packSeq padByte stale) inputs (Ragged.start batch.decodeLens b + t)
      (Ragged.start batch.decodeLens b + t) (translate inputs.factor inputs.blockTable b)
      (((seqLen : Int) - len + t + 1) / (poolSize : Int)) (((seqLen : Int) - len + t + 1) / (poolSize : Int) - 1) := by
  obtain ⟨batchSize,nextN,padding⟩ := flattened_grid cfg flattened inputs packSeq padByte stale found length inside
  refine ⟨?_,?_,?_,?_,?_,?_⟩
  · rw [batchSize,nextN,Nat.mul_one]
    exact token_counted found inside
  · rw [nextN,Nat.div_one,Nat.mod_one]
    show (if _ then _ else inputs.qQuant (_ * (decodeArgs cfg poolSize batch inputs packSeq padByte stale).nextN + 0)) = _
    rw [padding,nextN,Nat.mul_one]
    rfl
  · show (if _ then _ else inputs.weights _) = _
    rw [padding]
    rfl
  · rw [nextN,Nat.div_one]
    funext column
    show prepareBlockTable cfg batch.decodeLens batch.numDecodeTokens inputs.blockTable stale _ _ / _ = _ / _
    rw [expanded_table cfg flattened inputs.blockTable stale found inside]
  · rw [nextN,Nat.div_one]
    show List.getD _ _ 0 = _
    rw [List.getD_eq_getElem?_getD,flattened_exact cfg flattened positive found length inside bounded,Option.getD_some]
  · rw [nextN,Nat.mod_one]
    simp

-- The kernel's pointer into a native batch: entry b of rows of max_decode_len.
def pointedLength (batch : DecodeBatch) (poolSize b : Nat) : Int :=
  let n := maxDecodeLen batch.decodeLens
  ((batch.seqLens.getD (b / n) 0 : Int) - n + 1 + (b % n : Nat)) / (poolSize : Int)

theorem pointed_exact (cfg : DecodeConfig) (native : useNative cfg batch.decodeLens = true) (positive : 0 < poolSize)
    (found : batch.decodeLens[b]? = some len) (length : batch.seqLens[b]? = some seqLen) (inside : t < len)
    (bounded : ∀ seqLen ∈ batch.seqLens, seqLen ≤ width) :
    (buildDecodeMetadata cfg poolSize batch.seqLens batch.decodeLens batch.numDecodeTokens).seqLens.flatten[b]? =
      some (pointedLength batch poolSize b) := by
  have spoken := some_token found inside
  have before : b / maxDecodeLen batch.decodeLens ≤ b := Nat.div_le_self _ _
  have bound := (List.getElem?_eq_some_iff.mp length).1
  have other := List.getElem?_eq_getElem (Nat.lt_of_le_of_lt before bound)
  obtain ⟨row,prepared,entry⟩ := native_entry cfg (native_fits native) other (Nat.mod_lt b spoken)
  have listed : (prepareDecodeTensors cfg batch.seqLens batch.decodeLens
      batch.numDecodeTokens).seqLens[b / maxDecodeLen batch.decodeLens]? = some row := by
    rw [(native_prepared cfg native spoken bounded).1]
    exact prepared
  have compressed := compressed_row cfg poolSize listed (Nat.lt_of_le_of_lt before (request_counted found inside))
    fun _ => Nat.lt_of_le_of_lt before (List.getElem?_eq_some_iff.mp found).1
  have width : ∀ row ∈ (buildDecodeMetadata cfg poolSize batch.seqLens batch.decodeLens
      batch.numDecodeTokens).seqLens, row.length = maxDecodeLen batch.decodeLens := by
    intro row member
    have shape := (built_shape cfg positive found inside bounded row member).1
    rwa [native] at shape
  have pooled : (row.map (· / (poolSize : Int)))[b % maxDecodeLen batch.decodeLens]? =
      some (pointedLength batch poolSize b) := by
    rw [List.getElem?_map,entry,Option.map_some]
    simp only [pointedLength,List.getD_eq_getElem?_getD,other,Option.getD_some]
  have read := flatten_grid _ width compressed pooled
  rwa [Nat.div_add_mod'] at read

theorem native_grid (cfg : DecodeConfig) (native : useNative cfg batch.decodeLens = true)
    (inputs : ScoreInputs layout) (packSeq : PackSeq) (padByte : UInt8) (stale : Nat → Nat → Nat)
    (found : batch.decodeLens[b]? = some len) (inside : t < len)
    (bounded : ∀ seqLen ∈ batch.seqLens, seqLen ≤ width) :
    (decodeArgs cfg poolSize batch inputs packSeq padByte stale).batch = batch.decodeLens.length ∧
    (decodeArgs cfg poolSize batch inputs packSeq padByte stale).nextN = maxDecodeLen batch.decodeLens := by
  have tensors := (native_prepared (n := batch.numDecodeTokens) cfg native (some_token found inside) bounded).1
  have lens := built_lens cfg poolSize batch.seqLens batch.decodeLens batch.numDecodeTokens
  have padding := built_padding cfg poolSize batch.seqLens batch.decodeLens batch.numDecodeTokens
  rw [tensors] at lens padding
  constructor
  · show List.length _ = _
    rw [lens]
  · show (if _ then maxDecodeLen _ else batch.numDecodeTokens / List.length _) = _
    rw [padding,lens]
    split
    · rfl
    · rename_i unpadded
      have uniform : minDecodeLen batch.decodeLens = maxDecodeLen batch.decodeLens := by simpa using unpadded
      have bound := (List.getElem?_eq_some_iff.mp found).1
      rw [unpadded_exact found inside uniform,(uniform_token t uniform found).2.2]
      exact Nat.mul_div_cancel_left _ (Nat.zero_lt_of_lt bound)

theorem native_placed (packs : Packs packSeq) (cfg : DecodeConfig) (native : useNative cfg batch.decodeLens = true) (positive : 0 < poolSize)
    (inputs : ScoreInputs layout) (padByte : UInt8) (stale : Nat → Nat → Nat)
    (found : batch.decodeLens[b]? = some len) (length : batch.seqLens[b]? = some seqLen) (inside : t < len)
    (bounded : ∀ seqLen ∈ batch.seqLens, seqLen ≤ inputs.maxSeqLen) :
    Placed (decodeArgs cfg poolSize batch inputs packSeq padByte stale) inputs (b * maxDecodeLen batch.decodeLens + t)
      (Ragged.start batch.decodeLens b + t) (translate inputs.factor inputs.blockTable b)
      (pointedLength batch poolSize b) (pointedLength batch poolSize b - maxDecodeLen batch.decodeLens + t) := by
  have wide := Nat.lt_of_lt_of_le inside (len_le_max (List.mem_of_getElem? found))
  have bound := (List.getElem?_eq_some_iff.mp found).1
  have tensors := (native_prepared (n := batch.numDecodeTokens) cfg native (Nat.zero_lt_of_lt wide) bounded).1
  have lens := built_lens cfg poolSize batch.seqLens batch.decodeLens batch.numDecodeTokens
  have padding := built_padding cfg poolSize batch.seqLens batch.decodeLens batch.numDecodeTokens
  rw [tensors] at lens padding
  obtain ⟨batchSize,nextN⟩ := native_grid cfg native inputs packSeq padByte stale found inside bounded
  -- Without padding the queries are reshaped, and token t of request b is that row.
  have aligned : ¬ decide (minDecodeLen batch.decodeLens ≠ maxDecodeLen batch.decodeLens) = true →
      b * maxDecodeLen batch.decodeLens + t = Ragged.start batch.decodeLens b + t := by
    intro unpadded
    exact (uniform_token t (by simpa using unpadded) found).2.1.symm
  have row : (b * maxDecodeLen batch.decodeLens + t) / maxDecodeLen batch.decodeLens = b := Ragged.grid_row wide
  have slot : (b * maxDecodeLen batch.decodeLens + t) % maxDecodeLen batch.decodeLens = t := Ragged.grid_col wide
  refine ⟨?_,?_,?_,?_,?_,?_⟩
  · rw [batchSize,nextN]
    exact Ragged.grid_below bound wide
  · rw [nextN,row,slot]
    show (if _ then packSeq _ _ _ _ b t else inputs.qQuant (b * (decodeArgs cfg poolSize batch inputs packSeq padByte stale).nextN + t)) = _
    rw [padding,lens,nextN]
    split
    · exact packs.token _ _ _ _ _ _ _ found inside
    · rename_i unpadded
      rw [aligned unpadded]
  · show (if _ then packSeq _ _ _ _ (_ / (decodeArgs cfg poolSize batch inputs packSeq padByte stale).nextN)
      (_ % (decodeArgs cfg poolSize batch inputs packSeq padByte stale).nextN) else inputs.weights _) = _
    rw [padding,lens,nextN,row,slot]
    split
    · exact packs.token _ _ _ _ _ _ _ found inside
    · rename_i unpadded
      rw [aligned unpadded]
  · rw [nextN,row]
    show translate _ (prepareBlockTable _ _ _ _ _) b = _
    unfold prepareBlockTable
    rw [if_pos native]
  · rw [nextN,row]
    show List.getD _ _ 0 = _
    rw [List.getD_eq_getElem?_getD,pointed_exact cfg native positive found length inside bounded,Option.getD_some]
  · rw [nextN,slot]

def requestLogit (inputs : ScoreInputs layout) (b token n : Nat) : ℚ :=
  let page := translate inputs.factor inputs.blockTable b (n / layout.pageSize)
  let slot := n % layout.pageSize
  poolLogit inputs.numHeads layout.headDim (inputs.weights token) (inputs.qQuant token)
    (kvByte layout inputs.kvCache page slot) (inputs.float32 (kvScale layout inputs.kvCache page slot))

def poolScale (inputs : ScoreInputs layout) (b n : Nat) : ℚ :=
  inputs.float32 (kvScale layout inputs.kvCache
    (translate inputs.factor inputs.blockTable b (n / layout.pageSize)) (n % layout.pageSize))

theorem row_cell (cfg : DecodeConfig) (poolSize : Nat) (inputs : ScoreInputs layout) (packSeq : PackSeq) (padByte : UInt8)
    (stale : Nat → Nat → Nat) (order : List (Nat × Nat))
    (launched : order.Perm (grid (decodeArgs cfg poolSize batch inputs packSeq padByte stale)))
    (sized : ∀ i, (decodeArgs cfg poolSize batch inputs packSeq padByte stale).contextLens i ≤ inputs.maxSeqLen)
    (placed : Placed (decodeArgs cfg poolSize batch inputs packSeq padByte stale) inputs row token
      (translate inputs.factor inputs.blockTable b) context reach)
    (fits : n < inputs.maxSeqLen)
    (covered : n < (inputs.kernelColumns + inputs.factor - 1) / inputs.factor * layout.pageSize)
    (natural : 0 ≤ poolScale inputs b n) :
    fp8PagedMqaLogits (decodeArgs cfg poolSize batch inputs packSeq padByte stale) false order (row * inputs.maxSeqLen + n) =
      if (n : Int) < context then
        some (if (n : Int) ≤ reach then .score (requestLogit inputs b token n) else .negInf)
      else none := by
  have page : n / layout.pageSize < (inputs.kernelColumns + inputs.factor - 1) / inputs.factor :=
    Nat.div_lt_of_lt_mul (by rwa [Nat.mul_comm])
  have cell := cell_exact (decodeArgs cfg poolSize batch inputs packSeq padByte stale) false (fun i _ => sized i) order
    launched placed.inside fits page
  have out := lane_out_exact (decodeArgs cfg poolSize batch inputs packSeq padByte stale) row
    (row / (decodeArgs cfg poolSize batch inputs packSeq padByte stale).nextN)
    (row % (decodeArgs cfg poolSize batch inputs packSeq padByte stale).nextN)
    (translate inputs.factor inputs.blockTable b (n / layout.pageSize)) (Nat.mod_lt n layout.slots_pos) natural
  rw [placed.q,placed.weights] at out
  rw [placed.length,placed.causal,placed.table,out] at cell
  exact cell

theorem row_served (cfg : DecodeConfig) (poolSize : Nat) (inputs : ScoreInputs layout) (packSeq : PackSeq) (padByte : UInt8)
    (stale : Nat → Nat → Nat) (order : List (Nat × Nat))
    (launched : order.Perm (grid (decodeArgs cfg poolSize batch inputs packSeq padByte stale)))
    (sized : ∀ i, (decodeArgs cfg poolSize batch inputs packSeq padByte stale).contextLens i ≤ inputs.maxSeqLen)
    (placed : Placed (decodeArgs cfg poolSize batch inputs packSeq padByte stale) inputs row token
      (translate inputs.factor inputs.blockTable b) context reach)
    (fits : pools ≤ inputs.maxSeqLen)
    (covered : pools ≤ (inputs.kernelColumns + inputs.factor - 1) / inputs.factor * layout.pageSize)
    (natural : ∀ n < pools, 0 ≤ poolScale inputs b n) :
    (∀ n < pools, fp8PagedMqaLogits (decodeArgs cfg poolSize batch inputs packSeq padByte stale) false order
      (row * inputs.maxSeqLen + n) = some (.score (requestLogit inputs b token n))) ↔
      pools = 0 ∨ (pools : Int) ≤ context ∧ (pools : Int) ≤ reach + 1 := by
  have cell := fun n (inside : n < pools) => row_cell cfg poolSize inputs packSeq padByte stale order launched sized placed
    (Nat.lt_of_lt_of_le inside fits) (Nat.lt_of_lt_of_le inside covered) (natural n inside)
  constructor
  · intro served
    by_contra broken
    rw [not_or] at broken
    have last : pools - 1 < pools := by omega
    have shown := (cell (pools - 1) last).symm.trans (served (pools - 1) last)
    split at shown
    · rename_i visible
      have stored := Option.some.inj shown
      split at stored
      · rename_i causal
        apply broken.2
        omega
      · cases stored
    · cases shown
  · intro reaches n inside
    rw [cell n inside]
    rcases reaches with none_visible | ⟨visible,causal⟩
    · omega
    · rw [if_pos (by omega),if_pos (by omega)]

-- floor((pos + 1) / P) for verify slot t of a request with `len` new tokens.
def visiblePools (poolSize seqLen len t : Nat) : Nat := (seqLen - len + t + 1) / poolSize

theorem visible_int (grown : len ≤ seqLen) :
    (visiblePools poolSize seqLen len t : Int) = ((seqLen : Int) - len + t + 1) / (poolSize : Int) := by
  unfold visiblePools
  rw [Int.natCast_ediv]
  congr 1
  omega

theorem visible_le (poolSize : Nat) (inside : t < len) (grown : len ≤ seqLen) : visiblePools poolSize seqLen len t ≤ seqLen := by
  unfold visiblePools
  have tokens := Nat.div_le_self (seqLen - len + t + 1) poolSize
  omega

-- In a native batch of more than single tokens the row needs the pointed length
-- to reach past its pools.
def Reaches (cfg : DecodeConfig) (poolSize : Nat) (batch : DecodeBatch) (b t pools : Nat) : Prop :=
  useNative cfg batch.decodeLens = true → 1 < maxDecodeLen batch.decodeLens → 0 < pools →
    (pools : Int) + maxDecodeLen batch.decodeLens ≤ pointedLength batch poolSize b + t + 1

theorem single_pointed (poolSize : Nat) (single : maxDecodeLen batch.decodeLens = 1) (length : batch.seqLens[b]? = some seqLen)
    (positive : 0 < seqLen) : pointedLength batch poolSize b = visiblePools poolSize seqLen 1 0 := by
  rw [visible_int positive]
  simp [pointedLength,single,Nat.mod_one,List.getD_eq_getElem?_getD,length]

end Rows

def packRows : PackSeq := fun _ tokens padValue lens b t =>
  if t < lens.getD b 0 then tokens (Ragged.start lens b + t) else padValue

theorem pack_rows_documented : Packs packRows := by
  refine ⟨fun α tokens padValue lens b t len found inside => ?_⟩
  unfold packRows
  rw [List.getD_eq_getElem?_getD,found,Option.getD_some,if_pos inside]

def verifyBatch : DecodeBatch where
  seqLens := [8,40]
  queryLens := [2,2]
  padding := 0
  numDecodeTokens := 4
  positive := by decide
  listed := rfl
  grown := by
    intro r len seqLen found length
    match r with
    | 0 => cases found; cases length; decide
    | 1 => cases found; cases length; decide
    | r + 2 => simp at found
  counted := Nat.le_refl 4
  filled := fun _ => rfl

def scorePages : PageLayout := ⟨5,8,64,by decide,by decide,by decide,by decide⟩

def scoreInputs : ScoreInputs scorePages where
  nextPowerOf2 := TiledGrid.leastPower
  power := TiledGrid.least_power_documented
  numHeads := 1
  qQuant := fun token _ _ => token.toUInt8
  weights := fun _ _ => 1
  kvCache := fun a => a.toUInt8
  float32 := fun _ => 1
  blockTable := fun b column => 10 * b + column
  kernelColumns := 10
  factor := 1
  maxSeqLen := 40

end Glm5Next.PagedLogits
