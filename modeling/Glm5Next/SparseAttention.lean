import Mathlib.Algebra.BigOperators.Group.List.Lemmas
import Glm5Next.SparseRows
import Glm5Next.SplitCounts

-- The sparse MLA backend on the rows that the indexer leaves: the rows become
-- cache slots, and the kernels attend to the slots.
namespace Glm5Next.SparseAttention
open IndexerChunks ExpandedPools DecodeLayout SparseRows SparseMla SparseMlaCalls SplitCounts SentinelScores TiledGrid
  WrappedInts

section Rows
variable {A : Type} [AddCommMonoid A]

-- The positions of some whole pools, and those after the last whole pool.
def visible (poolSize : Nat) (chosen : List Nat) (pos : Nat) : Finset Nat :=
  (Finset.range (pos + 1)).filter fun x => x / poolSize ∈ chosen ∨ (pos + 1) / poolSize * poolSize ≤ x

theorem entries_sum (entry : Nat → Int) (f : Int → A) (width : Nat) :
    ∑ i ∈ (Finset.range width).filter (fun i => entry i ≠ -1), f (entry i) =
      ((((List.range width).map entry).filter fun x => decide (x ≠ -1)).map f).sum := by
  induction width with
  | zero => simp
  | succ width ih =>
      rw [Finset.range_add_one,Finset.filter_insert,List.range_succ,List.map_append,List.filter_append,List.map_append,
        List.sum_append,← ih]
      by_cases kept : entry width = -1
      · simp [kept]
      · simp [kept,add_comm]

theorem visible_entries (row : SparseRow poolSize count pos entries) : ∃ chosen : List Nat, chosen.Nodup ∧
    chosen.length = count ∧ (∀ p ∈ chosen, p < (pos + 1) / poolSize) ∧
    ∀ x : Nat, (x : Int) ∈ entries ↔ x ∈ visible poolSize chosen pos := by
  obtain ⟨chosen,distinct,counted,below,exact⟩ := row.pools
  refine ⟨chosen,distinct,counted,below,fun x => ?_⟩
  simp only [visible,Finset.mem_filter,Finset.mem_range]
  constructor
  · intro listed
    have inside := (row.causal x listed (by simp)).2
    refine ⟨by omega,?_⟩
    by_cases whole : x < (pos + 1) / poolSize * poolSize
    · exact Or.inl ((exact x whole).mp listed)
    · exact Or.inr (Nat.le_of_not_lt whole)
  · rintro ⟨inside,pool | later⟩
    · by_cases whole : x < (pos + 1) / poolSize * poolSize
      · exact (exact x whole).mpr pool
      · exact row.tail x (Nat.le_of_not_lt whole) (by omega)
    · exact row.tail x later (by omega)

theorem row_sum {positions : Finset Nat} (row : SparseRow poolSize count pos ((List.range width).map entry)) (f : Int → A)
    (same : ∀ x : Nat, (x : Int) ∈ (List.range width).map entry ↔ x ∈ positions) :
    ∑ i ∈ (Finset.range width).filter (fun i => entry i ≠ -1), f (entry i) = ∑ x ∈ positions, f (x : Int) := by
  have image : (((List.range width).map entry).filter fun x => decide (x ≠ -1)).toFinset =
      positions.image fun x : Nat => (x : Int) := by
    ext x
    rw [List.mem_toFinset,List.mem_filter,decide_eq_true_iff,Finset.mem_image]
    constructor
    · rintro ⟨listed,kept⟩
      obtain ⟨n,rfl⟩ := Int.eq_ofNat_of_zero_le (row.causal x listed kept).1
      exact ⟨n,(same n).mp listed,rfl⟩
    · rintro ⟨n,member,rfl⟩
      exact ⟨(same n).mpr member,by simp⟩
  rw [entries_sum,← List.sum_toFinset f row.distinct,image,Finset.sum_image]
  intro x _ y _ equal
  exact Int.ofNat.inj equal

end Rows

variable {K : Type} [Field K] [LinearOrder K]

-- req_id_per_token, in a buffer that is filled with 0 first.
def reqIdPerToken (reqs : List Request) (token : Nat) : Nat := (Ragged.owners (queryLens reqs)).getD token 0

-- The backend's layer: its paged cache in memory, and the block table of the batch.
structure Layer (K : Type) where
  numHeads : Nat
  headSize : Nat
  softmaxScale : K
  numBlocks : Nat
  blockSize : Nat
  maxNumBlocksPerReq : Nat
  blockTable : Nat → Nat → Nat
  kvBuffer : Int → K
  someHead : 0 < numHeads
  sizes : headSize = 576 ∨ headSize = blockDmodel
  paged : 0 < blockSize

-- Shape (num_blocks, block_size, head_size).
def Layer.kvCache (layer : Layer K) (block offset d : Nat) : K :=
  layer.kvBuffer ((block * layer.blockSize + offset) * layer.headSize + d : Nat)

structure Queries (K : Type) where
  buffer : Int → K
  strideToken : Nat
  strideHead : Nat

def Queries.row (q : Queries K) (token head d : Nat) : K :=
  q.buffer (token * q.strideToken + head * q.strideHead + d : Nat)

-- triton_convert_req_index_to_global_index: the request of each token, the
-- block table and the rows of request positions.
abbrev Convert := (Nat → Nat) → (Nat → Nat → Nat) → (Nat → Nat → Int) → Nat → Nat → Int

-- -1 stays, and a position of the table's width becomes its slot.
structure Converts (blockSize maxNumBlocksPerReq : Nat) (convert : Convert) : Prop where
  padding : ∀ reqId table tokenIndices token i, tokenIndices token i = -1 → convert reqId table tokenIndices token i = -1
  slot : ∀ reqId table tokenIndices token i, ∀ (x : Nat), tokenIndices token i = (x : Int) → x / blockSize < maxNumBlocksPerReq →
    convert reqId table tokenIndices token i = (table (reqId token) (x / blockSize) * blockSize + x % blockSize : Nat)

def flatRows (width : Nat) (rows : Nat → Nat → Int) (a : Int) : Int := rows (a / width).toNat (a % width).toNat

theorem flat_rows (rows : Nat → Nat → Int) (token : Nat) (inside : i < width) :
    flatRows width rows (token * width + 0 * width + i : Nat) = rows token i := by
  have place : token * width + 0 * width + i = token * width + i := by omega
  unfold flatRows
  rw [place,← Int.natCast_ediv,← Int.natCast_emod,Int.toNat_natCast,Int.toNat_natCast,Ragged.grid_row inside,
    Ragged.grid_col inside]

-- The call of _forward_bf16_kv, after the views.
def Layer.call (layer : Layer K) (q : Queries K) (numTokens width : Nat) (topkIndicesGlobal : Nat → Nat → Int) :
    MlaCall K where
  numTokens := numTokens
  numHeadsQ := layer.numHeads
  dimQk := layer.headSize
  seqKv := layer.numBlocks * layer.blockSize
  indexTopk := width
  qBuffer := q.buffer
  kBuffer := layer.kvBuffer
  indicesPtr := flatRows width topkIndicesGlobal
  strideQToken := q.strideToken
  strideQHead := q.strideHead
  strideIndicesToken := width
  strideIndicesHead := width
  smScale := layer.softmaxScale
  someHead := layer.someHead
  dims := layer.sizes

-- How the device runs a call: the tile of the autotuner, the programs in some
-- order, and buffers with any content.
structure Launch {K : Type} (call : MlaCall K) (splits : Nat) where
  blockN : Nat
  final : List (Nat × Nat)
  stage : List (Nat × Nat × Nat)
  merge : List (Nat × Nat × Nat)
  before : Int → K
  beforeMid : Int → Wide K
  tiled : 0 < blockN
  launched : final.Perm (programs call.numTokens call.numHeadsQ (min blockH call.numHeadsQ))
  staged : stage.Perm (grid3 call.numTokens (numHeadGroups call.tensors) splits)
  merged : merge.Perm (grid3 call.numTokens call.numHeadsQ numMergeDvTiles)

section Backend
variable (exps : Exponentials K) (layer : Layer K) (convert : Convert) (nextPowerOf2 : Nat → Nat) (smCount : Nat)

def forwardCall (reqs : List Request) (q : Queries K) (numTokens width : Nat) (topkIndicesBuffer : Nat → Nat → Int) :
    MlaCall K :=
  layer.call q numTokens width (convert (reqIdPerToken reqs) layer.blockTable topkIndicesBuffer)

def forwardMqa (call : MlaCall K) (launch : Launch call (resolveSplits call nextPowerOf2 none smCount))
    (token head dv : Nat) : K :=
  tritonMlaSparseAttention exps call (resolveSplits call nextPowerOf2 none smCount) launch.blockN launch.final
    launch.stage launch.merge launch.before launch.beforeMid (outCell call.tensors token head dv : Nat)

end Backend

-- What a layer is for: the softmax over rows of latents, each a key, and a value
-- in its first entries.
def weight (exps : Exponentials K) (scale : K) (headSize : Nat) (latent : Nat → Nat → K) (query : Nat → K) (x : Nat) : K :=
  exps.exp (scale * ∑ d ∈ Finset.range headSize, query d * latent x d)

def softmaxAttention (exps : Exponentials K) (scale : K) (headSize : Nat) (latent : Nat → Nat → K) (query : Nat → K)
    (positions : Finset Nat) (dv : Nat) : K :=
  (∑ x ∈ positions, weight exps scale headSize latent query x * latent x dv) /
    ∑ x ∈ positions, weight exps scale headSize latent query x

-- The cache has the latents of every position of the batch, where the block
-- table says.
structure Cached (layer : Layer K) (reqs : List Request) (latent : Nat → Nat → Nat → K) : Prop where
  inside : ∀ (r : Nat) (req : Request), reqs[r]? = some req → ∀ x < req.seqLen, x / layer.blockSize < layer.maxNumBlocksPerReq ∧
    layer.blockTable r (x / layer.blockSize) < layer.numBlocks
  holds : ∀ (r : Nat) (req : Request), reqs[r]? = some req → ∀ x < req.seqLen, ∀ d < layer.headSize,
    layer.kvCache (layer.blockTable r (x / layer.blockSize)) (x % layer.blockSize) d = latent r x d

section Rows
variable (layer : Layer K) (convert : Convert) (reqs : List Request) (q : Queries K) (numTokens width : Nat)
  (buffer : Nat → Nat → Int)

theorem req_id_exact (found : reqs[r]? = some req) (inside : k < req.queryLen) :
    reqIdPerToken reqs (queryStartLoc reqs r + k) = r := by
  have row : (queryLens reqs)[r]? = some req.queryLen := by simp [queryLens,found]
  rw [reqIdPerToken,queryStartLoc,List.getD_eq_getElem?_getD,Ragged.owners_get row inside]
  rfl

omit [Field K] [LinearOrder K] in
theorem attended_converted (column : i < width) :
    attended (forwardCall layer convert reqs q numTokens width buffer).tensors token i =
      convert (reqIdPerToken reqs) layer.blockTable buffer token i :=
  flat_rows _ token column

omit [Field K] [LinearOrder K] in
theorem attended_slot (documented : Converts layer.blockSize layer.maxNumBlocksPerReq convert)
    (cached : Cached layer reqs latent) (found : reqs[r]? = some req) (owner : reqIdPerToken reqs token = r)
    (column : i < width) (entry : buffer token i = (x : Nat)) (below : x < req.seqLen) :
    ∃ slot : Nat, attended (forwardCall layer convert reqs q numTokens width buffer).tensors token i = slot ∧
      slot < layer.numBlocks * layer.blockSize ∧ ∀ d < layer.headSize,
        (forwardCall layer convert reqs q numTokens width buffer).tensors.kv slot 0 d = latent r x d := by
  obtain ⟨covered,allocated⟩ := cached.inside r req found x below
  have offset := Nat.mod_lt x layer.paged
  refine ⟨layer.blockTable r (x / layer.blockSize) * layer.blockSize + x % layer.blockSize,?_,
    Ragged.grid_below allocated offset,fun d dim => ?_⟩
  · have converted := documented.slot (reqIdPerToken reqs) layer.blockTable buffer token i x entry covered
    rw [owner] at converted
    rw [attended_converted layer convert reqs q numTokens width buffer column]
    exact converted
  · rw [← cached.holds r req found x below d dim]
    show layer.kvBuffer _ = layer.kvBuffer _
    congr 2
    show _ * layer.headSize + 0 * layer.headSize + d = _
    rw [Nat.zero_mul,Nat.add_zero]

omit [Field K] [LinearOrder K] in
theorem attended_padding (documented : Converts layer.blockSize layer.maxNumBlocksPerReq convert)
    (column : i < width) (entry : buffer token i = -1) :
    attended (forwardCall layer convert reqs q numTokens width buffer).tensors token i = -1 := by
  rw [attended_converted layer convert reqs q numTokens width buffer column]
  exact documented.padding _ _ _ _ _ entry

omit [Field K] [LinearOrder K] in
theorem attended_valid (documented : Converts layer.blockSize layer.maxNumBlocksPerReq convert)
    (cached : Cached layer reqs latent) (found : reqs[r]? = some req) (owner : reqIdPerToken reqs token = r)
    (column : i < width) (positions : buffer token i ≠ -1 → ∃ x : Nat, buffer token i = x ∧ x < req.seqLen) :
    maskKv (forwardCall layer convert reqs q numTokens width buffer).tensors
      (attended (forwardCall layer convert reqs q numTokens width buffer).tensors token i) ↔ buffer token i ≠ -1 := by
  constructor
  · intro valid padded
    rw [attended_padding layer convert reqs q numTokens width buffer documented column padded] at valid
    exact absurd valid.1 (by decide)
  · intro kept
    obtain ⟨x,entry,below⟩ := positions kept
    obtain ⟨slot,attends,bound,_⟩ := attended_slot layer convert reqs q numTokens width buffer documented cached found
      owner column entry below
    rw [attends]
    exact ⟨Int.natCast_nonneg slot,Int.ofNat_lt.mpr bound⟩

theorem row_attention (exps : Exponentials K) (documented : Converts layer.blockSize layer.maxNumBlocksPerReq convert)
    (cached : Cached layer reqs latent) (found : reqs[r]? = some req) (owner : reqIdPerToken reqs token = r)
    (row : SparseRow poolSize count pos ((List.range width).map (buffer token))) (below : pos < req.seqLen)
    (same : ∀ x : Nat, (x : Int) ∈ (List.range width).map (buffer token) ↔ x ∈ positions) (column : dv < blockDv) :
    attention exps (forwardCall layer convert reqs q numTokens width buffer).tensors token head dv =
      softmaxAttention exps layer.softmaxScale layer.headSize (latent r) (q.row token head) positions dv := by
  have places : ∀ i < width, buffer token i ≠ -1 → ∃ x : Nat, buffer token i = x ∧ x < req.seqLen := by
    intro i column kept
    obtain ⟨low,high⟩ := row.causal _ (List.mem_map.mpr ⟨i,List.mem_range.mpr column,rfl⟩) kept
    obtain ⟨x,entry⟩ := Int.eq_ofNat_of_zero_le low
    exact ⟨x,entry,by omega⟩
  have rows : attendedRows (forwardCall layer convert reqs q numTokens width buffer).tensors token =
      (Finset.range width).filter fun i => buffer token i ≠ -1 :=
    Finset.filter_congr fun i member => attended_valid layer convert reqs q numTokens width buffer documented cached
      found owner (Finset.mem_range.mp member) (places i (Finset.mem_range.mp member))
  have key : ∀ i ∈ (Finset.range width).filter fun i => buffer token i ≠ -1, ∀ d < layer.headSize,
      (forwardCall layer convert reqs q numTokens width buffer).tensors.kv
        (attended (forwardCall layer convert reqs q numTokens width buffer).tensors token i).toNat 0 d =
        latent r (buffer token i).toNat d := by
    intro i member d dim
    obtain ⟨listed,kept⟩ := Finset.mem_filter.mp member
    have inside := Finset.mem_range.mp listed
    obtain ⟨x,entry,early⟩ := places i inside kept
    obtain ⟨slot,attends,_,holds⟩ := attended_slot layer convert reqs q numTokens width buffer documented cached found
      owner inside entry early
    rw [attends,entry,Int.toNat_natCast,Int.toNat_natCast]
    exact holds d dim
  have score : ∀ i ∈ (Finset.range width).filter fun i => buffer token i ≠ -1,
      exps.exp (logit (forwardCall layer convert reqs q numTokens width buffer).tensors token head
        (attended (forwardCall layer convert reqs q numTokens width buffer).tensors token i)) =
      weight exps layer.softmaxScale layer.headSize (latent r) (q.row token head) (buffer token i).toNat := by
    intro i member
    unfold logit weight
    congr 2
    exact Finset.sum_congr rfl fun d dim => by rw [key i member d (Finset.mem_range.mp dim)]; rfl
  have wide : dv < layer.headSize := by
    rcases layer.sizes with rope | plain
    · rw [rope]
      exact Nat.lt_of_lt_of_le column (by decide)
    · rw [plain]
      exact column
  have denominator := row_sum row
    (fun x => weight exps layer.softmaxScale layer.headSize (latent r) (q.row token head) x.toNat) same
  have numerator := row_sum row
    (fun x => weight exps layer.softmaxScale layer.headSize (latent r) (q.row token head) x.toNat * latent r x.toNat dv)
    same
  unfold attention softmaxAttention
  rw [rows,Finset.sum_congr rfl fun i member => by rw [score i member,key i member dv wide],
    Finset.sum_congr rfl score]
  simp only [Int.toNat_natCast] at numerator denominator
  split
  · rename_i none
    rw [none,Finset.sum_empty] at numerator denominator
    rw [← numerator,zero_div]
  · rw [numerator,denominator]

omit [Field K] [LinearOrder K] in
theorem small_pool (small : layer.numBlocks * layer.blockSize * layer.headSize ≤ 2 ^ 31) :
    RowsFit (forwardCall layer convert reqs q numTokens width buffer) := by
  intro curQ _ i _ valid
  have next : (attended (forwardCall layer convert reqs q numTokens width buffer).tensors curQ i + 1) *
      layer.headSize ≤ (layer.numBlocks * layer.blockSize : Nat) * layer.headSize :=
    Int.mul_le_mul_of_nonneg_right valid.2 (Int.natCast_nonneg _)
  rw [Int.add_mul,Int.one_mul] at next
  exact Int.le_trans next (by exact_mod_cast small)

theorem forward_row [IsStrictOrderedRing K] (exps : Exponentials K) (power : TiledGrid.NextPower nextPowerOf2)
    (fits : ProductsFit (forwardCall layer convert reqs q numTokens width buffer)
      (resolveSplits (forwardCall layer convert reqs q numTokens width buffer) nextPowerOf2 none smCount))
    (small : layer.numBlocks * layer.blockSize * layer.headSize ≤ 2 ^ 31)
    (documented : Converts layer.blockSize layer.maxNumBlocksPerReq convert) (cached : Cached layer reqs latent)
    (found : reqs[r]? = some req) (inside : k < req.queryLen) (listed : queryStartLoc reqs r + k < numTokens)
    (row : SparseRow poolSize count (req.contextLen + k) (indexRow buffer width (queryStartLoc reqs r + k)))
    (same : ∀ x : Nat, (x : Int) ∈ indexRow buffer width (queryStartLoc reqs r + k) ↔ x ∈ positions) (launch)
    (heads : head < layer.numHeads) (column : dv < blockDv) :
    forwardMqa exps nextPowerOf2 smCount (forwardCall layer convert reqs q numTokens width buffer) launch
        (queryStartLoc reqs r + k) head dv =
      softmaxAttention exps layer.softmaxScale layer.headSize (latent r) (q.row (queryStartLoc reqs r + k) head)
        positions dv := by
  refine (attention_any_split exps _ power none smCount fits
    (small_pool layer convert reqs q numTokens width buffer small) launch.tiled launch.before launch.beforeMid
    launch.launched launch.staged launch.merged listed heads column).trans ?_
  refine row_attention layer convert reqs q _ _ _ exps documented cached found (req_id_exact reqs found inside) row ?_
    same column
  unfold Request.seqLen
  omega

end Rows

section Batch
variable (exps : Exponentials K) (layer : Layer K) (convert : Convert) (cfg : IndexerConfig) (poolSize : Nat)
  (prefillTopK : Nat → Nat → Nat → List Int) (decodeTopK : Nat → Int → List Int) (unpackSeq : UnpackSeq)
  (empty : Nat → Nat) (indexerBlockTable : Nat → Nat → Nat) (reqs : List Request) (numDecodes paddedTokens : Nat)
  (topkIndicesBuffer : Nat → Nat → Int) (q : Queries K)

def indexed : Nat → Nat → Int :=
  sparseAttnIndexerKpool cfg poolSize prefillTopK decodeTopK unpackSeq empty indexerBlockTable reqs numDecodes paddedTokens
    topkIndicesBuffer

theorem served_row (unpacks : Unpacks unpackSeq) (several : 2 ≤ poolSize) (scheduled : ∀ req ∈ reqs.take numDecodes, 0 < req.queryLen)
    (prefill_selects : ∀ token ks ke, TopKRow (cfg.topkTokens / poolSize) (ke - ks) (prefillTopK token ks ke))
    (decode_selects : ∀ row window, TopKRow (cfg.topkTokens / poolSize) (Int.toNat window) (decodeTopK row window))
    (found : reqs[r]? = some req) (inside : k < req.queryLen) (served : RowServed cfg poolSize reqs numDecodes r k req) :
    SparseRow poolSize (min (cfg.topkTokens / poolSize) ((req.contextLen + k + 1) / poolSize)) (req.contextLen + k)
      (indexRow (indexed cfg poolSize prefillTopK decodeTopK unpackSeq empty indexerBlockTable reqs numDecodes paddedTokens
        topkIndicesBuffer) (bufferWidth poolSize cfg.topkTokens) (queryStartLoc reqs r + k)) := by
  obtain ⟨before,_,_⟩ := token_bounds reqs numDecodes found inside
  unfold RowServed at served
  unfold indexed
  by_cases decode : r < numDecodes
  · have row := decode_token_row cfg poolSize prefillTopK decodeTopK unpackSeq empty indexerBlockTable reqs numDecodes
      paddedTokens topkIndicesBuffer unpacks several scheduled decode_selects found inside decode
    rw [window_toNat cfg.decode several] at row
    rw [if_pos decode] at served
    split at row
    · rename_i native
      rwa [served native] at row
    · exact row
  · have prefill := Nat.le_of_not_lt decode
    have cleared : ∀ col, clearRows (queryStartLoc reqs reqs.length + paddedTokens) topkIndicesBuffer
        (queryStartLoc reqs r + k) col = -1 := fun col => if_pos (by omega)
    rw [indexRow,decode_apart cfg poolSize prefillTopK decodeTopK unpackSeq empty indexerBlockTable reqs numDecodes
      paddedTokens topkIndicesBuffer unpacks found inside prefill,← indexRow]
    rw [if_neg decode] at served
    cases short : shortPrefill cfg.topkTokens reqs numDecodes with
    | true =>
        exact short_row cfg poolSize prefillTopK empty indexerBlockTable reqs numDecodes _ (Nat.zero_lt_of_lt several)
          found inside prefill short
    | false =>
        have grouped := served.resolve_left (by simp [short])
        exact sparse_prefill_row cfg poolSize prefillTopK empty indexerBlockTable reqs numDecodes _ several
          prefill_selects found inside prefill short
          ((token_covered cfg poolSize empty indexerBlockTable reqs numDecodes found inside).mpr grouped) cleared

def layerCall : MlaCall K :=
  forwardCall layer convert reqs q (queryStartLoc reqs reqs.length + paddedTokens) (bufferWidth poolSize cfg.topkTokens)
    (indexed cfg poolSize prefillTopK decodeTopK unpackSeq empty indexerBlockTable reqs numDecodes paddedTokens
      topkIndicesBuffer)

variable [IsStrictOrderedRing K]

section Output
variable {latent : Nat → Nat → Nat → K} (power : TiledGrid.NextPower nextPowerOf2)
  (fits : ProductsFit (layerCall layer convert cfg poolSize prefillTopK decodeTopK unpackSeq empty indexerBlockTable reqs
    numDecodes paddedTokens topkIndicesBuffer q) (resolveSplits (layerCall layer convert cfg poolSize prefillTopK
      decodeTopK unpackSeq empty indexerBlockTable reqs numDecodes paddedTokens topkIndicesBuffer q) nextPowerOf2 none
      smCount))
  (small : layer.numBlocks * layer.blockSize * layer.headSize ≤ 2 ^ 31)
  (documented : Converts layer.blockSize layer.maxNumBlocksPerReq convert) (cached : Cached layer reqs latent)
include power fits small documented cached

theorem output_attention (found : reqs[r]? = some req) (inside : k < req.queryLen)
    (row : SparseRow poolSize count (req.contextLen + k)
      (indexRow (indexed cfg poolSize prefillTopK decodeTopK unpackSeq empty indexerBlockTable reqs numDecodes paddedTokens
        topkIndicesBuffer) (bufferWidth poolSize cfg.topkTokens) (queryStartLoc reqs r + k)))
    (same : ∀ x : Nat, (x : Int) ∈ indexRow (indexed cfg poolSize prefillTopK decodeTopK unpackSeq empty
        indexerBlockTable reqs numDecodes paddedTokens topkIndicesBuffer) (bufferWidth poolSize cfg.topkTokens)
        (queryStartLoc reqs r + k) ↔ x ∈ positions) (launch) (heads : head < layer.numHeads) (column : dv < blockDv) :
    forwardMqa exps nextPowerOf2 smCount (layerCall layer convert cfg poolSize prefillTopK decodeTopK unpackSeq empty
        indexerBlockTable reqs numDecodes paddedTokens topkIndicesBuffer q) launch (queryStartLoc reqs r + k) head dv =
      softmaxAttention exps layer.softmaxScale layer.headSize (latent r) (q.row (queryStartLoc reqs r + k) head)
        positions dv := by
  obtain ⟨before,_,_⟩ := token_bounds reqs numDecodes found inside
  exact forward_row layer convert reqs q _ _ _ exps power fits small documented cached found inside
    (Nat.lt_of_lt_of_le before (Nat.le_add_right _ _)) row same launch heads column

variable (unpacks : Unpacks unpackSeq) (several : 2 ≤ poolSize)
  (scheduled : ∀ req ∈ reqs.take numDecodes, 0 < req.queryLen)
  (prefill_selects : ∀ token ks ke, TopKRow (cfg.topkTokens / poolSize) (ke - ks) (prefillTopK token ks ke))
  (decode_selects : ∀ row window, TopKRow (cfg.topkTokens / poolSize) (Int.toNat window) (decodeTopK row window))
include unpacks several scheduled prefill_selects decode_selects

end Output

end Batch

-- The programs in their order, on empty buffers.
def inOrder (call : MlaCall K) (splits : Nat) : Launch call splits where
  blockN := 1
  final := programs call.numTokens call.numHeadsQ (min blockH call.numHeadsQ)
  stage := grid3 call.numTokens (numHeadGroups call.tensors) splits
  merge := grid3 call.numTokens call.numHeadsQ numMergeDvTiles
  before _ := 0
  beforeMid _ := .negInf
  tiled := Nat.zero_lt_one
  launched := List.Perm.refl _
  staged := List.Perm.refl _
  merged := List.Perm.refl _

theorem page_positive : 0 < 64 := by decide

-- One head over 17 pages, the requests' pages after each other.
noncomputable def oneHead : Layer ℝ where
  numHeads := 1
  headSize := 512
  softmaxScale := 1
  numBlocks := 17
  blockSize := 64
  maxNumBlocksPerReq := 17
  blockTable r page := r + page
  kvBuffer a := a
  someHead := Nat.zero_lt_one
  sizes := plain_dims
  paged := page_positive

theorem one_head_small : oneHead.numBlocks * oneHead.blockSize * oneHead.headSize ≤ 2 ^ 31 := by decide

noncomputable def oneHeadQueries : Queries ℝ := ⟨fun a => a,512,512⟩

-- What a position's place in the pages holds.
noncomputable def oneHeadLatent (r x d : Nat) : ℝ := oneHead.kvCache (r + x / 64) (x % 64) d

theorem one_head_fits (few : tokens ≤ 2 ^ 15) (narrow : width < 17 * minTopkPerSplit) (rows : Nat → Nat → Int) :
    ProductsFit (oneHead.call oneHeadQueries tokens width rows)
      (resolveSplits (oneHead.call oneHeadQueries tokens width rows) leastPower none 132) := by
  have candidate : resolveSplits (oneHead.call oneHeadQueries tokens width rows) leastPower none 132 ∈
      kvSplitsCandidates := split_candidate least_power_documented _ _ _ narrow
  generalize resolveSplits (oneHead.call oneHeadQueries tokens width rows) leastPower none 132 = splits at candidate
  have slices : splits ≤ 16 := by
    simp only [kvSplitsCandidates,List.mem_cons,List.not_mem_nil,or_false] at candidate
    omega
  have token : ∀ curQ < tokens, curQ ≤ 2 ^ 15 := fun curQ row => Nat.le_trans (Nat.le_of_lt row) few
  have head : ∀ curHead < 1, curHead ≤ 2 ^ 15 := fun curHead row => by omega
  have part : splits * (blockDv + 1) < 2 ^ 16 := by
    unfold blockDv
    omega
  unfold minTopkPerSplit at narrow
  refine ⟨fun curQ row => ?_,fun curHead row => ?_,fun curQ row => ?_,⟨fun curQ row => ?_,fun curHead row => ?_⟩,
    ⟨fun curQ row => ?_,fun curHead row => ?_,fun s slice => ?_⟩⟩
  · exact Scales.small (token curQ row) (show 512 < 2 ^ 16 by decide)
  · exact Scales.small (head curHead row) (show 512 < 2 ^ 16 by decide)
  · exact Scales.small (token curQ row) (show width < 2 ^ 16 by omega)
  · exact Scales.small (token curQ row) (show 1 * 512 < 2 ^ 16 by decide)
  · exact Scales.small (head curHead row) (by decide)
  · exact Scales.small (token curQ row) (show 1 * (splits * (blockDv + 1)) < 2 ^ 16 by omega)
  · exact Scales.small (head curHead row) part
  · exact Scales.small (show s ≤ 2 ^ 15 by omega) (by decide)

def toSlots : Convert := fun reqId table tokenIndices token i =>
  if tokenIndices token i = -1 ∨ 17 ≤ (tokenIndices token i).toNat / 64 then -1
  else (table (reqId token) ((tokenIndices token i).toNat / 64) * 64 + (tokenIndices token i).toNat % 64 : Nat)

theorem to_slots_documented : Converts 64 17 toSlots := by
  refine ⟨fun _ _ _ _ _ padded => if_pos (Or.inl padded),fun _ _ _ _ _ x entry inside => ?_⟩
  unfold toSlots
  rw [if_neg (by rw [entry,Int.toNat_natCast]; omega),entry,Int.toNat_natCast]

theorem one_head_cached : Cached oneHead [⟨9,2⟩,⟨0,1024⟩] oneHeadLatent := by
  have pages : ∀ (r : Nat) (req : Request), [(⟨9,2⟩ : Request),⟨0,1024⟩][r]? = some req → r ≤ 1 ∧ req.seqLen ≤ 1024 := by
    intro r req found
    match r with
    | 0 => simp at found; subst found; decide
    | 1 => simp at found; subst found; decide
    | r + 2 => simp at found
  refine ⟨fun r req found x below => ?_,fun r req found x below d _ => rfl⟩
  obtain ⟨row,long⟩ := pages r req found
  have place : x / 64 < 16 := by omega
  exact ⟨Nat.lt_of_lt_of_le place (by decide),Nat.lt_of_lt_of_le (Nat.add_lt_add_of_le_of_lt row place) (Nat.le_refl 17)⟩

-- Both requests, the first one being verified.
noncomputable def verifyCall : MlaCall ℝ :=
  layerCall oneHead toSlots flattenedConfig 4 (fun _ ks ke => firstIds (512 / 4) (ke - ks))
    (fun _ window => firstIds (512 / 4) window.toNat) unpackRows (fun _ => 0) (fun _ p => p) [⟨9,2⟩,⟨0,1024⟩] 1 0
    (fun _ _ => 0) oneHeadQueries

end Glm5Next.SparseAttention
