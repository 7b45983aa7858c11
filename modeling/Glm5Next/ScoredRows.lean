import Glm5Next.DcpMerge
import Glm5Next.PagedLogits
import Glm5Next.PrefillLogits
import Glm5Next.SparseRows

-- The index op with its scorers: gathered or paged keys, logits, and the
-- selection among them.
namespace Glm5Next.ScoredRows
open IndexerChunks PrefillWindows ExpandedPools DecodeLayout SparseRows PoolPages MqaLogits PrefillLogits PagedLogits
open Fp8Codec (e4m3fn e4m3fnLut magnitudeBits lut_exact)
open TiledGrid (programs)
open DcpMerge (TopKOf)

variable {layout : PageLayout}

-- The cast to bfloat16; `nan` is what stands for a NaN.
def castFp8 (nan : ℚ) (u : UInt8) : ℚ := (e4m3fn u.toBitVec).getD nan

theorem find_once {rows : α → List Nat} {xs : List α} (once : (xs.flatMap rows).Nodup) (member : x ∈ xs)
    (inside : token ∈ rows x) : xs.find? (fun x => decide (token ∈ rows x)) = some x := by
  induction xs with
  | nil => cases member
  | cons head rest ih =>
      rw [List.flatMap_cons,List.nodup_append] at once
      obtain ⟨_,later,apart⟩ := once
      rcases List.mem_cons.mp member with rfl | listed
      · exact List.find?_cons_of_pos (by simpa using inside)
      · have absent : token ∉ rows head := fun twice =>
          apart token twice token (List.mem_flatMap.mpr ⟨x,listed,inside⟩) rfl
        rw [List.find?_cons_of_neg (by simpa using absent)]
        exact ih later listed

-- What a gather reads: _gather_k_torch views the cache in rows, and
-- cp_gather_indexer_k_quant_cache goes by its stride.
def gatherPages (layout : PageLayout) (safeGather : Bool) (mem : Nat → UInt8) : KvCache :=
  if safeGather then contiguousPages layout mem
  else ⟨layout.pageSize,layout.headDim,fun blk i => mem (blk * layout.stride + i)⟩

-- top_k_per_row on one row: its logits, its window ks..ke-1 and k.
abbrev TopKPerRow := (Nat → Option Logit) → Nat → Nat → Nat → List Int

-- On a row that is scored all over its window.
def Selecting (topK : TopKPerRow) : Prop :=
  ∀ logits ks ke k (score : Nat → ℚ), (∀ j < ke - ks, logits (ks + j) = some (.score (score j))) →
    TopKOf score k (Finset.range (ke - ks)) (topK logits ks ke k)

-- The settings, the primitive, the launches of the scorers and what the buffers
-- held before.
structure Device where
  safeGather : Bool
  safeLogits : SafeLogitsMode
  safeLogitsN : Nat
  nan : ℚ
  topKPerRow : TopKPerRow
  blockN : PrefillChunkMetadata → Nat
  prefillOrder : PrefillChunkMetadata → List (Nat × Nat)
  decodeOrder : List (Nat × Nat)
  gathered : Nat → PoolEntry
  empty : Nat → Nat
  stale : Nat → Nat → Nat
  packSeq : PackSeq
  padByte : UInt8
  unpackSeq : UnpackSeq

-- The tensors of a call, and its batch.
structure Call (layout : PageLayout) where
  inputs : ScoreInputs layout
  cfg : IndexerConfig
  poolSize : Nat
  reqs : List Request
  numDecodes : Nat
  paddedTokens : Nat
  scheduled : ∀ req ∈ reqs.take numDecodes, 0 < req.queryLen

namespace Call
variable (call : Call layout) (device : Device)

def selectK : Nat := call.cfg.topkTokens / call.poolSize

def indexerBlockTable : Nat → Nat → Nat := translate call.inputs.factor call.inputs.blockTable

def positions (token : Nat) : Nat := (positionsOf call.reqs).getD token 0

theorem decode_positive : ∀ len ∈ queryLens (call.reqs.take call.numDecodes), 0 < len := by
  intro len member
  obtain ⟨req,listed,rfl⟩ := List.mem_map.mp member
  exact call.scheduled req listed

theorem decode_listed : ((call.reqs.take call.numDecodes).map Request.seqLen).length =
    (queryLens (call.reqs.take call.numDecodes)).length + 0 := by simp [queryLens]

theorem decode_grown (r len seqLen : Nat) (found : (queryLens (call.reqs.take call.numDecodes))[r]? = some len)
    (length : ((call.reqs.take call.numDecodes).map Request.seqLen)[r]? = some seqLen) : len ≤ seqLen := by
  rw [queryLens,List.getElem?_map] at found
  rw [List.getElem?_map] at length
  obtain ⟨req,listed,rfl⟩ := Option.map_eq_some_iff.mp found
  rw [listed] at length
  cases length
  exact Nat.le_add_left _ _

theorem decode_counted : (queryLens (call.reqs.take call.numDecodes)).sum = queryStartLoc call.reqs call.numDecodes := by
  rw [queryLens,List.map_take]
  rfl

def decodes : DecodeBatch where
  seqLens := (call.reqs.take call.numDecodes).map Request.seqLen
  queryLens := queryLens (call.reqs.take call.numDecodes)
  padding := 0
  numDecodeTokens := queryStartLoc call.reqs call.numDecodes
  positive := call.decode_positive
  listed := call.decode_listed
  grown := call.decode_grown
  counted := call.decode_counted.le
  filled := fun _ => call.decode_counted.symm

def chunks : List PrefillChunkMetadata :=
  prefillChunks call.poolSize device.empty call.reqs call.numDecodes call.indexerBlockTable call.cfg.workspaceSize
    call.cfg.maxLogitsBytes

def gatheredChunks : List (PrefillChunkMetadata × (Nat → PoolEntry)) :=
  scoredChunks (gatherPages layout device.safeGather call.inputs.kvCache) device.gathered (call.chunks device)

def chunkArgs (scored : PrefillChunkMetadata × (Nat → PoolEntry)) : PrefillArgs where
  nextPowerOf2 := call.inputs.nextPowerOf2
  power := call.inputs.power
  m := scored.1.tokenEnd - scored.1.tokenStart
  numHeads := call.inputs.numHeads
  headDim := layout.headDim
  n := scored.1.totalSeqLens
  q row h d := castFp8 device.nan (call.inputs.qQuant (scored.1.tokenStart + row) h d)
  k col d := castFp8 device.nan ((scored.2 col).1.getD d 0)
  kScale col := call.inputs.float32 (scored.2 col).2
  weights row h := call.inputs.weights (scored.1.tokenStart + row) h
  ks row := scored.1.cuSeqlenKs row
  ke row := scored.1.cuSeqlenKe row

def chunkRowLogits (scored : PrefillChunkMetadata × (Nat → PoolEntry)) (row : Nat) : Nat → Option Logit :=
  chunkLogits (call.chunkArgs device scored) device.safeLogits device.safeLogitsN 2048 (device.blockN scored.1)
    (device.prefillOrder scored.1) row

def scoreChunk (buffer : Nat → Nat → Int) (scored : PrefillChunkMetadata × (Nat → PoolEntry)) : Nat → Nat → Int :=
  storeRows buffer scored.1.tokenStart ((List.range (scored.1.tokenEnd - scored.1.tokenStart)).map fun row =>
    expandPoolsAndAppendTail call.poolSize
      (device.topKPerRow (call.chunkRowLogits device scored row) (scored.1.cuSeqlenKs row) (scored.1.cuSeqlenKe row)
        call.selectK)
      (call.positions (scored.1.tokenStart + row) + 1))

def scoredPrefill (buffer : Nat → Nat → Int) : Nat → Nat → Int :=
  if call.reqs.length - call.numDecodes > 0 then
    if shortPrefill call.cfg.topkTokens call.reqs call.numDecodes then
      fillShortPrefill buffer (bufferWidth call.poolSize call.cfg.topkTokens) (queryStartLoc call.reqs call.numDecodes)
        (queryStartLoc call.reqs call.reqs.length) call.positions
    else (call.gatheredChunks device).foldl (call.scoreChunk device) buffer
  else buffer

def pagedArgs : PagedArgs layout :=
  decodeArgs call.cfg.decode call.poolSize call.decodes call.inputs device.packSeq device.padByte device.stale

def decodeRowLogits (row : Nat) : Nat → Option Logit := fun col =>
  fp8PagedMqaLogits (call.pagedArgs device) false device.decodeOrder (row * call.inputs.maxSeqLen + col)

def decodeTopK (row : Nat) (window : Int) : List Int :=
  device.topKPerRow (call.decodeRowLogits device row) 0 window.toNat call.selectK

-- The op: the index buffer after it.
def scoredIndexer (topkIndicesBuffer : Nat → Nat → Int) : Nat → Nat → Int :=
  let prefilled := call.scoredPrefill device
    (clearRows (queryStartLoc call.reqs call.reqs.length + call.paddedTokens) topkIndicesBuffer)
  if call.numDecodes > 0 then
    storeRows prefilled 0 (decodeRows call.cfg.decode call.poolSize (call.decodeTopK device) device.unpackSeq
      call.positions call.decodes.seqLens call.decodes.queryLens call.decodes.numDecodeTokens)
  else prefilled

def prefillTopK (token ks ke : Nat) : List Int :=
  match (call.gatheredChunks device).find? fun scored => decide (token ∈ chunkRows scored.1) with
  | some scored =>
    device.topKPerRow (call.chunkRowLogits device scored (token - scored.1.tokenStart)) ks ke call.selectK
  | none => []

theorem gathered_fst : (call.gatheredChunks device).map Prod.fst = call.chunks device := scored_chunks _ _ _

theorem gathered_rows : ((call.gatheredChunks device).flatMap fun scored => chunkRows scored.1).Nodup := by
  have once := (rows_exact call.poolSize device.empty call.reqs call.numDecodes call.indexerBlockTable
    call.cfg.workspaceSize call.cfg.maxLogitsBytes).1
  rw [← chunks,← gathered_fst,List.flatMap_map] at once
  exact once

theorem prefill_selects (member : scored ∈ call.gatheredChunks device) (row : token ∈ chunkRows scored.1) (ks ke : Nat) :
    call.prefillTopK device token ks ke =
      device.topKPerRow (call.chunkRowLogits device scored (token - scored.1.tokenStart)) ks ke call.selectK := by
  unfold prefillTopK
  rw [find_once (call.gathered_rows device) member row]

theorem score_chunk (member : scored ∈ call.gatheredChunks device) (buffer : Nat → Nat → Int) :
    call.scoreChunk device buffer scored =
      chunkTopk call.poolSize (call.prefillTopK device) call.positions buffer scored.1 := by
  unfold scoreChunk chunkTopk
  congr 1
  apply List.map_congr_left
  intro row listed
  have inside := List.mem_range.mp listed
  rw [call.prefill_selects device member (List.mem_range'_1.mpr (by omega)),Nat.add_sub_cancel_left]

-- The op is the one that takes what a token selects as given.
theorem scored_refines (topkIndicesBuffer : Nat → Nat → Int) :
    call.scoredIndexer device topkIndicesBuffer =
      sparseAttnIndexerKpool call.cfg call.poolSize (call.prefillTopK device) (call.decodeTopK device)
        device.unpackSeq device.empty call.indexerBlockTable call.reqs call.numDecodes call.paddedTokens topkIndicesBuffer := by
  have prefilled : ∀ buffer, call.scoredPrefill device buffer = prefillIndices call.cfg call.poolSize
      (call.prefillTopK device) device.empty call.indexerBlockTable call.reqs call.numDecodes buffer := by
    intro buffer
    have folded : (call.gatheredChunks device).foldl (call.scoreChunk device) buffer =
        (call.chunks device).foldl (chunkTopk call.poolSize (call.prefillTopK device) call.positions) buffer := by
      rw [← gathered_fst,List.foldl_map]
      exact List.foldl_ext _ _ _ fun buffer scored member => call.score_chunk device member buffer
    unfold scoredPrefill
    rw [folded]
    rfl
  unfold scoredIndexer
  rw [prefilled]
  rfl

end Call

section Built
open DecodeExpansion DecodeRows
variable {cfg : BuilderConfig} {batch : DecodeBatch} {inputs : ScoreInputs layout}

def builtDecodes (batch : DecodeBatch) (blockTable : Nat → Nat → Nat) (some_decode : batch.decodeLens ≠ []) : Decodes where
  seqLens := batch.seqLens
  decodeLens := batch.decodeLens
  numDecodeTokens := batch.numDecodeTokens
  blockTable r c := blockTable r c
  listed := by simp [DecodeBatch.decodeLens,batch.listed]
  some_decode := some_decode
  grown := by
    intro r len seqLen found length
    rcases Nat.eq_zero_or_pos len with rfl | token
    · exact Nat.zero_le _
    · exact batch.grown r len seqLen (scheduled_request found token) length
  counted := tokens_cover batch

theorem translation_same (compressed : 1 < cfg.compressRatio) (some_decode : batch.decodeLens ≠ [])
    (blockTable : Nat → Nat → Nat) (r c : Nat) :
    indexerBlockTable cfg (builtDecodes batch blockTable some_decode) r c =
      (PagedLogits.translate (virtualSplit cfg) blockTable r c : Nat) := by
  unfold indexerBlockTable PagedLogits.translate
  rw [factor_exact compressed]
  by_cases single : virtualSplit cfg = 1
  · simp [single,builtDecodes]
  · rw [if_neg single,Int.natCast_ediv]
    rfl

-- What the scorer reads for a flattened token is what build leaves for it.
theorem built_rows (compressed : 1 < cfg.compressRatio) (factor : inputs.factor = virtualSplit cfg)
    (some_decode : batch.decodeLens ≠ []) (flattened : useNative cfg.toDecodeConfig batch.decodeLens = false)
    (launched : order.Perm (List.range batch.numDecodeTokens))
    (split : SplitTable cfg (builtDecodes batch inputs.blockTable some_decode) phys)
    (built : buildDecode cfg order (builtDecodes batch inputs.blockTable some_decode) b = some (after,out))
    (found : batch.decodeLens[r]? = some len) (length : batch.seqLens[r]? = some seqLen) (inside : k < len)
    (packSeq : PackSeq) (padByte : UInt8) (stale : Nat → Nat → Nat) :
    let args := decodeArgs cfg.toDecodeConfig cfg.compressRatio batch inputs packSeq padByte stale
    out.seqLens (Ragged.start batch.decodeLens r + k) = args.contextLens (Ragged.start batch.decodeLens r + k) ∧
      ∀ c < out.columns, out.blockTable (Ragged.start batch.decodeLens r + k) c =
        (args.blockTables (Ragged.start batch.decodeLens r + k) c : Nat) := by
  have fits := built_fits flattened launched built
  obtain ⟨_,_,again,expanded⟩ := fits_expanded flattened launched split b fits
  cases built.symm.trans again
  have grown := (builtDecodes batch inputs.blockTable some_decode).grown r len seqLen found length
  constructor
  · have longest : ∀ seqLen ∈ batch.seqLens, seqLen ≤ batch.seqLens.max?.getD 0 := fun _ => List.le_max?_getD_of_mem
    show _ = List.getD _ _ 0
    rw [List.getD_eq_getElem?_getD,flattened_exact cfg.toDecodeConfig flattened cfg.ratio_pos found length inside longest,
      Option.getD_some]
    refine (expanded.lengths r len seqLen k found length inside).trans ?_
    rw [Int.natCast_ediv]
    congr 1
    omega
  · intro c column
    refine (expanded.pages r len k c found inside column).trans ?_
    rw [translation_same compressed]
    show _ = ((prepareBlockTable _ _ _ inputs.blockTable stale _ (c * inputs.factor) / inputs.factor : Nat) : Int)
    rw [expanded_table cfg.toDecodeConfig flattened inputs.blockTable stale found inside,factor]
    rfl

end Built

end Glm5Next.ScoredRows
