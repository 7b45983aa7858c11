import Glm5Next.DcpMerge

-- The rows that each rank scores: the windows of a prefill chunk, and the key
-- counts of the decode tokens.
namespace Glm5Next.DcpWindows
open IndexerChunks ChunkGroups PrefillWindows StoreWrites InterleavedShards DcpMerge

-- get_dcp_local_seq_lens, by length, world size, rank and interleave size. The
-- kernel says that it matches.
def Canonical (getDcpLocalSeqLens : Nat → Nat → Nat → Nat → Nat) : Prop :=
  ∀ len world rank interleave, 0 < interleave → rank < world →
    getDcpLocalSeqLens len world rank interleave = localLen world interleave rank len

-- chunk with the fields of a rank.
structure LocalChunkMetadata extends PrefillChunkMetadata where
  localCuSeqLens : List Nat
  localTotalSeqLens : Nat
  maxLocalTotalSeqLens : Nat

section Build
variable (getDcpLocalSeqLens : Nat → Nat → Nat → Nat → Nat) (dcpWorldSize dcpRank cpInterleave : Nat)

def localSeqLens (compressed : List Nat) (rank : Nat) : List Nat :=
  if dcpWorldSize > 1 then compressed.map fun len => getDcpLocalSeqLens len dcpWorldSize rank cpInterleave else compressed

def localRow (row : Nat × Nat × Nat) : Nat × Nat × Nat :=
  let lenPerToken := row.2.2 - row.2.1
  (row.1,row.2.1,row.2.1 + if dcpWorldSize > 1 then localLen dcpWorldSize cpInterleave dcpRank lenPerToken else lenPerToken)

def localChunkStores (compressRatio qsStart qsStop : Nat) (chunk : List Request) (queryStart : Nat → Nat) :
    List (Nat × Nat × Nat) :=
  let lens := localSeqLens getDcpLocalSeqLens dcpWorldSize cpInterleave (compressedSeqLens compressRatio chunk) dcpRank
  chunk.zipIdx.flatMap fun (req,r) =>
    (rowStores compressRatio qsStart qsStop (queryStart r) (queryStart (r + 1) - queryStart r) req.seqLen
      (Ragged.start lens r)).map (localRow dcpWorldSize dcpRank cpInterleave)

def buildLocalChunkMetadata (compressRatio : Nat) (empty : Nat → Nat) (reqs : List Request)
    (blockTable : Nat → Nat → Nat) (startIdx endIdx : Nat) (querySlice : Nat × Nat) : Option LocalChunkMetadata :=
  let chunk := (reqs.drop startIdx).take (endIdx - startIdx)
  let lens := localSeqLens getDcpLocalSeqLens dcpWorldSize cpInterleave (compressedSeqLens compressRatio chunk)
  let rows := localChunkStores getDcpLocalSeqLens dcpWorldSize dcpRank cpInterleave compressRatio querySlice.1 querySlice.2
    chunk fun r => queryStartLoc reqs (startIdx + r) - queryStartLoc reqs startIdx
  (buildPrefillChunkMetadata compressRatio empty reqs blockTable startIdx endIdx querySlice).map fun metadata =>
    { metadata with
      cuSeqlenKs := writes empty (rows.map fun row => (row.1,row.2.1))
      cuSeqlenKe := writes empty (rows.map fun row => (row.1,row.2.2))
      localCuSeqLens := (List.range (chunk.length + 1)).map (Ragged.start (lens dcpRank))
      localTotalSeqLens := (lens dcpRank).sum
      maxLocalTotalSeqLens := ((List.range dcpWorldSize).map fun rank => (lens rank).sum).max?.getD 0 }

end Build

-- cp_gather_indexer_k_quant_cache, with the rank's offsets.
def gatherLocal (kv : KvCache) (chunk : LocalChunkMetadata) : (Nat → PoolEntry) → Nat → PoolEntry :=
  gatherK kv { chunk.toPrefillChunkMetadata with cuSeqLens := chunk.localCuSeqLens }

section Windows
variable {getDcpLocalSeqLens : Nat → Nat → Nat → Nat → Nat} {world rank interleave : Nat}

theorem local_lens_exact (canonical : Canonical getDcpLocalSeqLens) (positive : 0 < interleave) (member : rank < world)
    (compressed : List Nat) : localSeqLens getDcpLocalSeqLens world interleave compressed rank =
      compressed.map (localLen world interleave rank) := by
  unfold localSeqLens
  split
  · exact List.map_congr_left fun len _ => canonical len world rank interleave positive member
  · obtain rfl : world = 1 := by omega
    obtain rfl := Nat.lt_one_iff.mp member
    exact (List.map_id'' (single_len positive) compressed).symm

theorem local_row_exact (positive : 0 < interleave) (member : rank < world) (place ks len : Nat) :
    localRow world rank interleave (place,ks,ks + len) = (place,ks,ks + localLen world interleave rank len) := by
  unfold localRow
  dsimp only
  rw [Nat.add_sub_cancel_left]
  split
  · rfl
  · obtain rfl : world = 1 := by omega
    obtain rfl := Nat.lt_one_iff.mp member
    rw [single_len positive]

theorem local_window_exact (canonical : Canonical getDcpLocalSeqLens) (positive : 0 < interleave) (member : rank < world)
    (compressRatio : Nat) (empty : Nat → Nat) (chunk : List Request) (queryStart : Nat → Nat)
    (relative : ∀ r ≤ chunk.length, queryStart r = Ragged.start (queryLens chunk) r) (found : chunk[r]? = some req)
    (inside : k < req.queryLen) (from_start : qsStart ≤ Ragged.start (queryLens chunk) r + k)
    (before : Ragged.start (queryLens chunk) r + k < qsStop) :
    let rows := localChunkStores getDcpLocalSeqLens world rank interleave compressRatio qsStart qsStop chunk queryStart
    let start := Ragged.start ((compressedSeqLens compressRatio chunk).map (localLen world interleave rank)) r
    writes empty (rows.map fun row => (row.1,row.2.1)) (Ragged.start (queryLens chunk) r + k - qsStart) = start ∧
      writes empty (rows.map fun row => (row.1,row.2.2)) (Ragged.start (queryLens chunk) r + k - qsStart) =
        start + localLen world interleave rank ((req.contextLen + k + 1) / compressRatio) := by
  intro rows start
  have lens := local_lens_exact canonical positive member (compressedSeqLens compressRatio chunk)
  have stored : (Ragged.start (queryLens chunk) r + k - qsStart,start,
      start + localLen world interleave rank ((req.contextLen + k + 1) / compressRatio)) ∈ rows := by
    obtain ⟨starts,length⟩ := program_lens relative found
    refine List.mem_flatMap.mpr ⟨(req,r),List.mem_zipIdx_iff_getElem?.mpr found,?_⟩
    dsimp only
    rw [lens,length,starts,← local_row_exact positive member,← stored_context req k]
    exact List.mem_map_of_mem (row_stored inside from_start before)
  have only : ∀ entry ∈ rows, entry.1 = Ragged.start (queryLens chunk) r + k - qsStart →
      entry.2 = (start,start + localLen world interleave rank ((req.contextLen + k + 1) / compressRatio)) := by
    intro entry listed same
    obtain ⟨⟨other,s⟩,program,held⟩ := List.mem_flatMap.mp listed
    rw [List.mem_zipIdx_iff_getElem?] at program
    dsimp only at program held
    obtain ⟨starts,length⟩ := program_lens relative program
    rw [lens,length,starts] at held
    obtain ⟨row,row_held,rfl⟩ := List.mem_map.mp held
    obtain ⟨offset,within,low,_,rfl⟩ := mem_row_stores row_held
    rw [local_row_exact positive member] at same ⊢
    dsimp only at same ⊢
    have token : Ragged.start (queryLens chunk) s + offset = Ragged.start (queryLens chunk) r + k := by omega
    obtain ⟨rfl,rfl⟩ := Ragged.locate_unique (by simp [queryLens,program]) within (by simp [queryLens,found]) inside token
    rw [found] at program
    cases program
    rw [stored_context]
  constructor
  · refine writes_exact _ _ _ _ (List.mem_map.mpr ⟨_,stored,rfl⟩) ?_
    intro entry listed same
    obtain ⟨row,held,rfl⟩ := List.mem_map.mp listed
    exact congrArg Prod.fst (only row held same)
  · refine writes_exact _ _ _ _ (List.mem_map.mpr ⟨_,stored,rfl⟩) ?_
    intro entry listed same
    obtain ⟨row,held,rfl⟩ := List.mem_map.mp listed
    exact congrArg Prod.snd (only row held same)

end Windows

section Prefill
variable {getDcpLocalSeqLens : Nat → Nat → Nat → Nat → Nat} {β : Type} [LinearOrder β] {kernels : MergeKernels β}
  {world interleave compressRatio startIdx endIdx topkTokens : Nat} {reqs : List Request} {querySlice : Nat × Nat}

def chunkReqs (reqs : List Request) (startIdx endIdx : Nat) : List Request := (reqs.drop startIdx).take (endIdx - startIdx)

def Sharded (world interleave : Nat) (kv : Nat → KvCache) (tables : Nat → Nat → Nat → Nat) (lens : List Nat)
    (key : Nat → Nat → PoolEntry) : Prop :=
  ∀ rank < world, ∀ r len, lens[r]? = some len → ∀ j < localLen world interleave rank len,
    (kv rank).entry (tables rank r (j / (kv rank).blockSize)) (j % (kv rank).blockSize) =
      key r (globalId world interleave rank j)

theorem local_chunk_exact (canonical : Canonical getDcpLocalSeqLens) (positive : 0 < interleave) (member : rank < world)
    (built : buildLocalChunkMetadata getDcpLocalSeqLens world rank interleave compressRatio
      empty reqs table startIdx endIdx querySlice = some chunk)
    (found : (chunkReqs reqs startIdx endIdx)[r]? = some req) (inside : k < req.queryLen)
    (from_start : querySlice.1 ≤ Ragged.start (queryLens (chunkReqs reqs startIdx endIdx)) r + k)
    (before : Ragged.start (queryLens (chunkReqs reqs startIdx endIdx)) r + k < querySlice.2) :
    let row := Ragged.start (queryLens (chunkReqs reqs startIdx endIdx)) r + k - querySlice.1
    let lens := (compressedSeqLens compressRatio (chunkReqs reqs startIdx endIdx)).map (localLen world interleave rank)
    chunk.cuSeqlenKs row = Ragged.start lens r ∧
      chunk.cuSeqlenKe row = Ragged.start lens r + localLen world interleave rank ((req.contextLen + k + 1) / compressRatio) ∧
      chunk.localCuSeqLens = (List.range (lens.length + 1)).map (Ragged.start lens) ∧
      chunk.blockTable = fun r => table (startIdx + r) := by
  intro row lens
  have local_lens := local_lens_exact canonical positive member
    (compressedSeqLens compressRatio (chunkReqs reqs startIdx endIdx))
  obtain ⟨metadata,base,rfl⟩ := Option.map_eq_some_iff.mp built
  have relative : ∀ r ≤ (chunkReqs reqs startIdx endIdx).length,
      queryStartLoc reqs (startIdx + r) - queryStartLoc reqs startIdx =
        Ragged.start (queryLens (chunkReqs reqs startIdx endIdx)) r := by
    intro s bounded
    refine query_start_relative reqs startIdx (endIdx - startIdx) s ?_
    rw [chunkReqs,List.length_take] at bounded
    omega
  obtain ⟨ks,ke⟩ := local_window_exact canonical positive member compressRatio empty _ _ relative found inside from_start before
  refine ⟨ks,ke,?_,?_⟩
  · dsimp only
    rw [← chunkReqs,local_lens]
    simp only [lens,compressedSeqLens,List.length_map]
  · unfold buildPrefillChunkMetadata at base
    dsimp only at base
    split at base
    · cases base
    · cases base
      rfl

structure Scored (chunk : LocalChunkMetadata) (keys : Nat → PoolEntry) (logit : PoolEntry → β) (topkTokens row : Nat)
    (logits : Nat → β) (ids : List Int) : Prop where
  columns : ∀ c, chunk.cuSeqlenKs row ≤ c → c < chunk.cuSeqlenKe row → logits c = logit (keys c)
  selected : TopKOf (fun j => logits (chunk.cuSeqlenKs row + j)) topkTokens
    (Finset.range (chunk.cuSeqlenKe row - chunk.cuSeqlenKs row)) ids

-- A prefill token selects, on every rank, the best of the keys it may see.
theorem dcp_prefill_exact {chunks : Nat → LocalChunkMetadata} {kv : Nat → KvCache} {tables : Nat → Nat → Nat → Nat}
    {key : Nat → Nat → PoolEntry} {logit : PoolEntry → β} {empty : Nat → Nat → Nat} {workspace : Nat → Nat → PoolEntry}
    {logits : Nat → Nat → β} {ids : Nat → List Int} (documented : Documented kernels)
    (canonical : Canonical getDcpLocalSeqLens) (positive : 0 < interleave) (some_rank : 0 < world)
    (supported : 1 < world → mergeSupported hasCutedsl topkTokens = true)
    (built : ∀ rank < world, buildLocalChunkMetadata getDcpLocalSeqLens world rank interleave compressRatio (empty rank) reqs
      (tables rank) startIdx endIdx querySlice = some (chunks rank))
    (sharded : Sharded world interleave kv (fun rank r => tables rank (startIdx + r))
      (compressedSeqLens compressRatio (chunkReqs reqs startIdx endIdx)) key)
    (found : (chunkReqs reqs startIdx endIdx)[r]? = some req) (inside : k < req.queryLen)
    (from_start : querySlice.1 ≤ Ragged.start (queryLens (chunkReqs reqs startIdx endIdx)) r + k)
    (before : Ragged.start (queryLens (chunkReqs reqs startIdx endIdx)) r + k < querySlice.2)
    (scored : ∀ rank < world, Scored (chunks rank) (gatherLocal (kv rank) (chunks rank) (workspace rank)) logit topkTokens
      (Ragged.start (queryLens (chunkReqs reqs startIdx endIdx)) r + k - querySlice.1) (logits rank) (ids rank)) :
    ∃ merged, TopKOf (fun p => logit (key r p)) topkTokens (Finset.range ((req.contextLen + k + 1) / compressRatio)) merged ∧
      ∀ rank < world, mergeDcpTopkGlobal kernels hasCutedsl topkTokens rank world interleave (fun rank =>
        ⟨logits rank,ids rank,(chunks rank).cuSeqlenKs
          (Ragged.start (queryLens (chunkReqs reqs startIdx endIdx)) r + k - querySlice.1)⟩) = some merged := by
  refine merge_exact documented positive some_rank supported fun rank member => ?_
  obtain ⟨ks,ke,offsets,table⟩ := local_chunk_exact canonical positive member (built rank member) found inside from_start before
  have held := scored rank member
  have lengths : (compressedSeqLens compressRatio (chunkReqs reqs startIdx endIdx))[r]? = some (req.seqLen / compressRatio) := by
    simp [compressedSeqLens,found]
  have shorter : (req.contextLen + k + 1) / compressRatio ≤ req.seqLen / compressRatio := by
    apply Nat.div_le_div_right
    unfold Request.seqLen
    omega
  refine ⟨fun j owned => ?_,?_⟩
  · have whole := Nat.lt_of_lt_of_le owned (local_len_mono positive member shorter)
    have gathered := gather_exact (kv rank) { (chunks rank).toPrefillChunkMetadata with cuSeqLens := (chunks rank).localCuSeqLens }
      (workspace rank) _ offsets (by rw [List.getElem?_map,lengths]; rfl) whole
    dsimp only
    rw [held.columns _ (Nat.le_add_right _ _) (by rw [ke,ks]; omega),ks,gatherLocal,gathered,table]
    exact congrArg logit (sharded rank member r _ lengths j whole)
  · have chosen := held.selected
    rwa [ke,ks,Nat.add_sub_cancel_left,← ks] at chosen

end Prefill

def pageBytes : KvCache := ⟨4,1,fun blk b => UInt8.ofNat (blk + b)⟩

def firstByte (entry : PoolEntry) : Nat := (entry.1.headD 0).toNat

theorem dcp_prefill_exact_twoRanks : ∃ shards : Nat → Shard Nat, ∃ merged,
    TopKOf (fun p => firstByte (pageBytes.entry (localIndex 2 1 p / 4) (localIndex 2 1 p % 4))) 512 (Finset.range ((0 + 2 + 1) / 1))
      merged ∧
      ∀ rank < 2, mergeDcpTopkGlobal (sortingKernels Nat) true 512 rank 2 1 shards = some merged := by
  have canonical : Canonical fun len world rank interleave => localLen world interleave rank len := fun _ _ _ _ _ _ => rfl
  have sharded : Sharded 2 1 (fun _ => pageBytes) (fun _ _ page => page) (compressedSeqLens 1 (chunkReqs [⟨0,3⟩] 0 1))
      fun _ p => pageBytes.entry (localIndex 2 1 p / 4) (localIndex 2 1 p % 4) := by
    intro rank member r len _ j _
    dsimp only
    rw [global_local Nat.zero_lt_one member]
    rfl
  have each : ∀ rank, ∃ chunk, buildLocalChunkMetadata (fun len world rank interleave => localLen world interleave rank len)
      2 rank 1 1 (fun _ => 0) [⟨0,3⟩] (fun _ page => page) 0 1 (0,3) = some chunk := fun _ => ⟨_,rfl⟩
  choose chunks built using each
  let row := Ragged.start (queryLens (chunkReqs [⟨0,3⟩] 0 1)) 0 + 2 - 0
  have scored : ∀ rank < 2, Scored (chunks rank) (gatherLocal pageBytes (chunks rank) fun _ => ([],[])) firstByte 512 row
      (fun c => firstByte (gatherLocal pageBytes (chunks rank) (fun _ => ([],[])) c)) _ :=
    fun rank _ => ⟨fun _ _ _ => rfl,sorted_row_exact _ 512 _⟩
  exact ⟨_,dcp_prefill_exact sorting_documented canonical Nat.zero_lt_one Nat.zero_lt_two (fun _ => rfl)
    (fun rank _ => built rank) sharded (by rfl : (chunkReqs [⟨0,3⟩] 0 1)[0]? = some ⟨0,3⟩) (by decide : 2 < 3) (Nat.zero_le _)
    (by decide) scored⟩

section Decode
open BufferSlices DecodeLayout DecodeExpansion DecodeRows
variable {getDcpLocalSeqLens : Nat → Nat → Nat → Nat → Nat} {β : Type} [LinearOrder β] {kernels : MergeKernels β}
  {world interleave topkTokens : Nat} {cfg : BuilderConfig} {batch : Decodes}

-- In place where the lengths are in a buffer; otherwise into the buffer, by a
-- copy that raises where the shapes differ.
def dcpLocalizeDecodeSeqLens (getDcpLocalSeqLens : Nat → Nat → Nat → Nat → Nat) (world rank interleave : Nat)
    (batch : Decodes) (seqLensIsBufferView : Bool) (size : Nat) (seqLens decodeSeqLens : Nat → Int) : Option (Nat → Int) :=
  let localSeqLens := fun i => (getDcpLocalSeqLens (seqLens i).toNat world rank interleave : Int)
  if seqLensIsBufferView then some (assign seqLens 0 size localSeqLens)
  else assignTensor decodeSeqLens 0 batch.numDecodes size localSeqLens

-- The lengths are cut to a rank after they are those of the single tokens.
theorem local_bound_exact (canonical : Canonical getDcpLocalSeqLens) (positive : 0 < interleave) (member : rank < world)
    {seqLens buffer bounds : Nat → Int} (inside : i < batch.numDecodeTokens) (bound : seqLens i = (len : Nat))
    (localized : dcpLocalizeDecodeSeqLens getDcpLocalSeqLens world rank interleave batch view batch.numDecodeTokens seqLens
      buffer = some bounds) : bounds i = (localLen world interleave rank len : Nat) := by
  unfold dcpLocalizeDecodeSeqLens at localized
  dsimp only at localized
  cases view with
  | true =>
      rw [if_pos rfl] at localized
      cases localized
      rw [assign_inside _ _ inside,bound,Int.toNat_natCast,canonical len world rank interleave positive member]
  | false =>
      rw [if_neg Bool.false_ne_true] at localized
      have shape := (tensor_fits _ _).mp (by rw [localized]; rfl)
      have requests := decodes_pos batch
      rw [tensor_entry localized (by omega) inside,bound,Int.toNat_natCast,
        canonical len world rank interleave positive member]

-- A decode token selects, on every rank, the best of the keys up to its own.
theorem dcp_decode_exact {bounds : Nat → Nat → Int} {logits : Nat → Nat → β} {ids : Nat → List Int} {score : Nat → β}
    (documented : DcpMerge.Documented kernels) (canonical : Canonical getDcpLocalSeqLens) (positive : 0 < interleave)
    (some_rank : 0 < world) (supported : 1 < world → mergeSupported hasCutedsl topkTokens = true)
    (flattened : useNative cfg.toDecodeConfig batch.decodeLens = false)
    (launched : order.Perm (List.range batch.numDecodeTokens)) (buf : Nat → Int) (b : Buffers)
    (localized : ∀ rank < world,
      let prepared := DecodeExpansion.prepareDecodeTensors cfg order batch (assign buf 0 batch.numDecodes batch.diff) b
      dcpLocalizeDecodeSeqLens getDcpLocalSeqLens world rank interleave batch (seqLensIsBufferView cfg batch) prepared.size
        prepared.seqLens prepared.buffers.decodeSeqLens = some (bounds rank))
    (found : batch.decodeLens[r]? = some len) (length : batch.seqLens[r]? = some seqLen) (inside : k < len)
    (scored : ∀ rank < world, ∀ j : Nat, j < bounds rank (Ragged.start batch.decodeLens r + k) →
      logits rank j = score (globalId world interleave rank j))
    (selected : ∀ rank < world, TopKOf (logits rank) topkTokens
      (Finset.range (bounds rank (Ragged.start batch.decodeLens r + k)).toNat) (ids rank)) :
    ∃ merged, TopKOf score topkTokens (Finset.range (seqLen - len + k + 1)) merged ∧ ∀ rank < world,
      mergeDcpTopkGlobal kernels hasCutedsl topkTokens rank world interleave (fun rank => ⟨logits rank,ids rank,0⟩) =
        some merged := by
  obtain ⟨after,tokens,prepared⟩ := prepared_flattened flattened launched buf b
  have grown := batch.grown r len seqLen found length
  have bound : after.decodeSeqLens (Ragged.start batch.decodeLens r + k) = ((seqLen - len + k + 1 : Nat) : Int) := by
    rw [tokens.tokens r len seqLen k found length inside]
    omega
  rw [prepared] at localized
  have local_bound : ∀ rank < world, bounds rank (Ragged.start batch.decodeLens r + k) =
      (localLen world interleave rank (seqLen - len + k + 1) : Nat) := fun rank member =>
    local_bound_exact canonical positive member (token_inside found inside) bound (localized rank member)
  refine merge_exact documented positive some_rank supported fun rank member => ⟨fun j owned => ?_,?_⟩
  · dsimp only
    rw [Nat.zero_add]
    refine scored rank member j ?_
    rw [local_bound rank member]
    exact Int.ofNat_lt.mpr owned
  · have chosen := selected rank member
    rw [local_bound rank member,Int.toNat_natCast] at chosen
    simpa using chosen

-- Two ranks, and the second token of a request that verifies three.
theorem dcp_decode_exact_verify : ∃ shards : Nat → Shard Nat, ∃ merged,
    TopKOf (fun p => 7 * p % 5) 512 (Finset.range (10 - 3 + 1 + 1)) merged ∧
      ∀ rank < 2, mergeDcpTopkGlobal (sortingKernels Nat) true 512 rank 2 1 shards = some merged := by
  have canonical : Canonical fun len world rank interleave => localLen world interleave rank len := fun _ _ _ _ _ _ => rfl
  have flattened : useNative splitConfig.toDecodeConfig verifyDecodes.decodeLens = false := by decide
  exact ⟨_,dcp_decode_exact sorting_documented canonical Nat.zero_lt_one Nat.zero_lt_two (fun _ => rfl) flattened
    (List.Perm.refl _) (fun _ => 0) zeroBuffers (fun _ _ => rfl) (by rfl : verifyDecodes.decodeLens[0]? = some 3)
    (by rfl : verifyDecodes.seqLens[0]? = some 10) (by decide : 1 < 3) (fun _ _ _ _ => rfl)
    fun rank _ => sorted_row_exact (fun j => 7 * globalId 2 1 rank j % 5) 512 _⟩

end Decode

end Glm5Next.DcpWindows
