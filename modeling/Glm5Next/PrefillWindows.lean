import Glm5Next.ChunkGroups

namespace Glm5Next.PrefillWindows
open IndexerChunks ChunkGroups StoreWrites

theorem mem_block_offsets (n offset : Nat) :
    offset ∈ (blockOffsets n).filter (fun offset => decide (offset < n)) ↔ offset < n := by
  rw [List.mem_filter,decide_eq_true_iff]
  constructor
  · intro ⟨_,inside⟩
    exact inside
  · intro inside
    refine ⟨?_,inside⟩
    have split := Nat.div_add_mod offset kernelBlockSize
    have rest := Nat.mod_lt offset (show 0 < kernelBlockSize by decide)
    refine List.mem_flatMap.mpr ⟨offset / kernelBlockSize,?_,?_⟩
    · rw [List.mem_range]
      apply (Nat.le_div_iff_mul_le (by decide)).mpr
      rw [Nat.succ_mul,Nat.mul_comm]
      omega
    · refine List.mem_map.mpr ⟨offset % kernelBlockSize,by simpa using rest,?_⟩
      rw [Nat.mul_comm]
      exact split

theorem mem_row_stores (stored : entry ∈ rowStores compressRatio qsStart qsStop queryStart queryLen seqLen rowStart) :
    ∃ offset, offset < queryLen ∧ qsStart ≤ queryStart + offset ∧ queryStart + offset < qsStop ∧
      entry = (queryStart + offset - qsStart,rowStart,rowStart + (seqLen - queryLen + 1 + offset) / compressRatio) := by
  unfold rowStores at stored
  obtain ⟨offset,kept,rfl⟩ := List.mem_map.mp stored
  have bounds := of_decide_eq_true (List.mem_filter.mp kept).2
  exact ⟨offset,bounds.1,bounds.2.1,bounds.2.2,rfl⟩

theorem row_stored (inside : offset < queryLen) (from_start : qsStart ≤ queryStart + offset)
    (before : queryStart + offset < qsStop) :
    (queryStart + offset - qsStart,rowStart,rowStart + (seqLen - queryLen + 1 + offset) / compressRatio) ∈
      rowStores compressRatio qsStart qsStop queryStart queryLen seqLen rowStart := by
  have listed := (List.mem_filter.mp ((mem_block_offsets queryLen offset).mpr inside)).1
  exact List.mem_map.mpr ⟨offset,List.mem_filter.mpr ⟨listed,decide_eq_true ⟨inside,from_start,before⟩⟩,rfl⟩

-- What the kernel leaves in the row of query offset `k` of request `r`, where
-- offsets count from the chunk's first request.
structure Window (compressRatio : Nat) (chunk : List Request) (ks ke : Nat → Nat) (row r k : Nat) (req : Request) :
    Prop where
  ks_exact : ks row = Ragged.start (compressedSeqLens compressRatio chunk) r
  ke_exact : ke row = ks row + (req.contextLen + k + 1) / compressRatio

section Stores
variable {compressRatio qsStart qsStop r k : Nat} {chunk : List Request} {queryStart : Nat → Nat} {req : Request}

theorem program_lens (relative : ∀ r ≤ chunk.length, queryStart r = Ragged.start (queryLens chunk) r)
    (found : chunk[r]? = some req) :
    queryStart r = Ragged.start (queryLens chunk) r ∧ queryStart (r + 1) - queryStart r = req.queryLen := by
  have bound := (List.getElem?_eq_some_iff.mp found).1
  have step : Ragged.start (queryLens chunk) (r + 1) = Ragged.start (queryLens chunk) r + req.queryLen :=
    Ragged.start_succ (by simp [queryLens,found])
  rw [relative r (Nat.le_of_lt bound),relative (r + 1) bound,step]
  exact ⟨rfl,by omega⟩

theorem stored_context (req : Request) (k : Nat) : req.seqLen - req.queryLen + 1 + k = req.contextLen + k + 1 := by
  unfold Request.seqLen
  omega

theorem window_store_unique (relative : ∀ r ≤ chunk.length, queryStart r = Ragged.start (queryLens chunk) r)
    (found : chunk[r]? = some req) (inside : k < req.queryLen)
    (from_start : qsStart ≤ Ragged.start (queryLens chunk) r + k) :
    ∀ entry ∈ chunkStores compressRatio qsStart qsStop chunk queryStart,
      entry.1 = Ragged.start (queryLens chunk) r + k - qsStart →
      entry.2 = (Ragged.start (compressedSeqLens compressRatio chunk) r,
        Ragged.start (compressedSeqLens compressRatio chunk) r + (req.contextLen + k + 1) / compressRatio) := by
  intro entry member same
  obtain ⟨⟨other,s⟩,listed,stored⟩ := List.mem_flatMap.mp member
  rw [List.mem_zipIdx_iff_getElem?] at listed
  dsimp only at listed stored
  obtain ⟨starts,length⟩ := program_lens relative listed
  rw [length,starts] at stored
  obtain ⟨offset,within,low,_,rfl⟩ := mem_row_stores stored
  dsimp only at same ⊢
  have token : Ragged.start (queryLens chunk) s + offset = Ragged.start (queryLens chunk) r + k := by omega
  obtain ⟨rfl,rfl⟩ := Ragged.locate_unique (by simp [queryLens,listed]) within (by simp [queryLens,found]) inside
    token
  rw [found] at listed
  cases listed
  rw [stored_context]

theorem window_stored (relative : ∀ r ≤ chunk.length, queryStart r = Ragged.start (queryLens chunk) r)
    (found : chunk[r]? = some req) (inside : k < req.queryLen)
    (from_start : qsStart ≤ Ragged.start (queryLens chunk) r + k)
    (before : Ragged.start (queryLens chunk) r + k < qsStop) :
    (Ragged.start (queryLens chunk) r + k - qsStart,
      Ragged.start (compressedSeqLens compressRatio chunk) r,
      Ragged.start (compressedSeqLens compressRatio chunk) r + (req.contextLen + k + 1) / compressRatio) ∈
        chunkStores compressRatio qsStart qsStop chunk queryStart := by
  refine List.mem_flatMap.mpr ⟨(req,r),List.mem_zipIdx_iff_getElem?.mpr found,?_⟩
  dsimp only
  obtain ⟨starts,length⟩ := program_lens relative found
  rw [length,starts,← stored_context req k]
  exact row_stored inside from_start before

end Stores

theorem window_exact (compressRatio : Nat) (empty : Nat → Nat) (chunk : List Request) (queryStart : Nat → Nat)
    (relative : ∀ r ≤ chunk.length, queryStart r = Ragged.start (queryLens chunk) r) (qsStart qsStop r k : Nat)
    (req : Request) (found : chunk[r]? = some req) (inside : k < req.queryLen)
    (from_start : qsStart ≤ Ragged.start (queryLens chunk) r + k)
    (before : Ragged.start (queryLens chunk) r + k < qsStop) :
    Window compressRatio chunk
      (writes empty ((chunkStores compressRatio qsStart qsStop chunk queryStart).map fun row => (row.1,row.2.1)))
      (writes empty ((chunkStores compressRatio qsStart qsStop chunk queryStart).map fun row => (row.1,row.2.2)))
      (Ragged.start (queryLens chunk) r + k - qsStart) r k req := by
  have stored : _ ∈ chunkStores compressRatio qsStart qsStop chunk queryStart :=
    window_stored relative found inside from_start before
  have stores : ∀ entry ∈ chunkStores compressRatio qsStart qsStop chunk queryStart, _ :=
    window_store_unique relative found inside from_start
  have ks_exact : writes empty ((chunkStores compressRatio qsStart qsStop chunk queryStart).map fun row =>
      (row.1,row.2.1)) (Ragged.start (queryLens chunk) r + k - qsStart) =
        Ragged.start (compressedSeqLens compressRatio chunk) r := by
    refine writes_exact _ _ _ _ (List.mem_map.mpr ⟨_,stored,rfl⟩) ?_
    intro entry member same
    obtain ⟨row,listed,rfl⟩ := List.mem_map.mp member
    exact congrArg Prod.fst (stores row listed same)
  refine ⟨ks_exact,?_⟩
  rw [ks_exact]
  refine writes_exact _ _ _ _ (List.mem_map.mpr ⟨_,stored,rfl⟩) ?_
  intro entry member same
  obtain ⟨row,listed,rfl⟩ := List.mem_map.mp member
  exact congrArg Prod.snd (stores row listed same)

theorem query_start_relative (reqs : List Request) (startIdx count r : Nat) (inside : r ≤ count) :
    queryStartLoc reqs (startIdx + r) - queryStartLoc reqs startIdx =
      Ragged.start (queryLens ((reqs.drop startIdx).take count)) r := by
  have lens : queryLens ((reqs.drop startIdx).take count) = ((queryLens reqs).drop startIdx).take count := by
    simp [queryLens]
  unfold queryStartLoc
  rw [Ragged.start_add,Nat.add_sub_cancel_left,lens,Ragged.start_take _ _ inside]

theorem lens_recovered (lens : List Nat) :
    List.zipWith (fun next this => next - this) ((List.range (lens.length + 1)).map (Ragged.start lens)).tail
      ((List.range (lens.length + 1)).map (Ragged.start lens)) = lens := by
  apply List.ext_getElem?
  intro i
  rw [List.getElem?_zipWith,List.getElem?_tail,List.getElem?_map,List.getElem?_map]
  cases found : lens[i]? with
  | none =>
      have past := List.getElem?_eq_none_iff.mp found
      rw [List.getElem?_eq_none (by simp; omega : (List.range (lens.length + 1)).length ≤ i + 1)]
      rfl
  | some len =>
      have bound := (List.getElem?_eq_some_iff.mp found).1
      rw [List.getElem?_range (by omega),List.getElem?_range (by omega)]
      simp only [Option.map_some,Ragged.start_succ found]
      congr 1
      omega

-- The gathered pool `p` of the chunk's request `r` is its cache entry.
theorem gather_exact (kv : KvCache) (chunk : PrefillChunkMetadata) (dst : Nat → PoolEntry) (lens : List Nat)
    (cumulative : chunk.cuSeqLens = (List.range (lens.length + 1)).map (Ragged.start lens))
    (found : lens[r]? = some len) (inside : p < len) :
    gatherK kv chunk dst (Ragged.start lens r + p) =
      kv.entry (chunk.blockTable r (p / kv.blockSize)) (p % kv.blockSize) := by
  have bound := (List.getElem?_eq_some_iff.mp found).1
  have first : chunk.cuSeqLens.getD r 0 = Ragged.start lens r := by
    rw [cumulative,List.getD_eq_getElem?_getD,List.getElem?_map,List.getElem?_range (by omega)]
    rfl
  unfold gatherK
  dsimp only
  rw [cumulative,lens_recovered,Ragged.owners_get found inside,← cumulative]
  dsimp only
  rw [first,Nat.add_sub_cancel_left]

theorem gather_twice (kv : KvCache) (chunk : PrefillChunkMetadata) (dst : Nat → PoolEntry) :
    gatherK kv chunk (gatherK kv chunk dst) = gatherK kv chunk dst := by
  funext j
  unfold gatherK
  dsimp only
  split <;> rfl

structure SameKeys (a b : PrefillChunkMetadata) : Prop where
  tables : a.blockTable = b.blockTable
  offsets : a.cuSeqLens = b.cuSeqLens

theorem gather_same (kv : KvCache) (same : SameKeys a b) : gatherK kv a = gatherK kv b := by
  unfold gatherK
  rw [same.tables,same.offsets]

def Chained : Option PrefillChunkMetadata → List PrefillChunkMetadata → Prop
  | _,[] => True
  | before,chunk :: rest =>
    (chunk.skipKvGather = true → ∃ other, before = some other ∧ SameKeys other chunk) ∧ Chained (some chunk) rest

theorem chained_group (before : Option PrefillChunkMetadata) (chunks : List PrefillChunkMetadata)
    (alike : ∀ a ∈ chunks, ∀ b ∈ chunks, SameKeys a b)
    (led : ∀ first, chunks.head? = some first → first.skipKvGather = true →
      ∃ other, before = some other ∧ SameKeys other first) : Chained before chunks := by
  induction chunks generalizing before with
  | nil => trivial
  | cons first rest ih =>
      refine ⟨led first rfl,ih (some first) (fun a in_a b in_b => alike a (by simp [in_a]) b (by simp [in_b])) ?_⟩
      intro second leads _
      exact ⟨first,rfl,alike first (by simp) second (by simp [List.mem_of_head? leads])⟩

theorem chained_append (front back : List PrefillChunkMetadata) (before : Option PrefillChunkMetadata)
    (chained : Chained before front) (fresh : ∀ other, Chained other back) : Chained before (front ++ back) := by
  induction front generalizing before with
  | nil => exact fresh before
  | cons first rest ih => exact ⟨chained.1,ih _ chained.2⟩

theorem scored_chunks (kv : KvCache) (chunks : List PrefillChunkMetadata) (buffer : Nat → PoolEntry) :
    (scoredChunks kv buffer chunks).map Prod.fst = chunks := by
  induction chunks generalizing buffer with
  | nil => rfl
  | cons chunk rest ih => simp [scoredChunks,ih]

-- Every chunk is scored on its own gathered keys.
theorem scored_gathered (kv : KvCache) (chunks : List PrefillChunkMetadata) (buffer : Nat → PoolEntry)
    (before : Option PrefillChunkMetadata) (chained : Chained before chunks)
    (held : ∀ other, before = some other → gatherK kv other buffer = buffer) :
    ∀ scored ∈ scoredChunks kv buffer chunks, gatherK kv scored.1 scored.2 = scored.2 := by
  induction chunks generalizing buffer before with
  | nil => simp [scoredChunks]
  | cons chunk rest ih =>
      have here : gatherK kv chunk (if chunk.skipKvGather then buffer else gatherK kv chunk buffer) =
          if chunk.skipKvGather then buffer else gatherK kv chunk buffer := by
        cases skips : chunk.skipKvGather with
        | false => simp [gather_twice]
        | true =>
            obtain ⟨other,rfl,same⟩ := chained.1 skips
            simpa [← gather_same kv same] using held other rfl
      intro scored member
      rcases List.mem_cons.mp member with rfl | member
      · exact here
      · refine ih _ (some chunk) chained.2 ?_ scored member
        intro other same
        cases same
        exact here

-- A chunk that skips the gather is scored on the buffer of the chunk before it.
theorem scored_skips (kv : KvCache) (chunks : List PrefillChunkMetadata) (buffer : Nat → PoolEntry) (t : Nat)
    (found : (scoredChunks kv buffer chunks)[t]? = some (chunk,keys)) (skips : chunk.skipKvGather = true) :
    (t = 0 ∧ keys = buffer) ∨ ∃ s other, t = s + 1 ∧ (scoredChunks kv buffer chunks)[s]? = some (other,keys) := by
  induction chunks generalizing buffer t with
  | nil => simp [scoredChunks] at found
  | cons first rest ih =>
      simp only [scoredChunks] at found ⊢
      cases t with
      | zero =>
          simp only [List.getElem?_cons_zero,Option.some.injEq,Prod.mk.injEq] at found
          obtain ⟨rfl,rfl⟩ := found
          exact Or.inl ⟨rfl,if_pos skips⟩
      | succ t =>
          right
          rw [List.getElem?_cons_succ] at found
          rcases ih _ t found with ⟨rfl,rfl⟩ | ⟨s,other,rfl,at_s⟩
          · exact ⟨0,first,rfl,rfl⟩
          · exact ⟨s + 1,other,rfl,by simpa using at_s⟩

section Batch
variable (compressRatio : Nat) (empty : Nat → Nat) (reqs : List Request) (numDecodes : Nat)
  (blockTable : Nat → Nat → Nat) (workspaceSize maxLogitsBytes : Nat)

def prefillGroups : List Group :=
  splitGroups workspaceSize (maxLogitsBytes / 4) 0 (prefillPairs compressRatio reqs numDecodes)

def groupReqs (group : Group) : List Request := (reqs.drop (group.start + numDecodes)).take (group.stop - group.start)

def HasPool (group : Group) : Prop :=
  ∃ r req, group.start ≤ r ∧ r < group.stop ∧ reqs[r + numDecodes]? = some req ∧ 0 < req.seqLen / compressRatio

structure GroupTotals (group : Group) : Prop where
  size : (groupReqs reqs numDecodes group).length = group.stop - group.start
  queries : (queryLens (groupReqs reqs numDecodes group)).sum = group.chunkM
  pools : (compressedSeqLens compressRatio (groupReqs reqs numDecodes group)).sum = group.chunkN

theorem group_totals (member : group ∈ prefillGroups compressRatio reqs numDecodes workspaceSize maxLogitsBytes) :
    GroupTotals compressRatio reqs numDecodes group := by
  obtain ⟨_,proper,last,queries,pools,_⟩ := split_groups_exact _ _ _ _ group member
  rw [Nat.sub_zero] at queries pools
  simp only [prefillPairs,List.length_map,List.length_drop] at last
  have slice : ((prefillPairs compressRatio reqs numDecodes).drop group.start).take (group.stop - group.start) =
      (groupReqs reqs numDecodes group).map fun r => (r.queryLen,r.seqLen / compressRatio) := by
    simp only [prefillPairs,groupReqs,← List.map_drop,← List.map_take,List.drop_drop]
    rw [Nat.add_comm numDecodes]
  rw [slice,List.map_map] at queries pools
  refine ⟨?_,queries.symm,pools.symm⟩
  simp only [groupReqs,List.length_take,List.length_drop]
  omega

theorem pools_exact (totals : GroupTotals compressRatio reqs numDecodes group) :
    0 < group.chunkN ↔ HasPool compressRatio reqs numDecodes group := by
  rw [← totals.pools]
  constructor
  · intro positive
    obtain ⟨len,member,some_pool⟩ : ∃ len ∈ compressedSeqLens compressRatio (groupReqs reqs numDecodes group), len ≠ 0 := by
      by_contra none_held
      have zero : ∀ len ∈ compressedSeqLens compressRatio (groupReqs reqs numDecodes group), len = 0 :=
        fun len member => by_contra fun held => none_held ⟨len,member,held⟩
      rw [List.sum_eq_zero_iff_forall_eq_nat.mpr zero] at positive
      exact Nat.lt_irrefl _ positive
    obtain ⟨req,listed,rfl⟩ := List.mem_map.mp member
    obtain ⟨i,at_i⟩ := List.mem_iff_getElem?.mp listed
    have bound := (List.getElem?_eq_some_iff.mp at_i).1
    rw [totals.size] at bound
    simp only [groupReqs] at at_i
    rw [List.getElem?_take_of_lt bound,List.getElem?_drop] at at_i
    refine ⟨group.start + i,req,by omega,by omega,?_,Nat.pos_of_ne_zero some_pool⟩
    rw [← at_i]
    congr 1
    omega
  · intro ⟨r,req,low,high,found,some_pool⟩
    have listed : req ∈ groupReqs reqs numDecodes group := by
      refine List.mem_iff_getElem?.mpr ⟨r - group.start,?_⟩
      simp only [groupReqs]
      rw [List.getElem?_take_of_lt (by omega),List.getElem?_drop,← found]
      congr 1
      omega
    apply Nat.pos_of_ne_zero
    intro zero
    have all_zero := List.sum_eq_zero_iff_forall_eq_nat.mp zero _ (List.mem_map.mpr ⟨req,listed,rfl⟩)
    omega

structure Built (group : Group) (slice : Nat × Nat) (chunk : PrefillChunkMetadata) : Prop where
  total : chunk.totalSeqLens = group.chunkN
  token_start : chunk.tokenStart = queryStartLoc reqs (group.start + numDecodes) + slice.1
  token_end : chunk.tokenEnd = queryStartLoc reqs (group.start + numDecodes) + slice.2
  num_reqs : chunk.numReqs = group.stop - group.start
  skips : chunk.skipKvGather = decide (slice.1 > 0)
  table : chunk.blockTable = fun r => blockTable (group.start + numDecodes + r)
  offsets : chunk.cuSeqLens = (List.range ((compressedSeqLens compressRatio (groupReqs reqs numDecodes group)).length + 1)).map
    (Ragged.start (compressedSeqLens compressRatio (groupReqs reqs numDecodes group)))
  window : ∀ r k req, (groupReqs reqs numDecodes group)[r]? = some req → k < req.queryLen →
    slice.1 ≤ Ragged.start (queryLens (groupReqs reqs numDecodes group)) r + k →
    Ragged.start (queryLens (groupReqs reqs numDecodes group)) r + k < slice.2 →
    Window compressRatio (groupReqs reqs numDecodes group) chunk.cuSeqlenKs chunk.cuSeqlenKe
      (Ragged.start (queryLens (groupReqs reqs numDecodes group)) r + k - slice.1) r k req

theorem built_exact (totals : GroupTotals compressRatio reqs numDecodes group) (slice : Nat × Nat) :
    (group.chunkN = 0 → buildPrefillChunkMetadata compressRatio empty reqs blockTable (group.start + numDecodes)
      (group.stop + numDecodes) slice = none) ∧
    (0 < group.chunkN → ∃ chunk, buildPrefillChunkMetadata compressRatio empty reqs blockTable
      (group.start + numDecodes) (group.stop + numDecodes) slice = some chunk ∧
        Built compressRatio reqs numDecodes blockTable group slice chunk) := by
  have size : group.stop + numDecodes - (group.start + numDecodes) = group.stop - group.start := by omega
  have pools := totals.pools
  have length := totals.size
  simp only [groupReqs] at pools length
  unfold buildPrefillChunkMetadata
  dsimp only
  rw [size]
  constructor
  · intro none_held
    exact if_pos (pools.trans none_held)
  · intro held
    refine ⟨_,if_neg (by rw [pools]; omega),?_⟩
    refine ⟨pools,rfl,rfl,rfl,rfl,rfl,?_,?_⟩
    · simp only [compressedSeqLens,List.length_map,groupReqs]
    · intro r k req found inside low high
      refine window_exact compressRatio empty _ _ ?_ slice.1 slice.2 r k req found inside low high
      intro s bounded
      exact query_start_relative reqs _ _ s (length ▸ bounded)

def groupChunks (group : Group) : List PrefillChunkMetadata :=
  (querySlices (maxLogitsBytes / 4) group).filterMap fun slice =>
    buildPrefillChunkMetadata compressRatio empty reqs blockTable (group.start + numDecodes)
      (group.stop + numDecodes) slice

theorem chunks_by_group : prefillChunks compressRatio empty reqs numDecodes blockTable workspaceSize maxLogitsBytes =
    (prefillGroups compressRatio reqs numDecodes workspaceSize maxLogitsBytes).flatMap
      (groupChunks compressRatio empty reqs numDecodes blockTable maxLogitsBytes) := by
  simp only [prefillChunks,splitIndexerPrefillChunks,List.filterMap_flatMap,List.filterMap_map]
  rfl

theorem group_chunk_built (totals : GroupTotals compressRatio reqs numDecodes group)
    (member : chunk ∈ groupChunks compressRatio empty reqs numDecodes blockTable maxLogitsBytes group) :
    0 < group.chunkN ∧ ∃ slice, SliceOf (maxLogitsBytes / 4) group slice ∧
      Built compressRatio reqs numDecodes blockTable group slice chunk := by
  obtain ⟨slice,listed,built⟩ := List.mem_filterMap.mp member
  obtain ⟨dropped,kept⟩ := built_exact compressRatio empty reqs numDecodes blockTable totals slice
  have held : 0 < group.chunkN := by
    apply Nat.pos_of_ne_zero
    intro zero
    rw [dropped zero] at built
    cases built
  obtain ⟨other,built',facts⟩ := kept held
  rw [built] at built'
  cases built'
  exact ⟨held,slice,query_slices_exact _ group slice listed,facts⟩

theorem group_chunks_chained (totals : GroupTotals compressRatio reqs numDecodes group)
    (before : Option PrefillChunkMetadata) :
    Chained before (groupChunks compressRatio empty reqs numDecodes blockTable maxLogitsBytes group) := by
  apply chained_group
  · intro a in_a b in_b
    obtain ⟨_,_,_,facts⟩ := group_chunk_built compressRatio empty reqs numDecodes blockTable maxLogitsBytes totals in_a
    obtain ⟨_,_,_,facts'⟩ := group_chunk_built compressRatio empty reqs numDecodes blockTable maxLogitsBytes totals in_b
    exact ⟨facts.table.trans facts'.table.symm,facts.offsets.trans facts'.offsets.symm⟩
  · intro first leads skips
    have member := List.mem_of_head? leads
    obtain ⟨held,_⟩ := group_chunk_built compressRatio empty reqs numDecodes blockTable maxLogitsBytes totals member
    unfold groupChunks at leads
    cases slices : querySlices (maxLogitsBytes / 4) group with
    | nil => rw [slices] at leads; cases leads
    | cons slice rest =>
        obtain ⟨chunk,built,facts⟩ := (built_exact compressRatio empty reqs numDecodes blockTable totals slice).2 held
        rw [slices,List.filterMap_cons_some built] at leads
        cases leads
        have zero := query_slices_head (maxLogitsBytes / 4) group (by rw [slices]; rfl : _ = some slice)
        rw [facts.skips,zero] at skips
        simp at skips

def chunkRows (chunk : PrefillChunkMetadata) : List Nat :=
  List.range' chunk.tokenStart (chunk.tokenEnd - chunk.tokenStart)

theorem query_start_mono (r s : Nat) (ordered : r ≤ s) : queryStartLoc reqs r ≤ queryStartLoc reqs s :=
  Ragged.start_le _ ordered

theorem group_queries (totals : GroupTotals compressRatio reqs numDecodes group) (proper : group.start < group.stop) :
    queryStartLoc reqs (group.start + numDecodes) + group.chunkM = queryStartLoc reqs (group.stop + numDecodes) := by
  have whole := query_start_relative reqs (group.start + numDecodes) (group.stop - group.start)
    (group.stop - group.start) (Nat.le_refl _)
  have full : Ragged.start (queryLens (groupReqs reqs numDecodes group)) (group.stop - group.start) = group.chunkM := by
    have length : (queryLens (groupReqs reqs numDecodes group)).length = group.stop - group.start := by
      simp [queryLens,totals.size]
    rw [← length,Ragged.start_length,totals.queries]
  have last : group.start + numDecodes + (group.stop - group.start) = group.stop + numDecodes := by omega
  have ordered := query_start_mono reqs (group.start + numDecodes) (group.stop + numDecodes) (by omega)
  rw [last] at whole
  rw [groupReqs] at full
  rw [full] at whole
  omega

theorem group_rows (totals : GroupTotals compressRatio reqs numDecodes group) :
    (groupChunks compressRatio empty reqs numDecodes blockTable maxLogitsBytes group).flatMap chunkRows =
      if 0 < group.chunkN then List.range' (queryStartLoc reqs (group.start + numDecodes)) group.chunkM else [] := by
  by_cases held : 0 < group.chunkN
  · rw [if_pos held]
    have rows : ∀ slices : List (Nat × Nat), (slices.filterMap fun slice => buildPrefillChunkMetadata compressRatio
        empty reqs blockTable (group.start + numDecodes) (group.stop + numDecodes) slice).flatMap chunkRows =
          (slices.flatMap fun slice => List.range' slice.1 (slice.2 - slice.1)).map
            fun offset => queryStartLoc reqs (group.start + numDecodes) + offset := by
      intro slices
      induction slices with
      | nil => rfl
      | cons slice rest ih =>
          obtain ⟨chunk,built,facts⟩ := (built_exact compressRatio empty reqs numDecodes blockTable totals slice).2 held
          rw [List.filterMap_cons_some built,List.flatMap_cons,List.flatMap_cons,List.map_append,ih]
          congr 1
          rw [chunkRows,facts.token_start,facts.token_end,Nat.add_sub_add_left,List.map_add_range']
    rw [groupChunks,rows,query_slices_tile,List.map_add_range',Nat.add_zero]
  · rw [if_neg held]
    have none_built : groupChunks compressRatio empty reqs numDecodes blockTable maxLogitsBytes group = [] := by
      rw [groupChunks,List.filterMap_eq_nil_iff]
      intro slice _
      exact (built_exact compressRatio empty reqs numDecodes blockTable totals slice).1 (by omega)
    rw [none_built]
    rfl

theorem flatMap_sublist {f g : α → List β} (xs : List α) (each : ∀ x ∈ xs, (f x).Sublist (g x)) :
    (xs.flatMap f).Sublist (xs.flatMap g) := by
  induction xs with
  | nil => exact List.Sublist.slnil
  | cons x rest ih =>
      rw [List.flatMap_cons,List.flatMap_cons]
      exact (each x (by simp)).append (ih fun y member => each y (List.mem_cons_of_mem _ member))

theorem rows_exact :
    ((prefillChunks compressRatio empty reqs numDecodes blockTable workspaceSize maxLogitsBytes).flatMap
      chunkRows).Nodup ∧
    ∀ token, token ∈ (prefillChunks compressRatio empty reqs numDecodes blockTable workspaceSize
        maxLogitsBytes).flatMap chunkRows ↔
      ∃ group ∈ prefillGroups compressRatio reqs numDecodes workspaceSize maxLogitsBytes,
        HasPool compressRatio reqs numDecodes group ∧ queryStartLoc reqs (group.start + numDecodes) ≤ token ∧
          token < queryStartLoc reqs (group.stop + numDecodes) := by
  have totals : ∀ group ∈ prefillGroups compressRatio reqs numDecodes workspaceSize maxLogitsBytes,
      GroupTotals compressRatio reqs numDecodes group ∧ queryStartLoc reqs (group.start + numDecodes) + group.chunkM =
        queryStartLoc reqs (group.stop + numDecodes) := by
    intro group member
    have facts := group_totals compressRatio reqs numDecodes workspaceSize maxLogitsBytes member
    exact ⟨facts,group_queries compressRatio reqs numDecodes facts (split_groups_exact _ _ _ _ group member).proper⟩
  rw [chunks_by_group,List.flatMap_assoc]
  constructor
  · have tiles := split_groups_tile workspaceSize (maxLogitsBytes / 4) 0 (prefillPairs compressRatio reqs numDecodes)
      (fun r => queryStartLoc reqs (r + numDecodes)) fun r s ordered => query_start_mono reqs _ _ (by omega)
    have all : ((prefillGroups compressRatio reqs numDecodes workspaceSize maxLogitsBytes).flatMap fun group =>
        List.range' (queryStartLoc reqs (group.start + numDecodes)) (queryStartLoc reqs (group.stop + numDecodes) -
          queryStartLoc reqs (group.start + numDecodes))).Nodup := by
      rw [prefillGroups,tiles]
      exact List.nodup_range'
    refine all.sublist (flatMap_sublist _ ?_)
    intro group member
    obtain ⟨facts,length⟩ := totals group member
    rw [group_rows compressRatio empty reqs numDecodes blockTable maxLogitsBytes facts,← length,Nat.add_sub_cancel_left]
    split
    · exact List.Sublist.refl _
    · exact List.nil_sublist _
  · intro token
    rw [List.mem_flatMap]
    refine exists_congr fun group => and_congr_right fun member => ?_
    obtain ⟨facts,length⟩ := totals group member
    rw [group_rows compressRatio empty reqs numDecodes blockTable maxLogitsBytes facts,
      ← pools_exact compressRatio reqs numDecodes facts,← length]
    by_cases held : 0 < group.chunkN
    · simp [held,List.mem_range'_1]
    · simp [held]

theorem chunks_chained :
    Chained none (prefillChunks compressRatio empty reqs numDecodes blockTable workspaceSize maxLogitsBytes) := by
  rw [chunks_by_group]
  have each : ∀ group ∈ prefillGroups compressRatio reqs numDecodes workspaceSize maxLogitsBytes,
      ∀ before, Chained before (groupChunks compressRatio empty reqs numDecodes blockTable maxLogitsBytes group) :=
    fun group member before => group_chunks_chained compressRatio empty reqs numDecodes blockTable maxLogitsBytes
      (group_totals compressRatio reqs numDecodes workspaceSize maxLogitsBytes member) before
  revert each
  generalize prefillGroups compressRatio reqs numDecodes workspaceSize maxLogitsBytes = groups
  intro each
  have any : ∀ before, Chained before (groups.flatMap
      (groupChunks compressRatio empty reqs numDecodes blockTable maxLogitsBytes)) := by
    induction groups with
    | nil => intro before; trivial
    | cons group rest ih =>
        intro before
        rw [List.flatMap_cons]
        exact chained_append _ _ before (each group (by simp) before)
          (ih fun other member => each other (List.mem_cons_of_mem _ member))
  exact any none

theorem token_in_group (proper : group.start < group.stop) (found : reqs[r]? = some req) (inside : k < req.queryLen)
    (low : queryStartLoc reqs (group.start + numDecodes) ≤ queryStartLoc reqs r + k)
    (high : queryStartLoc reqs r + k < queryStartLoc reqs (group.stop + numDecodes)) :
    ∃ s, r = group.start + numDecodes + s ∧ (groupReqs reqs numDecodes group)[s]? = some req ∧
      queryStartLoc reqs r = queryStartLoc reqs (group.start + numDecodes) +
        Ragged.start (queryLens (groupReqs reqs numDecodes group)) s := by
  have row : (queryLens reqs)[r]? = some req.queryLen := by simp [queryLens,found]
  have first : group.start + numDecodes ≤ r := by
    by_contra early
    have := Ragged.row_inside row inside (Nat.lt_of_not_le early)
    unfold queryStartLoc at low
    omega
  have last : r < group.stop + numDecodes := by
    by_contra late
    have := query_start_mono reqs _ _ (Nat.le_of_not_lt late)
    omega
  obtain ⟨s,rfl⟩ := Nat.exists_eq_add_of_le first
  refine ⟨s,rfl,?_,?_⟩
  · rw [groupReqs,List.getElem?_take_of_lt (by omega),List.getElem?_drop]
    exact found
  · have relative := query_start_relative reqs (group.start + numDecodes) (group.stop - group.start) s (by omega)
    have ordered := query_start_mono reqs (group.start + numDecodes) (group.start + numDecodes + s) (by omega)
    rw [groupReqs]
    omega

def windowKeys (chunk : PrefillChunkMetadata) (keys : Nat → PoolEntry) (row : Nat) : List PoolEntry :=
  (List.range' (chunk.cuSeqlenKs row) (chunk.cuSeqlenKe row - chunk.cuSeqlenKs row)).map keys

def cachedPools (kv : KvCache) (blockTable : Nat → Nat → Nat) (r count : Nat) : List PoolEntry :=
  (List.range count).map fun p => kv.entry (blockTable r (p / kv.blockSize)) (p % kv.blockSize)

theorem window_keys_exact (built : Built compressRatio reqs numDecodes blockTable group slice chunk)
    (gathered : gatherK kv chunk keys = keys) (s k : Nat) (req : Request)
    (found : (groupReqs reqs numDecodes group)[s]? = some req) (inside : k < req.queryLen)
    (low : slice.1 ≤ Ragged.start (queryLens (groupReqs reqs numDecodes group)) s + k)
    (high : Ragged.start (queryLens (groupReqs reqs numDecodes group)) s + k < slice.2) :
    windowKeys chunk keys (Ragged.start (queryLens (groupReqs reqs numDecodes group)) s + k - slice.1) =
      cachedPools kv blockTable (group.start + numDecodes + s) ((req.contextLen + k + 1) / compressRatio) := by
  obtain ⟨ks_exact,ke_exact⟩ := built.window s k req found inside low high
  unfold windowKeys cachedPools
  rw [ke_exact,Nat.add_sub_cancel_left,ks_exact,List.range'_eq_map_range,List.map_map]
  apply List.map_congr_left
  intro p listed
  have pool : p < (req.contextLen + k + 1) / compressRatio := List.mem_range.mp listed
  have whole : (req.contextLen + k + 1) / compressRatio ≤ req.seqLen / compressRatio :=
    Nat.div_le_div_right (by unfold Request.seqLen; omega)
  have lens : (compressedSeqLens compressRatio (groupReqs reqs numDecodes group))[s]? =
      some (req.seqLen / compressRatio) := by simp [compressedSeqLens,found]
  have entry := gather_exact kv chunk keys _ built.offsets lens (Nat.lt_of_lt_of_le pool whole)
  rw [gathered,built.table] at entry
  exact entry

theorem chunk_origin (member : chunk ∈ prefillChunks compressRatio empty reqs numDecodes blockTable workspaceSize
    maxLogitsBytes) :
    ∃ group ∈ prefillGroups compressRatio reqs numDecodes workspaceSize maxLogitsBytes, group.start < group.stop ∧
      (group.stop = group.start + 1 ∨ group.chunkN ≤ workspaceSize) ∧
      queryStartLoc reqs (group.start + numDecodes) + group.chunkM =
        queryStartLoc reqs (group.stop + numDecodes) ∧
      ∃ slice, SliceOf (maxLogitsBytes / 4) group slice ∧
        Built compressRatio reqs numDecodes blockTable group slice chunk := by
  rw [chunks_by_group] at member
  obtain ⟨group,listed,member⟩ := List.mem_flatMap.mp member
  have split := split_groups_exact _ _ _ _ group listed
  have totals := group_totals compressRatio reqs numDecodes workspaceSize maxLogitsBytes listed
  obtain ⟨_,slice,cut,built⟩ := group_chunk_built compressRatio empty reqs numDecodes blockTable maxLogitsBytes
    totals member
  exact ⟨group,listed,split.proper,split.fits,group_queries compressRatio reqs numDecodes totals split.proper,
    slice,cut,built⟩

theorem row_place (member : chunk ∈ prefillChunks compressRatio empty reqs numDecodes blockTable workspaceSize
    maxLogitsBytes) (row : token ∈ chunkRows chunk) (found : reqs[r]? = some req) (inside : k < req.queryLen)
    (split : token = queryStartLoc reqs r + k) :
    ∃ group slice s, Built compressRatio reqs numDecodes blockTable group slice chunk ∧
      r = group.start + numDecodes + s ∧ (groupReqs reqs numDecodes group)[s]? = some req ∧
      token - chunk.tokenStart = Ragged.start (queryLens (groupReqs reqs numDecodes group)) s + k - slice.1 ∧
      slice.1 ≤ Ragged.start (queryLens (groupReqs reqs numDecodes group)) s + k ∧
      Ragged.start (queryLens (groupReqs reqs numDecodes group)) s + k < slice.2 := by
  obtain ⟨group,_,proper,_,length,slice,cut,built⟩ := chunk_origin compressRatio empty reqs numDecodes blockTable
    workspaceSize maxLogitsBytes member
  rw [chunkRows,List.mem_range'_1,built.token_start,built.token_end] at row
  have start := cut.proper
  have stop := cut.inside
  obtain ⟨s,place,at_s,offset⟩ := token_in_group reqs numDecodes proper found inside (by omega) (by omega)
  refine ⟨group,slice,s,built,place,at_s,?_,by omega,by omega⟩
  rw [built.token_start]
  omega

theorem prefill_windows_exact (kv : KvCache) (buffer : Nat → PoolEntry) :
    let groups := prefillGroups compressRatio reqs numDecodes workspaceSize maxLogitsBytes
    let chunks := prefillChunks compressRatio empty reqs numDecodes blockTable workspaceSize maxLogitsBytes
    let scored := scoredChunks kv buffer chunks
    (groups.flatMap fun group => List.range' group.start (group.stop - group.start)) =
      List.range (reqs.length - numDecodes) ∧
    (chunks.flatMap chunkRows).Nodup ∧
    (∀ token, token ∈ chunks.flatMap chunkRows ↔ ∃ group ∈ groups, HasPool compressRatio reqs numDecodes group ∧
      queryStartLoc reqs (group.start + numDecodes) ≤ token ∧
        token < queryStartLoc reqs (group.stop + numDecodes)) ∧
    (∀ chunk keys, (chunk,keys) ∈ scored → ∀ token ∈ chunkRows chunk, ∀ (r : Nat) k req, reqs[r]? = some req →
      k < req.queryLen → token = queryStartLoc reqs r + k →
      windowKeys chunk keys (token - chunk.tokenStart) =
        cachedPools kv blockTable r ((req.contextLen + k + 1) / compressRatio)) ∧
    (∀ (t : Nat) chunk keys, scored[t]? = some (chunk,keys) → chunk.skipKvGather = true →
      ∃ s other, t = s + 1 ∧ scored[s]? = some (other,keys) ∧ gatherK kv other keys = keys) ∧
    ∀ chunk ∈ chunks, (chunk.totalSeqLens ≤ workspaceSize ∨ chunk.numReqs = 1) ∧
      ((chunk.tokenEnd - chunk.tokenStart) * chunk.totalSeqLens ≤ maxLogitsBytes / 4 ∨
        chunk.tokenEnd - chunk.tokenStart = 1) := by
  intro groups chunks scored
  have chained := chunks_chained compressRatio empty reqs numDecodes blockTable workspaceSize maxLogitsBytes
  have gathered := scored_gathered kv chunks buffer none chained (by simp)
  obtain ⟨once,covered⟩ := rows_exact compressRatio empty reqs numDecodes blockTable workspaceSize maxLogitsBytes
  refine ⟨?_,once,covered,?_,?_,?_⟩
  · have tiles := split_groups_tile workspaceSize (maxLogitsBytes / 4) 0 (prefillPairs compressRatio reqs numDecodes)
      (fun r => r) fun _ _ ordered => ordered
    simpa [prefillPairs,List.range_eq_range',groups,prefillGroups] using tiles
  · intro chunk keys member token row r k req found inside split
    have listed : chunk ∈ chunks := by
      rw [← scored_chunks kv chunks buffer]
      exact List.mem_map.mpr ⟨(chunk,keys),member,rfl⟩
    obtain ⟨group,slice,s,built,rfl,at_s,position,low,high⟩ := row_place compressRatio empty reqs numDecodes
      blockTable workspaceSize maxLogitsBytes listed row found inside split
    rw [position]
    exact window_keys_exact compressRatio reqs numDecodes blockTable built (gathered _ member) s k req at_s inside
      low high
  · intro t chunk keys found skips
    rcases scored_skips kv chunks buffer t found skips with ⟨rfl,_⟩ | ⟨s,other,rfl,at_s⟩
    · have first : ∃ rest, chunks = chunk :: rest := by
        have heads := congrArg List.head? (scored_chunks kv chunks buffer)
        rw [List.head?_map,List.head?_eq_getElem?,found] at heads
        cases listed : chunks with
        | nil => rw [listed] at heads; cases heads
        | cons head rest => rw [listed] at heads; cases heads; exact ⟨rest,rfl⟩
      obtain ⟨rest,same⟩ := first
      have lead : Chained none (chunk :: rest) := same ▸ chained
      obtain ⟨other,absent,_⟩ := lead.1 skips
      cases absent
    · exact ⟨s,other,rfl,at_s,gathered _ (List.mem_of_getElem? at_s)⟩
  · intro chunk member
    obtain ⟨group,_,_,fits,_,slice,cut,built⟩ := chunk_origin compressRatio empty reqs numDecodes blockTable
      workspaceSize maxLogitsBytes member
    rw [built.total,built.num_reqs,built.token_start,built.token_end,Nat.add_sub_add_left]
    refine ⟨?_,cut.budget⟩
    rcases fits with single | small
    · right; omega
    · exact Or.inl small

end Batch

end Glm5Next.PrefillWindows
