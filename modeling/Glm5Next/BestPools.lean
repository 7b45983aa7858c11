import Glm5Next.ScoredRows
import Glm5Next.SparseAttention

-- The pools a token attends to are its best ones by the index score.
namespace Glm5Next.BestPools
open IndexerChunks PrefillWindows ExpandedPools DecodeLayout SparseRows PoolPages MqaLogits PrefillLogits PagedLogits
  ScoredRows SparseAttention SparseMla SparseMlaCalls SplitCounts SentinelScores TopKSelection DcpMerge
open Fp8Codec (e4m3fn e4m3fnLut magnitudeBits lut_exact)
open TiledGrid (programs leastPower least_power_documented)

variable {layout : PageLayout}

section Selection
variable {β : Type} [LinearOrder β] {score : Nat → β}

theorem top_row (top : TopKOf score k (Finset.range window) ids) : TopKRow k window ids := by
  refine ⟨top.size,fun id listed => ?_,top.distinct,?_⟩
  · rcases top.entries id listed with padded | natural
    · exact Or.inl padded
    · obtain ⟨n,rfl⟩ := Int.eq_ofNat_of_zero_le natural
      have inside := top.selects.inside (mem_chosen.mpr listed)
      exact Or.inr ⟨natural,Int.ofNat_lt.mpr (Finset.mem_range.mp inside)⟩
  · rw [← chosen_card top.distinct,top.selects.count,Finset.card_range]

theorem selects_whole (few : s.card ≤ k) : Selects score k s s :=
  ⟨Finset.Subset.refl s,(Nat.min_eq_right few).symm,fun _ member left_out => absurd member left_out⟩

end Selection

section Cache
variable (mem : Nat → UInt8)

theorem gather_size (safeGather : Bool) : (gatherPages layout safeGather mem).blockSize = layout.pageSize := by
  cases safeGather <;> rfl

theorem gather_entry (contiguous : safeGather = true → layout.stride = layout.pageSize * (layout.headDim + 4))
    (block off : Nat) : (gatherPages layout safeGather mem).entry block off = pagedEntry layout mem block off := by
  have pages : (gatherPages layout safeGather mem).entry block off =
      ((List.range layout.headDim).map fun d => mem (block * layout.stride + (off * layout.headDim + d)),
        (List.range 4).map fun j => mem (block * layout.stride + (layout.pageSize * layout.headDim + off * 4 + j))) := by
    cases safeGather with
    | false => rfl
    | true =>
        rw [contiguous rfl]
        rfl
  have keys : 4 ∣ layout.pageSize * layout.headDim := Dvd.dvd.mul_left layout.head_words _
  have word : 4 * (layout.pageSize * layout.headDim / 4 + block * (layout.stride / 4) + off) =
      layout.pageSize * layout.headDim + block * layout.stride + 4 * off := by
    rw [Nat.mul_add,Nat.mul_add,Nat.mul_div_cancel' keys,Nat.mul_left_comm,Nat.mul_div_cancel' layout.stride_words]
  rw [pages]
  unfold pagedEntry
  congr 1
  · exact List.map_congr_left fun d _ => by rw [kvByte,Nat.add_assoc]
  · unfold kvScale
    dsimp only
    rw [word]
    exact List.map_congr_left fun j _ => congrArg mem (by omega)

end Cache

theorem cast_exact (number : magnitudeBits u.toBitVec ≠ 0x7F) (nan : ℚ) : castFp8 nan u = decodeE4m3fnLut u := by
  unfold castFp8 decodeE4m3fnLut
  rw [lut_exact number]
  unfold e4m3fn
  rw [if_neg number]
  rfl

theorem chunk_logits_exact (args : PrefillArgs) (mode : SafeLogitsMode) (safeLogitsN : Nat) (tiled : 0 < blockN)
    (launched : order.Perm (programs args.m args.n blockN)) (inside : row < args.m) (column : col < args.n) :
    chunkLogits args mode safeLogitsN 2048 blockN order row col = some (prefillLogit args row col) := by
  unfold chunkLogits
  split
  · rw [torch_exact args (by decide) row column]
  · exact triton_exact args false tiled launched inside column

structure Sound (call : Call layout) : Prop where
  several : 2 ≤ call.poolSize
  bounded : ∀ req ∈ call.reqs.take call.numDecodes, req.seqLen ≤ call.inputs.maxSeqLen
  covered : ∀ req ∈ call.reqs.take call.numDecodes, req.seqLen / call.poolSize ≤
    (call.inputs.kernelColumns + call.inputs.factor - 1) / call.inputs.factor * layout.pageSize
  natural : ∀ (r : Nat) (req : Request), call.reqs[r]? = some req → ∀ p < req.seqLen / call.poolSize,
    0 ≤ poolScale call.inputs r p
  queries : ∀ token h d, magnitudeBits (call.inputs.qQuant token h d).toBitVec ≠ 0x7F
  keys : ∀ (r : Nat) (req : Request), call.reqs[r]? = some req → ∀ p < req.seqLen / call.poolSize, ∀ d < layout.headDim,
    magnitudeBits (kvByte layout call.inputs.kvCache (call.indexerBlockTable r (p / layout.pageSize))
      (p % layout.pageSize) d).toBitVec ≠ 0x7F

structure Runs (call : Call layout) (device : Device) : Prop where
  contiguous : device.safeGather = true → layout.stride = layout.pageSize * (layout.headDim + 4)
  tiled : ∀ chunk ∈ call.chunks device, 0 < device.blockN chunk
  prefill : ∀ chunk ∈ call.chunks device, (device.prefillOrder chunk).Perm
    (programs (chunk.tokenEnd - chunk.tokenStart) chunk.totalSeqLens (device.blockN chunk))
  decode : device.decodeOrder.Perm (grid (call.pagedArgs device))
  packs : Packs device.packSeq
  unpacks : Unpacks device.unpackSeq
  selecting : Selecting device.topKPerRow

theorem pools_counted (req : Request) (k poolSize : Nat) :
    ((req.seqLen : Int) - req.queryLen + k + 1) / (poolSize : Int) =
      (((req.contextLen + k + 1) / poolSize : Nat) : Int) := by
  rw [Int.natCast_ediv]
  congr 1
  unfold Request.seqLen
  omega

theorem pools_few (inside : k < req.queryLen) (poolSize : Nat) :
    (req.contextLen + k + 1) / poolSize ≤ Request.seqLen req / poolSize :=
  Nat.div_le_div_right (by unfold Request.seqLen; omega)

section Rows
variable {call : Call layout} {device : Device}

structure PoolRow (call : Call layout) (scored : PrefillChunkMetadata × (Nat → PoolEntry)) (r row pools : Nat) : Prop where
  inside : row < scored.1.tokenEnd - scored.1.tokenStart
  window : scored.1.cuSeqlenKe row = scored.1.cuSeqlenKs row + pools
  room : scored.1.cuSeqlenKs row + pools ≤ scored.1.totalSeqLens
  entries : ∀ p < pools, scored.2 (scored.1.cuSeqlenKs row + p) =
    pagedEntry layout call.inputs.kvCache (call.indexerBlockTable r (p / layout.pageSize)) (p % layout.pageSize)

theorem gathered_row (contiguous : device.safeGather = true → layout.stride = layout.pageSize * (layout.headDim + 4))
    (member : scored ∈ call.gatheredChunks device) (row : queryStartLoc call.reqs r + k ∈ chunkRows scored.1)
    (found : call.reqs[r]? = some req) (inside : k < req.queryLen) :
    PoolRow call scored r (queryStartLoc call.reqs r + k - scored.1.tokenStart)
      ((req.contextLen + k + 1) / call.poolSize) := by
  have listed : scored.1 ∈ call.chunks device := by
    rw [← call.gathered_fst device]
    exact List.mem_map.mpr ⟨scored,member,rfl⟩
  have gathered := scored_gathered _ _ device.gathered none (chunks_chained call.poolSize device.empty call.reqs
    call.numDecodes call.indexerBlockTable call.cfg.workspaceSize call.cfg.maxLogitsBytes) (by simp) scored member
  obtain ⟨group,groups,proper,_,queries,slice,cut,built⟩ := chunk_origin call.poolSize device.empty call.reqs
    call.numDecodes call.indexerBlockTable call.cfg.workspaceSize call.cfg.maxLogitsBytes listed
  have totals := group_totals call.poolSize call.reqs call.numDecodes call.cfg.workspaceSize call.cfg.maxLogitsBytes groups
  rw [chunkRows,List.mem_range'_1] at row
  have start := cut.proper
  have stop := cut.inside
  have first := built.token_start
  have last := built.token_end
  obtain ⟨s,rfl,at_s,offset⟩ := token_in_group call.reqs call.numDecodes proper found inside (by omega) (by omega)
  have place : queryStartLoc call.reqs (group.start + call.numDecodes + s) + k - scored.1.tokenStart =
      Ragged.start (queryLens (groupReqs call.reqs call.numDecodes group)) s + k - slice.1 := by omega
  have window := built.window s k req at_s inside (by omega) (by omega)
  have keys := window_keys_exact call.poolSize call.reqs call.numDecodes call.indexerBlockTable built gathered s k req
    at_s inside (by omega) (by omega)
  rw [← place] at window keys
  refine ⟨by omega,window.ke_exact,?_,?_⟩
  · have lens : (compressedSeqLens call.poolSize (groupReqs call.reqs call.numDecodes group))[s]? =
        some (req.seqLen / call.poolSize) := by simp [compressedSeqLens,at_s]
    have whole := pools_few inside call.poolSize
    have row_end := Ragged.start_succ lens
    have bound : s + 1 ≤ (compressedSeqLens call.poolSize (groupReqs call.reqs call.numDecodes group)).length :=
      (List.getElem?_eq_some_iff.mp lens).1
    have below := Ragged.start_le (compressedSeqLens call.poolSize (groupReqs call.reqs call.numDecodes group)) bound
    rw [Ragged.start_length,totals.pools] at below
    rw [window.ks_exact,built.total]
    omega
  · intro p pool
    have entry := congrArg (fun entries : List PoolEntry => entries[p]?) keys
    simp only [windowKeys,cachedPools] at entry
    rw [window.ke_exact,Nat.add_sub_cancel_left,List.getElem?_map,List.getElem?_range' (by omega),List.getElem?_map,
      List.getElem?_range pool,Option.map_some,Option.map_some,Nat.one_mul,gather_size,
      gather_entry _ contiguous] at entry
    exact Option.some.inj entry

theorem prefill_logit_exact (sound : Sound call) (pooled : PoolRow call scored r row pools)
    (found : call.reqs[r]? = some req) (few : pools ≤ req.seqLen / call.poolSize) (pool : p < pools) :
    prefillLogit (call.chunkArgs device scored) row (scored.1.cuSeqlenKs row + p) =
      .score (requestLogit call.inputs r (scored.1.tokenStart + row) p) := by
  have valid : validKey (call.chunkArgs device scored) row (scored.1.cuSeqlenKs row + p) := by
    have stop := pooled.window
    constructor
    · exact Int.ofNat_le.mpr (Nat.le_add_right _ p)
    · exact Int.ofNat_lt.mpr (by omega)
  have held := Nat.lt_of_lt_of_le pool few
  have natural := sound.natural r req found p held
  have key : ∀ d < layout.headDim, (call.chunkArgs device scored).k (scored.1.cuSeqlenKs row + p) d =
      decodeE4m3fnLut (kvByte layout call.inputs.kvCache (call.indexerBlockTable r (p / layout.pageSize))
        (p % layout.pageSize) d) := by
    intro d dim
    show castFp8 device.nan ((scored.2 (scored.1.cuSeqlenKs row + p)).1.getD d 0) = _
    rw [pooled.entries p pool,pagedEntry,List.getD_eq_getElem?_getD,List.getElem?_map,List.getElem?_range dim,
      Option.map_some,Option.getD_some]
    exact cast_exact (sound.keys r req found p held d dim) device.nan
  have scale : (call.chunkArgs device scored).kScale (scored.1.cuSeqlenKs row + p) = poolScale call.inputs r p := by
    show call.inputs.float32 (scored.2 (scored.1.cuSeqlenKs row + p)).2 = _
    rw [pooled.entries p pool]
    rfl
  unfold prefillLogit requestLogit poolLogit
  rw [if_pos valid]
  congr 1
  apply Finset.sum_congr rfl
  intro h _
  have product : ∑ d ∈ Finset.range (call.chunkArgs device scored).headDim, (call.chunkArgs device scored).q row h d *
        (call.chunkArgs device scored).k (scored.1.cuSeqlenKs row + p) d =
      ∑ d ∈ Finset.range layout.headDim, decodeE4m3fnLut (call.inputs.qQuant (scored.1.tokenStart + row) h d) *
        decodeE4m3fnLut (kvByte layout call.inputs.kvCache (call.indexerBlockTable r (p / layout.pageSize))
          (p % layout.pageSize) d) := by
    apply Finset.sum_congr rfl
    intro d dim
    rw [key d (Finset.mem_range.mp dim)]
    congr 1
    exact cast_exact (sound.queries _ h d) device.nan
  rw [product,scale,← relu_where,relu_scale _ natural,mul_comm,← mul_assoc]
  rfl

theorem prefill_best (sound : Sound call) (runs : Runs call device) (member : scored ∈ call.gatheredChunks device)
    (row : queryStartLoc call.reqs r + k ∈ chunkRows scored.1) (found : call.reqs[r]? = some req) (inside : k < req.queryLen) :
    TopKOf (requestLogit call.inputs r (queryStartLoc call.reqs r + k)) call.selectK
      (Finset.range ((req.contextLen + k + 1) / call.poolSize))
      (call.prefillTopK device (queryStartLoc call.reqs r + k)
        (scored.1.cuSeqlenKs (queryStartLoc call.reqs r + k - scored.1.tokenStart))
        (scored.1.cuSeqlenKe (queryStartLoc call.reqs r + k - scored.1.tokenStart))) := by
  have listed : scored.1 ∈ call.chunks device := by
    rw [← call.gathered_fst device]
    exact List.mem_map.mpr ⟨scored,member,rfl⟩
  have pooled := gathered_row runs.contiguous member row found inside
  have counted := Nat.sub_eq_of_eq_add' pooled.window
  have few := pools_few inside call.poolSize
  have token : scored.1.tokenStart + (queryStartLoc call.reqs r + k - scored.1.tokenStart) = queryStartLoc call.reqs r + k :=
    Nat.add_sub_cancel' (List.mem_range'_1.mp row).1
  rw [call.prefill_selects device member row,← counted]
  refine runs.selecting _ _ _ _ _ fun p pool => ?_
  rw [counted] at pool
  have column := Nat.lt_of_lt_of_le (Nat.add_lt_add_left pool _) pooled.room
  refine (chunk_logits_exact (call.chunkArgs device scored) device.safeLogits device.safeLogitsN
    (runs.tiled _ listed) (runs.prefill _ listed) pooled.inside column).trans ?_
  rw [prefill_logit_exact sound pooled found few pool,token]

-- The layouts in which the paged scorer reads each row's own length: all but the
-- native one of several tokens a request.
def OwnLengths (call : Call layout) : Prop :=
  useNative call.cfg.decode (queryLens (call.reqs.take call.numDecodes)) = true →
    maxDecodeLen (queryLens (call.reqs.take call.numDecodes)) ≤ 1

theorem decode_request (found : call.reqs[r]? = some req) (decode : r < call.numDecodes) :
    call.decodes.decodeLens[r]? = some req.queryLen ∧ call.decodes.seqLens[r]? = some req.seqLen ∧
      Ragged.start call.decodes.decodeLens r = queryStartLoc call.reqs r := by
  have among : (call.reqs.take call.numDecodes)[r]? = some req := by rw [List.getElem?_take_of_lt decode,found]
  have lens : call.decodes.decodeLens = queryLens (call.reqs.take call.numDecodes) := by
    simp [DecodeBatch.decodeLens,Call.decodes]
  refine ⟨?_,?_,?_⟩
  · rw [lens,queryLens,List.getElem?_map,among]
    rfl
  · show ((call.reqs.take call.numDecodes).map Request.seqLen)[r]? = _
    rw [List.getElem?_map,among]
    rfl
  · rw [lens,queryLens,List.map_take]
    exact Ragged.start_take _ _ (Nat.le_of_lt decode)

theorem decode_bounded (sound : Sound call) : ∀ seqLen ∈ call.decodes.seqLens, seqLen ≤ call.inputs.maxSeqLen := by
  intro seqLen member
  obtain ⟨req,listed,rfl⟩ := List.mem_map.mp member
  exact sound.bounded req listed

theorem decode_placed (sound : Sound call) (packs : Packs device.packSeq) (own : OwnLengths call) (found : call.reqs[r]? = some req)
    (inside : k < req.queryLen) (decode : r < call.numDecodes) :
    Placed (call.pagedArgs device) call.inputs (queryStartLoc call.reqs r + k) (queryStartLoc call.reqs r + k)
      (call.indexerBlockTable r) (((req.contextLen + k + 1) / call.poolSize : Nat) : Int)
      (((req.contextLen + k + 1) / call.poolSize : Nat) - 1) := by
  obtain ⟨len,length,start⟩ := decode_request found decode
  have positive := Nat.zero_lt_of_lt sound.several
  have bounded := decode_bounded sound
  have lens : call.decodes.decodeLens = queryLens (call.reqs.take call.numDecodes) := by
    simp [DecodeBatch.decodeLens,Call.decodes]
  have pools := pools_counted req k call.poolSize
  cases native : useNative call.cfg.decode call.decodes.decodeLens with
  | false =>
      have placed := flattened_placed call.cfg.decode native positive call.inputs device.packSeq device.padByte device.stale len length
        inside bounded
      rw [start,pools] at placed
      exact placed
  | true =>
      have single : maxDecodeLen call.decodes.decodeLens = 1 := by
        have few := own (lens ▸ native)
        have some_len := Nat.lt_of_lt_of_le inside (len_le_max (List.mem_of_getElem? len))
        rw [← lens] at few
        omega
      have one := len_le_max (List.mem_of_getElem? len)
      obtain ⟨rfl,own_len⟩ : k = 0 ∧ req.queryLen = 1 := by omega
      have row : queryStartLoc call.reqs r = r := by
        have low := request_le_start len inside
        have high := single_start (Nat.le_of_eq single) (Nat.le_of_lt (List.getElem?_eq_some_iff.mp len).1)
        omega
      have some_key : 1 ≤ req.seqLen := Nat.lt_of_lt_of_le inside (Nat.le_add_left _ _)
      have placed := native_placed packs call.cfg.decode native positive call.inputs device.padByte device.stale len length
        inside bounded
      rw [own_len] at pools
      rw [single_pointed call.poolSize single length some_key,visible_int some_key,start,single,Nat.mul_one,pools,
        Nat.cast_one,Nat.cast_zero,Int.add_zero] at placed
      rw [row] at placed ⊢
      exact placed

theorem decode_scored (sound : Sound call) (runs : Runs call device) (own : OwnLengths call)
    (found : call.reqs[r]? = some req) (inside : k < req.queryLen) (decode : r < call.numDecodes)
    (pool : p < (req.contextLen + k + 1) / call.poolSize) :
    call.decodeRowLogits device (queryStartLoc call.reqs r + k) p =
      some (.score (requestLogit call.inputs r (queryStartLoc call.reqs r + k) p)) := by
  have positive := Nat.zero_lt_of_lt sound.several
  obtain ⟨len,length,_⟩ := decode_request found decode
  have listed : req ∈ call.reqs.take call.numDecodes :=
    List.mem_of_getElem? ((List.getElem?_take_of_lt decode).trans found)
  have few := pools_few inside call.poolSize
  have held := Nat.lt_of_lt_of_le pool few
  have bounded := decode_bounded sound
  have sized := contexts_bounded call.cfg.decode positive call.inputs device.packSeq device.padByte device.stale len inside bounded
  have fits := Nat.lt_of_lt_of_le held (Nat.le_trans (Nat.div_le_self _ _) (sound.bounded req listed))
  have cell := row_cell call.cfg.decode call.poolSize call.inputs device.packSeq device.padByte device.stale device.decodeOrder
    runs.decode sized (decode_placed sound runs.packs own found inside decode) fits
    (Nat.lt_of_lt_of_le held (sound.covered req listed)) (sound.natural r req found p held)
  rw [if_pos (Int.ofNat_lt.mpr pool),if_pos (by omega)] at cell
  exact cell

theorem single_uniform {lens : List Nat} (scheduled : ∀ len ∈ lens, 0 < len) (single : maxDecodeLen lens ≤ 1)
    (found : lens[(r : Nat)]? = some len) : minDecodeLen lens = maxDecodeLen lens := by
  have one : ∀ len ∈ lens, len = 1 := by
    intro len member
    have low := scheduled len member
    have high := len_le_max member
    omega
  have most := len_le_max (List.mem_of_getElem? found)
  have own := one len (List.mem_of_getElem? found)
  cases least : lens.min? with
  | none =>
      rw [List.min?_eq_none_iff] at least
      rw [least] at found
      cases found
  | some m =>
      have same := one m (List.min?_mem least)
      simp only [minDecodeLen,least,Option.getD_some]
      omega

theorem decode_listed (own : OwnLengths call) (found : call.reqs[r]? = some req) (inside : k < req.queryLen)
    (decode : r < call.numDecodes) :
    (decodeRows call.cfg.decode call.poolSize (call.decodeTopK device) device.unpackSeq call.positions call.decodes.seqLens
      call.decodes.queryLens call.decodes.numDecodeTokens)[queryStartLoc call.reqs r + k]? =
      some (expandPoolsAndAppendTail call.poolSize
        (call.decodeTopK device (queryStartLoc call.reqs r + k) ((req.contextLen + k + 1) / call.poolSize : Nat))
        (req.contextLen + k + 1)) := by
  obtain ⟨len,length,start⟩ := decode_request found decode
  have lens : call.decodes.decodeLens = call.decodes.queryLens := by simp [DecodeBatch.decodeLens,Call.decodes]
  have counted : call.decodes.numDecodeTokens = call.decodes.queryLens.sum := call.decode_counted.symm
  rw [lens] at len start
  have before := token_before len inside
  have built := built_lens call.cfg.decode call.poolSize call.decodes.seqLens call.decodes.queryLens
    call.decodes.queryLens.sum
  have padding := built_padding call.cfg.decode call.poolSize call.decodes.seqLens call.decodes.queryLens
    call.decodes.queryLens.sum
  have pools := pools_counted req k call.poolSize
  have scheduled : ∀ len ∈ call.decodes.queryLens, 0 < len := call.decode_positive
  have position : call.positions (Ragged.start call.decodes.queryLens r + k) = req.contextLen + k := by
    rw [start]
    exact position_exact found inside
  rw [counted,← start]
  unfold decodeRows
  cases native : useNative call.cfg.decode call.decodes.queryLens with
  | false =>
      obtain ⟨singles,unpadded,listed⟩ := flattened_exact call.cfg.decode native len length inside
      have divided := compressed_exact call.cfg.decode call.poolSize scheduled listed before
      have window : ([(req.seqLen : Int) - req.queryLen + k + 1].map (· / (call.poolSize : Int)))[0]? =
          some (((req.contextLen + k + 1) / call.poolSize : Nat) : Int) := by rw [← pools]; rfl
      rw [unpadded_row _ 1 (padding.trans unpadded) (by rw [built,singles]; simp) before,
        row_window_exact _ divided window (Nat.div_one _) (Nat.mod_one _),position]
  | true =>
      have few := own native
      have uniform := single_uniform scheduled few len
      obtain ⟨same_lens,padded,row,listed,entry⟩ := native_exact call.cfg.decode native len length inside
      obtain ⟨one,flat,total⟩ := uniform_token k uniform len
      have wide := Nat.lt_of_lt_of_le inside (len_le_max (List.mem_of_getElem? len))
      have request : r < call.decodes.queryLens.sum :=
        Nat.lt_of_le_of_lt (Nat.le_trans (Ragged.row_le_start scheduled
          (Nat.le_of_lt (List.getElem?_eq_some_iff.mp len).1)) (Nat.le_add_right _ k)) before
      have divided := compressed_exact call.cfg.decode call.poolSize scheduled listed request
      have window : (row.map (· / (call.poolSize : Int)))[k]? =
          some (((req.contextLen + k + 1) / call.poolSize : Nat) : Int) := by
        rw [List.getElem?_map,entry,Option.map_some,← pools,← one]
        congr 2
        omega
      rw [unpadded_row _ (maxDecodeLen call.decodes.queryLens) (padding.trans (padded.trans (by simp [uniform])))
        (by rw [built,same_lens,total]) before,
        row_window_exact _ divided window (flat ▸ Ragged.grid_row wide) (flat ▸ Ragged.grid_col wide),position]

theorem decode_best (sound : Sound call) (runs : Runs call device) (own : OwnLengths call)
    (found : call.reqs[r]? = some req) (inside : k < req.queryLen) (decode : r < call.numDecodes) :
    TopKOf (requestLogit call.inputs r (queryStartLoc call.reqs r + k)) call.selectK
      (Finset.range ((req.contextLen + k + 1) / call.poolSize))
      (call.decodeTopK device (queryStartLoc call.reqs r + k) ((req.contextLen + k + 1) / call.poolSize : Nat)) := by
  refine runs.selecting _ 0 _ _ _ fun p pool => ?_
  rw [Nat.zero_add]
  exact decode_scored sound runs own found inside decode pool

-- The row of a token: the best pools before it, and the positions after them.
structure BestRow (call : Call layout) (r : Nat) (req : Request) (k : Nat) (chosen : List Nat) (row : List Int) : Prop where
  distinct : chosen.Nodup
  selects : Selects (requestLogit call.inputs r (queryStartLoc call.reqs r + k)) call.selectK
    (Finset.range ((req.contextLen + k + 1) / call.poolSize)) chosen.toFinset
  sparse : SparseRow call.poolSize (min call.selectK ((req.contextLen + k + 1) / call.poolSize)) (req.contextLen + k) row
  entries : ∀ x : Nat, (x : Int) ∈ row ↔ x ∈ visible call.poolSize chosen (req.contextLen + k)

theorem expanded_best (several : 2 ≤ call.poolSize)
    (top : TopKOf (requestLogit call.inputs r (queryStartLoc call.reqs r + k)) call.selectK
      (Finset.range ((req.contextLen + k + 1) / call.poolSize)) ids) (padding : List Int) (empty : ∀ x ∈ padding, x = -1) :
    ∃ chosen, BestRow call r req k chosen
      (expandPoolsAndAppendTail call.poolSize ids (req.contextLen + k + 1) ++ padding) := by
  have positive := Nat.zero_lt_of_lt several
  refine ⟨(ids.filter fun id => decide (0 ≤ id)).map Int.toNat,?_,top.selects,
    expanded_row_exact positive (top_row top) (Nat.le_refl _) padding empty,fun x => ?_⟩
  · refine (List.nodup_map_iff_inj_on top.distinct).mpr fun a kept b kept' same => ?_
    have low := of_decide_eq_true (List.mem_filter.mp kept).2
    have low' := of_decide_eq_true (List.mem_filter.mp kept').2
    omega
  · have named : x / call.poolSize ∈ (ids.filter fun id => decide (0 ≤ id)).map Int.toNat ↔
        ((x / call.poolSize : Nat) : Int) ∈ ids := by
      rw [← mem_chosen,chosenIds,List.mem_toFinset]
    rw [List.mem_append,expanded_entry positive,visible,Finset.mem_filter,Finset.mem_range,named]
    constructor
    · rintro ((pool | ⟨low,high⟩) | padded)
      · have below := Finset.mem_range.mp (top.selects.inside (mem_chosen.mpr pool))
        have before := pool_inside positive below x
        have whole := Nat.div_mul_le_self (req.contextLen + k + 1) call.poolSize
        have place := Nat.div_add_mod' x call.poolSize
        exact ⟨by omega,Or.inl pool⟩
      · exact ⟨high,Or.inr low⟩
      · exact absurd (empty _ padded) (by omega)
    · rintro ⟨inside,pool | later⟩
      · exact Or.inl (Or.inl pool)
      · exact Or.inl (Or.inr ⟨later,inside⟩)

theorem whole_best (room : (req.contextLen + k + 1) / call.poolSize ≤ call.selectK)
    (row : SparseRow call.poolSize (min call.selectK ((req.contextLen + k + 1) / call.poolSize)) (req.contextLen + k) entries) :
    ∃ chosen, BestRow call r req k chosen entries := by
  obtain ⟨chosen,distinct,counted,below,same⟩ := visible_entries row
  have all : chosen.toFinset = Finset.range ((req.contextLen + k + 1) / call.poolSize) := by
    apply Finset.eq_of_subset_of_card_le
    · intro p member
      exact Finset.mem_range.mpr (below p (List.mem_toFinset.mp member))
    · rw [Finset.card_range,List.toFinset_card_of_nodup distinct,counted,Nat.min_eq_right room]
  refine ⟨chosen,distinct,?_,row,same⟩
  rw [all]
  exact selects_whole (by rwa [Finset.card_range])

theorem short_room (found : call.reqs[r]? = some req) (inside : k < req.queryLen) (prefill : call.numDecodes ≤ r)
    (short : shortPrefill call.cfg.topkTokens call.reqs call.numDecodes = true) :
    (req.contextLen + k + 1) / call.poolSize ≤ call.selectK := by
  have longest : req.seqLen ≤ maxPrefillSeqLen call.reqs call.numDecodes := by
    apply List.le_max?_getD_of_mem
    refine List.mem_map.mpr ⟨req,?_,rfl⟩
    refine List.mem_iff_getElem?.mpr ⟨r - call.numDecodes,?_⟩
    rw [List.getElem?_drop,Nat.add_sub_cancel' prefill,found]
  have limit := (of_decide_eq_true short).2
  unfold Request.seqLen at longest
  exact Nat.div_le_div_right (by omega)

section Token
variable (sound : Sound call) (runs : Runs call device) (topkIndicesBuffer : Nat → Nat → Int)
include sound runs

theorem decode_token_best (own : OwnLengths call) (found : call.reqs[r]? = some req) (inside : k < req.queryLen)
    (decode : r < call.numDecodes) :
    ∃ chosen, BestRow call r req k chosen (indexRow (call.scoredIndexer device topkIndicesBuffer)
      (bufferWidth call.poolSize call.cfg.topkTokens) (queryStartLoc call.reqs r + k)) := by
  obtain ⟨before,_,first⟩ := token_bounds call.reqs call.numDecodes found inside
  have top := decode_best sound runs own found inside decode
  have cleared : ∀ col, prefillIndices call.cfg call.poolSize (call.prefillTopK device) device.empty
      call.indexerBlockTable call.reqs call.numDecodes
      (clearRows (queryStartLoc call.reqs call.reqs.length + call.paddedTokens) topkIndicesBuffer)
      (queryStartLoc call.reqs r + k) col = -1 := by
    intro col
    rw [prefill_apart call.cfg call.poolSize (call.prefillTopK device) device.empty call.indexerBlockTable call.reqs
      call.numDecodes _ _ (first decode)]
    exact if_pos (by omega)
  have stored := stored_row _ 0 (bufferWidth call.poolSize call.cfg.topkTokens) (queryStartLoc call.reqs r + k) _
    (Nat.zero_le _) (decode_listed own found inside decode)
    (expanded_fits top.size (Nat.zero_lt_of_lt sound.several) _) cleared
  rw [call.scored_refines]
  unfold sparseAttnIndexerKpool
  dsimp only
  rw [if_pos (by omega)]
  refine stored ▸ expanded_best sound.several top _ fun x padded => List.eq_of_mem_replicate padded

theorem prefill_token_best (found : call.reqs[r]? = some req) (inside : k < req.queryLen) (prefill : call.numDecodes ≤ r)
    (served : shortPrefill call.cfg.topkTokens call.reqs call.numDecodes = true ∨
      ∃ group ∈ prefillGroups call.poolSize call.reqs call.numDecodes call.cfg.workspaceSize call.cfg.maxLogitsBytes,
        group.start + call.numDecodes ≤ r ∧ r < group.stop + call.numDecodes ∧
          HasPool call.poolSize call.reqs call.numDecodes group) :
    ∃ chosen, BestRow call r req k chosen (indexRow (call.scoredIndexer device topkIndicesBuffer)
      (bufferWidth call.poolSize call.cfg.topkTokens) (queryStartLoc call.reqs r + k)) := by
  obtain ⟨before,_,_⟩ := token_bounds call.reqs call.numDecodes found inside
  have bound := (List.getElem?_eq_some_iff.mp found).1
  have positive := Nat.zero_lt_of_lt sound.several
  have cleared : ∀ col, clearRows (queryStartLoc call.reqs call.reqs.length + call.paddedTokens) topkIndicesBuffer
      (queryStartLoc call.reqs r + k) col = -1 := fun col => if_pos (by omega)
  rw [call.scored_refines,indexRow,decode_apart call.cfg call.poolSize (call.prefillTopK device) (call.decodeTopK device)
    device.unpackSeq device.empty call.indexerBlockTable call.reqs call.numDecodes call.paddedTokens topkIndicesBuffer
    runs.unpacks found inside
    prefill,← indexRow]
  cases short : shortPrefill call.cfg.topkTokens call.reqs call.numDecodes with
  | true =>
      exact whole_best (short_room found inside prefill short) (short_row call.cfg call.poolSize
        (call.prefillTopK device) device.empty call.indexerBlockTable call.reqs call.numDecodes _ positive found inside
        prefill short)
  | false =>
      have grouped := served.resolve_left (by simp [short])
      have covered := (token_covered call.cfg call.poolSize device.empty call.indexerBlockTable call.reqs
        call.numDecodes found inside).mpr grouped
      have once := (rows_exact call.poolSize device.empty call.reqs call.numDecodes call.indexerBlockTable
        call.cfg.workspaceSize call.cfg.maxLogitsBytes).1
      obtain ⟨chunk,member,row⟩ := List.mem_flatMap.mp covered
      have listed : chunk ∈ (call.gatheredChunks device).map Prod.fst := by
        rw [call.gathered_fst]
        exact member
      obtain ⟨scored,gathered,rfl⟩ := List.mem_map.mp listed
      have top := prefill_best sound runs gathered row found inside
      obtain ⟨padding,empties,written⟩ := chunks_written _ (fun token => (positionsOf call.reqs).getD token 0)
        (bufferWidth call.poolSize call.cfg.topkTokens) once member row (expanded_fits top.size positive _) cleared
      unfold prefillIndices
      rw [if_pos (by omega),if_neg (by simp [short])]
      rw [written,position_exact found inside]
      exact expanded_best sound.several top padding empties

-- Every token's row has its best pools, by the index score over its request's
-- own cached entries.
theorem token_best (own : r < call.numDecodes → OwnLengths call) (found : call.reqs[r]? = some req) (inside : k < req.queryLen)
    (served : RowServed call.cfg call.poolSize call.reqs call.numDecodes r k req) :
    ∃ chosen, BestRow call r req k chosen (indexRow (call.scoredIndexer device topkIndicesBuffer)
      (bufferWidth call.poolSize call.cfg.topkTokens) (queryStartLoc call.reqs r + k)) := by
  unfold RowServed at served
  by_cases decode : r < call.numDecodes
  · exact decode_token_best sound runs topkIndicesBuffer (own decode) found inside decode
  · rw [if_neg decode] at served
    exact prefill_token_best sound runs topkIndicesBuffer found inside (Nat.le_of_not_lt decode) served

end Token

end Rows

section Layer
variable {K : Type} [Field K] [LinearOrder K] [IsStrictOrderedRing K] (exps : Exponentials K) (sparseLayer : Layer K)
  (convert : Convert) (call : Call layout) (device : Device) (q : Queries K) (topkIndicesBuffer : Nat → Nat → Int)

def numTokens : Nat := queryStartLoc call.reqs call.reqs.length + call.paddedTokens

def scoredCall : MlaCall K :=
  forwardCall sparseLayer convert call.reqs q (numTokens call) (bufferWidth call.poolSize call.cfg.topkTokens)
    (call.scoredIndexer device topkIndicesBuffer)

end Layer

def scoreOf : Option Logit → ℚ
  | some (.score x) => x
  | _ => 0

def sortingTopK : TopKPerRow := fun logits ks ke k =>
  sortedTopk (rowCandidates (fun j => scoreOf (logits (ks + j))) (ke - ks)) k

theorem sorting_selects : Selecting sortingTopK := by
  intro logits ks ke k score scored
  have same : rowCandidates (fun j => scoreOf (logits (ks + j))) (ke - ks) = rowCandidates score (ke - ks) := by
    apply List.map_congr_left
    intro j listed
    dsimp only
    rw [scored j (List.mem_range.mp listed)]
    rfl
  unfold sortingTopK
  rw [same]
  exact sorted_row_exact score k (ke - ks)

theorem small_number (n : Nat) : magnitudeBits (n % 64).toUInt8.toBitVec ≠ 0x7F := by
  have small : (n % 64).toUInt8.toBitVec.toNat = n % 64 := by
    show (n % 64) % 256 = n % 64
    omega
  unfold magnitudeBits
  rw [small]
  omega

def mixedInputs : ScoreInputs scorePages where
  nextPowerOf2 := TiledGrid.leastPower
  power := TiledGrid.least_power_documented
  numHeads := 1
  qQuant token _ _ := (token % 64).toUInt8
  weights _ _ := 1
  kvCache a := (a % 64).toUInt8
  float32 _ := 1
  blockTable r column := r + column
  kernelColumns := 300
  factor := 1
  maxSeqLen := 1024

theorem mixed_scheduled : ∀ req ∈ ([⟨9,2⟩,⟨0,1024⟩] : List Request).take 1, 0 < req.queryLen := by decide

def mixedCall : Call scorePages where
  inputs := mixedInputs
  cfg := flattenedConfig
  poolSize := 4
  reqs := [⟨9,2⟩,⟨0,1024⟩]
  numDecodes := 1
  paddedTokens := 0
  scheduled := mixed_scheduled

def sortingDevice : Device where
  safeGather := false
  safeLogits := .auto
  safeLogitsN := 24000
  nan := 0
  topKPerRow := sortingTopK
  blockN _ := 64
  prefillOrder chunk := programs (chunk.tokenEnd - chunk.tokenStart) chunk.totalSeqLens 64
  decodeOrder := grid (decodeArgs flattenedConfig.decode 4 mixedCall.decodes mixedInputs packRows 0 fun _ _ => 0)
  gathered _ := ([],[])
  empty _ := 0
  stale _ _ := 0
  packSeq := packRows
  padByte := 0
  unpackSeq := unpackRows

theorem mixed_sound : Sound mixedCall where
  several := by decide
  bounded := by decide
  covered := by decide
  natural _ _ _ _ _ := zero_le_one
  queries token _ _ := small_number token
  keys _ _ _ _ _ _ _ := small_number _

theorem mixed_runs : Runs mixedCall sortingDevice where
  contiguous same := by cases same
  tiled _ _ := page_positive
  prefill _ _ := List.Perm.refl _
  decode := List.Perm.refl _
  packs := pack_rows_documented
  unpacks := unpack_rows_documented
  selecting := sorting_selects

theorem mixed_served : RowServed flattenedConfig 4 mixedCall.reqs 1 1 1000 ⟨0,1024⟩ :=
  Or.inr ((token_covered flattenedConfig 4 (fun _ => 0) (fun _ _ => 0) mixedCall.reqs 1 rfl (by decide)).mp
    (pooled_covered flattenedConfig 4 (fun _ => 0) (fun _ _ => 0) mixedCall.reqs 1 rfl (by decide : 1000 < 1024)
      (by decide) (by decide)))

end Glm5Next.BestPools
