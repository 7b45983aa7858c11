import Glm5Next.BestPools
import Glm5Next.ServedPages
import Mathlib.Tactic.IntervalCases

-- From a request's own tokens to what it attends to, over whole serving runs.
namespace Glm5Next.ServedAttention
open KpoolCompress KpoolWritePhase KpoolServing ServedPages PoolPages MqaLogits PagedLogits IndexerChunks SparseRows
  ScoredRows BestPools SparseAttention SparseMla SparseMlaCalls SplitCounts SentinelScores TopKSelection
open KpoolRing (pool)
open TiledGrid (leastPower least_power_documented)
open DecodeUpdate (Schedule)
open Fp8Codec (magnitudeBits)

section Scores
variable {B S ReqId : Type} {poolSize : Nat} (ops : FloatOps B S) (roundScale : Bool) (ape : List (List S))
  (format : Format S) {layout : PageLayout} (zero : Row B)

def ownRecord (layout : PageLayout) {table : Table poolSize ReqId B} (t : Turn table) (p : Nat) : PoolRecord layout :=
  format.record layout (compressPool ops roundScale ape (pool poolSize (t.after zero).committed p))

def recordScore (inputs : ScoreInputs layout) (token : Nat) (record : PoolRecord layout) : ℚ :=
  poolLogit inputs.numHeads layout.headDim (inputs.weights token) (inputs.qQuant token) (fun d => record.key.getD d 0)
    (inputs.float32 record.scale)

-- The op is called on the batch of the forward, with the tables the slots are
-- given in, after the write phase.
structure Feeds {table : Table poolSize ReqId B} (f : Forward table) (mem : Nat → UInt8) (call : Call layout) : Prop where
  requests : call.reqs = f.turns.map fun t => ⟨t.request.length,t.rows.length⟩
  decodes : call.numDecodes = f.numDecodes
  pools : call.poolSize = poolSize
  cache : call.inputs.kvCache = mem
  slots : ∀ (r : Nat) t, f.turns[r]? = some t → ∀ p < (t.request.length + t.rows.length) / poolSize,
    t.request.pools.getD p 0 = call.indexerBlockTable r (p / layout.pageSize) * layout.pageSize + p % layout.pageSize

structure Fits {table : Table poolSize ReqId B} (f : Forward table) (call : Call layout) : Prop where
  several : 2 ≤ poolSize
  bounded : ∀ t ∈ f.turns.take f.numDecodes, t.request.length + t.rows.length ≤ call.inputs.maxSeqLen
  covered : ∀ t ∈ f.turns.take f.numDecodes, (t.request.length + t.rows.length) / poolSize ≤
    (call.inputs.kernelColumns + call.inputs.factor - 1) / call.inputs.factor * layout.pageSize
  queries : ∀ token h d, magnitudeBits (call.inputs.qQuant token h d).toBitVec ≠ 0x7F
  natural : ∀ t ∈ f.turns, ∀ p < (t.request.length + t.rows.length) / poolSize,
    0 ≤ call.inputs.float32 (ownRecord ops roundScale ape format zero layout t p).scale
  keys : ∀ t ∈ f.turns, ∀ p < (t.request.length + t.rows.length) / poolSize, ∀ d < layout.headDim,
    magnitudeBits ((ownRecord ops roundScale ape format zero layout t p).key.getD d 0).toBitVec ≠ 0x7F

variable {ops roundScale ape format zero} {table : Table poolSize ReqId B} {f : Forward table} {call : Call layout}
  {t : Turn table} {mem : Nat → UInt8} {r p : Nat}

def AllStored (ops : FloatOps B S) (roundScale : Bool) (ape : List (List S)) (format : Format S) (layout : PageLayout)
    (zero : Row B) (f : Forward table) (mem : Nat → UInt8) : Prop :=
  ∀ t ∈ f.turns, ∀ p < (t.request.length + t.rows.length) / poolSize, Stored ops roundScale ape format layout mem
    (t.request.pools.getD p 0) (pool poolSize (t.after zero).committed p)

theorem read_parts (stored : AllStored ops roundScale ape format layout zero f mem) (feeds : Feeds f mem call)
    (found : f.turns[r]? = some t) (whole : p < (t.request.length + t.rows.length) / poolSize) :
    (∀ d < layout.headDim, kvByte layout call.inputs.kvCache (call.indexerBlockTable r (p / layout.pageSize))
      (p % layout.pageSize) d = (ownRecord ops roundScale ape format zero layout t p).key.getD d 0) ∧
    kvScale layout call.inputs.kvCache (call.indexerBlockTable r (p / layout.pageSize)) (p % layout.pageSize) =
      (ownRecord ops roundScale ape format zero layout t p).scale := by
  have entry := stored t (List.mem_of_getElem? found) p whole
  have row := Nat.mod_lt p layout.slots_pos
  unfold Stored at entry
  rw [feeds.slots r t found p whole,Ragged.grid_row row,Ragged.grid_col row,← feeds.cache] at entry
  constructor
  · intro d inside
    have key := congrArg (fun entry : PoolEntry => entry.1.getD d 0) entry
    simp only [pagedEntry,List.getD_eq_getElem?_getD,List.getElem?_map,List.getElem?_range inside,Option.map_some,
      Option.getD_some] at key
    rw [key,List.getD_eq_getElem?_getD]
    rfl
  · exact congrArg Prod.snd entry

theorem request_at (feeds : Feeds f mem call) (found : f.turns[r]? = some t) :
    call.reqs[r]? = some (⟨t.request.length,t.rows.length⟩ : IndexerChunks.Request) := by
  rw [feeds.requests,List.getElem?_map,found]
  rfl

theorem score_exact (stored : AllStored ops roundScale ape format layout zero f mem) (feeds : Feeds f mem call)
    (found : f.turns[r]? = some t) (whole : p < (t.request.length + t.rows.length) / poolSize) (token : Nat) :
    requestLogit call.inputs r token p =
      recordScore call.inputs token (ownRecord ops roundScale ape format zero layout t p) := by
  obtain ⟨key,scale⟩ := read_parts stored feeds found whole
  unfold requestLogit recordScore poolLogit
  dsimp only
  refine Finset.sum_congr rfl fun h _ => ?_
  have product : ∀ d ∈ Finset.range layout.headDim, decodeE4m3fnLut (call.inputs.qQuant token h d) *
      decodeE4m3fnLut (kvByte layout call.inputs.kvCache (call.indexerBlockTable r (p / layout.pageSize))
        (p % layout.pageSize) d) = decodeE4m3fnLut (call.inputs.qQuant token h d) *
      decodeE4m3fnLut ((ownRecord ops roundScale ape format zero layout t p).key.getD d 0) := by
    intro d dim
    rw [key d (Finset.mem_range.mp dim)]
  have products := Finset.sum_congr rfl product
  unfold Call.indexerBlockTable at products scale
  rw [products,scale]

theorem turn_at (feeds : Feeds f mem call) {req : IndexerChunks.Request} (found : call.reqs[r]? = some req) :
    ∃ t : Turn table, f.turns[r]? = some t ∧ req = ⟨t.request.length,t.rows.length⟩ := by
  rw [feeds.requests,List.getElem?_map] at found
  obtain ⟨t,listed,rfl⟩ := Option.map_eq_some_iff.mp found
  exact ⟨t,listed,rfl⟩

theorem decode_at (feeds : Feeds f mem call) {req : IndexerChunks.Request}
    (member : req ∈ call.reqs.take call.numDecodes) :
    ∃ t ∈ f.turns.take f.numDecodes, req = ⟨t.request.length,t.rows.length⟩ := by
  rw [feeds.requests,feeds.decodes,← List.map_take] at member
  obtain ⟨t,listed,rfl⟩ := List.mem_map.mp member
  exact ⟨t,listed,rfl⟩

theorem feeds_sound (stored : AllStored ops roundScale ape format layout zero f mem) (feeds : Feeds f mem call)
    (fits : Fits ops roundScale ape format zero f call) : Sound call where
  several := feeds.pools ▸ fits.several
  bounded := by
    intro req member
    obtain ⟨t,listed,rfl⟩ := decode_at feeds member
    exact fits.bounded t listed
  covered := by
    intro req member
    obtain ⟨t,listed,rfl⟩ := decode_at feeds member
    rw [feeds.pools]
    exact fits.covered t listed
  natural := by
    intro r req found p whole
    obtain ⟨t,listed,rfl⟩ := turn_at feeds found
    rw [feeds.pools] at whole
    have scale := (read_parts stored feeds listed whole).2
    unfold Call.indexerBlockTable at scale
    unfold poolScale
    rw [scale]
    exact fits.natural t (List.mem_of_getElem? listed) p whole
  queries := fits.queries
  keys := by
    intro r req found p whole d inside
    obtain ⟨t,listed,rfl⟩ := turn_at feeds found
    rw [feeds.pools] at whole
    rw [(read_parts stored feeds listed whole).1 d inside]
    exact fits.keys t (List.mem_of_getElem? listed) p whole d inside

end Scores

section Layer
variable {B S ReqId : Type} [DecidableEq ReqId] {poolSize : Nat} (ops : FloatOps B S) (roundScale : Bool)
  (ape : List (List S)) (format : Format S) {layout : PageLayout} (zero : Row B)
variable {K : Type} [Field K] [LinearOrder K] [IsStrictOrderedRing K] (exps : Exponentials K) (sparseLayer : Layer K)
  (convert : Convert) (call : Call layout) (device : Device) (q : Queries K)
  (topkIndicesBuffer : Nat → Nat → Int)

end Layer

-- Arithmetic whose cast keeps the NaN code free; its scales are 2^-22 and 2^-9.
def finiteCast : Fp8Codec.Cast := ⟨fun code => code % 2 = 0,0x7E,Or.inl rfl⟩

def finiteOps : FloatOps Int ℚ := { KpoolRing.ratOps with toFp8U8 := Fp8Codec.toFp8U8 finiteCast }

def scaleBytes (x : ℚ) : List UInt8 := if x < 1 / 2 ^ 10 then [0,0,0x80,0x34] else [0,0,0,0x3B]

theorem scale_word (x : ℚ) : (scaleBytes x).length = 4 := by
  unfold scaleBytes
  split <;> rfl

def littleEndian : Format ℚ := ⟨scaleBytes,scale_word⟩

def float32Value (bytes : List UInt8) : ℚ :=
  let bits := (bytes.getD 0 0).toNat + 2 ^ 8 * (bytes.getD 1 0).toNat + 2 ^ 16 * (bytes.getD 2 0).toNat +
    2 ^ 24 * (bytes.getD 3 0).toNat
  ((2 ^ 23 + bits % 2 ^ 23) * 2 ^ (bits / 2 ^ 23) : Nat) / 2 ^ 150

theorem float32_natural (bytes : List UInt8) : 0 ≤ float32Value bytes :=
  div_nonneg (Nat.cast_nonneg _) (pow_nonneg (by norm_num) _)

theorem finite_code (x : ℚ) : magnitudeBits (Fp8Codec.toFp8U8 finiteCast x) ≠ 0x7F := by
  have small := Minifloat.round_le (Minifloat.value 15 3) finiteCast.tieUp finiteCast.top |x|
  have top : finiteCast.top = 0x7E := rfl
  rw [top] at small
  unfold magnitudeBits Fp8Codec.toFp8U8
  rw [BitVec.toNat_ofNat,top]
  split
  · omega
  · omega

theorem finite_lane (xs : List ℚ) (d : Nat) :
    magnitudeBits ((xs.map (Fp8Codec.toFp8U8 finiteCast)).getD d 0#8) ≠ 0x7F := by
  rw [List.getD_eq_getElem?_getD,List.getElem?_map]
  cases xs[d]? with
  | none => decide
  | some x => exact finite_code x

theorem finite_key (rows : List (Row Int)) (inside : d < layout.headDim) :
    magnitudeBits ((littleEndian.record layout
      (compressPool finiteOps true KpoolRing.zeroApe rows)).key.getD d 0).toBitVec ≠ 0x7F := by
  have key : (littleEndian.record layout (compressPool finiteOps true KpoolRing.zeroApe rows)).key.getD d 0 =
      ⟨(compressPool finiteOps true KpoolRing.zeroApe rows).bytes.getD d 0#8⟩ := by
    simp [Format.record,List.getD_eq_getElem?_getD,List.getElem?_range inside]
  rw [key]
  show magnitudeBits ((compressPool finiteOps true KpoolRing.zeroApe rows).bytes.getD d 0#8) ≠ 0x7F
  exact finite_lane _ d

-- Pages of two slots. A prompt of five tokens has its two whole pools on page 2.
theorem two_positive : 0 < 2 := by decide

theorem lane_words : 4 ∣ 128 := ⟨32,rfl⟩

theorem page_words : 4 ∣ 264 := ⟨66,rfl⟩

theorem page_fits : 2 * (128 + 4) ≤ 264 := Nat.le_refl _

def twoSlots : PageLayout := ⟨2,128,264,two_positive,lane_words,page_words,page_fits⟩

theorem page_slots : ([4,5] : List Nat).Nodup := by decide

theorem page_covered : 0 / 2 ≤ ([4,5] : List Nat).length := Nat.zero_le 2

def servedRequest : Live 2 Int := ⟨3,[4,5],fun _ => KpoolRing.zeroRow,0,page_slots,page_covered⟩

theorem served_free : Free (Table.empty : Table 2 Nat Int) 7 servedRequest := fun _ _ _ held => by cases held

def servedTable : Table 2 Nat Int := Table.empty.put 7 servedRequest served_free

theorem served_listed : servedTable.live 7 = some servedRequest := rfl

def servedRows : List (Row Int) :=
  [KpoolRing.zeroRow,KpoolRing.spikeRow,KpoolRing.zeroRow,KpoolRing.zeroRow,KpoolRing.spikeRow]

theorem served_within : 5 ≤ servedRows.length := Nat.le_refl 5

theorem served_allocated : (servedRequest.length + servedRows.length) / 2 ≤ servedRequest.pools.length := Nat.le_refl 2

def servedTurn : Turn servedTable := ⟨7,servedRequest,served_listed,servedRows,5,served_within,served_allocated⟩

theorem served_only (found : [servedTurn][r]? = some t) : r = 0 ∧ t = servedTurn := by
  obtain ⟨inside,rfl⟩ := List.getElem?_eq_some_iff.mp found
  obtain rfl : r = 0 := Nat.lt_one_iff.mp inside
  exact ⟨rfl,rfl⟩

theorem served_chunked (r : Nat) (t : Turn servedTable) (_ : 0 ≤ r) (found : [servedTurn][r]? = some t) :
    2 ∣ t.request.length ∧ t.accepted = t.rows.length := by
  obtain ⟨_,rfl⟩ := served_only found
  exact ⟨⟨0,rfl⟩,rfl⟩

theorem served_sampled (r : Nat) (t : Turn servedTable) (decode : r < 0) (_ : [servedTurn][r]? = some t) :
    1 ≤ t.accepted := absurd decode (Nat.not_lt_zero r)

theorem served_counted : 0 ≤ [servedTurn].length := Nat.zero_le 1

theorem served_once : ([servedTurn].map Turn.id).Nodup := List.nodup_singleton 7

def servedForward : Forward servedTable where
  turns := [servedTurn]
  numDecodes := 0
  decodesFirst := served_counted
  once := served_once
  sampled := served_sampled
  chunked := served_chunked

theorem served_scheduled : Schedule servedForward.batch.numDecodes (launchWidth servedForward.batch) [] :=
  ⟨fun _ bound => absurd bound (Nat.not_lt_zero _),fun _ member => by cases member⟩

def servedMemory : Memory Int := ⟨fun _ => 0xFF,fun _ => KpoolRing.spikeRow⟩

theorem served_reached : PagedReached finiteOps true KpoolRing.zeroApe littleEndian twoSlots KpoolRing.zeroRow servedMemory
    ⟨servedMemory,servedTable⟩ := .step .start (.addRequest 7 servedRequest rfl served_free)

def writtenMemory : Memory Int := writePhaseBytes finiteOps true KpoolRing.zeroApe littleEndian twoSlots KpoolRing.zeroRow
  servedForward.batch [] servedMemory

def servedInputs (index : Nat → UInt8) : ScoreInputs twoSlots where
  nextPowerOf2 := TiledGrid.leastPower
  power := TiledGrid.least_power_documented
  numHeads := 1
  qQuant token _ _ := (token % 64).toUInt8
  weights _ _ := 1
  kvCache := index
  float32 := float32Value
  blockTable r column := 2 + r + column
  kernelColumns := 300
  factor := 1
  maxSeqLen := 1024

theorem none_scheduled : ∀ req ∈ ([⟨0,5⟩] : List IndexerChunks.Request).take 0, 0 < req.queryLen := by
  intro req member
  cases member

def onePool : IndexerConfig := ⟨⟨true,false,3⟩,2,65536,1048576⟩

def servedCall (index : Nat → UInt8) : Call twoSlots where
  inputs := servedInputs index
  cfg := onePool
  poolSize := 2
  reqs := [⟨0,5⟩]
  numDecodes := 0
  paddedTokens := 0
  scheduled := none_scheduled

def servedDevice (index : Nat → UInt8) : Device :=
  { sortingDevice with
    decodeOrder := grid (decodeArgs onePool.decode 2 (servedCall index).decodes (servedInputs index) packRows 0 fun _ _ => 0) }

theorem served_runs (index : Nat → UInt8) : Runs (servedCall index) (servedDevice index) where
  contiguous same := by cases same
  tiled _ _ := page_positive
  prefill _ _ := List.Perm.refl _
  decode := List.Perm.refl _
  packs := pack_rows_documented
  unpacks := DecodeLayout.unpack_rows_documented
  selecting := sorting_selects

theorem served_feeds (index : Nat → UInt8) : Feeds servedForward index (servedCall index) where
  requests := rfl
  decodes := rfl
  pools := rfl
  cache := rfl
  slots := by
    intro r t found p whole
    obtain ⟨rfl,rfl⟩ := served_only found
    replace whole : p < 2 := whole
    interval_cases p <;>
      simp [servedTurn,servedRequest,servedCall,servedInputs,Call.indexerBlockTable,PagedLogits.translate,twoSlots]

theorem served_fits (index : Nat → UInt8) :
    Fits finiteOps true KpoolRing.zeroApe littleEndian KpoolRing.zeroRow servedForward (servedCall index) where
  several := Nat.le_refl 2
  bounded _ member := by cases member
  covered _ member := by cases member
  queries token _ _ := small_number token
  natural _ _ _ _ := float32_natural _
  keys _ _ _ _ _ inside := finite_key _ inside

theorem served_cached : Cached oneHead [⟨0,5⟩] oneHeadLatent := by
  refine ⟨fun r req found x below => ?_,fun r req found x below d _ => rfl⟩
  obtain ⟨inside,rfl⟩ := List.getElem?_eq_some_iff.mp found
  obtain rfl : r = 0 := Nat.lt_one_iff.mp inside
  replace below : x < 5 := below
  interval_cases x <;> decide

theorem served_row : RowServed onePool 2 [⟨0,5⟩] 0 0 4 ⟨0,5⟩ :=
  Or.inr ((SparseRows.token_covered onePool 2 (fun _ => 0) (fun _ _ => 0) [⟨0,5⟩] 0 rfl (by decide)).mp
    (SparseRows.pooled_covered onePool 2 (fun _ => 0) (fun _ _ => 0) [⟨0,5⟩] 0 rfl (by decide : 4 < 5)
      (by decide) (by decide)))

end Glm5Next.ServedAttention
