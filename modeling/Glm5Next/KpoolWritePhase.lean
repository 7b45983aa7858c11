import Glm5Next.DecodeUpdate
import Glm5Next.TailSlots

namespace Glm5Next.KpoolWritePhase
open KpoolCompress CacheRegions TailSlots StoreWrites
open DecodeUpdate (Schedule kpoolDecodeUpdateLaunch)

-- A request of the step: its tokens, its tail block and the pool slots of its
-- block table.
structure Request (poolSize : Nat) (B : Type) where
  contextLen : Nat
  rows : List (Row B)
  tailBlock : Nat
  pools : List Nat
  allocated : (contextLen + rows.length) / poolSize ≤ pools.length

-- Decode requests come first, a prefill chunk starts at a pool boundary and no
-- two requests share a tail block or a pool slot.
structure Batch (poolSize : Nat) (B : Type) where
  requests : List (Request poolSize B)
  numDecodes : Nat
  decodesFirst : numDecodes ≤ requests.length
  aligned : ∀ r q, numDecodes ≤ r → requests[r]? = some q → poolSize ∣ q.contextLen
  blocks : (requests.map Request.tailBlock).Nodup
  slots : (requests.flatMap Request.pools).Nodup

section Tensors
variable {B : Type} {poolSize : Nat} (zero : Row B) (batch : Batch poolSize B)

-- The pool-granular slot mapping: only the last token of a pool has a slot.
def poolSlot (q : Request poolSize B) (pos : Nat) : Int :=
  if pos % poolSize = poolSize - 1 then (q.pools.getD (pos / poolSize) 0 : Nat) else -1

def queryLens : List Nat := batch.requests.map fun q => q.rows.length

def decodeLens : List Nat := (queryLens batch).take batch.numDecodes

def numTokens : Nat := (queryLens batch).sum

def numDecodeTokens : Nat := (decodeLens batch).sum

def positions (i : Nat) : Nat :=
  (batch.requests.flatMap fun q => (List.range q.rows.length).map (q.contextLen + ·)).getD i 0

def slotMapping (i : Nat) : Int :=
  (batch.requests.flatMap fun q => (List.range q.rows.length).map fun k => poolSlot q (q.contextLen + k)).getD i (-1)

def rowAt (i : Nat) : Row B := (batch.requests.flatMap Request.rows).getD i zero

def tailBlockOf (r : Nat) : Nat := (batch.requests[r]?.map Request.tailBlock).getD 0

def tailCommon : CommonAttentionMetadata := packed (queryLens batch) (tailBlockOf batch) (positions batch)

def tailMetadata : TailMetadata := (build (.init poolSize) (tailCommon batch)).2

def token (i : Nat) : Token B :=
  ⟨slotMapping batch i,positions batch i,(tailMetadata batch).slotMapping.getD i (-1),rowAt zero batch i⟩

def grid (ownBlocks : List Nat) (cell : Nat × Nat) : Token B :=
  ⟨groupTokens (decodeLens batch) (numDecodeTokens batch) (slotMapping batch) (-1) cell,
    groupTokens (decodeLens batch) (numDecodeTokens batch) (fun i => (positions batch i : Int)) (-1) cell,
    decTailSlot poolSize ownBlocks (decodeLens batch) (numDecodeTokens batch) (positions batch) cell,
    groupTokens (decodeLens batch) (numDecodeTokens batch) (rowAt zero batch) zero cell⟩

def launchWidth : Nat := gridWidth (decodeLens batch) (numDecodeTokens batch)

def prefillToken (i : Nat) : Token B := token zero batch (numDecodeTokens batch + i)

variable {S : Type} (ops : FloatOps B S) (roundScale : Bool) (ape : List (List S))

-- The prefill tokens of all requests are written as one array, then the decode
-- tokens in the order `steps` of the launch.
def writePhase (steps : List (Nat × Nat)) (caches : Caches B S) : Caches B S :=
  let n := numTokens batch - numDecodeTokens batch
  let written : Caches B S :=
    if n > 0 then
      ⟨kpoolCompressInsert ops roundScale ape poolSize (prefillToken zero batch) n caches.index,
        kpoolSeedTailCache poolSize (prefillToken zero batch) n caches.tail⟩
    else caches
  match (tailMetadata batch).tailOwnBlocks with
  | some ownBlocks =>
    if batch.numDecodes > 0 then
      kpoolDecodeUpdateLaunch ops roundScale ape poolSize (grid zero batch ownBlocks) steps written
    else written
  | none => written

def ownToken (q : Request poolSize B) (k : Nat) : Token B :=
  ⟨poolSlot q (q.contextLen + k),(q.contextLen + k : Nat),
    (q.tailBlock * poolSize + (q.contextLen + k) % poolSize : Nat),q.rows.getD k zero⟩

variable {batch} {q : Request poolSize B} {r k : Nat}

theorem lens_found (found : batch.requests[r]? = some q) : (queryLens batch)[r]? = some q.rows.length := by
  rw [queryLens,List.getElem?_map,found]
  rfl

theorem decode_found (found : batch.requests[r]? = some q) (decode : r < batch.numDecodes) :
    (decodeLens batch)[r]? = some q.rows.length := by
  rw [decodeLens,List.getElem?_take_of_lt decode,lens_found found]

theorem decode_start (decode : r ≤ batch.numDecodes) :
    Ragged.start (decodeLens batch) r = Ragged.start (queryLens batch) r := Ragged.start_take _ _ decode

theorem decode_tokens (batch : Batch poolSize B) :
    numDecodeTokens batch = Ragged.start (queryLens batch) batch.numDecodes := rfl

theorem entry_exact (f : Request poolSize B → List α) (sized : ∀ q, (f q).length = q.rows.length)
    (found : batch.requests[r]? = some q) (inside : k < q.rows.length) (default : α) :
    (batch.requests.flatMap f).getD (Ragged.start (queryLens batch) r + k) default = (f q).getD k default := by
  have lens : queryLens batch = batch.requests.map fun q => (f q).length := by
    simp only [queryLens,sized]
  rw [List.getD_eq_getElem?_getD,List.getD_eq_getElem?_getD,lens,
    Ragged.joined_get batch.requests f found (by rw [sized]; exact inside)]

theorem position_exact (found : batch.requests[r]? = some q) (inside : k < q.rows.length) :
    positions batch (Ragged.start (queryLens batch) r + k) = q.contextLen + k := by
  rw [positions,entry_exact _ (fun _ => by simp) found inside,List.getD_eq_getElem?_getD,List.getElem?_map,
    List.getElem?_range inside]
  rfl

theorem slot_exact (found : batch.requests[r]? = some q) (inside : k < q.rows.length) :
    slotMapping batch (Ragged.start (queryLens batch) r + k) = poolSlot q (q.contextLen + k) := by
  rw [slotMapping,entry_exact _ (fun _ => by simp) found inside,List.getD_eq_getElem?_getD,List.getElem?_map,
    List.getElem?_range inside]
  rfl

theorem row_exact (found : batch.requests[r]? = some q) (inside : k < q.rows.length) :
    rowAt zero batch (Ragged.start (queryLens batch) r + k) = q.rows.getD k zero :=
  entry_exact _ (fun _ => rfl) found inside zero

theorem block_exact (found : batch.requests[r]? = some q) : tailBlockOf batch r = q.tailBlock := by
  rw [tailBlockOf,found]
  rfl

theorem token_exact (found : batch.requests[r]? = some q) (inside : k < q.rows.length) :
    token zero batch (Ragged.start (queryLens batch) r + k) = ownToken zero q k := by
  unfold token tailMetadata tailCommon
  rw [packed_slot _ _ _ (lens_found found) inside,block_exact found,slot_exact found inside,position_exact found inside,
    row_exact zero found inside]
  rfl

theorem grid_exact (found : batch.requests[r]? = some q) (decode : r < batch.numDecodes) (inside : k < q.rows.length) :
    grid zero batch (firstColumn (tailCommon batch)) (r,k) = ownToken zero q k := by
  have listed := decode_found found decode
  have place : Ragged.start (decodeLens batch) r = Ragged.start (queryLens batch) r := decode_start (Nat.le_of_lt decode)
  have own : (firstColumn (tailCommon batch)).getD r 0 = q.tailBlock :=
    (packed_block _ _ (lens_found found)).trans (block_exact found)
  unfold grid numDecodeTokens
  rw [group_exact _ _ listed inside,group_exact _ _ listed inside,group_exact _ _ listed inside,
    dec_tail_exact poolSize _ _ listed inside,place,own,slot_exact found inside,position_exact found inside,
    row_exact zero found inside]
  rfl

theorem grid_pad (found : batch.requests[r]? = some q) (decode : r < batch.numDecodes) (past : q.rows.length ≤ k)
    (wide : k < launchWidth batch) :
    grid zero batch (firstColumn (tailCommon batch)) (r,k) = ⟨-1,-1,-1,zero⟩ := by
  have listed := decode_found found decode
  unfold grid numDecodeTokens
  rw [group_pad _ _ listed past wide,group_pad _ _ listed past wide,group_pad _ _ listed past wide,
    dec_tail_pad poolSize _ _ listed past wide]

end Tensors

-- The write phase as the programs it launches.
inductive Step where
  | compress (j : Nat)
  | seed (j : Nat)
  | decode (cell : Nat × Nat)

section Programs
variable {B S : Type} {poolSize : Nat} (ops : FloatOps B S) (roundScale : Bool) (ape : List (List S))

def poolEffect (poolSize : Nat) (tokens : Nat → Token B) (i : Nat) : Effect B S :=
  if (tokens i).slot ≥ 0 ∧ i ≥ poolSize - 1 then
    .pool (tokens i).slot.toNat (compressPool ops roundScale ape ((List.range poolSize).map fun s =>
      (tokens (i - (poolSize - 1) + s)).row))
  else .idle

def seedEffect (poolSize : Nat) (tokens : Nat → Token B) (n i : Nat) : Effect B S :=
  let t := (tokens i).tailSlot
  let ahead := if i + poolSize < n then (tokens (i + poolSize)).tailSlot else -1
  if t < 0 ∨ (ahead ≥ 0 ∧ ahead / poolSize = t / poolSize) then .idle
  else .seed (t / poolSize * poolSize + t % poolSize).toNat (tokens i).row

theorem pools_run (positive : 0 < poolSize) (tokens : Nat → Token B) (n : Nat) (caches : Caches B S) :
    OwnedRegions.run (fun i => apply ops roundScale ape poolSize (poolEffect ops roundScale ape poolSize tokens i))
      (List.range n) caches =
    { caches with index := kpoolCompressInsert ops roundScale ape poolSize tokens n caches.index } := by
  have listed : ∀ (is : List Nat) (caches : Caches B S),
      OwnedRegions.run (fun i => apply ops roundScale ape poolSize (poolEffect ops roundScale ape poolSize tokens i))
        is caches =
      { caches with
        index := writes caches.index (is.filterMap fun i =>
          if (tokens i).slot ≥ 0 ∧ i ≥ poolSize - 1 then
            some ((tokens i).slot.toNat,compressPool ops roundScale ape ((List.range poolSize).map fun s =>
              (tokens (i - (poolSize - 1) + s)).row))
          else none) } := by
    intro is
    induction is with
    | nil => intro _; rfl
    | cons i is ih =>
        intro caches
        show OwnedRegions.run _ is (apply ops roundScale ape poolSize _ caches) = _
        rw [ih,List.filterMap_cons,poolEffect]
        split
        · rfl
        · rfl
  rw [listed,kpoolCompressInsert]
  split
  · -- no token of so short an array ends a pool
    rename_i short
    have none_written : ((List.range n).filterMap fun i =>
        if (tokens i).slot ≥ 0 ∧ i ≥ poolSize - 1 then
          some ((tokens i).slot.toNat,compressPool ops roundScale ape ((List.range poolSize).map fun s =>
            (tokens (i - (poolSize - 1) + s)).row))
        else none) = [] := by
      apply List.filterMap_eq_nil_iff.mpr
      intro i inside
      have bound := List.mem_range.mp inside
      exact if_neg (by omega)
    rw [none_written,writes_nil]
  · rfl

theorem seeds_run (tokens : Nat → Token B) (n : Nat) (caches : Caches B S) :
    OwnedRegions.run (fun i => apply ops roundScale ape poolSize (seedEffect poolSize tokens n i))
      (List.range n) caches =
    { caches with tail := kpoolSeedTailCache poolSize tokens n caches.tail } := by
  unfold kpoolSeedTailCache
  generalize List.range n = is
  induction is generalizing caches with
  | nil => rfl
  | cons i is ih =>
      show OwnedRegions.run _ is (apply ops roundScale ape poolSize _ caches) = _
      rw [ih,List.filterMap_cons,seedEffect]
      dsimp only
      generalize (if i + poolSize < n then (tokens (i + poolSize)).tailSlot else -1) = ahead
      split
      · rfl
      · rfl

variable (zero : Row B)

def ownSeed (q : Request poolSize B) (k : Nat) : Effect B S :=
  if k + poolSize < q.rows.length then .idle
  else .seed (q.tailBlock * poolSize + (q.contextLen + k) % poolSize) (q.rows.getD k zero)

def ownPrefill (q : Request poolSize B) (caches : Caches B S) : Caches B S :=
  OwnedRegions.run (fun k => apply ops roundScale ape poolSize (ownSeed zero q k)) (List.range q.rows.length)
    (OwnedRegions.run (fun k => apply ops roundScale ape poolSize
      (poolEffect ops roundScale ape poolSize (ownToken zero q) k)) (List.range q.rows.length) caches)

def ownDecode (q : Request poolSize B) (caches : Caches B S) : Caches B S :=
  OwnedRegions.run (fun k => apply ops roundScale ape poolSize (.token (ownToken zero q k)))
    (List.range q.rows.length) caches

def effect (batch : Batch poolSize B) : Step → Effect B S
  | .compress j => poolEffect ops roundScale ape poolSize (prefillToken zero batch) (j - numDecodeTokens batch)
  | .seed j =>
    seedEffect poolSize (prefillToken zero batch) (numTokens batch - numDecodeTokens batch) (j - numDecodeTokens batch)
  | .decode cell => .token (grid zero batch (firstColumn (tailCommon batch)) cell)

def owner (batch : Batch poolSize B) : Step → Option Nat
  | .compress j => (Ragged.owners (queryLens batch))[j]?
  | .seed j => (Ragged.owners (queryLens batch))[j]?
  | .decode cell => some cell.1

def prefillRange (batch : Batch poolSize B) : List Nat :=
  List.range' (numDecodeTokens batch) (numTokens batch - numDecodeTokens batch)

def phaseSteps (batch : Batch poolSize B) (steps : List (Nat × Nat)) : List Step :=
  (prefillRange batch).map Step.compress ++ (prefillRange batch).map Step.seed ++ steps.map Step.decode

theorem shifted_run (f : Nat → State → State) (base n : Nat) (s : State) :
    OwnedRegions.run (fun j => f (j - base)) (List.range' base n) s = OwnedRegions.run f (List.range n) s := by
  rw [List.range'_eq_map_range,OwnedRegions.run_map]
  simp only [Nat.add_sub_cancel_left]

theorem phase_run (positive : 0 < poolSize) (batch : Batch poolSize B)
    (scheduled : Schedule batch.numDecodes (launchWidth batch) steps) (caches : Caches B S) :
    writePhase zero batch ops roundScale ape steps caches =
      OwnedRegions.run (fun step => apply ops roundScale ape poolSize (effect ops roundScale ape zero batch step))
        (phaseSteps batch steps) caches := by
  rw [phaseSteps,OwnedRegions.run_append,OwnedRegions.run_append,OwnedRegions.run_map,OwnedRegions.run_map,
    OwnedRegions.run_map,prefillRange]
  simp only [effect]
  rw [shifted_run (fun i => apply ops roundScale ape poolSize
      (poolEffect ops roundScale ape poolSize (prefillToken zero batch) i)),
    shifted_run (fun i => apply ops roundScale ape poolSize
      (seedEffect poolSize (prefillToken zero batch) (numTokens batch - numDecodeTokens batch) i)),
    pools_run ops roundScale ape positive,seeds_run]
  unfold writePhase
  have blocks : (tailMetadata batch).tailOwnBlocks = some (firstColumn (tailCommon batch)) := rfl
  rw [blocks]
  dsimp only
  have written : (if numTokens batch - numDecodeTokens batch > 0 then
      (⟨kpoolCompressInsert ops roundScale ape poolSize (prefillToken zero batch)
          (numTokens batch - numDecodeTokens batch) caches.index,
        kpoolSeedTailCache poolSize (prefillToken zero batch) (numTokens batch - numDecodeTokens batch)
          caches.tail⟩ : Caches B S)
      else caches) =
      ⟨kpoolCompressInsert ops roundScale ape poolSize (prefillToken zero batch)
          (numTokens batch - numDecodeTokens batch) caches.index,
        kpoolSeedTailCache poolSize (prefillToken zero batch) (numTokens batch - numDecodeTokens batch)
          caches.tail⟩ := by
    split
    · rfl
    · rename_i empty
      obtain none_left : numTokens batch - numDecodeTokens batch = 0 := by omega
      rw [none_left,kpoolCompressInsert,if_pos positive]
      rfl
  rw [written]
  split
  · rfl
  · rename_i no_decodes
    have idle : steps = [] := by
      apply List.eq_nil_iff_forall_not_mem.mpr
      intro step member
      have bound := scheduled.bounded step member
      omega
    rw [idle]
    rfl

section Own
variable {batch : Batch poolSize B} {q : Request poolSize B} {r k : Nat}

theorem prefill_after (prefill : batch.numDecodes ≤ r) :
    numDecodeTokens batch ≤ Ragged.start (queryLens batch) r := by
  rw [decode_tokens]
  exact Ragged.start_le _ prefill

theorem row_before_end (found : batch.requests[r]? = some q) :
    Ragged.start (queryLens batch) r + q.rows.length ≤ numTokens batch := by
  rw [← Ragged.start_succ (lens_found found),numTokens,← Ragged.start_length]
  have bound := (List.getElem?_eq_some_iff.mp (lens_found found)).1
  exact Ragged.start_le _ bound

theorem prefill_token (found : batch.requests[r]? = some q) (prefill : batch.numDecodes ≤ r)
    (inside : k < q.rows.length) :
    prefillToken zero batch (Ragged.start (queryLens batch) r + k - numDecodeTokens batch) = ownToken zero q k := by
  have after : numDecodeTokens batch ≤ Ragged.start (queryLens batch) r := prefill_after prefill
  rw [prefillToken,Nat.add_sub_cancel' (by omega)]
  exact token_exact zero found inside

theorem slot_ends (q : Request poolSize B) (pos : Nat) (held : poolSlot q pos ≥ 0) : pos % poolSize = poolSize - 1 := by
  unfold poolSlot at held
  split at held
  · assumption
  · omega

theorem pool_in_chunk (aligned : poolSize ∣ contextLen)
    (ends : (contextLen + k) % poolSize = poolSize - 1) : poolSize - 1 ≤ k := by
  obtain ⟨pools,rfl⟩ := aligned
  rw [Nat.mul_add_mod] at ends
  have small := Nat.mod_le k poolSize
  omega

theorem pool_effect_exact (positive : 0 < poolSize) (found : batch.requests[r]? = some q)
    (prefill : batch.numDecodes ≤ r) (inside : k < q.rows.length) :
    poolEffect ops roundScale ape poolSize (prefillToken zero batch)
      (Ragged.start (queryLens batch) r + k - numDecodeTokens batch) =
      poolEffect ops roundScale ape poolSize (ownToken zero q) k := by
  have after : numDecodeTokens batch ≤ Ragged.start (queryLens batch) r := prefill_after prefill
  unfold poolEffect
  rw [prefill_token zero found prefill inside]
  by_cases held : (ownToken zero q k).slot ≥ 0
  · have whole := pool_in_chunk (batch.aligned r q prefill found) (slot_ends q _ held)
    rw [if_pos ⟨held,by omega⟩,if_pos ⟨held,whole⟩]
    congr 2
    apply List.map_congr_left
    intro s listed
    have bound := List.mem_range.mp listed
    have place : Ragged.start (queryLens batch) r + k - numDecodeTokens batch - (poolSize - 1) + s =
        Ragged.start (queryLens batch) r + (k - (poolSize - 1) + s) - numDecodeTokens batch := by omega
    rw [place,prefill_token zero found prefill (by omega)]
  · rw [if_neg fun both => held both.1,if_neg fun both => held both.1]

theorem own_tail_block (positive : 0 < poolSize) (q : Request poolSize B) (k : Nat) :
    (ownToken zero q k).tailSlot / (poolSize : Int) = q.tailBlock := by
  show ((q.tailBlock * poolSize + (q.contextLen + k) % poolSize : Nat) : Int) / (poolSize : Int) = _
  rw [← Int.natCast_ediv,Ragged.grid_row (Nat.mod_lt _ positive)]

theorem blocks_apart (found : batch.requests[r]? = some q) (found' : batch.requests[r']? = some q')
    (same : q.tailBlock = q'.tailBlock) : r = r' := by
  have inside := (List.getElem?_eq_some_iff.mp found).1
  have bound : r < (batch.requests.map Request.tailBlock).length := by rwa [List.length_map]
  apply (List.getElem?_inj bound batch.blocks).mp
  rw [List.getElem?_map,List.getElem?_map,found,found']
  exact congrArg some same

-- The token a pool ahead is the request's own or of another tail block.
theorem seed_effect_exact (positive : 0 < poolSize) (found : batch.requests[r]? = some q)
    (prefill : batch.numDecodes ≤ r) (inside : k < q.rows.length) :
    seedEffect (S := S) poolSize (prefillToken zero batch) (numTokens batch - numDecodeTokens batch)
      (Ragged.start (queryLens batch) r + k - numDecodeTokens batch) = ownSeed zero q k := by
  have after : numDecodeTokens batch ≤ Ragged.start (queryLens batch) r := prefill_after prefill
  have stored : 0 ≤ (ownToken zero q k).tailSlot := Int.natCast_nonneg _
  have ahead : Ragged.start (queryLens batch) r + k - numDecodeTokens batch + poolSize =
      Ragged.start (queryLens batch) r + (k + poolSize) - numDecodeTokens batch := by omega
  unfold seedEffect
  rw [prefill_token zero found prefill inside,ahead]
  dsimp only
  rw [own_tail_block zero positive]
  have place : (((q.tailBlock : Nat) : Int) * (poolSize : Int) + (ownToken zero q k).tailSlot % (poolSize : Int)).toNat =
      q.tailBlock * poolSize + (q.contextLen + k) % poolSize := by
    rw [← own_tail_block zero positive q k,Int.mul_comm,Int.mul_ediv_add_emod]
    exact Int.toNat_natCast _
  unfold ownSeed
  by_cases own : k + poolSize < q.rows.length
  · have last := row_before_end found
    rw [if_pos (show _ < numTokens batch - numDecodeTokens batch by omega),prefill_token zero found prefill own,
      own_tail_block zero positive,if_pos (Or.inr ⟨Int.natCast_nonneg _,rfl⟩),if_pos own]
  · rw [if_neg own,place]
    refine if_neg ?_
    rintro (negative | ⟨present,same⟩)
    · omega
    · split at present
      · rename_i within
        obtain ⟨r',len,k',listed,bounded,flat⟩ := Ragged.locate (queryLens batch)
          (show Ragged.start (queryLens batch) r + (k + poolSize) < (queryLens batch).sum by
            unfold numTokens at within
            omega)
        obtain ⟨q',found',rfl⟩ : ∃ q', batch.requests[r']? = some q' ∧ q'.rows.length = len := by
          rw [queryLens,List.getElem?_map] at listed
          exact Option.map_eq_some_iff.mp listed
        have later : batch.numDecodes ≤ r' := by
          by_contra before
          have earlier := Ragged.row_inside listed bounded (show r' < r by omega)
          omega
        rw [if_pos within,flat,prefill_token zero found' later bounded,own_tail_block zero positive] at same
        obtain rfl := blocks_apart found' found (by exact_mod_cast same)
        rw [found] at found'
        cases found'
        omega
      · exact absurd present (by decide)

theorem steps_prefill (found : batch.requests[r]? = some q) (prefill : batch.numDecodes ≤ r)
    (scheduled : Schedule batch.numDecodes (launchWidth batch) steps) :
    (phaseSteps batch steps).filter (fun step => decide (owner batch step = some r)) =
      (List.range' (Ragged.start (queryLens batch) r) q.rows.length).map Step.compress ++
        (List.range' (Ragged.start (queryLens batch) r) q.rows.length).map Step.seed := by
  have after : numDecodeTokens batch ≤ Ragged.start (queryLens batch) r := prefill_after prefill
  have before := row_before_end found
  have mine := Ragged.owned_range (lens_found found) after (show _ ≤ numDecodeTokens batch +
    (numTokens batch - numDecodeTokens batch) by omega)
  have compress : ((prefillRange batch).map Step.compress).filter (fun step => decide (owner batch step = some r)) =
      (List.range' (Ragged.start (queryLens batch) r) q.rows.length).map Step.compress := by
    rw [List.filter_map]
    exact congrArg (List.map Step.compress) mine
  have seed : ((prefillRange batch).map Step.seed).filter (fun step => decide (owner batch step = some r)) =
      (List.range' (Ragged.start (queryLens batch) r) q.rows.length).map Step.seed := by
    rw [List.filter_map]
    exact congrArg (List.map Step.seed) mine
  have decode : (steps.map Step.decode).filter (fun step => decide (owner batch step = some r)) = [] := by
    apply List.filter_eq_nil_iff.mpr
    intro step member
    obtain ⟨cell,listed,rfl⟩ := List.mem_map.mp member
    have bound := scheduled.bounded cell listed
    simp only [owner,Option.some.injEq,decide_eq_true_eq]
    omega
  rw [phaseSteps,List.filter_append,List.filter_append,compress,seed,decode,List.append_nil]

theorem steps_decode (decode : r < batch.numDecodes)
    (scheduled : Schedule batch.numDecodes (launchWidth batch) steps) :
    (phaseSteps batch steps).filter (fun step => decide (owner batch step = some r)) =
      ((List.range (launchWidth batch)).map fun t => (r,t)).map Step.decode := by
  have mine : (prefillRange batch).filter (fun j => decide ((Ragged.owners (queryLens batch))[j]? = some r)) = [] := by
    apply List.filter_eq_nil_iff.mpr
    intro j listed
    have bound := (List.mem_range'_1.mp listed).1
    rw [decide_eq_true_eq,Ragged.owner_exact]
    rintro ⟨len,k,found,inside,rfl⟩
    have earlier := Ragged.row_inside found inside decode
    rw [decode_tokens] at bound
    omega
  have compress : ((prefillRange batch).map Step.compress).filter (fun step => decide (owner batch step = some r)) =
      [] := by
    rw [List.filter_map]
    exact congrArg (List.map Step.compress) mine
  have seed : ((prefillRange batch).map Step.seed).filter (fun step => decide (owner batch step = some r)) = [] := by
    rw [List.filter_map]
    exact congrArg (List.map Step.seed) mine
  have own : (steps.map Step.decode).filter (fun step => decide (owner batch step = some r)) =
      ((List.range (launchWidth batch)).map fun t => (r,t)).map Step.decode := by
    rw [List.filter_map,← scheduled.programs r decode]
    apply congrArg (List.map Step.decode)
    apply List.filter_congr
    intro cell _
    simp [owner]
  rw [phaseSteps,List.filter_append,List.filter_append,compress,seed,own]
  rfl

theorem prefill_own_run (positive : 0 < poolSize) (found : batch.requests[r]? = some q)
    (prefill : batch.numDecodes ≤ r) (scheduled : Schedule batch.numDecodes (launchWidth batch) steps)
    (caches : Caches B S) :
    OwnedRegions.run (fun step => apply ops roundScale ape poolSize (effect ops roundScale ape zero batch step))
      ((phaseSteps batch steps).filter fun step => decide (owner batch step = some r)) caches =
    ownPrefill ops roundScale ape zero q caches := by
  rw [steps_prefill found prefill scheduled,OwnedRegions.run_append,List.range'_eq_map_range,OwnedRegions.run_map,
    OwnedRegions.run_map,OwnedRegions.run_map,OwnedRegions.run_map,ownPrefill]
  have pools : ∀ caches, OwnedRegions.run (fun k => apply ops roundScale ape poolSize (effect ops roundScale ape zero batch
        (.compress (Ragged.start (queryLens batch) r + k)))) (List.range q.rows.length) caches =
      OwnedRegions.run (fun k => apply ops roundScale ape poolSize
        (poolEffect ops roundScale ape poolSize (ownToken zero q) k)) (List.range q.rows.length) caches := by
    intro caches
    apply OwnedRegions.run_same
    intro k listed caches
    rw [effect,pool_effect_exact ops roundScale ape zero positive found prefill (List.mem_range.mp listed)]
  have seeds : ∀ caches, OwnedRegions.run (fun k => apply ops roundScale ape poolSize (effect ops roundScale ape zero batch
        (.seed (Ragged.start (queryLens batch) r + k)))) (List.range q.rows.length) caches =
      OwnedRegions.run (fun k => apply ops roundScale ape poolSize (ownSeed zero q k))
        (List.range q.rows.length) caches := by
    intro caches
    apply OwnedRegions.run_same
    intro k listed caches
    rw [effect,seed_effect_exact zero positive found prefill (List.mem_range.mp listed)]
  rw [pools,seeds]

theorem decode_own_run (found : batch.requests[r]? = some q) (decode : r < batch.numDecodes)
    (scheduled : Schedule batch.numDecodes (launchWidth batch) steps) (caches : Caches B S) :
    OwnedRegions.run (fun step => apply ops roundScale ape poolSize (effect ops roundScale ape zero batch step))
      ((phaseSteps batch steps).filter fun step => decide (owner batch step = some r)) caches =
    ownDecode ops roundScale ape zero q caches := by
  have wide : q.rows.length ≤ launchWidth batch := grid_wide (decode_found found decode)
  obtain ⟨extra,width⟩ := Nat.exists_eq_add_of_le wide
  rw [steps_decode decode scheduled,OwnedRegions.run_map,OwnedRegions.run_map,width,List.range_add,
    OwnedRegions.run_append,OwnedRegions.run_idle]
  · apply OwnedRegions.run_same
    intro k listed caches
    rw [effect,grid_exact zero found decode (List.mem_range.mp listed)]
  · intro t listed caches
    obtain ⟨i,inside,rfl⟩ := List.mem_map.mp listed
    have bound := List.mem_range.mp inside
    rw [effect,grid_pad zero found decode (Nat.le_add_right _ i) (by omega)]
    exact KpoolRing.decode_pad_exact ops roundScale ape poolSize caches zero

end Own

section Ownership
variable {batch : Batch poolSize B} {q : Request poolSize B} {r k : Nat}

def territory (batch : Batch poolSize B) (r : Nat) : Territory where
  slots := fun slot => ∃ q, batch.requests[r]? = some q ∧ slot ∈ q.pools
  blocks := fun block => ∃ q, batch.requests[r]? = some q ∧ q.tailBlock = block

theorem slots_apart (found : batch.requests[r]? = some q) (found' : batch.requests[r']? = some q') (other : r ≠ r')
    (mine : slot ∈ q.pools) : slot ∉ q'.pools := by
  obtain ⟨inside,rfl⟩ := List.getElem?_eq_some_iff.mp found
  obtain ⟨inside',rfl⟩ := List.getElem?_eq_some_iff.mp found'
  have disjoint := List.pairwise_iff_getElem.mp (List.nodup_flatMap.mp batch.slots).2
  intro theirs
  rcases Nat.lt_or_gt_of_ne other with before | after
  · exact disjoint r r' inside inside' before mine theirs
  · exact disjoint r' r inside' inside after theirs mine

theorem territories_apart (batch : Batch poolSize B) : Apart (territory batch) := by
  intro r r' other
  constructor
  · rintro slot ⟨q,found,mine⟩ ⟨q',found',theirs⟩
    exact slots_apart found found' other mine theirs
  · rintro block ⟨q,found,rfl⟩ ⟨q',found',same⟩
    exact other (blocks_apart found found' same.symm)

theorem own_slot_listed (positive : 0 < poolSize) (q : Request poolSize B) (inside : k < q.rows.length)
    (held : poolSlot q (q.contextLen + k) ≥ 0) : (poolSlot q (q.contextLen + k)).toNat ∈ q.pools := by
  have last := slot_ends q _ held
  have room : (q.contextLen + k) / poolSize < q.pools.length := by
    refine Nat.lt_of_lt_of_le ?_ q.allocated
    apply (Nat.le_div_iff_mul_le positive).mpr
    rw [KpoolRing.pool_end poolSize positive last]
    omega
  rw [poolSlot,if_pos last,Int.toNat_natCast,List.getD_eq_getElem?_getD,List.getElem?_eq_getElem room]
  exact List.getElem_mem room

theorem own_token_belongs (positive : 0 < poolSize) (found : batch.requests[r]? = some q) (inside : k < q.rows.length) :
    Belongs (S := S) poolSize (territory batch r) (.token (ownToken zero q k)) := by
  intro _ _
  have block : (ownToken zero q k).tailSlot.toNat / poolSize = q.tailBlock := by
    show (((q.tailBlock * poolSize + (q.contextLen + k) % poolSize : Nat) : Int)).toNat / poolSize = _
    rw [Int.toNat_natCast,Ragged.grid_row (Nat.mod_lt _ positive)]
  exact ⟨⟨q,found,block.symm⟩,fun held _ => ⟨q,found,own_slot_listed positive q inside held⟩⟩

theorem pool_effect_belongs (positive : 0 < poolSize) (found : batch.requests[r]? = some q) (inside : k < q.rows.length) :
    Belongs poolSize (territory batch r) (poolEffect ops roundScale ape poolSize (ownToken zero q) k) := by
  unfold poolEffect
  split
  · rename_i held
    exact ⟨q,found,own_slot_listed positive q inside held.1⟩
  · trivial

theorem seed_effect_belongs (positive : 0 < poolSize) (found : batch.requests[r]? = some q) :
    Belongs (S := S) poolSize (territory batch r) (ownSeed zero q k) := by
  unfold ownSeed
  split
  · trivial
  · exact ⟨q,found,(Ragged.grid_row (Nat.mod_lt _ positive)).symm⟩

theorem prefill_located (listed : j ∈ prefillRange batch) :
    ∃ r q k, batch.requests[r]? = some q ∧ batch.numDecodes ≤ r ∧ k < q.rows.length ∧
      j = Ragged.start (queryLens batch) r + k := by
  obtain ⟨low,high⟩ := List.mem_range'_1.mp listed
  obtain ⟨r,len,k,found,inside,rfl⟩ := Ragged.locate (queryLens batch)
    (show j < (queryLens batch).sum by unfold numTokens at high; omega)
  obtain ⟨q,request,rfl⟩ : ∃ q, batch.requests[r]? = some q ∧ q.rows.length = len := by
    rw [queryLens,List.getElem?_map] at found
    exact Option.map_eq_some_iff.mp found
  refine ⟨r,q,k,request,?_,inside,rfl⟩
  by_contra before
  have earlier := Ragged.row_inside found inside (Nat.lt_of_not_le before)
  rw [decode_tokens] at low
  omega

theorem step_belongs (positive : 0 < poolSize) (scheduled : Schedule batch.numDecodes (launchWidth batch) steps)
    (step : Step) (listed : step ∈ phaseSteps batch steps) :
    Belongs poolSize (withRest (territory batch) (owner batch step)) (effect ops roundScale ape zero batch step) := by
  rcases List.mem_append.mp listed with prefill | decode
  · rcases List.mem_append.mp prefill with compress | seed
    · obtain ⟨j,inside,rfl⟩ := List.mem_map.mp compress
      obtain ⟨r,q,k,found,later,bounded,rfl⟩ := prefill_located inside
      rw [owner,Ragged.owners_get (lens_found found) bounded,effect,
        pool_effect_exact ops roundScale ape zero positive found later bounded]
      exact pool_effect_belongs ops roundScale ape zero positive found bounded
    · obtain ⟨j,inside,rfl⟩ := List.mem_map.mp seed
      obtain ⟨r,q,k,found,later,bounded,rfl⟩ := prefill_located inside
      rw [owner,Ragged.owners_get (lens_found found) bounded,effect,
        seed_effect_exact zero positive found later bounded]
      exact seed_effect_belongs zero positive found
  · obtain ⟨⟨r,t⟩,inside,rfl⟩ := List.mem_map.mp decode
    have bound := scheduled.bounded _ inside
    obtain ⟨q,found⟩ : ∃ q, batch.requests[r]? = some q :=
      ⟨_,List.getElem?_eq_getElem (Nat.lt_of_lt_of_le bound batch.decodesFirst)⟩
    have row : (r,t) ∈ (List.range (launchWidth batch)).map fun t => (r,t) := by
      rw [← scheduled.programs r bound]
      exact List.mem_filter.mpr ⟨inside,by simp⟩
    obtain ⟨t',width,same⟩ := List.mem_map.mp row
    cases same
    show Belongs poolSize (territory batch r) (.token (grid zero batch (firstColumn (tailCommon batch)) (r,t)))
    by_cases real : t < q.rows.length
    · rw [grid_exact zero found bound real]
      exact own_token_belongs zero positive found real
    · rw [grid_pad zero found bound (Nat.le_of_not_lt real) (List.mem_range.mp width)]
      exact fun present => absurd present (show ¬ (0 : Int) ≤ -1 by decide)

theorem phase_own (positive : 0 < poolSize) (scheduled : Schedule batch.numDecodes (launchWidth batch) steps)
    (found : batch.requests[r]? = some q) (caches : Caches B S) :
    Agree poolSize (territory batch r) (writePhase zero batch ops roundScale ape steps caches)
      (if r < batch.numDecodes then ownDecode ops roundScale ape zero q caches
        else ownPrefill ops roundScale ape zero q caches) := by
  have owned := effects_owned ops roundScale ape poolSize positive (apart_rest (territories_apart batch))
    (effect ops roundScale ape zero batch) (owner batch)
  have own := OwnedRegions.run_owned owned (phaseSteps batch steps)
    (step_belongs ops roundScale ape zero positive scheduled) (some r) (owned.refl (some r) caches)
  rw [phase_run ops roundScale ape zero positive batch scheduled]
  by_cases decode : r < batch.numDecodes
  · rw [decode_own_run ops roundScale ape zero found decode scheduled] at own
    rw [if_pos decode]
    exact own
  · rw [prefill_own_run ops roundScale ape zero positive found (Nat.le_of_not_lt decode) scheduled] at own
    rw [if_neg decode]
    exact own

theorem phase_rest (positive : 0 < poolSize) (scheduled : Schedule batch.numDecodes (launchWidth batch) steps)
    (caches : Caches B S) :
    Agree poolSize (withRest (territory batch) none) (writePhase zero batch ops roundScale ape steps caches) caches := by
  have owned := effects_owned ops roundScale ape poolSize positive (apart_rest (territories_apart batch))
    (effect ops roundScale ape zero batch) (owner batch)
  rw [phase_run ops roundScale ape zero positive batch scheduled]
  refine OwnedRegions.run_apart owned _ (step_belongs ops roundScale ape zero positive scheduled) ?_ caches
  intro step listed
  rcases List.mem_append.mp listed with prefill | decode
  · rcases List.mem_append.mp prefill with compress | seed
    · obtain ⟨j,inside,rfl⟩ := List.mem_map.mp compress
      obtain ⟨r,q,k,found,_,bounded,rfl⟩ := prefill_located inside
      rw [owner,Ragged.owners_get (lens_found found) bounded]
      exact Option.some_ne_none r
    · obtain ⟨j,inside,rfl⟩ := List.mem_map.mp seed
      obtain ⟨r,q,k,found,_,bounded,rfl⟩ := prefill_located inside
      rw [owner,Ragged.owners_get (lens_found found) bounded]
      exact Option.some_ne_none r
  · obtain ⟨cell,_,rfl⟩ := List.mem_map.mp decode
    exact Option.some_ne_none _

def alone (batch : Batch poolSize B) (r : Nat) (q : Request poolSize B) (found : batch.requests[r]? = some q) :
    Batch poolSize B where
  requests := [q]
  numDecodes := if r < batch.numDecodes then 1 else 0
  decodesFirst := by
    split
    · exact Nat.le_refl 1
    · exact Nat.zero_le 1
  aligned := by
    intro r' q' later listed
    have first : r' = 0 := Nat.lt_one_iff.mp (List.getElem?_eq_some_iff.mp listed).1
    subst first
    cases listed
    split at later
    · exact absurd later (by decide)
    · rename_i prefill
      exact batch.aligned r q (Nat.le_of_not_lt prefill) found
  blocks := by simp
  slots := by
    rw [List.flatMap_singleton]
    exact (List.nodup_flatMap.mp batch.slots).1 q (List.mem_of_getElem? found)

end Ownership

-- A request's slots and ring do not depend on the rest of the batch, and what
-- belongs to no request is left as it was.
theorem write_phase_independent (positive : 0 < poolSize) (batch : Batch poolSize B) (steps : List (Nat × Nat))
    (scheduled : Schedule batch.numDecodes (launchWidth batch) steps) (caches : Caches B S) :
    (∀ r q, (found : batch.requests[r]? = some q) → ∀ ownSteps,
      Schedule (alone batch r q found).numDecodes (launchWidth (alone batch r q found)) ownSteps →
      let together := writePhase zero batch ops roundScale ape steps caches
      let single := writePhase zero (alone batch r q found) ops roundScale ape ownSteps caches
      (∀ slot, slot ∈ q.pools → together.index slot = single.index slot) ∧
      ∀ s, s < poolSize → together.tail (q.tailBlock * poolSize + s) = single.tail (q.tailBlock * poolSize + s)) ∧
    (∀ slot, (∀ q ∈ batch.requests, slot ∉ q.pools) →
      (writePhase zero batch ops roundScale ape steps caches).index slot = caches.index slot) ∧
    ∀ place, (∀ q ∈ batch.requests, q.tailBlock ≠ place / poolSize) →
      (writePhase zero batch ops roundScale ape steps caches).tail place = caches.tail place := by
  refine ⟨?_,?_,?_⟩
  · intro r q found ownSteps ownScheduled together single
    have inBatch := phase_own ops roundScale ape zero positive scheduled found caches
    have first : (alone batch r q found).requests[0]? = some q := rfl
    have bySelf := phase_own ops roundScale ape zero positive ownScheduled first caches
    have kind : (0 < (alone batch r q found).numDecodes) = (r < batch.numDecodes) := by
      show (0 < if r < batch.numDecodes then 1 else 0) = _
      split
      · rename_i decode
        exact propext ⟨fun _ => decode,fun _ => Nat.one_pos⟩
      · rename_i prefill
        exact propext ⟨fun wrong => absurd wrong (Nat.lt_irrefl 0),fun decode => absurd decode prefill⟩
    simp only [kind] at bySelf
    constructor
    · intro slot mine
      exact (inBatch.1 slot ⟨q,found,mine⟩).trans (bySelf.1 slot ⟨q,first,mine⟩).symm
    · intro s inside
      have block := (Ragged.grid_row (r := q.tailBlock) inside).symm
      exact (inBatch.2 _ ⟨q,found,block⟩).trans (bySelf.2 _ ⟨q,first,block⟩).symm
  · intro slot nobody
    apply (phase_rest ops roundScale ape zero positive scheduled caches).1
    rintro r ⟨q,found,mine⟩
    exact nobody q (List.mem_of_getElem? found) mine
  · intro place nobody
    apply (phase_rest ops roundScale ape zero positive scheduled caches).2
    rintro r ⟨q,found,mine⟩
    exact nobody q (List.mem_of_getElem? found) mine

end Programs

def mixedRequests : List (Request 2 Int) :=
  [⟨1,[KpoolRing.zeroRow,KpoolRing.spikeRow],3,[4],by decide⟩,
    ⟨2,[KpoolRing.zeroRow,KpoolRing.spikeRow,KpoolRing.zeroRow],5,[7,8],by decide⟩,⟨0,[KpoolRing.spikeRow],6,[],by decide⟩]

def mixedBatch : Batch 2 Int where
  requests := mixedRequests
  numDecodes := 1
  decodesFirst := by decide
  aligned := by
    intro r q later found
    have bound : r < 3 := (List.getElem?_eq_some_iff.mp found).1
    interval_cases r
    · cases found
      exact ⟨1,rfl⟩
    · cases found
      exact ⟨0,rfl⟩
  blocks := by decide
  slots := by decide

theorem mixed_scheduled : Schedule mixedBatch.numDecodes (launchWidth mixedBatch) [(0,0),(0,1)] := by
  constructor
  · intro r bound
    obtain rfl : r = 0 := Nat.lt_one_iff.mp bound
    rfl
  · decide

theorem write_phase_independent_mixed :
    let together := writePhase KpoolRing.zeroRow mixedBatch KpoolRing.ratOps true KpoolRing.zeroApe [(0,0),(0,1)]
      ⟨fun _ => ⟨[],2⟩,fun _ => KpoolRing.zeroRow⟩
    let single := writePhase KpoolRing.zeroRow (alone mixedBatch 1 _ rfl) KpoolRing.ratOps true KpoolRing.zeroApe []
      ⟨fun _ => ⟨[],2⟩,fun _ => KpoolRing.zeroRow⟩
    together.index 8 = single.index 8 ∧ together.tail (5 * 2 + 1) = single.tail (5 * 2 + 1) ∧
      together.index 9 = ⟨[],2⟩ := by
  obtain ⟨own,slots,_⟩ := write_phase_independent KpoolRing.ratOps true KpoolRing.zeroApe KpoolRing.zeroRow
    (by decide) mixedBatch [(0,0),(0,1)] mixed_scheduled ⟨fun _ => ⟨[],2⟩,fun _ => KpoolRing.zeroRow⟩
  obtain ⟨pools,ring⟩ := own 1 _ rfl [] ⟨fun _ bound => absurd bound (Nat.not_lt_zero _),by simp⟩
  refine ⟨pools 8 (by decide),ring 1 (by decide),slots 9 ?_⟩
  intro q member
  rcases List.mem_cons.mp member with rfl | member
  · decide
  · rcases List.mem_cons.mp member with rfl | member
    · decide
    · obtain rfl := List.mem_singleton.mp member
      decide

end Glm5Next.KpoolWritePhase
