import Glm5Next.DecodeLayout
import Mathlib.Data.List.Induction

namespace Glm5Next.TailSlots
open DecodeLayout StoreWrites

-- What the tail group's builder reads of a batch: query_start_loc may be longer
-- than the batch, and the tail group has one block a request, in column 0.
structure CommonAttentionMetadata where
  numReqs : Nat
  queryStartLoc : List Nat
  blockTable : Nat → Nat → Nat
  positions : Option (Nat → Nat)
  slotMapping : List Int

def ownBlock (m : CommonAttentionMetadata) (r : Nat) : Nat := m.blockTable r 0

-- query_start_loc[1 : n + 1] - query_start_loc[: n]
def queryCounts (queryStartLoc : List Nat) (n : Nat) : List Nat :=
  (List.range n).map fun r => queryStartLoc.getD (r + 1) 0 - queryStartLoc.getD r 0

-- On a sorted sequence: how many entries are at most `value`.
def searchsortedRight (sorted : List Nat) (value : Nat) : Nat :=
  (sorted.takeWhile fun entry => decide (entry ≤ value)).length

def computeKpoolTailSlotMapping (m : CommonAttentionMetadata) (positions : Nat → Nat) (numActualTokens kpool : Nat) :
    List Int :=
  if numActualTokens = 0 then m.slotMapping
  else m.slotMapping.zipIdx.map fun (slot,i) =>
    if i < numActualTokens then
      let req := min (searchsortedRight m.queryStartLoc i - 1) (m.numReqs - 1)
      ((ownBlock m req * kpool + positions i % kpool : Nat) : Int)
    else slot

structure KpoolTailMetadataBuilder where
  kpool : Nat
  cachedOwnBlocks : Option (List Nat)

def KpoolTailMetadataBuilder.init (kpool : Nat) : KpoolTailMetadataBuilder := ⟨kpool,none⟩

structure TailMetadata where
  slotMapping : List Int
  tailOwnBlocks : Option (List Nat)
  tailKpool : Nat

def firstColumn (m : CommonAttentionMetadata) : List Nat := (List.range m.numReqs).map (ownBlock m)

def build (builder : KpoolTailMetadataBuilder) (m : CommonAttentionMetadata) :
    KpoolTailMetadataBuilder × TailMetadata :=
  match m.positions with
  | some positions =>
    let cached := some (firstColumn m)
    let blockIds := (Ragged.owners (queryCounts m.queryStartLoc m.numReqs)).map (ownBlock m)
    let slotMapping := blockIds.zipIdx.map fun (block,i) =>
      ((block * builder.kpool + positions i % builder.kpool : Nat) : Int)
    ({ builder with cachedOwnBlocks := cached },⟨slotMapping,cached,builder.kpool⟩)
  | none => (builder,⟨m.slotMapping,builder.cachedOwnBlocks,builder.kpool⟩)

-- The host-side flags of the decode write: a uniform batch is a view of the
-- flat tokens, any other is scattered into a padded [num_requests,lmax] grid.
def useUniform (groupLens : List Nat) (numDecodeTokens : Nat) : Bool :=
  decide (minDecodeLen groupLens = maxDecodeLen groupLens ∧
    numDecodeTokens = groupLens.length * maxDecodeLen groupLens)

def gridWidth (groupLens : List Nat) (numDecodeTokens : Nat) : Nat :=
  if useUniform groupLens numDecodeTokens then numDecodeTokens / groupLens.length else maxDecodeLen groupLens

def groupTokens (groupLens : List Nat) (numDecodeTokens : Nat) (tokens : Nat → α) (padValue : α) : Nat × Nat → α :=
  if useUniform groupLens numDecodeTokens then fun (b,t) => tokens (b * gridWidth groupLens numDecodeTokens + t)
  else scatterDecodeTokensByRequest tokens padValue (buildDecodeScatterIndices groupLens numDecodeTokens)

-- The tail slots of the grid, computed again from the request's own block.
def decTailSlot (kpool : Nat) (ownBlocks groupLens : List Nat) (numDecodeTokens : Nat) (positions : Nat → Nat) :
    Nat × Nat → Int :=
  if useUniform groupLens numDecodeTokens then
    let width := gridWidth groupLens numDecodeTokens
    fun (b,t) => ((ownBlocks.getD b 0 * kpool + positions (b * width + t) % kpool : Nat) : Int)
  else
    let ownExp := (Ragged.owners groupLens).map fun b => ownBlocks.getD b 0
    let tailFlat := fun i => ((ownExp.getD i 0 * kpool + positions i % kpool : Nat) : Int)
    scatterDecodeTokensByRequest tailFlat (-1) (buildDecodeScatterIndices groupLens numDecodeTokens)

section Grid
variable {groupLens : List Nat} {r k len : Nat}

theorem uniform_parts (uniform : useUniform groupLens groupLens.sum = true) (found : groupLens[r]? = some len) :
    len = gridWidth groupLens groupLens.sum ∧
      ∀ k, Ragged.start groupLens r + k = r * gridWidth groupLens groupLens.sum + k := by
  obtain ⟨same,counted⟩ := of_decide_eq_true uniform
  have bound := (List.getElem?_eq_some_iff.mp found).1
  have width : gridWidth groupLens groupLens.sum = maxDecodeLen groupLens := by
    rw [gridWidth,if_pos uniform,counted]
    exact Nat.mul_div_cancel_left _ (Nat.lt_of_le_of_lt (Nat.zero_le r) bound)
  rw [width]
  exact ⟨(uniform_token 0 same found).1,fun k => (uniform_token k same found).2.1⟩

theorem grid_wide (found : groupLens[r]? = some len) : len ≤ gridWidth groupLens groupLens.sum := by
  cases uniform : useUniform groupLens groupLens.sum with
  | true => exact Nat.le_of_eq (uniform_parts uniform found).1
  | false =>
      rw [gridWidth,if_neg (by simp [uniform])]
      exact len_le_max (List.mem_of_getElem? found)

theorem group_exact (tokens : Nat → α) (padValue : α) (found : groupLens[r]? = some len) (inside : k < len) :
    groupTokens groupLens groupLens.sum tokens padValue (r,k) = tokens (Ragged.start groupLens r + k) := by
  unfold groupTokens
  cases uniform : useUniform groupLens groupLens.sum with
  | true =>
      rw [if_pos rfl]
      exact congrArg tokens ((uniform_parts uniform found).2 k).symm
  | false =>
      rw [if_neg Bool.false_ne_true]
      exact scattered_exact tokens padValue found inside

theorem group_pad (tokens : Nat → α) (padValue : α) (found : groupLens[r]? = some len) (past : len ≤ k)
    (wide : k < gridWidth groupLens groupLens.sum) :
    groupTokens groupLens groupLens.sum tokens padValue (r,k) = padValue := by
  unfold groupTokens
  cases uniform : useUniform groupLens groupLens.sum with
  | true =>
      have own := (uniform_parts uniform found).1
      omega
  | false =>
      rw [if_neg Bool.false_ne_true]
      exact scattered_pad tokens padValue found past

theorem dec_tail_exact (kpool : Nat) (ownBlocks : List Nat) (positions : Nat → Nat) (found : groupLens[r]? = some len)
    (inside : k < len) :
    decTailSlot kpool ownBlocks groupLens groupLens.sum positions (r,k) =
      ((ownBlocks.getD r 0 * kpool + positions (Ragged.start groupLens r + k) % kpool : Nat) : Int) := by
  unfold decTailSlot
  cases uniform : useUniform groupLens groupLens.sum with
  | true =>
      rw [if_pos rfl,(uniform_parts uniform found).2 k]
  | false =>
      rw [if_neg Bool.false_ne_true,scattered_exact _ _ found inside]
      simp only [List.getD_eq_getElem?_getD,List.getElem?_map,Ragged.owners_get found inside,Option.map_some,
        Option.getD_some]

theorem dec_tail_pad (kpool : Nat) (ownBlocks : List Nat) (positions : Nat → Nat) (found : groupLens[r]? = some len)
    (past : len ≤ k) (wide : k < gridWidth groupLens groupLens.sum) :
    decTailSlot kpool ownBlocks groupLens groupLens.sum positions (r,k) = -1 := by
  unfold decTailSlot
  cases uniform : useUniform groupLens groupLens.sum with
  | true =>
      have own := (uniform_parts uniform found).1
      omega
  | false =>
      rw [if_neg Bool.false_ne_true]
      exact scattered_pad _ _ found past

end Grid

-- query_start_loc of a batch: sorted from 0 on, with an entry behind the last
-- request; entries after that are padding.
structure Sorted (m : CommonAttentionMetadata) : Prop where
  ordered : m.queryStartLoc.Pairwise (· ≤ ·)
  first : m.queryStartLoc[0]? = some 0
  covered : m.numReqs < m.queryStartLoc.length

def IsToken (m : CommonAttentionMetadata) (r i : Nat) : Prop :=
  r < m.numReqs ∧ m.queryStartLoc.getD r 0 ≤ i ∧ i < m.queryStartLoc.getD (r + 1) 0

section Flat
variable {m : CommonAttentionMetadata} (sorted : Sorted m)

theorem first_column_get (inside : r < m.numReqs) : (firstColumn m).getD r 0 = ownBlock m r := by
  rw [List.getD_eq_getElem?_getD,firstColumn,List.getElem?_map,List.getElem?_range inside]
  rfl

theorem getD_at {lens : List Nat} (inside : a < lens.length) : lens.getD a 0 = lens[a] := by
  rw [List.getD_eq_getElem?_getD,List.getElem?_eq_getElem inside,Option.getD_some]

include sorted

theorem loc_ordered (before : a ≤ b) (inside : b < m.queryStartLoc.length) :
    m.queryStartLoc.getD a 0 ≤ m.queryStartLoc.getD b 0 := by
  rw [getD_at (Nat.lt_of_le_of_lt before inside),getD_at inside]
  rcases Nat.lt_or_eq_of_le before with less | rfl
  · exact List.pairwise_iff_getElem.mp sorted.ordered a b _ inside less
  · exact Nat.le_refl _

theorem counts_start (inside : r ≤ n) (bounded : n ≤ m.numReqs) :
    Ragged.start (queryCounts m.queryStartLoc n) r = m.queryStartLoc.getD r 0 := by
  induction r with
  | zero =>
      rw [Ragged.start_zero,List.getD_eq_getElem?_getD,sorted.first]
      rfl
  | succ r ih =>
      have covered := sorted.covered
      have listed : (queryCounts m.queryStartLoc n)[r]? =
          some (m.queryStartLoc.getD (r + 1) 0 - m.queryStartLoc.getD r 0) := by
        rw [queryCounts,List.getElem?_map,List.getElem?_range inside,Option.map_some]
      have grows := loc_ordered sorted (Nat.le_add_right r 1) (by omega)
      rw [Ragged.start_succ listed,ih (Nat.le_of_succ_le inside)]
      omega

theorem token_parts (token : IsToken m r i) (inside : r < n) (bounded : n ≤ m.numReqs) :
    ∃ len k, (queryCounts m.queryStartLoc n)[r]? = some len ∧ k < len ∧
      k = i - m.queryStartLoc.getD r 0 ∧ i = Ragged.start (queryCounts m.queryStartLoc n) r + k := by
  obtain ⟨_,low,high⟩ := token
  refine ⟨m.queryStartLoc.getD (r + 1) 0 - m.queryStartLoc.getD r 0,i - m.queryStartLoc.getD r 0,?_,?_,rfl,?_⟩
  · rw [queryCounts,List.getElem?_map,List.getElem?_range inside,Option.map_some]
  · omega
  · rw [counts_start sorted (Nat.le_of_lt inside) bounded]
    omega

theorem searchsorted_exact (token : IsToken m r i) : searchsortedRight m.queryStartLoc i = r + 1 := by
  obtain ⟨inside,low,high⟩ := token
  have covered := sorted.covered
  have head : ∀ entry ∈ m.queryStartLoc.take (r + 1), decide (entry ≤ i) = true := by
    intro entry member
    obtain ⟨a,bound,rfl⟩ := List.mem_iff_getElem.mp member
    rw [List.length_take] at bound
    rw [List.getElem_take,decide_eq_true_iff]
    have before := loc_ordered sorted (show a ≤ r by omega) (by omega)
    rw [getD_at (show a < m.queryStartLoc.length by omega)] at before
    omega
  have split := List.take_append_drop (r + 1) m.queryStartLoc
  have next : m.queryStartLoc.drop (r + 1) = m.queryStartLoc[r + 1] :: m.queryStartLoc.drop (r + 1 + 1) :=
    List.drop_eq_getElem_cons (by omega)
  have past : ¬ m.queryStartLoc[r + 1] ≤ i := by
    rw [getD_at (show r + 1 < m.queryStartLoc.length by omega)] at high
    omega
  unfold searchsortedRight
  rw [← split,List.takeWhile_append_of_pos head,next,List.takeWhile_cons_of_neg (by simpa using past),
    List.append_nil,List.length_take]
  omega

theorem built_slot (builder : KpoolTailMetadataBuilder) (given : m.positions = some positions)
    (token : IsToken m r i) :
    (build builder m).2.slotMapping[i]? =
      some ((ownBlock m r * builder.kpool + positions i % builder.kpool : Nat) : Int) := by
  obtain ⟨len,k,listed,inside,_,flat⟩ := token_parts sorted token token.1 (Nat.le_refl _)
  have owner := Ragged.owners_get listed inside
  rw [← flat] at owner
  simp only [build,given]
  rw [List.getElem?_map,List.getElem?_zipIdx,List.getElem?_map,owner]
  simp

theorem computed_slot (positions : Nat → Nat) (kpool : Nat) (token : IsToken m r i) (actual : i < numActualTokens)
    (sized : numActualTokens ≤ m.slotMapping.length) :
    (computeKpoolTailSlotMapping m positions numActualTokens kpool)[i]? =
      some ((ownBlock m r * kpool + positions i % kpool : Nat) : Int) := by
  have inside := token.1
  have listed : i < m.slotMapping.length := by omega
  have req : min (searchsortedRight m.queryStartLoc i - 1) (m.numReqs - 1) = r := by
    rw [searchsorted_exact sorted token]
    omega
  unfold computeKpoolTailSlotMapping
  rw [if_neg (by omega),List.getElem?_map,List.getElem?_zipIdx,List.getElem?_eq_getElem listed]
  simp [actual,req]

theorem own_slot (kpool : Nat) (positions : Nat → Nat) (bounded : numDecodes ≤ m.numReqs)
    (decode : r < numDecodes) (token : IsToken m r i) :
    decTailSlot kpool (firstColumn m) (queryCounts m.queryStartLoc numDecodes)
      (queryCounts m.queryStartLoc numDecodes).sum positions (r,i - m.queryStartLoc.getD r 0) =
        ((ownBlock m r * kpool + positions i % kpool : Nat) : Int) := by
  obtain ⟨len,k,listed,inside,offset,flat⟩ := token_parts sorted token decode bounded
  rw [← offset,dec_tail_exact kpool _ positions listed inside,first_column_get token.1,← flat]

end Flat

-- Requests packed one after the other, as the metadata builder describes them.
-- The generic slot mapping is not read when positions are given.
def packed (queryLens : List Nat) (tailBlock positions : Nat → Nat) : CommonAttentionMetadata where
  numReqs := queryLens.length
  queryStartLoc := (List.range (queryLens.length + 1)).map (Ragged.start queryLens)
  blockTable := fun r _ => tailBlock r
  positions := some positions
  slotMapping := []

section Packed
variable {queryLens : List Nat} (tailBlock positions : Nat → Nat)

theorem packed_loc (bounded : r ≤ queryLens.length) :
    (packed queryLens tailBlock positions).queryStartLoc.getD r 0 = Ragged.start queryLens r := by
  rw [List.getD_eq_getElem?_getD,packed,List.getElem?_map,List.getElem?_range (Nat.lt_succ_of_le bounded)]
  rfl

theorem packed_sorted (queryLens : List Nat) : Sorted (packed queryLens tailBlock positions) where
  ordered := by
    refine List.pairwise_map.mpr (List.pairwise_lt_range.imp ?_)
    intro a b before
    exact Ragged.start_le _ (Nat.le_of_lt before)
  first := by
    rw [packed,List.getElem?_map,List.getElem?_range (Nat.succ_pos _)]
    exact congrArg some (Ragged.start_zero _)
  covered := by
    simp [packed]

theorem packed_token (found : queryLens[r]? = some len) (inside : k < len) :
    IsToken (packed queryLens tailBlock positions) r (Ragged.start queryLens r + k) := by
  have bound := (List.getElem?_eq_some_iff.mp found).1
  refine ⟨bound,?_,?_⟩
  · rw [packed_loc tailBlock positions (Nat.le_of_lt bound)]
    exact Nat.le_add_right _ _
  · rw [packed_loc tailBlock positions bound,Ragged.start_succ found]
    exact Nat.add_lt_add_left inside _

theorem packed_slot (builder : KpoolTailMetadataBuilder) (found : queryLens[r]? = some len) (inside : k < len) :
    (build builder (packed queryLens tailBlock positions)).2.slotMapping.getD (Ragged.start queryLens r + k) (-1) =
      ((tailBlock r * builder.kpool + positions (Ragged.start queryLens r + k) % builder.kpool : Nat) : Int) := by
  have token := packed_token tailBlock positions found inside
  rw [List.getD_eq_getElem?_getD,built_slot (packed_sorted tailBlock positions queryLens) builder rfl token]
  rfl

theorem packed_block (found : queryLens[r]? = some len) :
    (firstColumn (packed queryLens tailBlock positions)).getD r 0 = tailBlock r :=
  first_column_get (List.getElem?_eq_some_iff.mp found).1

end Packed

-- A token of request r has one tail slot, whoever computes it; the padding of
-- the decode grid has none.
theorem tail_slots_agree (m : CommonAttentionMetadata) (sorted : Sorted m) (builder : KpoolTailMetadataBuilder)
    (positions : Nat → Nat) (given : m.positions = some positions) (numDecodes : Nat) (bounded : numDecodes ≤ m.numReqs) :
    let decodeLens := queryCounts m.queryStartLoc numDecodes
    ∃ ownBlocks, (build builder m).2.tailOwnBlocks = some ownBlocks ∧
    (∀ r i, IsToken m r i →
      (build builder m).2.slotMapping[i]? =
        some ((ownBlock m r * builder.kpool + positions i % builder.kpool : Nat) : Int) ∧
      (∀ numActualTokens, i < numActualTokens → numActualTokens ≤ m.slotMapping.length →
        (computeKpoolTailSlotMapping m positions numActualTokens builder.kpool)[i]? =
          some ((ownBlock m r * builder.kpool + positions i % builder.kpool : Nat) : Int)) ∧
      (r < numDecodes →
        decTailSlot builder.kpool ownBlocks decodeLens decodeLens.sum positions
          (r,i - m.queryStartLoc.getD r 0) =
            ((ownBlock m r * builder.kpool + positions i % builder.kpool : Nat) : Int))) ∧
    ∀ r k, r < numDecodes → m.queryStartLoc.getD (r + 1) 0 - m.queryStartLoc.getD r 0 ≤ k →
      k < gridWidth decodeLens decodeLens.sum →
      decTailSlot builder.kpool ownBlocks decodeLens decodeLens.sum positions (r,k) = -1 := by
  intro decodeLens
  refine ⟨firstColumn m,by simp only [build,given],?_,?_⟩
  · intro r i token
    refine ⟨built_slot sorted builder given token,fun n => computed_slot sorted positions builder.kpool token,?_⟩
    exact fun decode => own_slot sorted builder.kpool positions bounded decode token
  · intro r k decode past wide
    have listed : decodeLens[r]? = some (m.queryStartLoc.getD (r + 1) 0 - m.queryStartLoc.getD r 0) := by
      rw [show decodeLens = queryCounts m.queryStartLoc numDecodes from rfl,queryCounts,List.getElem?_map,
        List.getElem?_range decode,Option.map_some]
    exact dec_tail_pad builder.kpool _ positions listed past wide

def verifyBatch : CommonAttentionMetadata where
  numReqs := 3
  queryStartLoc := [0,3,3,4,4]
  blockTable := fun r _ => 7 + r
  positions := some fun i => 9 + i
  slotMapping := List.replicate 4 0

theorem verify_sorted : Sorted verifyBatch := ⟨by decide,rfl,by decide⟩

theorem tail_slots_agree_verify :
    ∃ ownBlocks, (build (.init 4) verifyBatch).2.tailOwnBlocks = some ownBlocks ∧
      (build (.init 4) verifyBatch).2.slotMapping[3]? = some 36 ∧
      (computeKpoolTailSlotMapping verifyBatch (fun i => 9 + i) 4 4)[3]? = some 36 ∧
      decTailSlot 4 ownBlocks [3,0,1] 4 (fun i => 9 + i) (2,0) = 36 ∧
      decTailSlot 4 ownBlocks [3,0,1] 4 (fun i => 9 + i) (1,2) = -1 := by
  obtain ⟨ownBlocks,given,tokens,padding⟩ :=
    tail_slots_agree verifyBatch verify_sorted (.init 4) (fun i => 9 + i) rfl 3 (by decide)
  obtain ⟨built,computed,decoded⟩ := tokens 2 3 ⟨by decide,by decide,by decide⟩
  exact ⟨ownBlocks,given,built,computed 4 (by decide) (by decide),decoded (by decide),
    padding 1 2 (by decide) (by decide) (by decide)⟩

def afterBuilds (builder : KpoolTailMetadataBuilder) (calls : List CommonAttentionMetadata) : KpoolTailMetadataBuilder :=
  calls.foldl (fun builder m => (build builder m).1) builder

def lastGiven (calls : List CommonAttentionMetadata) : Option CommonAttentionMetadata :=
  calls.foldl (fun last m => if m.positions.isSome then some m else last) none

-- What the decode write relies on: the blocks are those of this batch, and every
-- decode token is stashed into the block of its own request.
structure Describes (m : CommonAttentionMetadata) (metadata : TailMetadata) : Prop where
  blocks : metadata.tailOwnBlocks = none ∨ metadata.tailOwnBlocks = some (firstColumn m)
  stashed : ∀ ownBlocks, metadata.tailOwnBlocks = some ownBlocks →
    ∀ (positions : Nat → Nat) (numDecodes r i : Nat), numDecodes ≤ m.numReqs → r < numDecodes → IsToken m r i →
      decTailSlot metadata.tailKpool ownBlocks (queryCounts m.queryStartLoc numDecodes)
        (queryCounts m.queryStartLoc numDecodes).sum positions (r,i - m.queryStartLoc.getD r 0) =
          ((ownBlock m r * metadata.tailKpool + positions i % metadata.tailKpool : Nat) : Int)

def Repeats (calls : List CommonAttentionMetadata) (m : CommonAttentionMetadata) : Prop :=
  ∀ earlier, lastGiven calls = some earlier → firstColumn earlier = firstColumn m

section Builds
variable (builder : KpoolTailMetadataBuilder) (m : CommonAttentionMetadata)

theorem build_given (given : m.positions.isSome) : (build builder m).1.cachedOwnBlocks = some (firstColumn m) ∧
    (build builder m).2.tailOwnBlocks = some (firstColumn m) := by
  obtain ⟨positions,found⟩ := Option.isSome_iff_exists.mp given
  simp only [build,found]
  exact ⟨trivial,trivial⟩

theorem build_missing (missing : m.positions = none) : (build builder m).1 = builder ∧
    (build builder m).2.tailOwnBlocks = builder.cachedOwnBlocks := by
  simp only [build,missing]
  exact ⟨trivial,trivial⟩

-- The cache holds the blocks of the last batch that came with positions.
theorem cached_exact (kpool : Nat) (calls : List CommonAttentionMetadata) :
    (afterBuilds (.init kpool) calls).cachedOwnBlocks = (lastGiven calls).map firstColumn := by
  induction calls using List.reverseRecOn with
  | nil => rfl
  | append_singleton calls m ih =>
      have built : afterBuilds (.init kpool) (calls ++ [m]) = (build (afterBuilds (.init kpool) calls) m).1 :=
        List.foldl_append
      have last : lastGiven (calls ++ [m]) = if m.positions.isSome then some m else lastGiven calls :=
        List.foldl_append
      rw [built,last]
      by_cases given : m.positions.isSome
      · rw [if_pos given,(build_given _ m given).1]
        rfl
      · rw [if_neg given,(build_missing _ m (Option.not_isSome_iff_eq_none.mp given)).1]
        exact ih

end Builds

-- Whatever calls came before: the metadata describes its batch exactly when the
-- batch has positions or repeats the cached blocks.
theorem tail_blocks_exact (kpool : Nat) (calls : List CommonAttentionMetadata) (m : CommonAttentionMetadata)
    (sorted : Sorted m) :
    Describes m (build (afterBuilds (.init kpool) calls) m).2 ↔ m.positions.isSome ∨ Repeats calls m := by
  have described : ∀ metadata, (metadata.tailOwnBlocks = none ∨ metadata.tailOwnBlocks = some (firstColumn m)) →
      Describes m metadata := by
    intro metadata blocks
    refine ⟨blocks,?_⟩
    intro ownBlocks given positions numDecodes r i bounded decode token
    rcases blocks with absent | own
    · rw [absent] at given
      cases given
    · rw [own] at given
      cases given
      exact own_slot sorted _ positions bounded decode token
  by_cases given : m.positions.isSome
  · exact ⟨fun _ => Or.inl given,fun _ => described _ (Or.inr (build_given _ m given).2)⟩
  · have missing := Option.not_isSome_iff_eq_none.mp given
    have own := (build_missing (afterBuilds (.init kpool) calls) m missing).2
    rw [cached_exact] at own
    constructor
    · intro holds
      refine Or.inr fun earlier found => ?_
      have blocks := holds.blocks
      rw [own,found] at blocks
      simpa using blocks
    · intro either
      rcases either with some_given | repeats
      · exact absurd some_given given
      · apply described
        rw [own]
        cases found : lastGiven calls with
        | none => exact Or.inl rfl
        | some earlier => exact Or.inr (congrArg some (repeats earlier found))

def laterBatch : CommonAttentionMetadata where
  numReqs := 1
  queryStartLoc := [0,1]
  blockTable := fun _ _ => 3
  positions := none
  slotMapping := [12]

theorem later_sorted : Sorted laterBatch := ⟨by decide,rfl,by decide⟩

theorem tail_blocks_exact_later : Describes verifyBatch (build (afterBuilds (.init 4) [laterBatch]) verifyBatch).2 :=
  (tail_blocks_exact 4 [laterBatch] verifyBatch verify_sorted).mpr (Or.inl rfl)

-- The token of the later batch goes to block 7 of the earlier one.
theorem stale_block_stashed :
    Sorted laterBatch ∧ (build (afterBuilds (.init 4) [verifyBatch]) laterBatch).2.tailOwnBlocks = some [7,8,9] ∧
      decTailSlot 4 [7,8,9] [1] 1 (fun _ => 0) (0,0) = 28 ∧
      ¬ Describes laterBatch (build (afterBuilds (.init 4) [verifyBatch]) laterBatch).2 := by
  refine ⟨later_sorted,rfl,by decide,?_⟩
  intro holds
  have blocks := holds.blocks
  revert blocks
  decide

end Glm5Next.TailSlots
