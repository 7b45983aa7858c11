import Mathlib.Data.List.Nodup
import Glm5Next.DecodeRows
import Glm5Next.InterleavedShards
import Glm5Next.PrefillWindows
import Glm5Next.TopKSelection

-- The sparse indexer under decode context parallelism: every rank scores its own
-- shard of the keys, and the ranks merge what they selected.
namespace Glm5Next.DcpMerge
open InterleavedShards TopKSelection
variable {β : Type} [LinearOrder β]

def chosenIds (ids : List Int) : Finset Nat := ((ids.filter fun id => decide (0 ≤ id)).map Int.toNat).toFinset

-- What a top-k primitive leaves in a row: k ids, the best of the candidates, and
-- -1 in the other places.
structure TopKOf (score : Nat → β) (k : Nat) (candidates : Finset Nat) (ids : List Int) : Prop where
  size : ids.length = k
  entries : ∀ id ∈ ids, id = -1 ∨ 0 ≤ id
  distinct : (ids.filter fun id => decide (0 ≤ id)).Nodup
  selects : Selects score k candidates (chosenIds ids)

-- pack_dcp_topk_candidates_cutedsl and stable_topk_from_gathered_candidates_cutedsl,
-- on one row.
structure MergeKernels (β : Type) where
  pack : (Nat → β) → List Int → Nat → Nat → Nat → Nat → List (β × Int)
  stableTopk : List (β × Int) → Nat → List Int

def candidate (logits : Nat → β) (rank world interleave rowStart : Nat) (filler : β) (id : Int) : β × Int :=
  if id < 0 then (filler,-1)
  else (logits (rowStart + id.toNat),(globalId world interleave rank id.toNat : Nat))

structure Documented (kernels : MergeKernels β) : Prop where
  packed : ∀ logits ids rank world interleave rowStart, ∃ filler,
    kernels.pack logits ids rank world interleave rowStart = ids.map (candidate logits rank world interleave rowStart filler)
  stable : ∀ candidates k (score : Nat → β), (∀ c ∈ candidates, 0 ≤ c.2 → c.1 = score c.2.toNat) →
    ((candidates.map Prod.snd).filter fun id => decide (0 ≤ id)).Nodup →
    TopKOf score k (chosenIds (candidates.map Prod.snd)) (kernels.stableTopk candidates k)

-- A rank's row: its logits, the ids it selected, and where the row starts.
structure Shard (β : Type) where
  logits : Nat → β
  topkIndices : List Int
  rowStart : Nat

def mergeSupported (hasCutedsl : Bool) (k : Nat) : Bool := hasCutedsl && (k == 512 || k == 1024 || k == 2048)

-- None stands for an exception. all_gather puts the ranks' candidates after each
-- other.
def mergeDcpTopkGlobal (kernels : MergeKernels β) (hasCutedsl : Bool) (topkTokens dcpRank dcpWorldSize cpInterleave : Nat)
    (shards : Nat → Shard β) : Option (List Int) :=
  if dcpWorldSize ≤ 1 then some (shards dcpRank).topkIndices
  else if mergeSupported hasCutedsl topkTokens then
    some (kernels.stableTopk ((List.range dcpWorldSize).flatMap fun rank =>
      kernels.pack (shards rank).logits (shards rank).topkIndices rank dcpWorldSize cpInterleave (shards rank).rowStart)
      topkTokens)
  else none

theorem mem_chosen : n ∈ chosenIds ids ↔ (n : Int) ∈ ids := by
  simp only [chosenIds,List.mem_toFinset,List.mem_map,List.mem_filter,decide_eq_true_eq]
  constructor
  · rintro ⟨id,⟨listed,low⟩,rfl⟩
    rwa [Int.toNat_of_nonneg low]
  · intro listed
    exact ⟨n,⟨listed,Int.natCast_nonneg n⟩,Int.toNat_natCast n⟩

section Candidates
variable (logits : Nat → β) (rank world interleave rowStart : Nat) (filler : β)

omit [LinearOrder β] in
theorem candidate_kept (n : Nat) : candidate logits rank world interleave rowStart filler n =
    (logits (rowStart + n),((globalId world interleave rank n : Nat) : Int)) :=
  if_neg (Int.not_lt.mpr (Int.natCast_nonneg n))

omit [LinearOrder β] in
theorem candidate_ids (ids : List Int) :
    ((ids.map (candidate logits rank world interleave rowStart filler)).map Prod.snd).filter (fun id => decide (0 ≤ id)) =
      ((ids.filter fun id => decide (0 ≤ id)).map fun id => (globalId world interleave rank id.toNat : Int)) := by
  induction ids with
  | nil => rfl
  | cons id rest ih =>
      rw [List.map_cons,List.map_cons,List.filter_cons,List.filter_cons,ih]
      by_cases padded : id < 0
      · simp [candidate,padded,not_le_of_gt padded]
      · simp [candidate,padded,le_of_not_gt padded]

omit [LinearOrder β] in
theorem mem_candidates {ids : List Int} : c ∈ ids.map (candidate logits rank world interleave rowStart filler) → 0 ≤ c.2 →
    ∃ n : Nat, (n : Int) ∈ ids ∧ c = (logits (rowStart + n),((globalId world interleave rank n : Nat) : Int)) := by
  intro member low
  obtain ⟨id,listed,rfl⟩ := List.mem_map.mp member
  by_cases padded : id < 0
  · simp [candidate,padded] at low
  · obtain ⟨n,rfl⟩ := Int.eq_ofNat_of_zero_le (le_of_not_gt padded)
    exact ⟨n,listed,candidate_kept _ _ _ _ _ _ n⟩

end Candidates

section Merge
variable {kernels : MergeKernels β} {score : Nat → β} {world interleave topkTokens len : Nat} {shards : Nat → Shard β}

structure ShardExact (score : Nat → β) (world interleave topkTokens len rank : Nat) (shard : Shard β) : Prop where
  scored : ∀ j < localLen world interleave rank len,
    shard.logits (shard.rowStart + j) = score (globalId world interleave rank j)
  selected : TopKOf (fun j => shard.logits (shard.rowStart + j)) topkTokens
    (Finset.range (localLen world interleave rank len)) shard.topkIndices

theorem shard_selects (exact : ShardExact score world interleave topkTokens len rank shard) :
    Selects (fun j => score (globalId world interleave rank j)) topkTokens (Finset.range (localLen world interleave rank len))
      (chosenIds shard.topkIndices) := by
  obtain ⟨inside,count,best⟩ := exact.selected.selects
  refine ⟨inside,count,fun x member left_out y kept => ?_⟩
  have better := best x member left_out y kept
  rwa [exact.scored x (Finset.mem_range.mp member),exact.scored y (Finset.mem_range.mp (inside kept))] at better

omit [LinearOrder β] in
theorem gathered_ids (packed : ∀ rank < world, ∃ filler, lists rank =
    (shards rank).topkIndices.map (candidate (shards rank).logits rank world interleave (shards rank).rowStart filler)) :
    chosenIds (((List.range world).flatMap lists).map Prod.snd) =
      (Finset.range world).biUnion fun rank => (chosenIds (shards rank).topkIndices).image (globalId world interleave rank) := by
  ext n
  rw [mem_chosen]
  simp only [List.mem_map,List.mem_flatMap,List.mem_range,Finset.mem_biUnion,Finset.mem_range,Finset.mem_image]
  constructor
  · rintro ⟨c,⟨rank,member,listed⟩,same⟩
    obtain ⟨filler,packed⟩ := packed rank member
    rw [packed] at listed
    obtain ⟨m,chosen,rfl⟩ := mem_candidates _ _ _ _ _ _ listed (by rw [same]; exact Int.natCast_nonneg n)
    exact ⟨rank,member,m,mem_chosen.mpr chosen,Int.ofNat.inj same⟩
  · rintro ⟨rank,member,m,chosen,rfl⟩
    obtain ⟨filler,packed⟩ := packed rank member
    have listed : candidate (shards rank).logits rank world interleave (shards rank).rowStart filler m ∈ lists rank := by
      rw [packed]
      exact List.mem_map_of_mem (mem_chosen.mp chosen)
    exact ⟨_,⟨rank,member,listed⟩,by rw [candidate_kept]⟩

omit [LinearOrder β] in
theorem gathered_distinct (positive : 0 < interleave) (packed : ∀ rank < world, ∃ filler, lists rank =
      (shards rank).topkIndices.map (candidate (shards rank).logits rank world interleave (shards rank).rowStart filler))
    (distinct : ∀ rank < world, ((shards rank).topkIndices.filter fun id => decide (0 ≤ id)).Nodup) :
    ((((List.range world).flatMap lists).map Prod.snd).filter fun id => decide (0 ≤ id)).Nodup := by
  rw [List.map_flatMap,List.filter_flatMap,List.nodup_flatMap]
  have ids : ∀ rank < world, ((lists rank).map Prod.snd).filter (fun id => decide (0 ≤ id)) =
      ((shards rank).topkIndices.filter fun id => decide (0 ≤ id)).map
        fun id => (globalId world interleave rank id.toNat : Int) := by
    intro rank member
    obtain ⟨filler,packed⟩ := packed rank member
    rw [packed,candidate_ids]
  constructor
  · intro rank listed
    have member := List.mem_range.mp listed
    rw [ids rank member]
    refine (List.nodup_map_iff_inj_on (distinct rank member)).mpr fun x chosen y chosen' same => ?_
    have low := of_decide_eq_true (List.mem_filter.mp chosen).2
    have low' := of_decide_eq_true (List.mem_filter.mp chosen').2
    have equal := global_injective positive member (Int.ofNat.inj same)
    omega
  · refine List.Pairwise.imp_of_mem ?_ List.nodup_range
    intro rank other listed listed' apart
    have member := List.mem_range.mp listed
    have member' := List.mem_range.mp listed'
    rw [Function.onFun,ids rank member,ids other member']
    intro id first second
    obtain ⟨x,_,rfl⟩ := List.mem_map.mp first
    obtain ⟨y,_,same⟩ := List.mem_map.mp second
    have owners := congrArg (owner world interleave) (Int.ofNat.inj same)
    rw [global_owner positive member,global_owner positive member'] at owners
    exact apart owners.symm

theorem single_global (interleave j : Nat) : globalId 1 interleave 0 j = j := by
  rw [globalId,Nat.mul_one,Nat.add_zero,Nat.div_add_mod']

theorem single_len (positive : 0 < interleave) (len : Nat) : localLen 1 interleave 0 len = len := by
  have same : ∀ j, j < localLen 1 interleave 0 len ↔ j < len := by
    intro j
    rw [local_len_exact positive Nat.zero_lt_one,single_global]
  have below := same len
  have above := same (localLen 1 interleave 0 len)
  omega

-- Every rank gets the best of all keys, whatever the ranks do with ties.
theorem merge_exact (documented : Documented kernels) (positive : 0 < interleave) (some_rank : 0 < world)
    (supported : 1 < world → mergeSupported hasCutedsl topkTokens = true)
    (exact : ∀ rank < world, ShardExact score world interleave topkTokens len rank (shards rank)) :
    ∃ merged, TopKOf score topkTokens (Finset.range len) merged ∧ ∀ rank < world,
      mergeDcpTopkGlobal kernels hasCutedsl topkTokens rank world interleave shards = some merged := by
  by_cases several : 1 < world
  · have packed : ∀ rank < world, ∃ filler, kernels.pack (shards rank).logits (shards rank).topkIndices rank world
        interleave (shards rank).rowStart = (shards rank).topkIndices.map
          (candidate (shards rank).logits rank world interleave (shards rank).rowStart filler) :=
      fun rank _ => documented.packed _ _ _ _ _ _
    have scores : ∀ c ∈ (List.range world).flatMap (fun rank => kernels.pack (shards rank).logits
        (shards rank).topkIndices rank world interleave (shards rank).rowStart), 0 ≤ c.2 → c.1 = score c.2.toNat := by
      intro c listed low
      obtain ⟨rank,member,inside⟩ := List.mem_flatMap.mp listed
      obtain ⟨filler,packed⟩ := packed rank (List.mem_range.mp member)
      rw [packed] at inside
      obtain ⟨n,chosen,rfl⟩ := mem_candidates _ _ _ _ _ _ inside low
      have held := exact rank (List.mem_range.mp member)
      rw [Int.toNat_natCast]
      exact held.scored n (Finset.mem_range.mp (held.selected.selects.inside (mem_chosen.mpr chosen)))
    have top := documented.stable _ topkTokens score scores
      (gathered_distinct positive packed fun rank member => (exact rank member).selected.distinct)
    rw [gathered_ids packed] at top
    refine ⟨_,⟨top.size,top.entries,top.distinct,?_⟩,fun rank _ => ?_⟩
    · rw [← shards_cover positive some_rank len]
      refine selects_merge (fun rank member => ?_) top.selects
      exact selects_image (global_injective positive (Finset.mem_range.mp member))
        (shard_selects (exact rank (Finset.mem_range.mp member)))
    · rw [mergeDcpTopkGlobal,if_neg (Nat.not_le_of_lt several),if_pos (supported several)]
  · obtain rfl : world = 1 := by omega
    have only := exact 0 Nat.zero_lt_one
    have selects := shard_selects only
    simp only [single_global,single_len positive] at selects
    refine ⟨(shards 0).topkIndices,⟨only.selected.size,only.selected.entries,only.selected.distinct,selects⟩,?_⟩
    intro rank member
    obtain rfl := Nat.lt_one_iff.mp member
    rfl

end Merge

theorem chosen_card (distinct : (ids.filter fun id => decide (0 ≤ id)).Nodup) :
    (chosenIds ids).card = (ids.filter fun id => decide (0 ≤ id)).length := by
  rw [chosenIds,List.toFinset_card_of_nodup,List.length_map]
  refine (List.nodup_map_iff_inj_on distinct).mpr fun x kept y kept' same => ?_
  have low := of_decide_eq_true (List.mem_filter.mp kept).2
  have low' := of_decide_eq_true (List.mem_filter.mp kept').2
  omega

-- Kernels that sort.
section Sorted
variable (candidates : List (β × Int)) (k : Nat)

def sortedCandidates : List (β × Int) :=
  (candidates.filter fun c => decide (0 ≤ c.2)).mergeSort fun a b => decide (b.1 ≤ a.1)

def sortedTopk : List Int :=
  ((sortedCandidates candidates).take k).map Prod.snd ++ List.replicate (k - (sortedCandidates candidates).length) (-1)

theorem mem_sorted : c ∈ sortedCandidates candidates ↔ c ∈ candidates ∧ 0 ≤ c.2 := by
  rw [sortedCandidates,List.mem_mergeSort,List.mem_filter,decide_eq_true_eq]

theorem sorted_ids : ((sortedCandidates candidates).map Prod.snd).Perm
    ((candidates.map Prod.snd).filter fun id => decide (0 ≤ id)) := by
  rw [List.filter_map]
  exact (List.mergeSort_perm _ _).map _

theorem sorted_kept : (sortedTopk candidates k).filter (fun id => decide (0 ≤ id)) =
    ((sortedCandidates candidates).take k).map Prod.snd := by
  have kept : (((sortedCandidates candidates).take k).map Prod.snd).filter (fun id => decide (0 ≤ id)) =
      ((sortedCandidates candidates).take k).map Prod.snd := by
    refine List.filter_eq_self.mpr fun id listed => ?_
    obtain ⟨c,taken,rfl⟩ := List.mem_map.mp listed
    exact decide_eq_true ((mem_sorted candidates).mp (List.mem_of_mem_take taken)).2
  rw [sortedTopk,List.filter_append,kept,List.filter_replicate]
  simp

theorem sorted_ordered : (sortedCandidates candidates).Pairwise fun a b : β × Int => b.1 ≤ a.1 := by
  have transitive : ∀ a b c : β × Int, decide (b.1 ≤ a.1) = true → decide (c.1 ≤ b.1) = true → decide (c.1 ≤ a.1) = true :=
    fun a b c first second => decide_eq_true (le_trans (of_decide_eq_true second) (of_decide_eq_true first))
  have total : ∀ a b : β × Int, (decide (b.1 ≤ a.1) || decide (a.1 ≤ b.1)) = true :=
    fun a b => by simpa using le_total b.1 a.1
  exact (List.pairwise_mergeSort transitive total _).imp of_decide_eq_true

theorem sorted_topk_exact {score : Nat → β} (scores : ∀ c ∈ candidates, 0 ≤ c.2 → c.1 = score c.2.toNat)
    (distinct : ((candidates.map Prod.snd).filter fun id => decide (0 ≤ id)).Nodup) :
    TopKOf score k (chosenIds (candidates.map Prod.snd)) (sortedTopk candidates k) := by
  have ids := (sorted_ids candidates).nodup_iff.mpr distinct
  have taken : ((sortedTopk candidates k).filter fun id => decide (0 ≤ id)).Nodup := by
    rw [sorted_kept,List.map_take]
    exact ids.sublist (List.take_sublist _ _)
  have found : ∀ n : Nat, (n : Int) ∈ sortedTopk candidates k → ∃ c ∈ (sortedCandidates candidates).take k, c.2 = n := by
    intro n listed
    have kept : (n : Int) ∈ (sortedTopk candidates k).filter fun id => decide (0 ≤ id) :=
      List.mem_filter.mpr ⟨listed,decide_eq_true (Int.natCast_nonneg n)⟩
    rw [sorted_kept] at kept
    exact List.mem_map.mp kept
  refine ⟨?_,?_,taken,?_,?_,?_⟩
  · simp only [sortedTopk,List.length_append,List.length_map,List.length_take,List.length_replicate]
    omega
  · intro id listed
    rcases List.mem_append.mp listed with chosen | padded
    · obtain ⟨c,front,rfl⟩ := List.mem_map.mp chosen
      exact Or.inr ((mem_sorted candidates).mp (List.mem_of_mem_take front)).2
    · exact Or.inl (List.eq_of_mem_replicate padded)
  · intro n chosen
    obtain ⟨c,front,same⟩ := found n (mem_chosen.mp chosen)
    have listed := ((mem_sorted candidates).mp (List.mem_of_mem_take front)).1
    exact mem_chosen.mpr (List.mem_map.mpr ⟨c,listed,same⟩)
  · rw [chosen_card taken,chosen_card distinct,sorted_kept,← (sorted_ids candidates).length_eq,List.length_map,
      List.length_map,List.length_take]
  · intro x member left_out y chosen
    obtain ⟨c,listed,same⟩ := List.mem_map.mp (mem_chosen.mp member)
    obtain ⟨d,front,same'⟩ := found y (mem_chosen.mp chosen)
    have low : 0 ≤ c.2 := same ▸ Int.natCast_nonneg x
    have sorted : c ∈ sortedCandidates candidates := (mem_sorted candidates).mpr ⟨listed,low⟩
    rw [← List.take_append_drop k (sortedCandidates candidates)] at sorted
    have behind : c ∈ (sortedCandidates candidates).drop k := by
      refine (List.mem_append.mp sorted).resolve_left fun early => left_out (mem_chosen.mpr ?_)
      exact List.mem_append_left _ (List.mem_map.mpr ⟨c,early,same⟩)
    have ordered := sorted_ordered candidates
    rw [← List.take_append_drop k (sortedCandidates candidates)] at ordered
    have better := (List.pairwise_append.mp ordered).2.2 d front c behind
    have held := (mem_sorted candidates).mp (List.mem_of_mem_take front)
    rwa [scores c listed low,scores d held.1 held.2,same,same',Int.toNat_natCast,Int.toNat_natCast] at better

end Sorted

def rowCandidates (score : Nat → β) (n : Nat) : List (β × Int) := (List.range n).map fun j : Nat => (score j,(j : Int))

theorem sorted_row_exact (score : Nat → β) (k n : Nat) :
    TopKOf score k (Finset.range n) (sortedTopk (rowCandidates score n) k) := by
  have ids : ((rowCandidates score n).map Prod.snd).filter (fun id => decide (0 ≤ id)) =
      (List.range n).map fun j : Nat => (j : Int) := by
    rw [rowCandidates,List.map_map,List.filter_eq_self.mpr]
    · rfl
    · intro id listed
      obtain ⟨j,_,rfl⟩ := List.mem_map.mp listed
      exact decide_eq_true (Int.natCast_nonneg j)
  have columns : chosenIds ((rowCandidates score n).map Prod.snd) = Finset.range n := by
    ext j
    rw [mem_chosen,rowCandidates,List.map_map,List.mem_map,Finset.mem_range]
    constructor
    · rintro ⟨i,listed,same⟩
      obtain rfl := Int.ofNat.inj same
      exact List.mem_range.mp listed
    · intro inside
      exact ⟨j,List.mem_range.mpr inside,rfl⟩
  have scores : ∀ c ∈ rowCandidates score n, 0 ≤ c.2 → c.1 = score c.2.toNat := by
    intro c listed _
    obtain ⟨j,_,rfl⟩ := List.mem_map.mp listed
    rfl
  have top := sorted_topk_exact (rowCandidates score n) k scores
    (by rw [ids]; exact List.nodup_range.map fun a b same => Int.ofNat.inj same)
  rwa [columns] at top

def sortingKernels (β : Type) [LinearOrder β] : MergeKernels β where
  pack logits ids rank world interleave rowStart := ids.map (candidate logits rank world interleave rowStart (logits 0))
  stableTopk := sortedTopk

theorem sorting_documented : Documented (sortingKernels β) :=
  ⟨fun _ _ _ _ _ _ => ⟨_,rfl⟩,fun candidates k _ scores distinct => sorted_topk_exact candidates k scores distinct⟩

end Glm5Next.DcpMerge
