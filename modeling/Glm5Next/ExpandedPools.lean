import Glm5Next.Ragged
import Mathlib.Data.List.Nodup

namespace Glm5Next.ExpandedPools

def expandedColumn (poolSize : Nat) (poolIds : List Int) (seqLen col : Nat) : Int :=
  let topk := poolIds.length * poolSize
  let poolLen := seqLen / poolSize
  let tailStart := poolLen * poolSize
  let tailCount := seqLen - tailStart
  if col < topk then
    let pid := poolIds.getD (col / poolSize) (-1)
    if pid ≥ 0 then pid * poolSize + (col % poolSize : Nat) else -1
  else if col - topk < tailCount then ((tailStart + (col - topk) : Nat) : Int) else -1

-- The kernel writes every column of a row once, in tiles of 128.
def expandPoolsAndAppendTail (poolSize : Nat) (poolIds : List Int) (seqLen : Nat) : List Int :=
  (List.range (poolIds.length * poolSize + poolSize - 1)).map (expandedColumn poolSize poolIds seqLen)

-- What a top-k primitive returns for a row with `window` candidates: distinct
-- row-relative ids, as many as exist up to `k`, and -1 in the other places.
structure TopKRow (k window : Nat) (ids : List Int) : Prop where
  size : ids.length = k
  entries : ∀ id ∈ ids, id = -1 ∨ 0 ≤ id ∧ id < window
  distinct : (ids.filter fun id => decide (0 ≤ id)).Nodup
  full : (ids.filter fun id => decide (0 ≤ id)).length = min k window

-- The entries of a row are distinct, at most `pos`, and are the trailing
-- incomplete pool and `count` whole ones of the pools before it.
structure SparseRow (poolSize count pos : Nat) (entries : List Int) : Prop where
  distinct : (entries.filter fun x => decide (x ≠ -1)).Nodup
  causal : ∀ x ∈ entries, x ≠ -1 → 0 ≤ x ∧ x ≤ pos
  tail : ∀ x : Nat, (pos + 1) / poolSize * poolSize ≤ x → x ≤ pos → (x : Int) ∈ entries
  pools : ∃ chosen : List Nat, chosen.Nodup ∧ chosen.length = count ∧ (∀ p ∈ chosen, p < (pos + 1) / poolSize) ∧
    ∀ x : Nat, x < (pos + 1) / poolSize * poolSize → ((x : Int) ∈ entries ↔ x / poolSize ∈ chosen)

theorem pool_count_unique (positive : 0 < poolSize) (row : SparseRow poolSize count pos entries)
    (row' : SparseRow poolSize count' pos entries) : count = count' := by
  obtain ⟨chosen,distinct,rfl,below,exact⟩ := row.pools
  obtain ⟨chosen',distinct',rfl,below',exact'⟩ := row'.pools
  have first : ∀ p, p < (pos + 1) / poolSize → (p ∈ chosen ↔ p ∈ chosen') := by
    intro p inside
    have whole : p * poolSize < (pos + 1) / poolSize * poolSize := Nat.mul_lt_mul_of_pos_right inside positive
    have member := (exact _ whole).symm.trans (exact' _ whole)
    rwa [Nat.mul_div_cancel _ positive] at member
  have same : ∀ p, p ∈ chosen ↔ p ∈ chosen' := by
    intro p
    constructor
    · intro listed
      exact (first p (below p listed)).mp listed
    · intro listed
      exact (first p (below' p listed)).mpr listed
  exact ((List.perm_ext_iff_of_nodup distinct distinct').mpr same).length_eq

theorem full_row_exact (positive : 0 < poolSize) (row : SparseRow poolSize ((pos + 1) / poolSize) pos entries)
    (kept : x ≠ -1) : x ∈ entries ↔ 0 ≤ x ∧ x ≤ pos := by
  constructor
  · exact fun member => row.causal x member kept
  · rintro ⟨low,high⟩
    obtain ⟨n,rfl⟩ := Int.eq_ofNat_of_zero_le low
    by_cases whole : n < (pos + 1) / poolSize * poolSize
    · obtain ⟨chosen,distinct,count,below,exact⟩ := row.pools
      have subset : chosen ⊆ List.range ((pos + 1) / poolSize) := fun p listed => List.mem_range.mpr (below p listed)
      have all : chosen.Perm (List.range ((pos + 1) / poolSize)) :=
        (List.subperm_of_subset distinct subset).perm_of_length_le (Nat.le_of_eq (List.length_range.trans count.symm))
      apply (exact n whole).mpr
      exact all.mem_iff.mpr (List.mem_range.mpr ((Nat.div_lt_iff_lt_mul positive).mpr whole))
    · exact row.tail n (Nat.le_of_not_lt whole) (by omega)

theorem empty_row_refused (short : pos + 1 < poolSize) (empty : ∀ x ∈ entries, x = -1) :
    ¬ SparseRow poolSize count pos entries := by
  intro row
  have none_whole : (pos + 1) / poolSize = 0 := Nat.div_eq_of_lt short
  have last := row.tail pos (by rw [none_whole,Nat.zero_mul]; exact Nat.zero_le _) (Nat.le_refl _)
  have := empty _ last
  omega

theorem causal_row_exact (positive : 0 < poolSize) (inside : pos < width) :
    SparseRow poolSize ((pos + 1) / poolSize) pos
      ((List.range width).map fun col => if col > pos then -1 else (col : Int)) := by
  have entry : ∀ x : Nat, (x : Int) ∈ (List.range width).map (fun col => if col > pos then -1 else (col : Int)) ↔
      x ≤ pos := by
    intro x
    rw [List.mem_map]
    constructor
    · intro ⟨col,_,value⟩
      split at value <;> omega
    · intro low
      exact ⟨x,List.mem_range.mpr (by omega),if_neg (by omega)⟩
  refine ⟨?_,?_,?_,?_⟩
  · rw [List.Nodup,List.pairwise_filter,List.pairwise_map]
    refine List.pairwise_lt_range.imp ?_
    intro a b ordered kept kept'
    rw [decide_eq_true_iff] at kept kept'
    split <;> split <;> omega
  · intro x listed kept
    obtain ⟨col,_,rfl⟩ := List.mem_map.mp listed
    by_cases past : col > pos
    · exact absurd (if_pos past) kept
    · rw [if_neg past]
      omega
  · intro x _ low
    exact (entry x).mpr low
  · refine ⟨List.range ((pos + 1) / poolSize),List.nodup_range,List.length_range,fun p => List.mem_range.mp,?_⟩
    intro x whole
    have bound := Nat.div_mul_le_self (pos + 1) poolSize
    rw [entry,List.mem_range]
    refine iff_of_true (by omega) ?_
    exact (Nat.div_lt_iff_lt_mul positive).mpr whole

section Expanded
variable {poolSize k window seqLen : Nat} {ids : List Int}

theorem history_column (found : ids[g]? = some ((p : Nat) : Int)) (inside : o < poolSize) :
    expandedColumn poolSize ids seqLen (g * poolSize + o) = ((p * poolSize + o : Nat) : Int) := by
  have bound := Ragged.grid_below (List.getElem?_eq_some_iff.mp found).1 inside
  unfold expandedColumn
  dsimp only
  rw [if_pos (by omega),Ragged.grid_row inside,Ragged.grid_col inside,List.getD_eq_getElem?_getD,found,Option.getD_some,if_pos (by omega)]
  push_cast
  rfl

theorem tail_column (inside : off < seqLen - seqLen / poolSize * poolSize) :
    expandedColumn poolSize ids seqLen (ids.length * poolSize + off) =
      ((seqLen / poolSize * poolSize + off : Nat) : Int) := by
  unfold expandedColumn
  dsimp only
  rw [if_neg (by omega),Nat.add_sub_cancel_left,if_pos inside]

theorem column_parts (kept : expandedColumn poolSize ids seqLen col ≠ -1) :
    (∃ p : Nat, col < ids.length * poolSize ∧ ids[col / poolSize]? = some (p : Int) ∧
      expandedColumn poolSize ids seqLen col = ((p * poolSize + col % poolSize : Nat) : Int)) ∨
    (ids.length * poolSize ≤ col ∧ col - ids.length * poolSize < seqLen - seqLen / poolSize * poolSize ∧
      expandedColumn poolSize ids seqLen col =
        ((seqLen / poolSize * poolSize + (col - ids.length * poolSize) : Nat) : Int)) := by
  unfold expandedColumn at kept ⊢
  dsimp only at kept ⊢
  by_cases history : col < ids.length * poolSize
  · rw [if_pos history] at kept ⊢
    left
    have bound : col / poolSize < ids.length := Nat.div_lt_of_lt_mul (by rwa [Nat.mul_comm])
    have found : ids[col / poolSize]? = some (ids.getD (col / poolSize) (-1)) := by
      rw [List.getD_eq_getElem?_getD,List.getElem?_eq_getElem bound,Option.getD_some]
    by_cases chosen : ids.getD (col / poolSize) (-1) ≥ 0
    · obtain ⟨p,same⟩ := Int.eq_ofNat_of_zero_le chosen
      rw [if_pos chosen]
      refine ⟨p,history,by rw [found,same],?_⟩
      rw [same]
      push_cast
      rfl
    · exact absurd (if_neg chosen) kept
  · rw [if_neg history] at kept ⊢
    right
    by_cases inside : col - ids.length * poolSize < seqLen - seqLen / poolSize * poolSize
    · rw [if_pos inside]
      exact ⟨by omega,inside,rfl⟩
    · exact absurd (if_neg inside) kept

theorem chosen_below (top : TopKRow k window ids) (inside : window ≤ seqLen / poolSize)
    (member : ((p : Nat) : Int) ∈ ids) : p < seqLen / poolSize := by
  rcases top.entries _ member with absent | bounds
  · omega
  · omega

theorem pool_inside (positive : 0 < poolSize) (below : p < n) (offset : Nat) :
    p * poolSize + offset % poolSize < n * poolSize :=
  Ragged.grid_below below (Nat.mod_lt offset positive)

theorem columns_distinct (positive : 0 < poolSize) (top : TopKRow k window ids)
    (inside : window ≤ seqLen / poolSize) (ordered : a < b) (kept : expandedColumn poolSize ids seqLen a ≠ -1)
    (kept' : expandedColumn poolSize ids seqLen b ≠ -1) :
    expandedColumn poolSize ids seqLen a ≠ expandedColumn poolSize ids seqLen b := by
  intro same
  rcases column_parts kept with ⟨p,history,found,value⟩ | ⟨past,offset,value⟩
  · rcases column_parts kept' with ⟨q,history',found',value'⟩ | ⟨past',offset',value'⟩
    · rw [value,value',Int.natCast_inj] at same
      have pools := congrArg (· / poolSize) same
      simp only [Ragged.grid_row (Nat.mod_lt _ positive)] at pools
      subst pools
      have columns : a % poolSize = b % poolSize := by omega
      have rows : a / poolSize < b / poolSize := by
        refine Nat.lt_of_le_of_ne (Nat.div_le_div_right (Nat.le_of_lt ordered)) ?_
        intro rows
        have split := Nat.div_add_mod a poolSize
        have split' := Nat.div_add_mod b poolSize
        rw [rows,columns] at split
        omega
      have apart := top.distinct
      rw [List.Nodup,List.pairwise_filter,List.pairwise_iff_getElem] at apart
      obtain ⟨bound,at_a⟩ := List.getElem?_eq_some_iff.mp found
      obtain ⟨bound',at_b⟩ := List.getElem?_eq_some_iff.mp found'
      refine apart _ _ bound bound' rows ?_ ?_ (at_a.trans at_b.symm)
      · rw [at_a]; simp
      · rw [at_b]; simp
    · have below := chosen_below top inside (List.mem_of_getElem? found)
      have := pool_inside positive below a
      rw [value,value',Int.natCast_inj] at same
      omega
  · rcases column_parts kept' with ⟨q,history',found',value'⟩ | ⟨past',offset',value'⟩
    · omega
    · rw [value,value',Int.natCast_inj] at same
      omega

theorem expanded_entry (positive : 0 < poolSize) (x : Nat) :
    (x : Int) ∈ expandPoolsAndAppendTail poolSize ids seqLen ↔
      ((x / poolSize : Nat) : Int) ∈ ids ∨ seqLen / poolSize * poolSize ≤ x ∧ x < seqLen := by
  unfold expandPoolsAndAppendTail
  rw [List.mem_map]
  constructor
  · intro ⟨col,_,value⟩
    have kept : expandedColumn poolSize ids seqLen col ≠ -1 := by omega
    rcases column_parts kept with ⟨p,history,found,value'⟩ | ⟨past,offset,value'⟩
    · left
      rw [value,Int.natCast_inj] at value'
      rw [value',Ragged.grid_row (Nat.mod_lt _ positive)]
      exact List.mem_of_getElem? found
    · right
      omega
  · rintro (member | ⟨low,high⟩)
    · obtain ⟨g,found⟩ := List.mem_iff_getElem?.mp member
      have bound := (List.getElem?_eq_some_iff.mp found).1
      have column := pool_inside positive bound x
      refine ⟨g * poolSize + x % poolSize,List.mem_range.mpr (by omega),?_⟩
      rw [history_column found (Nat.mod_lt x positive),Nat.mul_comm,Nat.div_add_mod]
    · have whole := Nat.div_add_mod seqLen poolSize
      have rest := Nat.mod_lt seqLen positive
      rw [Nat.mul_comm] at whole
      refine ⟨ids.length * poolSize + (x - seqLen / poolSize * poolSize),List.mem_range.mpr (by omega),?_⟩
      rw [tail_column (by omega)]
      congr 1
      omega

theorem top_chosen (top : TopKRow k window ids) : ∃ chosen : List Nat, chosen.Nodup ∧
    chosen.length = min k window ∧ ∀ p, p ∈ chosen ↔ (p : Int) ∈ ids := by
  refine ⟨(ids.filter fun id => decide (0 ≤ id)).map Int.toNat,?_,?_,?_⟩
  · refine List.Nodup.map_on ?_ top.distinct
    intro a in_a b in_b same
    have low := of_decide_eq_true (List.mem_filter.mp in_a).2
    have low' := of_decide_eq_true (List.mem_filter.mp in_b).2
    omega
  · rw [List.length_map]
    exact top.full
  · intro p
    rw [List.mem_map]
    constructor
    · intro ⟨id,member,same⟩
      obtain ⟨member,low⟩ := List.mem_filter.mp member
      have low := of_decide_eq_true low
      rwa [← same,Int.toNat_of_nonneg low]
    · intro member
      exact ⟨_,List.mem_filter.mpr ⟨member,decide_eq_true (Int.natCast_nonneg _)⟩,Int.toNat_natCast _⟩

theorem expanded_nodup (positive : 0 < poolSize) (top : TopKRow k window ids) (inside : window ≤ seqLen / poolSize) :
    ((expandPoolsAndAppendTail poolSize ids seqLen).filter fun x => decide (x ≠ -1)).Nodup := by
  rw [List.Nodup,List.pairwise_filter,expandPoolsAndAppendTail,List.pairwise_map]
  refine List.pairwise_lt_range.imp ?_
  intro a b ordered kept kept'
  exact columns_distinct positive top inside ordered (of_decide_eq_true kept) (of_decide_eq_true kept')

theorem expanded_causal (positive : 0 < poolSize) (top : TopKRow k window ids)
    (inside : window ≤ (pos + 1) / poolSize) (member : x ∈ expandPoolsAndAppendTail poolSize ids (pos + 1))
    (kept : x ≠ -1) : 0 ≤ x ∧ x ≤ pos := by
  have bound := Nat.div_mul_le_self (pos + 1) poolSize
  obtain ⟨col,_,rfl⟩ := List.mem_map.mp member
  rcases column_parts kept with ⟨p,_,found,value⟩ | ⟨_,offset,value⟩
  · have below := pool_inside positive (chosen_below top inside (List.mem_of_getElem? found)) col
    rw [value]
    omega
  · rw [value]
    omega

theorem expanded_row_exact (positive : 0 < poolSize) (top : TopKRow k window ids)
    (inside : window ≤ (pos + 1) / poolSize) (padding : List Int) (empty : ∀ x ∈ padding, x = -1) :
    SparseRow poolSize (min k window) pos (expandPoolsAndAppendTail poolSize ids (pos + 1) ++ padding) := by
  have entry : ∀ x : Nat, (x : Int) ∈ expandPoolsAndAppendTail poolSize ids (pos + 1) ++ padding ↔
      ((x / poolSize : Nat) : Int) ∈ ids ∨ (pos + 1) / poolSize * poolSize ≤ x ∧ x < pos + 1 := by
    intro x
    rw [List.mem_append,expanded_entry positive]
    constructor
    · rintro (member | padded)
      · exact member
      · have := empty _ padded
        omega
    · exact Or.inl
  refine ⟨?_,?_,?_,?_⟩
  · have none_kept : padding.filter (fun x => decide (x ≠ -1)) = [] := by
      rw [List.filter_eq_nil_iff]
      intro x member
      simp [empty x member]
    rw [List.filter_append,none_kept,List.append_nil]
    exact expanded_nodup positive top inside
  · intro x listed kept
    rcases List.mem_append.mp listed with member | padded
    · exact expanded_causal positive top inside member kept
    · exact absurd (empty x padded) kept
  · intro x low high
    exact (entry x).mpr (Or.inr ⟨low,by omega⟩)
  · obtain ⟨chosen,distinct,count,named⟩ := top_chosen top
    refine ⟨chosen,distinct,count,fun p listed => chosen_below top inside ((named p).mp listed),?_⟩
    intro x whole
    rw [entry,named]
    constructor
    · rintro (member | ⟨low,_⟩)
      · exact member
      · omega
    · exact Or.inl

end Expanded

end Glm5Next.ExpandedPools
