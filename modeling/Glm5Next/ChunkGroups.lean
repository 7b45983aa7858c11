import Glm5Next.IndexerChunks

namespace Glm5Next.ChunkGroups
open IndexerChunks

-- What the greedy loop took: the first `taken` pairs with their totals.
structure Grown (workspaceSize : Nat) (pairs : List (Nat × Nat)) (m n : Nat) (result : Nat × Nat × Nat) : Prop where
  inside : result.1 ≤ pairs.length
  queries : result.2.1 = m + ((pairs.take result.1).map Prod.fst).sum
  pools : result.2.2 = n + ((pairs.take result.1).map Prod.snd).sum
  fits : 0 < result.1 → result.2.2 ≤ workspaceSize

theorem grow_exact (workspaceSize maxLogitsElems : Nat) (pairs : List (Nat × Nat)) (m n : Nat) :
    Grown workspaceSize pairs m n (grow workspaceSize maxLogitsElems pairs m n) := by
  induction pairs generalizing m n with
  | nil => exact ⟨Nat.le_refl _,by simp [grow],by simp [grow],by simp [grow]⟩
  | cons pair rest ih =>
      obtain ⟨q,s⟩ := pair
      unfold grow
      split
      · rename_i admitted
        obtain ⟨inside,queries,pools,fits⟩ := ih (m + q) (n + s)
        refine ⟨by simpa using inside,?_,?_,?_⟩
        · simp [queries,Nat.add_assoc]
        · simp [pools,Nat.add_assoc]
        · intro _
          by_cases more : 0 < (grow workspaceSize maxLogitsElems rest (m + q) (n + s)).1
          · exact fits more
          · have none_more : (grow workspaceSize maxLogitsElems rest (m + q) (n + s)).1 = 0 := by omega
            rw [none_more] at pools
            simp only [List.take_zero,List.map_nil,List.sum_nil,Nat.add_zero] at pools
            dsimp only
            rw [pools]
            exact admitted.1
      · exact ⟨Nat.zero_le _,by simp,by simp,by simp⟩

-- A group of consecutive pairs with its totals; only a single request may have
-- more pools than the workspace holds.
structure GroupOf (workspaceSize start : Nat) (pairs : List (Nat × Nat)) (group : Group) : Prop where
  first : start ≤ group.start
  proper : group.start < group.stop
  last : group.stop ≤ start + pairs.length
  queries : group.chunkM = (((pairs.drop (group.start - start)).take (group.stop - group.start)).map Prod.fst).sum
  pools : group.chunkN = (((pairs.drop (group.start - start)).take (group.stop - group.start)).map Prod.snd).sum
  fits : group.stop = group.start + 1 ∨ group.chunkN ≤ workspaceSize

theorem next_group_exact (workspaceSize maxLogitsElems start q s : Nat) (rest : List (Nat × Nat)) :
    GroupOf workspaceSize start ((q,s) :: rest) (nextGroup workspaceSize maxLogitsElems start q s rest) ∧
      (nextGroup workspaceSize maxLogitsElems start q s rest).start = start := by
  have grown := grow_exact workspaceSize maxLogitsElems ((q,s) :: rest) 0 0
  unfold nextGroup
  dsimp only
  split
  · exact ⟨⟨Nat.le_refl _,Nat.lt_succ_self _,by simp,by simp,by simp,Or.inl rfl⟩,rfl⟩
  · rename_i some_taken
    have inside := grown.inside
    refine ⟨⟨Nat.le_refl _,by dsimp only; omega,by dsimp only; omega,?_,?_,Or.inr (grown.fits (by omega))⟩,rfl⟩
    · simpa using grown.queries
    · simpa using grown.pools

theorem group_later (group : Group) (pairs : List (Nat × Nat)) (start skipped : Nat) (inside : skipped ≤ pairs.length)
    (later : GroupOf workspaceSize (start + skipped) (pairs.drop skipped) group) :
    GroupOf workspaceSize start pairs group := by
  obtain ⟨first,proper,last,queries,pools,fits⟩ := later
  have shift : skipped + (group.start - (start + skipped)) = group.start - start := by omega
  rw [List.drop_drop,shift] at queries pools
  rw [List.length_drop] at last
  exact ⟨by omega,proper,by omega,queries,pools,fits⟩

theorem split_groups_exact (workspaceSize maxLogitsElems start : Nat) (pairs : List (Nat × Nat)) :
    ∀ group ∈ splitGroups workspaceSize maxLogitsElems start pairs, GroupOf workspaceSize start pairs group := by
  induction start, pairs using splitGroups.induct workspaceSize maxLogitsElems with
  | case1 start => simp [splitGroups]
  | case2 start q s rest group ih =>
      obtain ⟨here,begins⟩ := next_group_exact workspaceSize maxLogitsElems start q s rest
      have proper := here.proper
      have last := here.last
      have reach : start + (group.stop - start) = group.stop := by
        simp only [group] at *; omega
      rw [splitGroups]
      intro other member
      rcases List.mem_cons.mp member with rfl | member
      · exact here
      · apply group_later other _ start (group.stop - start)
        · simp only [group] at *; omega
        · rw [reach]; exact ih other member

-- The groups follow each other without gap or overlap, in requests as in any
-- monotone offset of requests.
theorem split_groups_tile (workspaceSize maxLogitsElems start : Nat) (pairs : List (Nat × Nat)) (offset : Nat → Nat)
    (mono : ∀ r s, r ≤ s → offset r ≤ offset s) :
    ((splitGroups workspaceSize maxLogitsElems start pairs).flatMap fun group =>
      List.range' (offset group.start) (offset group.stop - offset group.start)) =
        List.range' (offset start) (offset (start + pairs.length) - offset start) := by
  induction start, pairs using splitGroups.induct workspaceSize maxLogitsElems with
  | case1 start => simp [splitGroups]
  | case2 start q s rest group ih =>
      obtain ⟨here,begins⟩ := next_group_exact workspaceSize maxLogitsElems start q s rest
      have proper := here.proper
      have last := here.last
      have reach : group.stop + (((q,s) :: rest).drop (group.stop - start)).length =
          start + ((q,s) :: rest).length := by
        rw [List.length_drop]
        simp only [group] at *
        omega
      have first : offset start ≤ offset group.stop := mono _ _ (by simp only [group] at *; omega)
      have second : offset group.stop ≤ offset (start + ((q,s) :: rest).length) := mono _ _ (by omega)
      have joined := List.range'_append_1 (s := offset start) (m := offset group.stop - offset start)
        (n := offset (start + ((q,s) :: rest).length) - offset group.stop)
      rw [Nat.add_sub_cancel' first] at joined
      rw [splitGroups,List.flatMap_cons,ih,begins,reach]
      refine joined.trans ?_
      congr 1
      omega

structure SliceOf (maxLogitsElems : Nat) (group : Group) (slice : Nat × Nat) : Prop where
  proper : slice.1 < slice.2
  inside : slice.2 ≤ group.chunkM
  budget : (slice.2 - slice.1) * group.chunkN ≤ maxLogitsElems ∨ slice.2 - slice.1 = 1

theorem max_q_pos (maxLogitsElems : Nat) (group : Group) :
    0 < if group.chunkN > 0 then max 1 (maxLogitsElems / group.chunkN) else max 1 group.chunkM := by
  split <;> omega

theorem query_slices_exact (maxLogitsElems : Nat) (group : Group) :
    ∀ slice ∈ querySlices maxLogitsElems group, SliceOf maxLogitsElems group slice := by
  intro slice member
  have positive := max_q_pos maxLogitsElems group
  unfold querySlices at member
  dsimp only at member
  obtain ⟨i,counted,rfl⟩ := List.mem_map.mp member
  have starts := Ragged.block_start positive (List.mem_range.mp counted)
  refine ⟨by dsimp only; omega,by dsimp only; omega,?_⟩
  dsimp only
  rw [Nat.add_sub_cancel_left]
  by_cases pools : group.chunkN > 0
  · rw [if_pos pools] at starts ⊢
    by_cases narrow : maxLogitsElems / group.chunkN = 0
    · right; rw [narrow] at starts ⊢; omega
    · left
      have wide : max 1 (maxLogitsElems / group.chunkN) = maxLogitsElems / group.chunkN :=
        Nat.max_eq_right (Nat.pos_of_ne_zero narrow)
      exact Nat.le_trans (Nat.mul_le_mul_right _ (Nat.min_le_left _ _)) (by rw [wide]; exact Nat.div_mul_le_self _ _)
  · left
    have none_held : group.chunkN = 0 := by omega
    rw [none_held,Nat.mul_zero]
    exact Nat.zero_le _

theorem query_slices_tile (maxLogitsElems : Nat) (group : Group) :
    ((querySlices maxLogitsElems group).flatMap fun slice => List.range' slice.1 (slice.2 - slice.1)) =
      List.range' 0 group.chunkM := by
  unfold querySlices
  simp only [List.flatMap_map,Nat.add_sub_cancel_left]
  exact Ragged.blocks_tile (max_q_pos maxLogitsElems group) group.chunkM

theorem query_slices_head (maxLogitsElems : Nat) (group : Group)
    (first : (querySlices maxLogitsElems group).head? = some slice) : slice.1 = 0 := by
  unfold querySlices at first
  dsimp only at first
  rw [List.head?_map,List.head?_range] at first
  obtain ⟨i,at_i,rfl⟩ := Option.map_eq_some_iff.mp first
  simp only [Option.ite_none_left_eq_some,Option.some.injEq] at at_i
  obtain ⟨_,rfl⟩ := at_i
  exact Nat.zero_mul _

end Glm5Next.ChunkGroups
