import Glm5Next.Ragged
import Glm5Next.StoreWrites
import Mathlib.Algebra.BigOperators.Intervals
import Mathlib.Data.List.Perm.Basic
import Mathlib.Data.Nat.Log

-- A launch over the rows and the column tiles of a matrix that is kept row
-- by row: a program stores the lanes of its tile that lie inside the row.
namespace TiledGrid
open StoreWrites
variable {Val : Type}

def cdiv (n b : Nat) : Nat := (n + b - 1) / b

-- Triton's power of two for a tile: the smallest that is not below a positive number.
structure NextPower (nextPowerOf2 : Nat → Nat) : Prop where
  power : ∀ n, 1 ≤ n → ∃ k, nextPowerOf2 n = 2 ^ k
  reaches : ∀ n, 1 ≤ n → n ≤ nextPowerOf2 n
  least : ∀ n k, 1 ≤ n → n ≤ 2 ^ k → nextPowerOf2 n ≤ 2 ^ k

theorem NextPower.covers (documented : NextPower nextPowerOf2) (n : Nat) : n ≤ nextPowerOf2 n := by
  rcases Nat.eq_zero_or_pos n with rfl | some
  · exact Nat.zero_le _
  · exact documented.reaches n some

def leastPower (n : Nat) : Nat := 2 ^ Nat.clog 2 n

theorem least_power_documented : NextPower leastPower := by
  refine ⟨fun n _ => ⟨_,rfl⟩,fun n _ => Nat.le_pow_clog (by decide) n,fun n k _ below => ?_⟩
  exact Nat.pow_le_pow_right (by decide) (Nat.clog_le_of_le_pow below)

def programs (rows cols block : Nat) : List (Nat × Nat) :=
  (List.range rows).flatMap fun row => (List.range (cdiv cols block)).map fun tile => (row,tile)

def lanes (cols block tile : Nat) : List Nat :=
  ((List.range block).map fun lane => tile * block + lane).filter fun col => decide (col < cols)

theorem programs_exact : (row,tile) ∈ programs rows cols block ↔ row < rows ∧ tile < cdiv cols block := by
  simp [programs]

theorem lanes_exact : col ∈ lanes cols block tile ↔ tile * block ≤ col ∧ col < tile * block + block ∧ col < cols := by
  unfold lanes
  rw [List.mem_filter,List.mem_map,decide_eq_true_iff]
  constructor
  · rintro ⟨⟨lane,inside,rfl⟩,bound⟩
    have := List.mem_range.mp inside
    omega
  · rintro ⟨low,high,bound⟩
    exact ⟨⟨col - tile * block,List.mem_range.mpr (by omega),by omega⟩,bound⟩

theorem lane_tile (member : col ∈ lanes cols block tile) : col / block = tile ∧ col < cols := by
  obtain ⟨low,high,bound⟩ := lanes_exact.mp member
  have place : tile * block + (col - tile * block) = col := Nat.add_sub_cancel' low
  exact ⟨by rw [← place]; exact Ragged.grid_row (by omega),bound⟩

theorem lanes_run (cols block tile : Nat) :
    lanes cols block tile = List.range' (tile * block) (min block (cols - tile * block)) := by
  unfold lanes
  generalize tile * block = first
  induction block with
  | zero => simp
  | succ block ih =>
      rw [List.range_succ,List.map_append,List.filter_append,ih]
      by_cases inside : first + block < cols
      · have whole : min block (cols - first) = block := by omega
        have longer : min (block + 1) (cols - first) = block + 1 := by omega
        simp [whole,longer,inside,List.range'_concat]
      · have same : min (block + 1) (cols - first) = min block (cols - first) := by omega
        simp [same,inside]

theorem tiles_cover (positive : 0 < block) (cols : Nat) :
    (List.range (cdiv cols block)).flatMap (lanes cols block) = List.range cols := by
  have runs : lanes cols block = fun tile => List.range' (tile * block) (min block (cols - tile * block)) :=
    funext (lanes_run cols block)
  rw [runs,cdiv,Ragged.blocks_tile positive,List.range_eq_range']

theorem rows_cover (rows cols : Nat) :
    ((List.range rows).flatMap fun row => (List.range cols).map fun col => row * cols + col) =
      List.range (rows * cols) := by
  induction rows with
  | zero => simp
  | succ rows ih =>
      rw [List.range_succ,List.flatMap_append,ih,List.flatMap_singleton,Nat.succ_mul,List.range_add]

theorem nested_once {cells : List Nat} (width : Nat) (once : cells.Perm (List.range n)) :
    (cells.flatMap fun cell => (List.range width).map fun lane => cell * width + lane).Perm (List.range (n * width)) :=
  (once.flatMap_right _).trans (List.Perm.of_eq (rows_cover n width))

def Aimed (cols block : Nat) (kernel : Nat × Nat → List (Nat × Val)) : Prop :=
  ∀ row tile, (kernel (row,tile)).map Prod.fst = (lanes cols block tile).map fun col => row * cols + col

section Launch
variable {kernel : Nat × Nat → List (Nat × Val)} {order : List (Nat × Nat)}

theorem cells_once (positive : 0 < block) (aimed : Aimed cols block kernel)
    (launched : order.Perm (programs rows cols block)) :
    ((order.flatMap kernel).map Prod.fst).Perm (List.range (rows * cols)) := by
  have each : (fun program => (kernel program).map Prod.fst) = fun program : Nat × Nat =>
      (lanes cols block program.2).map fun col => program.1 * cols + col :=
    funext fun program => aimed program.1 program.2
  have row : ∀ row, ((List.range (cdiv cols block)).flatMap fun tile =>
      (lanes cols block tile).map fun col => row * cols + col) = (List.range cols).map fun col => row * cols + col := by
    intro row
    rw [← tiles_cover positive cols,List.map_flatMap]
  rw [List.map_flatMap,each]
  refine (launched.flatMap_right _).trans (List.Perm.of_eq ?_)
  rw [← rows_cover,programs,List.flatMap_assoc]
  simp only [List.flatMap_map]
  exact congrArg (fun f => (List.range rows).flatMap f) (funext row)

theorem stored_address (aimed : Aimed cols block kernel) (stored : entry ∈ kernel (row,tile)) :
    ∃ col ∈ lanes cols block tile, entry.1 = row * cols + col := by
  have listed : entry.1 ∈ (kernel (row,tile)).map Prod.fst := List.mem_map_of_mem stored
  rw [aimed row tile] at listed
  obtain ⟨col,member,same⟩ := List.mem_map.mp listed
  exact ⟨col,member,same.symm⟩

-- Where the value of a store depends on its cell alone, the order does not matter.
theorem cell_exact (positive : 0 < block) (aimed : Aimed cols block kernel)
    (launched : order.Perm (programs rows cols block)) (value : Nat → Nat → Val)
    (valued : ∀ row tile col, row < rows → col ∈ lanes cols block tile → ∀ val,
      (row * cols + col,val) ∈ kernel (row,tile) → val = value row col)
    (start : Nat → Val) (inside : row < rows) (column : col < cols) :
    writes start (order.flatMap kernel) (row * cols + col) = value row col := by
  have once := cells_once positive aimed launched
  have below := Ragged.grid_below inside column
  have here : ∀ entry ∈ order.flatMap kernel, entry.1 = row * cols + col → entry.2 = value row col := by
    intro entry member same
    obtain ⟨⟨row',tile⟩,listed,stored⟩ := List.mem_flatMap.mp member
    obtain ⟨col',lane,address⟩ := stored_address aimed stored
    have column' := (lane_tile lane).2
    have equal : row' * cols + col' = row * cols + col := address.symm.trans same
    obtain ⟨rfl,rfl⟩ := Ragged.grid_unique column' column equal
    exact valued row' tile col' inside lane entry.2 (by rw [← same]; exact stored)
  exact writes_stored _ _ _ _ (once.mem_iff.mpr (List.mem_range.mpr below)) here

end Launch

theorem covered (positive : 0 < b) (n : Nat) : n ≤ cdiv n b * b := by
  have whole := Nat.div_add_mod (n + b - 1) b
  have rest := Nat.mod_lt (n + b - 1) positive
  unfold cdiv
  rw [Nat.mul_comm] at whole
  omega

section Sums
variable {M : Type} [AddCommMonoid M]

theorem grid_sum (f : Nat → M) (m b : Nat) :
    ∑ i ∈ Finset.range m, ∑ j ∈ Finset.range b, f (i * b + j) = ∑ x ∈ Finset.range (m * b), f x := by
  induction m with
  | zero => simp
  | succ m ih => rw [Finset.sum_range_succ,ih,Nat.succ_mul,Finset.sum_range_add]

theorem cut_sum (f : Nat → M) (reach : n ≤ total) (past : ∀ x, n ≤ x → x < total → f x = 0) :
    ∑ x ∈ Finset.range total, f x = ∑ x ∈ Finset.range n, f x := by
  symm
  apply Finset.sum_subset (Finset.range_subset_range.mpr reach)
  intro x listed outside
  exact past x (Nat.le_of_not_lt fun inside => outside (Finset.mem_range.mpr inside)) (Finset.mem_range.mp listed)

theorem list_sum (f : Nat → M) (n : Nat) : ((List.range n).map f).sum = ∑ i ∈ Finset.range n, f i := rfl

theorem slices_sum (f : Nat → M) (reach : n ≤ count * b) :
    ∑ i ∈ Finset.range count, ∑ j ∈ Finset.range (min (i * b + b) n - i * b), f (i * b + j) =
      ∑ x ∈ Finset.range n, f x := by
  have slice : ∀ i, ∑ j ∈ Finset.range (min (i * b + b) n - i * b), f (i * b + j) =
      ∑ j ∈ Finset.range b, if i * b + j < n then f (i * b + j) else 0 := by
    intro i
    rw [cut_sum (n := min (i * b + b) n - i * b) (fun j => if i * b + j < n then f (i * b + j) else 0) (by omega)]
    · apply Finset.sum_congr rfl
      intro j member
      have inside := Finset.mem_range.mp member
      exact (if_pos (by omega)).symm
    · intro j past inside
      exact if_neg (by omega)
  simp only [slice]
  rw [grid_sum fun x => if x < n then f x else 0,cut_sum _ reach]
  · apply Finset.sum_congr rfl
    intro x member
    exact if_pos (Finset.mem_range.mp member)
  · intro x past _
    exact if_neg (Nat.not_lt.mpr past)

end Sums

end TiledGrid
