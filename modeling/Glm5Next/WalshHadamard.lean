import Mathlib.Algebra.BigOperators.Intervals
import Mathlib.Algebra.BigOperators.Ring.Finset
import Mathlib.Tactic.Ring
import Glm5Next.TensorViews

-- The fast Walsh-Hadamard transform as butterfly stages over a flat tensor.
namespace WalshHadamard
open TensorViews
variable {K : Type} [CommRing K]

-- [[h, h], [h, -h]] of a matrix of `size` rows.
def doubled (size : Nat) (h : Nat → Nat → K) (i j : Nat) : K :=
  if i < size then if j < size then h i j else h i (j - size)
  else if j < size then h (i - size) j else -h (i - size) (j - size)

def sylvester : Nat → Nat → Nat → K
  | 0 => fun _ _ => 1
  | k + 1 => doubled (2 ^ k) (sylvester k)

def butterfly (stride : Nat) (x : Nat → K) : Nat → K :=
  let (a,b) := split (trans021 (view3 2 stride x))
  flat3 2 stride (trans021 (join (fun i j => a i j + b i j) fun i j => a i j - b i j))

def stages : Nat → (Nat → K) → Nat → K
  | 0, x => x
  | k + 1, x => butterfly (2 ^ k) (stages k x)

def transform (k : Nat) (x : Nat → K) (j : Nat) : K := ∑ i ∈ Finset.range (2 ^ k), sylvester k j i * x i

section Matrix
variable {i j size : Nat} {h : Nat → Nat → K}

theorem doubled_left (row : i < size) (col : j < size) : doubled size h i j = h i j := by
  simp [doubled,row,col]

theorem doubled_right (row : i < size) : doubled size h i (size + j) = h i j := by
  simp [doubled,row]

theorem doubled_below (col : j < size) : doubled size h (size + i) j = h i j := by
  simp [doubled,col]

theorem doubled_corner : doubled size h (size + i) (size + j) = -h i j := by
  simp [doubled]

end Matrix

theorem halves (f : Nat → K) (k : Nat) :
    ∑ i ∈ Finset.range (2 ^ (k + 1)), f i =
      ∑ i ∈ Finset.range (2 ^ k), f i + ∑ i ∈ Finset.range (2 ^ k), f (2 ^ k + i) := by
  rw [Nat.pow_succ,Nat.mul_two,Finset.sum_range_add]

theorem transform_upper (x : Nat → K) (inside : j < 2 ^ k) :
    transform (k + 1) x j = transform k x j + transform k (fun i => x (2 ^ k + i)) j := by
  unfold transform
  rw [halves]
  congr 1
  · apply Finset.sum_congr rfl
    intro i member
    rw [sylvester,doubled_left inside (Finset.mem_range.mp member)]
  · apply Finset.sum_congr rfl
    intro i _
    rw [sylvester,doubled_right inside]

theorem transform_lower (x : Nat → K) (j : Nat) :
    transform (k + 1) x (2 ^ k + j) = transform k x j - transform k (fun i => x (2 ^ k + i)) j := by
  unfold transform
  rw [halves,sub_eq_add_neg,← Finset.sum_neg_distrib]
  congr 1
  · apply Finset.sum_congr rfl
    intro i member
    rw [sylvester,doubled_below (Finset.mem_range.mp member)]
  · apply Finset.sum_congr rfl
    intro i _
    rw [sylvester,doubled_corner,neg_mul]

section Butterfly
variable {stride lane : Nat}

theorem butterfly_lanes (x : Nat → K) : butterfly stride x = flat3 2 stride fun group bit lane =>
    if bit = 0 then x ((group * 2 + 0) * stride + lane) + x ((group * 2 + 1) * stride + lane)
    else x ((group * 2 + 0) * stride + lane) - x ((group * 2 + 1) * stride + lane) := rfl

theorem butterfly_sum (x : Nat → K) (group : Nat) (inside : lane < stride) :
    butterfly stride x (group * (2 * stride) + lane) =
      x (group * (2 * stride) + lane) + x (group * (2 * stride) + (stride + lane)) := by
  have first : group * (2 * stride) + lane = (group * 2 + 0) * stride + lane := by ring
  have second : group * (2 * stride) + (stride + lane) = (group * 2 + 1) * stride + lane := by ring
  rw [first,second,butterfly_lanes,flat3_at _ group (by decide : 0 < 2) inside,if_pos rfl]

theorem butterfly_difference (x : Nat → K) (group : Nat) (inside : lane < stride) :
    butterfly stride x (group * (2 * stride) + (stride + lane)) =
      x (group * (2 * stride) + lane) - x (group * (2 * stride) + (stride + lane)) := by
  have first : group * (2 * stride) + lane = (group * 2 + 0) * stride + lane := by ring
  have second : group * (2 * stride) + (stride + lane) = (group * 2 + 1) * stride + lane := by ring
  rw [first,second,butterfly_lanes,flat3_at _ group (by decide : 1 < 2) inside,if_neg Nat.one_ne_zero]

end Butterfly

-- Stages of strides 1 to 2^(k-1) transform every block of 2^k apart: a pair
-- of the last stage lies in one block, its halves are two blocks before it.
theorem stages_exact (x : Nat → K) (row : Nat) (inside : j < 2 ^ k) :
    stages k x (row * 2 ^ k + j) = transform k (fun i => x (row * 2 ^ k + i)) j := by
  induction k generalizing row j with
  | zero =>
      have first : j = 0 := by omega
      simp [stages,transform,sylvester,first]
  | succ k ih =>
      have wide : 2 ^ (k + 1) = 2 * 2 ^ k := by rw [Nat.pow_succ,Nat.mul_comm]
      have even : ∀ i, row * (2 * 2 ^ k) + i = 2 * row * 2 ^ k + i := fun i => by ring
      have odd : ∀ i, 2 * row * 2 ^ k + (2 ^ k + i) = (2 * row + 1) * 2 ^ k + i := fun i => by ring
      rw [stages]
      by_cases upper : j < 2 ^ k
      · rw [transform_upper _ upper,wide,butterfly_sum _ row upper,even,even,odd,ih _ upper,ih _ upper]
        simp only [even,odd]
      · obtain ⟨lane,rfl⟩ := Nat.exists_eq_add_of_le (Nat.le_of_not_lt upper)
        have low : lane < 2 ^ k := by omega
        rw [transform_lower,wide,butterfly_difference _ row low,even,even,odd,ih _ low,ih _ low]
        simp only [even,odd]

theorem transform_dot (k : Nat) (x y : Nat → K) :
    ∑ j ∈ Finset.range (2 ^ k), transform k x j * transform k y j =
      2 ^ k * ∑ i ∈ Finset.range (2 ^ k), x i * y i := by
  induction k generalizing x y with
  | zero => simp [transform,sylvester]
  | succ k ih =>
      have pair : ∀ a b c d : K, (a + b) * (c + d) + (a - b) * (c - d) = 2 * (a * c) + 2 * (b * d) := by
        intro a b c d
        ring
      have upper : ∑ j ∈ Finset.range (2 ^ k), transform (k + 1) x j * transform (k + 1) y j =
          ∑ j ∈ Finset.range (2 ^ k), (transform k x j + transform k (fun i => x (2 ^ k + i)) j) *
            (transform k y j + transform k (fun i => y (2 ^ k + i)) j) := by
        apply Finset.sum_congr rfl
        intro j member
        have inside := Finset.mem_range.mp member
        rw [transform_upper x inside,transform_upper y inside]
      rw [halves,upper]
      simp only [transform_lower]
      rw [← Finset.sum_add_distrib]
      simp only [pair]
      rw [Finset.sum_add_distrib,← Finset.mul_sum,← Finset.mul_sum,ih,ih,halves]
      ring

theorem transform_unit (inside : i < 2 ^ k) (j : Nat) :
    transform k (fun l => if l = i then 1 else 0) j = (sylvester k j i : K) := by
  unfold transform
  simp [inside]

theorem sylvester_symmetric (k i j : Nat) : (sylvester k i j : K) = sylvester k j i := by
  induction k generalizing i j with
  | zero => rfl
  | succ k ih =>
      simp only [sylvester,doubled]
      by_cases row : i < 2 ^ k
      · by_cases col : j < 2 ^ k
        · simp [row,col,ih]
        · simp [row,col,ih]
      · by_cases col : j < 2 ^ k
        · simp [row,col,ih]
        · simp [row,col,ih (i - 2 ^ k)]

theorem sylvester_orthogonal (row : i < 2 ^ k) (col : j < 2 ^ k) :
    ∑ l ∈ Finset.range (2 ^ k), sylvester k i l * sylvester k j l = if i = j then (2 ^ k : K) else 0 := by
  have units := transform_dot k (fun l => if l = i then (1 : K) else 0) fun l => if l = j then 1 else 0
  simp only [transform_unit row,transform_unit col] at units
  simp only [sylvester_symmetric k i,sylvester_symmetric k j]
  rw [units]
  by_cases same : i = j
  · subst same
    simp [row]
  · simp [same,Ne.symm same]

end WalshHadamard
