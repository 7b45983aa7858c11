import Mathlib.Analysis.Real.Sqrt
import Glm5Next.WalshHadamard

namespace Glm5Next.HadamardRotation
open TensorViews WalshHadamard
variable {K : Type} [CommRing K]

-- A reshape fails where the sizes do not multiply to the length.
def fwhtStage (n groups stride : Nat) (x : Nat → K) : Option (Nat → K) :=
  if groups * 2 * stride = n then
    let x3 := trans021 (view3 2 stride x)
    let (a,b) := split x3
    let x3 := join (fun i j => a i j + b i j) fun i j => a i j - b i j
    some (flat3 2 stride (trans021 x3))
  else none

def hadamard128Stage (groups stride : Nat) (x : Nat → K) : Option (Nat → K) := fwhtStage 128 groups stride x

-- `c` is the constant 1/sqrt(128).
def hadamard128 (c : K) (x : Nat → K) : Option (Nat → K) := do
  let x ← hadamard128Stage 64 1 x
  let x ← hadamard128Stage 32 2 x
  let x ← hadamard128Stage 16 4 x
  let x ← hadamard128Stage 8 8 x
  let x ← hadamard128Stage 4 16 x
  let x ← hadamard128Stage 2 32 x
  let x ← hadamard128Stage 1 64 x
  some fun j => x j * c

def catCols (size : Nat) (a b : Nat → Nat → K) (i j : Nat) : K := if j < size then a i j else b i (j - size)

def catRows (size : Nat) (a b : Nat → Nat → K) (i j : Nat) : K := if i < size then a i j else b (i - size) j

-- The loop `while h.shape[0] < n`.
def hadamardLoop (n : Nat) : Nat → Nat × (Nat → Nat → K) → Option (Nat × (Nat → Nat → K))
  | 0, _ => none
  | fuel + 1, (size,h) =>
      if size < n then
        hadamardLoop n fuel (2 * size,catRows size (catCols size h h) (catCols size h fun i j => -h i j))
      else some (size,h)

def hadamardMatrix (n : Nat) : Option (Nat × (Nat → Nat → K)) :=
  hadamardLoop n n (2,fun i j => if i = 0 ∨ j = 0 then 1 else -1)

def hadamard128Torch (c : K) (n : Nat) (x : Nat → K) : Option (Nat → K) :=
  if n = 128 then do
    let (_,h) ← hadamardMatrix n
    some fun j => ∑ i ∈ Finset.range n, x i * (h i j * c)
  else none

def fwhtLoad (q : Nat → K) (nRows blockR pid row lane : Nat) : K :=
  if pid * blockR + row < nRows then q ((pid * blockR + row) * 128 + lane) else 0

-- The rotation of the kernel, up to the rounding before the quantization.
def fwhtRotate (c : K) (blockR : Nat) (x : Nat → Nat → K) : Option (Nat → Nat → K) := do
  let n := blockR * 128
  let x := flat2 128 x
  let x ← fwhtStage n (blockR * 64) 1 x
  let x ← fwhtStage n (blockR * 32) 2 x
  let x ← fwhtStage n (blockR * 16) 4 x
  let x ← fwhtStage n (blockR * 8) 8 x
  let x ← fwhtStage n (blockR * 4) 16 x
  let x ← fwhtStage n (blockR * 2) 32 x
  let x ← fwhtStage n blockR 64 x
  some (view2 128 fun j => x j * c)

theorem stage_fits (shape : groups * 2 * stride = n) (x : Nat → K) :
    fwhtStage n groups stride x = some (butterfly stride x) := if_pos shape

theorem hadamard128_stages (c : K) (x : Nat → K) : hadamard128 c x = some fun j => stages 7 x j * c := rfl

theorem fwht_stages (c : K) (blockR : Nat) (x : Nat → Nat → K) :
    fwhtRotate c blockR x = some (view2 128 fun j => stages 7 (flat2 128 x) j * c) := by
  unfold fwhtRotate
  simp (disch := omega) only [stage_fits,Option.bind_eq_bind,Option.bind_some]
  rfl

theorem cat_doubled (size : Nat) (h : Nat → Nat → K) :
    catRows size (catCols size h h) (catCols size h fun i j => -h i j) = doubled size h := rfl

theorem first_sylvester : (fun i j => if i = 0 ∨ j = 0 then (1 : K) else -1) = sylvester 1 := by
  funext i j
  simp only [sylvester,doubled]
  by_cases row : i = 0
  · simp [row]
  · by_cases col : j = 0
    · simp [col]
    · simp [row,col]

theorem loop_exact (below : k ≤ m) (fuelled : m < fuel + k) :
    hadamardLoop (2 ^ m) fuel (2 ^ k,sylvester k) = some (2 ^ m,(sylvester m : Nat → Nat → K)) := by
  induction fuel generalizing k with
  | zero => omega
  | succ fuel ih =>
      unfold hadamardLoop
      by_cases last : k = m
      · rw [last,if_neg (Nat.lt_irrefl _)]
      · have more : 2 ^ k < 2 ^ m := Nat.pow_lt_pow_right (by decide) (by omega)
        rw [if_pos more,cat_doubled,← Nat.pow_succ']
        exact ih (by omega) (by omega)

theorem matrix_exact : hadamardMatrix 128 = some (128,(sylvester 7 : Nat → Nat → K)) := by
  unfold hadamardMatrix
  rw [first_sylvester]
  exact loop_exact (k := 1) (m := 7) (by decide) (by decide)

theorem torch_exact (c : K) (x : Nat → K) :
    hadamard128Torch c 128 x = some fun j => ∑ i ∈ Finset.range 128, x i * (sylvester 7 i j * c) := by
  unfold hadamard128Torch
  rw [if_pos rfl,matrix_exact]
  rfl

theorem product_exact (c : K) (x : Nat → K) (j : Nat) :
    ∑ i ∈ Finset.range 128, x i * (sylvester 7 i j * c) = transform 7 x j * c := by
  unfold transform
  rw [Finset.sum_mul]
  apply Finset.sum_congr rfl
  intro i _
  rw [sylvester_symmetric 7 i j]
  ring

theorem vector_stages (x : Nat → K) (inside : j < 128) : stages 7 x j = transform 7 x j := by
  have rotated := stages_exact (k := 7) x 0 inside
  simpa using rotated

theorem row_stages (x : Nat → Nat → K) (row : Nat) (inside : j < 128) :
    stages 7 (flat2 128 x) (row * 128 + j) = transform 7 (x row) j := by
  refine (stages_exact (k := 7) _ row inside).trans ?_
  unfold transform
  apply Finset.sum_congr rfl
  intro i member
  exact congrArg (sylvester 7 j i * ·) (flat2_at x row (Finset.mem_range.mp member))

-- The butterflies of one vector, the product with the built matrix and the
-- batched butterflies are one map, and it keeps dot products.
theorem hadamard_exact (c : K) (unit : 128 * c ^ 2 = 1) :
    (∀ x : Nat → K, ∃ y z, hadamard128 c x = some y ∧ hadamard128Torch c 128 x = some z ∧ ∀ j < 128, y j = z j) ∧
    (∃ h : Nat → Nat → K, hadamardMatrix 128 = some (128,h) ∧ (∀ x : Nat → K, ∃ y, hadamard128 c x = some y ∧
        ∀ j < 128, y j = c * ∑ i ∈ Finset.range 128, h j i * x i) ∧
      ∀ i < 128, ∀ j < 128, ∑ l ∈ Finset.range 128, h i l * h j l = if i = j then 128 else 0) ∧
    (∀ (q : Nat → K) (nRows blockR pid : Nat), ∃ rotated, fwhtRotate c blockR (fwhtLoad q nRows blockR pid) = some rotated ∧
      ∀ row < blockR, ∃ y, hadamard128 c (fwhtLoad q nRows blockR pid row) = some y ∧ ∀ j < 128, rotated row j = y j) ∧
    ∀ (q : Nat → K) (nRows blockR pid : Nat) (k : Nat → K), ∃ q' k',
      fwhtRotate c blockR (fwhtLoad q nRows blockR pid) = some q' ∧ hadamard128 c k = some k' ∧
      ∀ row < blockR, ∑ j ∈ Finset.range 128, q' row j * k' j =
        ∑ j ∈ Finset.range 128, fwhtLoad q nRows blockR pid row j * k j := by
  refine ⟨?_,⟨sylvester 7,matrix_exact,?_,?_⟩,?_,?_⟩
  · intro x
    refine ⟨_,_,hadamard128_stages c x,torch_exact c x,?_⟩
    intro j inside
    rw [product_exact,vector_stages x inside]
  · intro x
    refine ⟨_,hadamard128_stages c x,?_⟩
    intro j inside
    rw [vector_stages x inside,mul_comm]
    rfl
  · intro i row j col
    have orthogonal := sylvester_orthogonal (K := K) (k := 7) row col
    norm_num at orthogonal
    exact orthogonal
  · intro q nRows blockR pid
    refine ⟨_,fwht_stages c blockR _,?_⟩
    intro row _
    refine ⟨_,hadamard128_stages c _,?_⟩
    intro j inside
    rw [view2,row_stages _ row inside,vector_stages _ inside]
  · intro q nRows blockR pid k
    refine ⟨_,_,fwht_stages c blockR _,hadamard128_stages c k,?_⟩
    intro row _
    generalize fwhtLoad q nRows blockR pid = x
    calc ∑ j ∈ Finset.range 128, view2 128 (fun j => stages 7 (flat2 128 x) j * c) row j * (stages 7 k j * c)
        = ∑ j ∈ Finset.range 128, transform 7 (x row) j * transform 7 k j * c ^ 2 := by
          apply Finset.sum_congr rfl
          intro j member
          rw [view2,row_stages x row (Finset.mem_range.mp member),vector_stages k (Finset.mem_range.mp member)]
          ring
      _ = 2 ^ 7 * (∑ j ∈ Finset.range 128, x row j * k j) * c ^ 2 := by
          rw [← Finset.sum_mul]
          exact congrArg (· * c ^ 2) (transform_dot 7 (x row) k)
      _ = 128 * c ^ 2 * ∑ j ∈ Finset.range 128, x row j * k j := by ring
      _ = ∑ j ∈ Finset.range 128, x row j * k j := by rw [unit,one_mul]

theorem hadamard_exact_reals : 128 * (1 / Real.sqrt 128) ^ 2 = 1 ∧
    ∀ (q : Nat → ℝ) (nRows blockR pid : Nat) (k : Nat → ℝ), ∃ q' k',
      fwhtRotate (1 / Real.sqrt 128) blockR (fwhtLoad q nRows blockR pid) = some q' ∧
      hadamard128 (1 / Real.sqrt 128) k = some k' ∧
      ∀ row < blockR, ∑ j ∈ Finset.range 128, q' row j * k' j =
        ∑ j ∈ Finset.range 128, fwhtLoad q nRows blockR pid row j * k j := by
  have unit : 128 * (1 / Real.sqrt 128) ^ 2 = 1 := by
    rw [div_pow,Real.sq_sqrt (by norm_num)]
    norm_num
  exact ⟨unit,(hadamard_exact (1 / Real.sqrt 128) unit).2.2.2⟩

end Glm5Next.HadamardRotation
