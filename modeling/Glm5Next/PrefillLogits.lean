import Glm5Next.MqaLogits
import Glm5Next.TensorViews
import Glm5Next.TiledGrid

namespace Glm5Next.PrefillLogits
open StoreWrites TensorViews TiledGrid MqaLogits

-- The tensors of one chunk after the cast of q and k to bf16, which is exact.
structure PrefillArgs where
  nextPowerOf2 : Nat → Nat
  power : NextPower nextPowerOf2
  m : Nat
  numHeads : Nat
  headDim : Nat
  n : Nat
  q : Nat → Nat → Nat → ℚ
  k : Nat → Nat → ℚ
  kScale : Nat → ℚ
  weights : Nat → Nat → ℚ
  ks : Nat → Int
  ke : Nat → Int

def relu (x : ℚ) : ℚ := max x 0

section Torch
variable (args : PrefillArgs)

def validKey (row col : Nat) : Prop := args.ks row ≤ col ∧ (col : Int) < args.ke row

instance (row col : Nat) : Decidable (validKey args row col) := inferInstanceAs (Decidable (_ ∧ _))

-- (q @ k[n0:n1].T).view(M, H, n1 - n0), scaled.
def chunkScores (n0 n1 row h j : Nat) : ℚ :=
  let flatQ := view2 args.headDim (flat3 args.numHeads args.headDim args.q)
  let product := fun r j => ∑ d ∈ Finset.range args.headDim, flatQ r d * args.k (n0 + j) d
  view3 args.numHeads (n1 - n0) (flat2 (n1 - n0) product) row h j * args.kScale (n0 + j)

def chunkStep (nChunk : Nat) (out : Nat → Nat → Logit) (n0 : Nat) : Nat → Nat → Logit :=
  let n1 := min args.n (n0 + nChunk)
  fun row col =>
    if n0 ≤ col ∧ col < n1 then
      if validKey args row col then
        .score (∑ h ∈ Finset.range args.numHeads, relu (chunkScores args n0 n1 row h (col - n0)) * args.weights row h)
      else .negInf
    else out row col

def mqaLogitsTorch (nChunk : Nat) : Nat → Nat → Logit :=
  ((List.range (cdiv args.n nChunk)).map (· * nChunk)).foldl (chunkStep args nChunk) fun _ _ => .negInf

end Torch

section Kernel
variable (args : PrefillArgs)

-- Lanes past the heads, the head dimension or the keys load zero.
def qLane (row h d : Nat) : ℚ := if h < args.numHeads ∧ d < args.headDim then args.q row h d else 0

def kLane (col d : Nat) : ℚ := if col < args.n ∧ d < args.headDim then args.k col d else 0

def kernelScore (row h col : Nat) : ℚ :=
  (∑ d ∈ Finset.range (args.nextPowerOf2 args.headDim), qLane args row h d * kLane args col d) *
    if col < args.n then args.kScale col else 0

def kernelOut (row col : Nat) : ℚ :=
  ∑ h ∈ Finset.range (max 16 (args.nextPowerOf2 args.numHeads)),
    let s := kernelScore args row h col
    (if s > 0 then s else 0) * if h < args.numHeads then args.weights row h else 0

def fp8MqaLogitsKernel (blockN : Nat) (program : Nat × Nat) : List (Nat × Option Logit) :=
  let (row,nBlock) := program
  let nStart := nBlock * blockN
  if ((nStart : Int) ≥ args.ke row) ∨ ((nStart + blockN : Nat) : Int) ≤ args.ks row then
    (lanes args.n blockN nBlock).map fun col => (row * args.n + col,some .negInf)
  else
    (lanes args.n blockN nBlock).map fun col => (row * args.n + col,
      some (if col < args.n ∧ validKey args row col then .score (kernelOut args row col) else .negInf))

-- The logits buffer, flat, after the programs of the grid in some order.
def fp8MqaLogitsTriton (cleanLogits : Bool) (blockN : Nat) (order : List (Nat × Nat)) : Nat → Option Logit :=
  writes (fun _ => if cleanLogits then some .negInf else none) (order.flatMap (fp8MqaLogitsKernel args blockN))

end Kernel

-- GLM53_SAFE_LOGITS: "1" is always torch, "0" always Triton.
inductive SafeLogitsMode where
  | torch
  | triton
  | auto

def useSafeLogits (mode : SafeLogitsMode) (safeLogitsN n : Nat) : Bool :=
  match mode with
  | .torch => true
  | .triton => false
  | .auto => decide (n > safeLogitsN)

def chunkLogits (args : PrefillArgs) (mode : SafeLogitsMode) (safeLogitsN nChunk blockN : Nat)
    (order : List (Nat × Nat)) (row col : Nat) : Option Logit :=
  if useSafeLogits mode safeLogitsN args.n then some (mqaLogitsTorch args nChunk row col)
  else fp8MqaLogitsTriton args false blockN order (row * args.n + col)

-- sum_h relu(q_h . k_n * scale_n) * w_h inside the window, -inf elsewhere.
def prefillLogit (args : PrefillArgs) (row col : Nat) : Logit :=
  if validKey args row col then
    .score (∑ h ∈ Finset.range args.numHeads,
      relu ((∑ d ∈ Finset.range args.headDim, args.q row h d * args.k col d) * args.kScale col) * args.weights row h)
  else .negInf

section Torch
variable (args : PrefillArgs)

theorem chunk_score_exact (row : Nat) (head : h < args.numHeads) (inside : j < n1 - n0) :
    chunkScores args n0 n1 row h j =
      (∑ d ∈ Finset.range args.headDim, args.q row h d * args.k (n0 + j) d) * args.kScale (n0 + j) := by
  unfold chunkScores
  dsimp only
  rw [split_first _ _ _ _ inside]
  congr 1
  apply Finset.sum_congr rfl
  intro d member
  rw [merged_first _ row head (Finset.mem_range.mp member)]

theorem chunk_step_exact (nChunk : Nat) (out : Nat → Nat → Logit) (n0 row col : Nat) :
    chunkStep args nChunk out n0 row col =
      if n0 ≤ col ∧ col < min args.n (n0 + nChunk) then prefillLogit args row col else out row col := by
  unfold chunkStep
  by_cases inside : n0 ≤ col ∧ col < min args.n (n0 + nChunk)
  · rw [if_pos inside,if_pos inside]
    unfold prefillLogit
    by_cases valid : validKey args row col
    · rw [if_pos valid,if_pos valid]
      congr 1
      apply Finset.sum_congr rfl
      intro h member
      rw [chunk_score_exact args row (Finset.mem_range.mp member) (by omega),Nat.add_sub_cancel' inside.1]
    · rw [if_neg valid,if_neg valid]
  · rw [if_neg inside,if_neg inside]

theorem chunks_exact (nChunk : Nat) (count row col : Nat) :
    ((List.range count).map (· * nChunk)).foldl (chunkStep args nChunk) (fun _ _ => .negInf) row col =
      if col < min args.n (count * nChunk) then prefillLogit args row col else .negInf := by
  induction count with
  | zero => simp
  | succ count ih =>
      rw [List.range_succ,List.map_append,List.foldl_append,List.map_singleton,List.foldl_cons,List.foldl_nil,
        chunk_step_exact,Nat.add_mul,Nat.one_mul]
      by_cases here : count * nChunk ≤ col ∧ col < min args.n (count * nChunk + nChunk)
      · rw [if_pos here,if_pos here.2]
      · rw [if_neg here,ih]
        by_cases before : col < min args.n (count * nChunk)
        · rw [if_pos before,if_pos (by omega)]
        · rw [if_neg before,if_neg (by omega)]

theorem torch_exact (positive : 0 < nChunk) (row : Nat) (column : col < args.n) :
    mqaLogitsTorch args nChunk row col = prefillLogit args row col := by
  have all := covered positive args.n
  unfold mqaLogitsTorch
  rw [chunks_exact,if_pos (by omega)]

end Torch

section Kernel
variable (args : PrefillArgs)

theorem kernel_score_exact (row : Nat) (head : h < args.numHeads) (column : col < args.n) :
    kernelScore args row h col =
      (∑ d ∈ Finset.range args.headDim, args.q row h d * args.k col d) * args.kScale col := by
  unfold kernelScore
  rw [cut_sum _ (args.power.covers args.headDim),if_pos column]
  · congr 1
    apply Finset.sum_congr rfl
    intro d member
    have lane := Finset.mem_range.mp member
    simp [qLane,kLane,head,column,lane]
  · intro d outside _
    simp [qLane,Nat.not_lt.mpr outside]

theorem relu_where (x : ℚ) : (if x > 0 then x else 0) = relu x := by
  unfold relu
  split
  · rename_i positive
    exact (max_eq_left (le_of_lt positive)).symm
  · rename_i low
    exact (max_eq_right (not_lt.mp low)).symm

theorem kernel_out_exact (row : Nat) (column : col < args.n) :
    kernelOut args row col = ∑ h ∈ Finset.range args.numHeads,
      relu ((∑ d ∈ Finset.range args.headDim, args.q row h d * args.k col d) * args.kScale col) *
        args.weights row h := by
  have heads : args.numHeads ≤ max 16 (args.nextPowerOf2 args.numHeads) :=
    Nat.le_trans (args.power.covers args.numHeads) (Nat.le_max_right _ _)
  unfold kernelOut
  rw [cut_sum _ heads]
  · apply Finset.sum_congr rfl
    intro h member
    have head := Finset.mem_range.mp member
    dsimp only
    rw [kernel_score_exact args row head column,relu_where,if_pos head]
  · intro h outside _
    simp [Nat.not_lt.mpr outside]

theorem kernel_aimed (blockN : Nat) : Aimed args.n blockN (fp8MqaLogitsKernel args blockN) := by
  intro row tile
  unfold fp8MqaLogitsKernel
  dsimp only
  split
  · simp [Function.comp_def]
  · simp [Function.comp_def]

-- A tile that leaves early holds no key of the window.
theorem kernel_value (stored : (row * args.n + col,val) ∈ fp8MqaLogitsKernel args blockN (row,tile))
    (lane : col ∈ lanes args.n blockN tile) : val = some (prefillLogit args row col) := by
  obtain ⟨low,high,column⟩ := lanes_exact.mp lane
  unfold fp8MqaLogitsKernel at stored
  dsimp only at stored
  unfold prefillLogit
  split at stored
  · rename_i outside
    obtain ⟨col',_,same⟩ := List.mem_map.mp stored
    obtain ⟨_,rfl⟩ := Prod.mk.inj same
    have invalid : ¬ validKey args row col := by
      intro ⟨first,last⟩
      rcases outside with past | before
      · omega
      · omega
    rw [if_neg invalid]
  · obtain ⟨col',_,same⟩ := List.mem_map.mp stored
    obtain ⟨address,rfl⟩ := Prod.mk.inj same
    have equal : col' = col := Nat.add_left_cancel address
    subst equal
    by_cases valid : validKey args row col'
    · rw [if_pos ⟨column,valid⟩,if_pos valid,kernel_out_exact args row column]
    · rw [if_neg (fun both => valid both.2),if_neg valid]

theorem triton_exact (cleanLogits : Bool) (positive : 0 < blockN) (launched : order.Perm (programs args.m args.n blockN))
    (inside : row < args.m) (column : col < args.n) :
    fp8MqaLogitsTriton args cleanLogits blockN order (row * args.n + col) = some (prefillLogit args row col) :=
  cell_exact positive (kernel_aimed args blockN) launched (fun row col => some (prefillLogit args row col))
    (fun _ _ _ _ lane _ stored => kernel_value args stored lane) _ inside column

def threeKeys : PrefillArgs where
  nextPowerOf2 := leastPower
  power := least_power_documented
  m := 2
  numHeads := 1
  headDim := 1
  n := 3
  q := fun row _ _ => row + 1
  k := fun col _ => col - 1
  kScale := fun _ => 1 / 2
  weights := fun _ _ => 3
  ks := fun row => if row = 0 then 1 else 2
  ke := fun row => if row = 0 then 3 else 1

end Kernel

end Glm5Next.PrefillLogits
