import Mathlib.Algebra.BigOperators.Group.Finset.Basic
import Mathlib.Algebra.Order.Ring.Rat
import Glm5Next.Fp8Codec
import Glm5Next.PoolPages
import Glm5Next.TiledGrid

namespace Glm5Next.MqaLogits
open StoreWrites PoolPages Fp8Codec

inductive Logit where
  | negInf
  | score (x : ℚ)
  deriving DecidableEq

def decodeE4m3fnLut (u : UInt8) : ℚ := (e4m3fnLut u.toBitVec).getD 0

-- The tensors of one call; a tensor is what its pointer and strides read.
structure PagedArgs (layout : PageLayout) where
  nextPowerOf2 : Nat → Nat
  power : TiledGrid.NextPower nextPowerOf2
  batch : Nat
  nextN : Nat
  numHeads : Nat
  maxModelLen : Nat
  q : Nat → Nat → Nat → Nat → UInt8
  kvCache : Nat → UInt8
  float32 : List UInt8 → ℚ
  weights : Nat → Nat → ℚ
  contextLens : Nat → Int
  blockTables : Nat → Nat → Nat
  tableColumns : Nat

variable {layout : PageLayout}

-- Lanes past the heads, the head dimension or the block load zero.
def qTile (args : PagedArgs layout) (batchId nextNId offH offD : Nat) : ℚ :=
  decodeE4m3fnLut (if offH < args.numHeads ∧ offD < layout.headDim then args.q batchId nextNId offH offD else 0)

def kTile (args : PagedArgs layout) (blockIdx offN offD : Nat) : ℚ :=
  decodeE4m3fnLut (if offN < layout.pageSize ∧ offD < layout.headDim then kvByte layout args.kvCache blockIdx offN offD
    else 0)

def kScale (args : PagedArgs layout) (blockIdx offN : Nat) : ℚ :=
  if offN < layout.pageSize then args.float32 (kvScale layout args.kvCache blockIdx offN) else 0

def laneScore (args : PagedArgs layout) (batchId nextNId blockIdx offN offH : Nat) : ℚ :=
  (∑ offD ∈ Finset.range (args.nextPowerOf2 layout.headDim),
    qTile args batchId nextNId offH offD * kTile args blockIdx offN offD) * kScale args blockIdx offN

def laneOut (args : PagedArgs layout) (tokenId batchId nextNId blockIdx offN : Nat) : ℚ :=
  ∑ offH ∈ Finset.range (max 16 (args.nextPowerOf2 args.numHeads)),
    let s := laneScore args batchId nextNId blockIdx offN offH
    (if 0 < s then s else 0) * if offH < args.numHeads then args.weights tokenId offH else 0

def fp8PagedMqaLogitsKernel (args : PagedArgs layout) (tokenId blockRk : Nat) : List (Nat × Option Logit) :=
  let batchId := tokenId / args.nextN
  let nextNId := tokenId % args.nextN
  let contextLen := args.contextLens batchId
  if contextLen ≤ (blockRk * layout.pageSize : Nat) then []
  else
    let qOffset := contextLen - args.nextN + nextNId
    let blockIdx := args.blockTables batchId blockRk
    (List.range (args.nextPowerOf2 layout.pageSize)).filterMap fun offN =>
      let kOffset := blockRk * layout.pageSize + offN
      if offN < layout.pageSize ∧ (kOffset : Int) < contextLen then
        some (tokenId * args.maxModelLen + kOffset,
          some (if (kOffset : Int) ≤ qOffset then .score (laneOut args tokenId batchId nextNId blockIdx offN)
            else .negInf))
      else none

def grid (args : PagedArgs layout) : List (Nat × Nat) :=
  (List.range (args.batch * args.nextN)).flatMap fun tokenId =>
    (List.range args.tableColumns).map fun blockRk => (tokenId,blockRk)

-- The logits buffer, flat, after the programs of the grid in some order.
-- `none` is what torch.empty left there.
def fp8PagedMqaLogits (args : PagedArgs layout) (cleanLogits : Bool) (order : List (Nat × Nat)) : Nat → Option Logit :=
  writes (fun _ => if cleanLogits then some .negInf else none)
    (order.flatMap fun (tokenId,blockRk) => fp8PagedMqaLogitsKernel args tokenId blockRk)

-- sum_h w_h * relu(q_h . k) * scale
def poolLogit (numHeads headDim : Nat) (weights : Nat → ℚ) (q : Nat → Nat → UInt8) (k : Nat → UInt8) (scale : ℚ) : ℚ :=
  ∑ h ∈ Finset.range numHeads,
    weights h * max 0 (∑ d ∈ Finset.range headDim, decodeE4m3fnLut (q h d) * decodeE4m3fnLut (k d)) * scale

theorem lut_zero : decodeE4m3fnLut 0 = 0 := by
  have apart : magnitudeBits (0 : BitVec 8) ≠ 0x7F := by decide
  show (e4m3fnLut 0).getD 0 = 0
  rw [lut_exact apart]
  simp [e4m3fn,magnitudeBits,signed,Minifloat.value,Minifloat.units]

theorem lane_score_exact (args : PagedArgs layout) (batchId nextNId blockIdx : Nat) (row : offN < layout.pageSize)
    (head : offH < args.numHeads) :
    laneScore args batchId nextNId blockIdx offN offH =
      (∑ d ∈ Finset.range layout.headDim, decodeE4m3fnLut (args.q batchId nextNId offH d) *
        decodeE4m3fnLut (kvByte layout args.kvCache blockIdx offN d)) *
        args.float32 (kvScale layout args.kvCache blockIdx offN) := by
  unfold laneScore
  rw [TiledGrid.cut_sum _ (args.power.covers layout.headDim)]
  · have scale : kScale args blockIdx offN = args.float32 (kvScale layout args.kvCache blockIdx offN) := if_pos row
    rw [scale]
    congr 1
    apply Finset.sum_congr rfl
    intro d inside
    have column := Finset.mem_range.mp inside
    simp [qTile,kTile,row,head,column]
  · intro d outside _
    have past : ¬ d < layout.headDim := Nat.not_lt.mpr outside
    simp [qTile,past,lut_zero]

theorem relu_scale (x : ℚ) (natural : 0 ≤ s) : (if 0 < x * s then x * s else 0) = max 0 x * s := by
  rcases le_total x 0 with low | high
  · have product : x * s ≤ 0 := mul_nonpos_of_nonpos_of_nonneg low natural
    rw [if_neg (not_lt.mpr product),max_eq_left low,zero_mul]
  · have product : 0 ≤ x * s := mul_nonneg high natural
    rw [max_eq_right high]
    split
    · rfl
    · rename_i zero
      exact le_antisymm product (not_lt.mp zero)

theorem lane_out_exact (args : PagedArgs layout) (tokenId batchId nextNId blockIdx : Nat)
    (row : offN < layout.pageSize)
    (natural : 0 ≤ args.float32 (kvScale layout args.kvCache blockIdx offN)) :
    laneOut args tokenId batchId nextNId blockIdx offN =
      poolLogit args.numHeads layout.headDim (args.weights tokenId) (args.q batchId nextNId)
        (kvByte layout args.kvCache blockIdx offN) (args.float32 (kvScale layout args.kvCache blockIdx offN)) := by
  have lanes : args.numHeads ≤ max 16 (args.nextPowerOf2 args.numHeads) :=
    Nat.le_trans (args.power.covers args.numHeads) (Nat.le_max_right _ _)
  unfold laneOut poolLogit
  rw [TiledGrid.cut_sum _ lanes]
  · apply Finset.sum_congr rfl
    intro h inside
    have head := Finset.mem_range.mp inside
    simp only [lane_score_exact args batchId nextNId blockIdx row head,relu_scale _ natural,if_pos head]
    ring
  · intro h outside _
    have past : ¬ h < args.numHeads := Nat.not_lt.mpr outside
    simp [past]

theorem kernel_stores (args : PagedArgs layout) (tokenId blockRk : Nat) :
    entry ∈ fp8PagedMqaLogitsKernel args tokenId blockRk ↔
      ∃ n, n / layout.pageSize = blockRk ∧ (n : Int) < args.contextLens (tokenId / args.nextN) ∧
        entry = (tokenId * args.maxModelLen + n,
          some (if (n : Int) ≤ args.contextLens (tokenId / args.nextN) - args.nextN + (tokenId % args.nextN : Nat) then
            .score (laneOut args tokenId (tokenId / args.nextN) (tokenId % args.nextN)
              (args.blockTables (tokenId / args.nextN) blockRk) (n % layout.pageSize))
          else .negInf)) := by
  have slots := layout.slots_pos
  unfold fp8PagedMqaLogitsKernel
  dsimp only
  constructor
  · intro stored
    split at stored
    · cases stored
    · obtain ⟨offN,_,stored⟩ := List.mem_filterMap.mp stored
      split at stored
      · rename_i inside
        cases stored
        refine ⟨blockRk * layout.pageSize + offN,Ragged.grid_row inside.1,inside.2,?_⟩
        rw [Ragged.grid_col inside.1]
      · cases stored
  · rintro ⟨n,rfl,visible,rfl⟩
    have place := Nat.div_add_mod' n layout.pageSize
    have lane := Nat.mod_lt n slots
    rw [if_neg (by omega)]
    refine List.mem_filterMap.mpr ⟨n % layout.pageSize,?_,?_⟩
    · exact List.mem_range.mpr (Nat.lt_of_lt_of_le lane (args.power.covers layout.pageSize))
    · rw [place,if_pos ⟨lane,visible⟩]

theorem grid_exact (args : PagedArgs layout) :
    (tokenId,blockRk) ∈ grid args ↔ tokenId < args.batch * args.nextN ∧ blockRk < args.tableColumns := by
  simp [grid]

-- One cell of the buffer: written by the program of its row and its block, by no other.
theorem cell_exact (args : PagedArgs layout) (cleanLogits : Bool)
    (sized : ∀ i < args.batch, args.contextLens i ≤ args.maxModelLen) (order : List (Nat × Nat))
    (launched : order.Perm (grid args)) (row : tokenId < args.batch * args.nextN) (column : n < args.maxModelLen)
    (covered : n / layout.pageSize < args.tableColumns) :
    fp8PagedMqaLogits args cleanLogits order (tokenId * args.maxModelLen + n) =
      if (n : Int) < args.contextLens (tokenId / args.nextN) then
        some (if (n : Int) ≤ args.contextLens (tokenId / args.nextN) - args.nextN + (tokenId % args.nextN : Nat) then
          .score (laneOut args tokenId (tokenId / args.nextN) (tokenId % args.nextN)
            (args.blockTables (tokenId / args.nextN) (n / layout.pageSize)) (n % layout.pageSize))
        else .negInf)
      else if cleanLogits then some .negInf else none := by
  -- A store to this address comes from this row and this column.
  have same : ∀ token blockRk, (token,blockRk) ∈ order → ∀ m : Nat, (m : Int) < args.contextLens (token / args.nextN) →
      token * args.maxModelLen + m = tokenId * args.maxModelLen + n → token = tokenId ∧ m = n := by
    intro token blockRk listed m visible equal
    have inside := ((grid_exact args).mp (launched.mem_iff.mp listed)).1
    have request : token / args.nextN < args.batch := Nat.div_lt_of_lt_mul (by rwa [Nat.mul_comm] at inside)
    have bound := sized _ request
    have small : m < args.maxModelLen := by omega
    exact Ragged.grid_unique small column equal
  unfold fp8PagedMqaLogits
  by_cases visible : (n : Int) < args.contextLens (tokenId / args.nextN)
  · rw [if_pos visible]
    apply writes_exact
    · refine List.mem_flatMap.mpr ⟨(tokenId,n / layout.pageSize),?_,?_⟩
      · exact launched.mem_iff.mpr ((grid_exact args).mpr ⟨row,covered⟩)
      · exact (kernel_stores args _ _).mpr ⟨n,rfl,visible,rfl⟩
    · intro entry member equal
      obtain ⟨⟨token,blockRk⟩,listed,stored⟩ := List.mem_flatMap.mp member
      obtain ⟨m,rfl,shown,rfl⟩ := (kernel_stores args token blockRk).mp stored
      obtain ⟨rfl,rfl⟩ := same token _ listed m shown equal
      rfl
  · rw [if_neg visible]
    apply writes_apart
    intro entry member equal
    obtain ⟨⟨token,blockRk⟩,listed,stored⟩ := List.mem_flatMap.mp member
    obtain ⟨m,rfl,shown,rfl⟩ := (kernel_stores args token blockRk).mp stored
    obtain ⟨rfl,rfl⟩ := same token _ listed m shown equal
    exact visible shown

end Glm5Next.MqaLogits
