import Glm5Next.ExpandedPools
import Glm5Next.TensorViews
import Glm5Next.TiledGrid
import Glm5Next.WrappedInts

namespace Glm5Next.FusedExpansion
open StoreWrites TensorViews TiledGrid WrappedInts ExpandedPools

structure Tensor2 (α : Type) where
  rows : Nat
  cols : Nat
  entry : Nat → Nat → α

def clamp (x low high : Int) : Int := min (max x low) high

def gather (table : Tensor2 Int) (row : Nat) (col : Int) : Int := table.entry row col.toNat

def expandPoolsToTokens (groupIds : Tensor2 Int) (groupValid : Tensor2 Bool) (topk poolSize : Nat)
    (pageTable : Option (Tensor2 Int)) (topkOffsets : Option (Nat → Int)) : Option (Tensor2 Int) :=
  if groupValid.rows = groupIds.rows ∧ groupValid.cols = groupIds.cols ∧ topk % poolSize = 0 ∧
      groupIds.cols = topk / poolSize ∧ (pageTable.isNone ∨ topkOffsets.isNone) then
    let tokenIds := view2 topk (flat3 groupIds.cols poolSize fun row g o => int64 (int64 (groupIds.entry row g * poolSize) + o))
    let valid := view2 topk (flat3 groupIds.cols poolSize fun row g _ => groupValid.entry row g)
    let output := fun row col =>
      match pageTable, topkOffsets with
      | some table, _ => int32 (gather table row (clamp (tokenIds row col) 0 ((table.cols : Int) - 1)))
      | none, some offsets => int32 (int64 (tokenIds row col + offsets row))
      | none, none => int32 (tokenIds row col)
    some ⟨groupIds.rows,topk,fun row col => if valid row col then output row col else -1⟩
  else none

-- A seq_len is an int32 and the tail starts below it, so the arithmetic of a
-- tail column stays in range; other columns are dropped by the last `where`.
def appendTailToTopk (topkResult : Tensor2 Int) (seqLens poolLens : Nat → Nat) (poolSize : Nat)
    (pageTable : Option (Tensor2 Int)) (topkOffsets : Option (Nat → Int)) : Option (Tensor2 Int) :=
  let tailPool := poolSize - 1
  let historyLen := topkResult.cols
  if tailPool = 0 then some topkResult
  -- The gather of the history has no column to read.
  else if topkResult.rows ≠ 0 ∧ historyLen = 0 then none
  else
    some ⟨topkResult.rows,historyLen + tailPool,fun row col =>
      let tailStart : Int := (poolLens row * poolSize : Nat)
      let tailCount : Int := seqLens row - tailStart
      let tailOff : Int := (col : Int) - historyLen
      let historyVal := topkResult.entry row (min col (historyLen - 1))
      let tailRaw := tailStart + tailOff
      let tailVal :=
        match pageTable, topkOffsets with
        | some table, _ => int32 (gather table row (clamp tailRaw 0 ((table.cols : Int) - 1)))
        | none, some offsets => int32 (int64 (tailRaw + offsets row))
        | none, none => int32 tailRaw
      let out := if col < historyLen then historyVal else -1
      if 0 ≤ tailOff ∧ tailOff < tailCount then tailVal else out⟩

def laneValue (idType : IntType) (poolIds : Tensor2 Int) (seqLens : Nat → Nat) (poolSize row col : Nat) : Int :=
  let topk := poolIds.cols * poolSize
  let poolLen := seqLens row / poolSize
  let tailStart : Int := (poolLen * poolSize : Nat)
  let tailCount : Int := seqLens row - tailStart
  let isHistory := col < topk
  let pid := if isHistory then poolIds.entry row (col / poolSize) else -1
  let histVal := int32 (idType.wrap (idType.wrap (pid * poolSize) + (col % poolSize : Nat)))
  let histOut := if pid ≥ 0 then histVal else -1
  let tailOff : Int := (col : Int) - topk
  let tailVal := int32 (tailStart + tailOff)
  let tailOut := if 0 ≤ tailOff ∧ tailOff < tailCount then tailVal else -1
  if isHistory then histOut else tailOut

def outCols (poolIds : Tensor2 Int) (poolSize : Nat) : Nat := poolIds.cols * poolSize + poolSize - 1

def expandPoolsAndAppendTailKernel (idType : IntType) (poolIds : Tensor2 Int) (seqLens : Nat → Nat)
    (poolSize blockCols : Nat) (program : Nat × Nat) : List (Nat × Option Int) :=
  (lanes (outCols poolIds poolSize) blockCols program.2).map fun col =>
    (program.1 * outCols poolIds poolSize + col,some (laneValue idType poolIds seqLens poolSize program.1 col))

-- The output, flat, after the programs of the grid in some order. `none` is
-- what torch.empty left there.
def fusedExpansion (idType : IntType) (poolIds : Tensor2 Int) (seqLens : Nat → Nat) (poolSize blockCols : Nat)
    (order : List (Nat × Nat)) : Nat → Option Int :=
  writes (fun _ => none) (order.flatMap (expandPoolsAndAppendTailKernel idType poolIds seqLens poolSize blockCols))

def nonnegative (poolIds : Tensor2 Int) : Tensor2 Bool :=
  ⟨poolIds.rows,poolIds.cols,fun row g => decide (poolIds.entry row g ≥ 0)⟩

section Columns
variable {poolIds tokens : Tensor2 Int} {seqLens : Nat → Nat} {poolSize : Nat}

theorem expanded_tokens (poolIds : Tensor2 Int) (positive : 0 < poolSize) :
    ∃ tokens, expandPoolsToTokens poolIds (nonnegative poolIds) (poolIds.cols * poolSize) poolSize none none =
        some tokens ∧ tokens.rows = poolIds.rows ∧ tokens.cols = poolIds.cols * poolSize ∧
      ∀ row col, col < poolIds.cols * poolSize → tokens.entry row col =
        if poolIds.entry row (col / poolSize) ≥ 0 then
          int32 (poolIds.entry row (col / poolSize) * poolSize + (col % poolSize : Nat)) else -1 := by
  refine ⟨_,if_pos ?_,rfl,rfl,?_⟩
  · refine ⟨rfl,rfl,Nat.mul_mod_left _ _,(Nat.mul_div_cancel _ positive).symm,Or.inl rfl⟩
  · intro row col inside
    have wrapped := int32_wrap .int64 (poolIds.entry row (col / poolSize) * poolSize) (col % poolSize : Nat)
    simp only [IntType.wrap] at wrapped
    simp only [merged_last _ row inside,nonnegative,decide_eq_true_iff,wrapped]

theorem lane_history (idType : IntType) (row : Nat) (history : col < poolIds.cols * poolSize) :
    laneValue idType poolIds seqLens poolSize row col =
      if poolIds.entry row (col / poolSize) ≥ 0 then
        int32 (poolIds.entry row (col / poolSize) * poolSize + (col % poolSize : Nat)) else -1 := by
  unfold laneValue
  simp only [if_pos history,int32_wrap]

theorem lane_tail (idType : IntType) (row : Nat) (past : ¬ col < poolIds.cols * poolSize) :
    laneValue idType poolIds seqLens poolSize row col =
      if col - poolIds.cols * poolSize < seqLens row - seqLens row / poolSize * poolSize then
        int32 ((seqLens row / poolSize * poolSize + (col - poolIds.cols * poolSize) : Nat) : Int) else -1 := by
  have whole := Nat.div_mul_le_self (seqLens row) poolSize
  have offset : ((col - poolIds.cols * poolSize : Nat) : Int) = (col : Int) - (poolIds.cols * poolSize : Nat) :=
    Int.ofNat_sub (Nat.le_of_not_lt past)
  unfold laneValue
  simp only [if_neg past]
  rw [Int.natCast_add,offset]
  split <;> split <;> first | rfl | omega

-- The row as the model of the sparse rows has it.
theorem lane_expanded (idType : IntType) (row col : Nat) :
    laneValue idType poolIds seqLens poolSize row col =
      int32 (expandedColumn poolSize ((List.range poolIds.cols).map (poolIds.entry row)) (seqLens row) col) := by
  have blank : (-1 : Int) = int32 (-1) := by decide
  unfold expandedColumn
  rw [List.length_map,List.length_range]
  by_cases history : col < poolIds.cols * poolSize
  · have pool : col / poolSize < poolIds.cols := Nat.div_lt_of_lt_mul (by rwa [Nat.mul_comm])
    simp only [lane_history idType row history,if_pos history]
    rw [List.getD_eq_getElem?_getD,List.getElem?_map,List.getElem?_range pool]
    split
    · rename_i chosen
      rw [Option.map_some,Option.getD_some,if_pos chosen]
    · rename_i absent
      rw [Option.map_some,Option.getD_some,if_neg absent,← blank]
  · simp only [lane_tail idType row history,if_neg history]
    split
    · rfl
    · exact blank

-- The two steps entry by entry: past the history the gather reads a column
-- that the first `where` drops.
theorem appended_tail (idType : IntType) (positive : 0 < poolSize) (groups : 0 < poolIds.cols)
    (wide : tokens.cols = poolIds.cols * poolSize)
    (history : ∀ row, ∀ col < poolIds.cols * poolSize,
      tokens.entry row col = laneValue idType poolIds seqLens poolSize row col) :
    ∃ appended, appendTailToTopk tokens seqLens (fun row => seqLens row / poolSize) poolSize none none = some appended ∧
      appended.rows = tokens.rows ∧ appended.cols = outCols poolIds poolSize ∧
      ∀ row, ∀ col < outCols poolIds poolSize,
        appended.entry row col = laneValue idType poolIds seqLens poolSize row col := by
  have columns : 0 < poolIds.cols * poolSize := Nat.mul_pos groups positive
  unfold outCols appendTailToTopk
  by_cases single : poolSize - 1 = 0
  · refine ⟨tokens,if_pos single,rfl,by omega,?_⟩
    intro row col inside
    exact history row col (by omega)
  · rw [if_neg single,if_neg (by omega)]
    refine ⟨_,rfl,rfl,by dsimp only; omega,?_⟩
    intro row col inside
    have whole := Nat.div_mul_le_self (seqLens row) poolSize
    simp only [wide]
    by_cases before : col < poolIds.cols * poolSize
    · have kept : min col (poolIds.cols * poolSize - 1) = col := by omega
      rw [if_neg (by omega),if_pos before,kept]
      exact history row col before
    · rw [lane_tail idType row before,if_neg before]
      have offset : ((col - poolIds.cols * poolSize : Nat) : Int) = (col : Int) - (poolIds.cols * poolSize : Nat) :=
        Int.ofNat_sub (Nat.le_of_not_lt before)
      rw [Int.natCast_add,offset]
      split <;> split <;> first | rfl | omega

end Columns

section Launch
variable (idType : IntType) (poolIds : Tensor2 Int) (seqLens : Nat → Nat) {poolSize blockCols : Nat}
  {order : List (Nat × Nat)}

theorem kernel_aimed : Aimed (outCols poolIds poolSize) blockCols
    (expandPoolsAndAppendTailKernel idType poolIds seqLens poolSize blockCols) := by
  intro row tile
  simp [expandPoolsAndAppendTailKernel,Function.comp_def]

theorem fused_cell (tiled : 0 < blockCols)
    (launched : order.Perm (programs poolIds.rows (outCols poolIds poolSize) blockCols))
    (inside : row < poolIds.rows) (column : col < outCols poolIds poolSize) :
    fusedExpansion idType poolIds seqLens poolSize blockCols order (row * outCols poolIds poolSize + col) =
      some (laneValue idType poolIds seqLens poolSize row col) := by
  apply cell_exact tiled (kernel_aimed idType poolIds seqLens) launched
    (fun row col => some (laneValue idType poolIds seqLens poolSize row col)) _ _ inside column
  intro row tile col _ _ val stored
  obtain ⟨col',_,same⟩ := List.mem_map.mp stored
  obtain ⟨address,rfl⟩ := Prod.mk.inj same
  rw [Nat.add_left_cancel address]

theorem fused_row_expanded (tiled : 0 < blockCols)
    (launched : order.Perm (programs poolIds.rows (outCols poolIds poolSize) blockCols))
    (inside : row < poolIds.rows) (column : col < outCols poolIds poolSize) :
    fusedExpansion idType poolIds seqLens poolSize blockCols order (row * outCols poolIds poolSize + col) =
      (ExpandedPools.expandPoolsAndAppendTail poolSize ((List.range poolIds.cols).map (poolIds.entry row))
        (seqLens row))[col]?.map int32 := by
  have listed : col < ((List.range poolIds.cols).map (poolIds.entry row)).length * poolSize + poolSize - 1 := by
    rwa [List.length_map,List.length_range]
  rw [fused_cell idType poolIds seqLens tiled launched inside column,lane_expanded,expandPoolsAndAppendTail,
    List.getElem?_map,List.getElem?_range listed]
  rfl

def threePools : Tensor2 Int := ⟨2,3,fun row g => if row = g then -1 else 2 * g + row⟩

end Launch

end Glm5Next.FusedExpansion
