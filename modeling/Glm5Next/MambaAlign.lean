import Mathlib.Order.Basic

namespace Glm5Next.MambaAlign

-- A request slot's entries of the align arrays: running block column, accepted
-- tokens, and the source column and offset of the step's pre-copy.
structure AlignState where
  stateIdx : Int
  numAccepted : Nat
  srcCol : Int
  srcOff : Nat
  deriving DecidableEq, Repr

-- The block columns of one state copy: srcCol + tokenBias goes to dstCol.
structure Copy where
  srcCol : Int
  tokenBias : Int
  dstCol : Int
  deriving DecidableEq, Repr

def addRequest (blockSize numComputed : Nat) (a : AlignState) : AlignState :=
  { a with numAccepted := 1, stateIdx := ((numComputed : Int) - 1) / blockSize }

def newStateIdx (blockSize computedAfter : Nat) : Int :=
  ((computedAfter + blockSize - 1) / blockSize : Nat) - 1

def preprocessMambaAlign (blockSize computedAfter : Nat) (a : AlignState) : AlignState :=
  let shouldReset := a.stateIdx ≥ 0 ∧ a.stateIdx ≠ newStateIdx blockSize computedAfter
  { stateIdx := newStateIdx blockSize computedAfter
    numAccepted := if shouldReset then 1 else a.numAccepted
    srcCol := a.stateIdx
    srcOff := a.numAccepted - 1 }

def precopyMambaAlign (a : AlignState) : Option Copy :=
  if a.srcCol < 0 ∨ a.srcCol = a.stateIdx then none else some ⟨a.srcCol,a.srcOff,a.stateIdx⟩

def scatterNumAccepted (numSampled : Nat) (a : AlignState) : AlignState :=
  { a with numAccepted := max numSampled 1 }

-- The accepted counts are read from a snapshot, so every state of the request
-- sees the same decision.
def postprocessMamba (blockSize newNumComputed : Nat) (a : AlignState) : AlignState × Option Copy :=
  let numTokensRunningState : Int := newNumComputed - a.numAccepted + 1
  let alignedNewComputed : Int := (newNumComputed / blockSize * blockSize : Nat)
  if alignedNewComputed ≥ numTokensRunningState then
    let acceptTokenBias := alignedNewComputed - numTokensRunningState
    let destBlockIdx := alignedNewComputed / blockSize - 1
    (if a.stateIdx = destBlockIdx then { a with numAccepted := 1 } else a,
      if a.stateIdx = destBlockIdx ∧ acceptTokenBias = 0 then none
      else some ⟨a.stateIdx,acceptTokenBias,destBlockIdx⟩)
  else (a,none)

section Columns
variable {blockSize : Nat}

theorem start_column (aligned : blockSize * (j + 1) = numComputed) (positive : 0 < blockSize) (a : AlignState) :
    (addRequest blockSize numComputed a).stateIdx = j := by
  have split : ((numComputed : Int) - 1) = blockSize * (j : Int) + ((blockSize : Int) - 1) := by
    rw [← aligned]
    push_cast
    rw [Int.mul_add]
    omega
  show ((numComputed : Int) - 1) / blockSize = j
  rw [split,Int.mul_add_ediv_left _ _ (by omega),Int.ediv_eq_zero_of_lt (by omega) (by omega),Int.add_zero]

theorem new_column_bounds (positive : 0 < blockSize) (scheduled : 0 < computedAfter) :
    ∃ k : Nat, newStateIdx blockSize computedAfter = k ∧ k * blockSize < computedAfter ∧
      computedAfter ≤ (k + 1) * blockSize := by
  have split := Nat.div_add_mod (computedAfter + blockSize - 1) blockSize
  have rest := Nat.mod_lt (computedAfter + blockSize - 1) positive
  rw [Nat.mul_comm] at split
  have some_block : 0 < (computedAfter + blockSize - 1) / blockSize := Nat.div_pos (by omega) positive
  obtain ⟨k,block⟩ := Nat.exists_eq_add_of_lt some_block
  rw [Nat.zero_add] at block
  refine ⟨k,?_,?_,?_⟩
  · rw [newStateIdx,block]
    omega
  · rw [block,Nat.succ_mul] at split
    omega
  · rw [block] at split
    omega

-- A boundary below the scheduled tokens lies below the running block.
theorem boundary_before (positive : 0 < blockSize) (reached : j * blockSize < computedAfter) :
    (j : Int) ≤ newStateIdx blockSize computedAfter := by
  obtain ⟨k,column,_,last⟩ := new_column_bounds positive (show 0 < computedAfter by omega)
  have order := Nat.lt_of_mul_lt_mul_right (Nat.lt_of_lt_of_le reached last)
  omega

-- What the postprocess decides after `accepted` tokens on top of `before`:
-- the last block boundary among them, if there is one, gets its state.
inductive Decision (blockSize before accepted : Nat) (a : AlignState) : AlignState × Option Copy → Prop where
  | uncrossed (inside : (before + accepted) / blockSize * blockSize ≤ before) :
      Decision blockSize before accepted a (a,none)
  | moved (j : Nat) (boundary : (before + accepted) / blockSize = j + 1) (crossed : before < (j + 1) * blockSize)
      (apart : a.stateIdx ≠ j) :
      Decision blockSize before accepted a (a,some ⟨a.stateIdx,((j + 1) * blockSize : Nat) - before - 1,j⟩)
  | settled (j : Nat) (boundary : (before + accepted) / blockSize = j + 1)
      (crossed : before + 1 = (j + 1) * blockSize) (here : a.stateIdx = j) :
      Decision blockSize before accepted a ({ a with numAccepted := 1 },none)
  | folded (j : Nat) (boundary : (before + accepted) / blockSize = j + 1)
      (crossed : before + 1 < (j + 1) * blockSize) (here : a.stateIdx = j) :
      Decision blockSize before accepted a
        ({ a with numAccepted := 1 },some ⟨a.stateIdx,((j + 1) * blockSize : Nat) - before - 1,j⟩)

theorem postprocess_exact (positive : 0 < blockSize) (counted : a.numAccepted = accepted) :
    Decision blockSize before accepted a (postprocessMamba blockSize (before + accepted) a) := by
  have running : ((before + accepted : Nat) : Int) - a.numAccepted + 1 = before + 1 := by omega
  unfold postprocessMamba
  dsimp only
  rw [running]
  by_cases crossed : before < (before + accepted) / blockSize * blockSize
  · rw [if_pos (by omega)]
    cases boundary : (before + accepted) / blockSize with
    | zero =>
        rw [boundary,Nat.zero_mul] at crossed
        exact absurd crossed (Nat.not_lt_zero _)
    | succ j =>
        rw [boundary] at crossed
        have dest : (((j + 1) * blockSize : Nat) : Int) / blockSize - 1 = j := by
          rw [Int.natCast_mul,Int.mul_ediv_cancel _ (by omega)]
          omega
        have bias : (((j + 1) * blockSize : Nat) : Int) - ((before : Int) + 1) =
            ((j + 1) * blockSize : Nat) - before - 1 := by omega
        rw [dest,bias]
        by_cases here : a.stateIdx = j
        · rw [if_pos here]
          by_cases last : before + 1 = (j + 1) * blockSize
          · rw [if_pos ⟨here,by omega⟩]
            exact .settled j boundary last here
          · rw [if_neg (by omega)]
            exact .folded j boundary (by omega) here
        · rw [if_neg here,if_neg fun both => here both.1]
          exact .moved j boundary crossed here
  · rw [if_neg (by omega)]
    exact .uncrossed (by omega)

end Columns

end Glm5Next.MambaAlign
