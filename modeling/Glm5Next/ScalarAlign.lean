import Glm5Next.AlignKernels
import Glm5Next.Lockstep
import Glm5Next.TiledGrid

namespace Glm5Next.ScalarAlign
open MambaAlign AlignKernels PointUpdates TiledGrid

structure Row (ReqId : Type) where
  reqId : ReqId
  slot : Nat
  numComputed : Nat
  numScheduled : Nat
  numDraft : Nat
  numSampled : Nat
  deriving DecidableEq, Repr

structure NewRequest (ReqId : Type) where
  reqId : ReqId
  slot : Nat
  numComputed : Nat
  deriving DecidableEq, Repr

structure Step (ReqId : Type) where
  finished : List ReqId
  preempted : List ReqId
  resumed : List ReqId
  added : List (NewRequest ReqId)
  rows : List (Row ReqId)

-- The entry of mamba_state_idx, if there is one, and the accepted count in
-- the request's row of the input batch.
structure Entry where
  mambaStateIdx : Option Int
  numAccepted : Nat
  deriving DecidableEq, Repr

-- What a preprocess decides for a request: the pre-copy, the running column
-- and the accepted count the forward reads.
structure Migration where
  copy : Option Copy
  column : Int
  accepted : Nat
  deriving DecidableEq, Repr

-- What a postprocess decides: the copy, and whether the count becomes 1.
structure Settlement where
  copy : Option Copy
  reset : Bool
  deriving DecidableEq, Repr

structure Outcome where
  migrations : List Migration
  settlements : List Settlement
  deriving DecidableEq, Repr

inductive NewComputed where
  | precomputed (newNumComputed : Int)
  | counted (numComputed numScheduled numDraft : Int)
  deriving DecidableEq, Repr

def NewComputed.counts (numAccepted : Int) : NewComputed → Int × Int
  | .precomputed newNumComputed => (newNumComputed,newNumComputed - numAccepted + 1)
  | .counted numComputed numScheduled numDraft =>
    let numTokensRunningState := numComputed + numScheduled - numDraft
    (numTokensRunningState + numAccepted - 1,numTokensRunningState)

-- The kernel divides as C does.
def postprocessDecision (blockSize : Nat) (numAccepted srcBlockIdx : Int) (computed : NewComputed) : Settlement :=
  let (newNumComputed,numTokensRunningState) := computed.counts numAccepted
  let alignedNewComputed := newNumComputed.tdiv blockSize * blockSize
  if alignedNewComputed ≥ numTokensRunningState then
    let acceptTokenBias := alignedNewComputed - numTokensRunningState
    let destBlockIdx := alignedNewComputed.tdiv blockSize - 1
    ⟨if srcBlockIdx = destBlockIdx ∧ acceptTokenBias = 0 then none
      else some ⟨srcBlockIdx,acceptTokenBias,destBlockIdx⟩,decide (srcBlockIdx = destBlockIdx)⟩
  else ⟨none,false⟩

section Scalar
variable {ReqId : Type} (ac : AlignConfig)

def prevStateIdx (row : Row ReqId) (e : Entry) : Int :=
  e.mambaStateIdx.getD (((row.numComputed : Int) - 1) / ac.blockSize)

def currStateIdx (row : Row ReqId) : Int :=
  let numBlocks := cdiv (row.numComputed + row.numScheduled) ac.blockSize + ac.numSpeculativeBlocks
  (numBlocks : Int) - 1 - ac.numSpeculativeBlocks

def preprocessRow (row : Row ReqId) (e : Entry) : Entry × Migration :=
  let prev := prevStateIdx ac row e
  let curr := currStateIdx ac row
  if prev ≠ -1 ∧ prev ≠ curr then (⟨some curr,1⟩,⟨some ⟨prev,(e.numAccepted : Int) - 1,curr⟩,curr,1⟩)
  else (⟨some curr,e.numAccepted⟩,⟨none,curr,e.numAccepted⟩)

-- With align_ctx the loop stages the arrays of the precopy kernel instead.
structure Staged where
  stateIdx : Int
  srcCol : Int
  tokenBias : Int

-- `none` is a failed assertion.
def stageRow (row : Row ReqId) (e : Entry) : Option (Entry × Staged) :=
  let prev := prevStateIdx ac row e
  let curr := currStateIdx ac row
  if prev ≠ -1 ∧ prev ≠ curr then
    let acceptTokenBias := (e.numAccepted : Int) - 1
    if acceptTokenBias ≥ 0 then some (⟨some curr,1⟩,⟨curr,prev,acceptTokenBias⟩) else none
  else some (⟨some curr,e.numAccepted⟩,⟨curr,-1,0⟩)

def precopyStaged (staged : Staged) : Option Copy :=
  if staged.srcCol < 0 ∨ staged.srcCol = staged.stateIdx then none
  else some ⟨staged.srcCol,staged.tokenBias,staged.stateIdx⟩

def Step.leaving (step : Step ReqId) : List ReqId := step.finished ++ step.preempted ++ step.resumed

def Step.byRequest (step : Step ReqId) : List (ReqId × Row ReqId) := step.rows.map fun row => (row.reqId,row)

def Step.bySlot (step : Step ReqId) : List (Nat × Row ReqId) := step.rows.map fun row => (row.slot,row)

-- stage_postprocess_inputs_to_gpu asserts that the entry is there.
def scalarSettlement (row : Row ReqId) (e : Entry) : Option Settlement :=
  e.mambaStateIdx.map fun stateIdx =>
    postprocessDecision ac.blockSize e.numAccepted stateIdx
      (.counted row.numComputed row.numScheduled row.numDraft)

section Steps
variable [DecidableEq ReqId]

def cleanupMambaStateIdx (step : Step ReqId) (s : ReqId → Entry) : ReqId → Entry :=
  step.leaving.foldl (fun s reqId => modify s reqId fun e => { e with mambaStateIdx := none }) s

-- The input batch gives a new row the count 1.
def enroll (step : Step ReqId) (s : ReqId → Entry) : ReqId → Entry :=
  modifies (fun _ _ e => { e with numAccepted := 1 }) s (step.added.map fun new => (new.reqId,new))

def preprocessMamba (step : Step ReqId) (s : ReqId → Entry) : (ReqId → Entry) × List Migration :=
  sweep (preprocessRow ac) step.byRequest (cleanupMambaStateIdx step s)

def countSampled (step : Step ReqId) (s : ReqId → Entry) : ReqId → Entry :=
  modifies (fun _ row e => { e with numAccepted := max row.numSampled 1 }) s step.byRequest

def resetCounts (step : Step ReqId) (settlements : List Settlement) (s : ReqId → Entry) : ReqId → Entry :=
  modifies (fun _ settlement e => if settlement.reset then { e with numAccepted := 1 } else e) s
    ((step.rows.map Row.reqId).zip settlements)

def scalarStep (s : ReqId → Entry) (step : Step ReqId) : Option ((ReqId → Entry) × Outcome) := do
  let (s,migrations) := preprocessMamba ac step (enroll step s)
  let s := countSampled step s
  let settlements ← step.rows.mapM fun row => scalarSettlement ac row (s row.reqId)
  return (resetCounts step settlements s,⟨migrations,settlements⟩)

end Steps

end Scalar

section Fused
variable {ReqId : Type} (ac : AlignConfig)

def fusedMigration (a : AlignState) : Migration := ⟨precopyMambaAlign a,a.stateIdx,a.numAccepted⟩

def fusedSettlement (row : Row ReqId) (a : AlignState) : Settlement :=
  postprocessDecision ac.blockSize a.numAccepted a.stateIdx
    (.precomputed (row.numComputed + row.numScheduled - row.numDraft + a.numAccepted - 1))

def fusedAdd (step : Step ReqId) (align : Nat → AlignState) : Nat → AlignState :=
  modifies (fun _ computed => addRequest ac.cacheBlockSize computed) align
    (step.added.map fun new => (new.slot,new.numComputed))

def fusedPreprocess (step : Step ReqId) (align : Nat → AlignState) : Nat → AlignState :=
  modifies (fun _ row => preprocessMambaAlign ac.blockSize (row.numComputed + row.numScheduled)) align step.bySlot

def fusedScatter (step : Step ReqId) (align : Nat → AlignState) : Nat → AlignState :=
  modifies (fun _ row => scatterNumAccepted row.numSampled) align step.bySlot

def fusedReset (step : Step ReqId) (settlements : List Settlement) (align : Nat → AlignState) : Nat → AlignState :=
  modifies (fun _ settlement a => if settlement.reset then { a with numAccepted := 1 } else a) align
    ((step.rows.map Row.slot).zip settlements)

-- The postprocess decides from a snapshot of the counts.
def fusedStep (align : Nat → AlignState) (step : Step ReqId) : (Nat → AlignState) × Outcome :=
  let align := fusedPreprocess ac step (fusedAdd ac step align)
  let migrations := step.rows.map fun row => fusedMigration (align row.slot)
  let align := fusedScatter step align
  let settlements := step.rows.map fun row => fusedSettlement ac row (align row.slot)
  (fusedReset step settlements align,⟨migrations,settlements⟩)

end Fused

section Decisions
variable {ReqId : Type} {ac : AlignConfig} {row : Row ReqId} {e : Entry} {a : AlignState}

theorem precomputed_same (blockSize : Nat) (numAccepted srcBlockIdx numComputed numScheduled numDraft : Int) :
    postprocessDecision blockSize numAccepted srcBlockIdx
        (.precomputed (numComputed + numScheduled - numDraft + numAccepted - 1)) =
      postprocessDecision blockSize numAccepted srcBlockIdx (.counted numComputed numScheduled numDraft) := by
  have same : (NewComputed.precomputed (numComputed + numScheduled - numDraft + numAccepted - 1)).counts numAccepted =
      (NewComputed.counted numComputed numScheduled numDraft).counts numAccepted :=
    Prod.ext rfl (by simp only [NewComputed.counts]; omega)
  unfold postprocessDecision
  rw [same]

-- The decision over natural counts is the one of the GPU model.
theorem decision_exact (blockSize newNumComputed : Nat) (a : AlignState) :
    postprocessMamba blockSize newNumComputed a =
      let settlement := postprocessDecision blockSize a.numAccepted a.stateIdx (.precomputed newNumComputed)
      (if settlement.reset then { a with numAccepted := 1 } else a,settlement.copy) := by
  have aligned : (newNumComputed : Int).tdiv blockSize * blockSize = (newNumComputed / blockSize * blockSize : Nat) := by
    rw [← Int.ofNat_tdiv]
    rfl
  have dest : ((newNumComputed / blockSize * blockSize : Nat) : Int).tdiv blockSize =
      ((newNumComputed / blockSize * blockSize : Nat) : Int) / blockSize :=
    Int.tdiv_eq_ediv_of_nonneg (Int.natCast_nonneg _)
  simp only [postprocessMamba,postprocessDecision,NewComputed.counts,aligned,dest]
  split
  · simp only [decide_eq_true_eq]
  · rfl

theorem curr_exact (row : Row ReqId) :
    currStateIdx ac row = newStateIdx ac.blockSize (row.numComputed + row.numScheduled) := by
  simp only [currStateIdx,newStateIdx,cdiv]
  omega

-- One step of the two paths, from a column and a count that agree.
theorem preprocess_same (prev : prevStateIdx ac row e = a.stateIdx) (low : -1 ≤ a.stateIdx)
    (accepted : e.numAccepted = a.numAccepted) (counted : 0 < a.numAccepted) :
    let after := preprocessMambaAlign ac.blockSize (row.numComputed + row.numScheduled) a
    preprocessRow ac row e = (⟨some after.stateIdx,after.numAccepted⟩,fusedMigration after) := by
  have bias : ((a.numAccepted - 1 : Nat) : Int) = (a.numAccepted : Int) - 1 := by omega
  simp only [preprocessRow,preprocessMambaAlign,fusedMigration,precopyMambaAlign,prev,curr_exact,accepted,bias]
  by_cases moved : a.stateIdx ≠ -1 ∧ a.stateIdx ≠ newStateIdx ac.blockSize (row.numComputed + row.numScheduled)
  · obtain ⟨real,apart⟩ := moved
    rw [if_pos ⟨real,apart⟩,if_pos ⟨by omega,apart⟩,if_neg (by omega)]
  · rw [if_neg moved,if_neg (by omega),if_pos (by omega)]

-- The staged arrays lead the precopy kernel to the copy of the scalar loop.
theorem staged_same (low : ∀ column, e.mambaStateIdx = some column → -1 ≤ column) (counted : 0 < e.numAccepted) :
    ∃ staged, stageRow ac row e = some ((preprocessRow ac row e).1,staged) ∧
      precopyStaged staged = (preprocessRow ac row e).2.copy ∧ staged.stateIdx = (preprocessRow ac row e).2.column := by
  have bottom : -1 ≤ prevStateIdx ac row e := by
    unfold prevStateIdx
    cases entry : e.mambaStateIdx with
    | some column => exact low column entry
    | none =>
        have positive := ac.block_pos
        exact Int.le_ediv_of_mul_le (by omega) (by omega)
  simp only [stageRow,preprocessRow,precopyStaged]
  by_cases moved : prevStateIdx ac row e ≠ -1 ∧ prevStateIdx ac row e ≠ currStateIdx ac row
  · simp only [if_pos moved,if_pos (show (e.numAccepted : Int) - 1 ≥ 0 by omega)]
    have copied : ¬ (prevStateIdx ac row e < 0 ∨ prevStateIdx ac row e = currStateIdx ac row) := by omega
    exact ⟨_,rfl,if_neg copied,rfl⟩
  · simp only [if_neg moved]
    have fresh : (-1 : Int) < 0 ∨ -1 = currStateIdx ac row := .inl (by decide)
    exact ⟨_,rfl,if_pos fresh,rfl⟩

end Decisions

end Glm5Next.ScalarAlign
