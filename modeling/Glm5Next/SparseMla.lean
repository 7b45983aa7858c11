import Glm5Next.SentinelScores
import Glm5Next.TiledGrid
import Glm5Next.WrappedInts

namespace Glm5Next.SparseMla
open StoreWrites TiledGrid OnlineSoftmax SentinelScores WrappedInts

def blockDmodel : Nat := 512
def blockDv : Nat := 512
def blockH : Nat := 16
def mergeBlockH : Nat := 1
def mergeBlockDvTile : Nat := 128

-- Three tensors and their sizes: in a kernel, what its loads return. The wrapper
-- refuses other head dims.
structure MlaArgs (K : Type) where
  numTokens : Nat
  numHeadsQ : Nat
  dimQk : Nat
  seqKv : Nat
  indexTopk : Nat
  q : Nat → Nat → Nat → K
  kv : Nat → Nat → Nat → K
  indices : Nat → Nat → Nat → Int
  smScale : K
  someHead : 0 < numHeadsQ
  dims : dimQk = 576 ∨ dimQk = blockDmodel

theorem plain_dims : 512 = 576 ∨ 512 = blockDmodel := Or.inr rfl

-- One call: buffers, and the strides of their views. Outside a tensor a buffer
-- is whatever memory has there.
structure MlaCall (K : Type) where
  numTokens : Nat
  numHeadsQ : Nat
  dimQk : Nat
  seqKv : Nat
  indexTopk : Nat
  qBuffer : Int → K
  kBuffer : Int → K
  indicesPtr : Int → Int
  strideQToken : Nat
  strideQHead : Nat
  strideIndicesToken : Nat
  strideIndicesHead : Nat
  smScale : K
  someHead : 0 < numHeadsQ
  dims : dimQk = 576 ∨ dimQk = blockDmodel

structure KvStrides where
  token : Nat
  head : Nat

-- `indices * stride_kv_token + cur_kv_head_id * stride_kv_head + offs`, all int32.
def kvOffset (strides : KvStrides) (curKvHead : Nat) (index : Int) (offs : Nat) : Int :=
  int32 (int32 (int32 (index * strides.token) + int32 (curKvHead * strides.head : Nat)) + offs)

section Loads
variable {K : Type} (call : MlaCall K)

-- Rows of the pool lie one after the other.
def MlaCall.kvStrides : KvStrides := ⟨call.dimQk,call.dimQk⟩

-- What the loads of _sparse_mla_compute_tile return.
def MlaCall.loaded : MlaArgs K where
  numTokens := call.numTokens
  numHeadsQ := call.numHeadsQ
  dimQk := call.dimQk
  seqKv := call.seqKv
  indexTopk := call.indexTopk
  q curQ curHead d := call.qBuffer (scaled curQ call.strideQToken + scaled curHead call.strideQHead + d)
  kv index curKvHead d := call.kBuffer (kvOffset call.kvStrides curKvHead index d)
  indices curQ curKvHead i :=
    call.indicesPtr (scaled curQ call.strideIndicesToken + scaled curKvHead call.strideIndicesHead + i)
  smScale := call.smScale
  someHead := call.someHead
  dims := call.dims

def MlaCall.tensors : MlaArgs K where
  numTokens := call.numTokens
  numHeadsQ := call.numHeadsQ
  dimQk := call.dimQk
  seqKv := call.seqKv
  indexTopk := call.indexTopk
  q token head d := call.qBuffer (token * call.strideQToken + head * call.strideQHead + d : Nat)
  kv row head d := call.kBuffer (row * call.dimQk + head * call.dimQk + d : Nat)
  indices token head i := call.indicesPtr (token * call.strideIndicesToken + head * call.strideIndicesHead + i : Nat)
  smScale := call.smScale
  someHead := call.someHead
  dims := call.dims

end Loads

variable {K : Type} [Field K] [LinearOrder K]

def MlaArgs.blockDpe (args : MlaArgs K) : Nat := args.dimQk - blockDmodel

def maskKv (args : MlaArgs K) (index : Int) : Prop := 0 ≤ index ∧ index < args.seqKv

instance (args : MlaArgs K) (index : Int) : Decidable (maskKv args index) := inferInstanceAs (Decidable (_ ∧ _))

section Tile
variable (exps : Exponentials K) (args : MlaArgs K)

def laneIndex (curQ curKvHead splitEnd offsIndice : Nat) : Int :=
  if offsIndice < splitEnd then args.indices curQ curKvHead offsIndice else -1

def laneDot (curQ curHead curKvHead : Nat) (maskH : Bool) (index : Int) : K :=
  let q := fun d => if maskH then args.q curQ curHead d else 0
  let k := fun d => if maskKv args index then args.kv index.toNat curKvHead d else 0
  if args.blockDpe > 0 then
    ∑ d ∈ Finset.range blockDmodel, q d * k d +
      ∑ d ∈ Finset.range args.blockDpe, q (blockDmodel + d) * k (blockDmodel + d)
  else ∑ d ∈ Finset.range blockDmodel, q d * k d

-- The wrapper passes sm_scale * LOG2E.
def laneScore (curQ curHead curKvHead : Nat) (maskH : Bool) (index : Int) : Wide K :=
  let qk := laneDot args curQ curHead curKvHead maskH index * (args.smScale * exps.log2E)
  if maskH ∧ maskKv args index then real qk else negLarge

def laneValue (curKvHead : Nat) (index : Int) (dv : Nat) : K :=
  if maskKv args index then args.kv index.toNat curKvHead dv else 0

def lane (curQ curHead curKvHead : Nat) (maskH : Bool) (splitEnd offsIndice : Nat) : Wide K × (Nat → K) :=
  let index := laneIndex args curQ curKvHead splitEnd offsIndice
  (laneScore exps args curQ curHead curKvHead maskH index,laneValue args curKvHead index)

-- e_max, e_sum and acc of a head.
def tileStep (state : Running (Wide K) K Nat) (tile : List (Wide K × (Nat → K))) : Running (Wide K) K Nat :=
  let nEMax := tileMax state.max tile
  let reScale := power exps.exp2 (sub state.max nEMax)
  ⟨nEMax,state.sum * reScale + (tile.map fun item => power exps.exp2 (sub item.1 nEMax)).sum,
    fun dv => state.acc dv * reScale + (tile.map fun item => power exps.exp2 (sub item.1 nEMax) * item.2 dv).sum⟩

def sparseMlaComputeTile (blockN curQ curHead curKvHead : Nat) (maskH : Bool) (splitStart splitEnd : Nat) :
    Running (Wide K) K Nat :=
  let starts := (List.range (cdiv (splitEnd - splitStart) blockN)).map fun i => splitStart + i * blockN
  (starts.map fun startIndice => (List.range blockN).map fun j =>
    lane exps args curQ curHead curKvHead maskH splitEnd (startIndice + j)).foldl (tileStep exps) (start negLarge)

end Tile

section Kernels
variable (exps : Exponentials K) (args : MlaArgs K)

def validBlockH (block : Nat) : Nat := if args.numHeadsQ > block then block else args.numHeadsQ

-- cur_head with mask_h.
def headLanes (block curHeadId : Nat) : List (Nat × Bool) :=
  (List.range block).map fun i =>
    let curHead := curHeadId * validBlockH args block + i
    (curHead,decide (curHead < (curHeadId + 1) * validBlockH args block ∧ curHead < args.numHeadsQ))

def numHeadGroups : Nat := cdiv args.numHeadsQ (min blockH args.numHeadsQ)

-- Each product has the type of its stride, and the pointer adds them up.
def outAddress (curQ curHead dv : Nat) : Int :=
  scaled curQ (args.numHeadsQ * blockDv) + scaled curHead blockDv + dv

def guarded (state : Running (Wide K) K Nat) (dv : Nat) : K :=
  let eSumSafe := if state.sum > 0 then state.sum else 1
  state.acc dv / eSumSafe

def sparseMlaKernelFinal (blockN : Nat) (program : Nat × Nat) : List (Int × K) :=
  let (curQ,curHeadId) := program
  let curKvHead := curHeadId / cdiv args.numHeadsQ blockH
  (headLanes args blockH curHeadId).flatMap fun (curHead,maskH) =>
    let state := sparseMlaComputeTile exps args blockN curQ curHead curKvHead maskH 0 args.indexTopk
    if maskH then (List.range blockDv).map fun dv => (outAddress args curQ curHead dv,guarded state dv) else []

-- mid_out is [num_tokens, num_heads_q, num_kv_splits, 512 + 1].
def midAddress (splits curQ curHead splitKvId i : Nat) : Int :=
  scaled curQ (args.numHeadsQ * (splits * (blockDv + 1))) + scaled curHead (splits * (blockDv + 1)) +
    scaled splitKvId (blockDv + 1) + i

def splitTopk (splits : Nat) : Nat := cdiv args.indexTopk splits

def splitState (blockN splits curQ curHead curKvHead : Nat) (maskH : Bool) (splitKvId : Nat) :
    Running (Wide K) K Nat :=
  let splitStart := splitKvId * splitTopk args splits
  sparseMlaComputeTile exps args blockN curQ curHead curKvHead maskH splitStart
    (min (splitStart + splitTopk args splits) args.indexTopk)

def logSumExp (state : Running (Wide K) K Nat) : Wide K := scale exps.logE2 (add state.max (wideLog2 exps state.sum))

def sparseMlaKernelSplit (blockN splits : Nat) (program : Nat × Nat × Nat) : List (Int × Wide K) :=
  let (curQ,curHeadId,splitKvId) := program
  let curKvHead := curHeadId / cdiv args.numHeadsQ blockH
  (headLanes args blockH curHeadId).flatMap fun (curHead,maskH) =>
    let state := splitState exps args blockN splits curQ curHead curKvHead maskH splitKvId
    if maskH then
      ((List.range blockDv).map fun dv => (midAddress args splits curQ curHead splitKvId dv,real (guarded state dv))) ++
        [(midAddress args splits curQ curHead splitKvId blockDv,logSumExp exps state)]
    else []

def partialOut : Wide K → K
  | .fin _ x => x
  | .negInf => 0

def mergeStep (state : Running (Wide K) K Nat) (item : Wide K × (Nat → K)) : Running (Wide K) K Nat :=
  let nEMax := max item.1 state.max
  let oldScale := power exps.exp (sub state.max nEMax)
  let expLogic := power exps.exp (sub item.1 nEMax)
  ⟨nEMax,state.sum * oldScale + expLogic,fun dv => state.acc dv * oldScale + expLogic * item.2 dv⟩

def mergeItem (splits : Nat) (mid : Int → Wide K) (curQ curHead : Nat) (maskH : Bool) (splitKvId : Nat) :
    Wide K × (Nat → K) :=
  (if maskH then mid (midAddress args splits curQ curHead splitKvId blockDv) else .negInf,
    fun dv => if maskH ∧ dv < blockDv then partialOut (mid (midAddress args splits curQ curHead splitKvId dv)) else 0)

def mergeState (splits : Nat) (mid : Int → Wide K) (curQ curHead : Nat) (maskH : Bool) : Running (Wide K) K Nat :=
  ((List.range splits).map (mergeItem args splits mid curQ curHead maskH)).foldl (mergeStep exps) (start negLarge)

def sparseMlaMergeKernel (splits : Nat) (mid : Int → Wide K) (program : Nat × Nat × Nat) : List (Int × K) :=
  let (curQ,curHeadId,curDvTile) := program
  (headLanes args mergeBlockH curHeadId).flatMap fun (curHead,maskH) =>
    let state := mergeState exps args splits mid curQ curHead maskH
    if maskH then (lanes blockDv mergeBlockDvTile curDvTile).map fun dv =>
      (outAddress args curQ curHead dv,guarded state dv) else []

def grid3 (a b c : Nat) : List (Nat × Nat × Nat) :=
  (List.range a).flatMap fun i => (List.range b).flatMap fun j => (List.range c).map fun k => (i,j,k)

-- The output, flat, after the programs in some order. What torch.empty left
-- in a buffer is arbitrary.
def singlePass (blockN : Nat) (order : List (Nat × Nat)) (before : Int → K) : Int → K :=
  writes before (order.flatMap (sparseMlaKernelFinal exps args blockN))

def splitMid (blockN splits : Nat) (order : List (Nat × Nat × Nat)) (before : Int → Wide K) : Int → Wide K :=
  writes before (order.flatMap (sparseMlaKernelSplit exps args blockN splits))

def splitPass (splits : Nat) (mid : Int → Wide K) (order : List (Nat × Nat × Nat)) (before : Int → K) : Int → K :=
  writes before (order.flatMap (sparseMlaMergeKernel exps args splits mid))

end Kernels

-- The softmax-weighted sum of the V rows that a token attends to.
section Reference
variable (exps : Exponentials K) (args : MlaArgs K)

def attended (curQ i : Nat) : Int := args.indices curQ 0 i

def attendedRows (curQ : Nat) : Finset Nat :=
  (Finset.range args.indexTopk).filter fun i => maskKv args (attended args curQ i)

def logit (curQ curHead : Nat) (index : Int) : K :=
  args.smScale * ∑ d ∈ Finset.range args.dimQk, args.q curQ curHead d * args.kv index.toNat 0 d

def attention (curQ curHead dv : Nat) : K :=
  if attendedRows args curQ = ∅ then 0
  else (∑ i ∈ attendedRows args curQ, exps.exp (logit args curQ curHead (attended args curQ i)) *
      args.kv (attended args curQ i).toNat 0 dv) /
    ∑ i ∈ attendedRows args curQ, exps.exp (logit args curQ curHead (attended args curQ i))

end Reference

section Lanes
variable (exps : Exponentials K) (args : MlaArgs K)

def share (curQ curHead i : Nat) : K :=
  if i < args.indexTopk ∧ maskKv args (attended args curQ i) then
    exps.exp (logit args curQ curHead (attended args curQ i)) else 0

def weighted (curQ curHead dv i : Nat) : K :=
  share exps args curQ curHead i * args.kv (attended args curQ i).toNat 0 dv

omit [LinearOrder K] in
theorem dims_split (f : Nat → K) :
    (if args.blockDpe > 0 then
      ∑ d ∈ Finset.range blockDmodel, f d + ∑ d ∈ Finset.range args.blockDpe, f (blockDmodel + d)
    else ∑ d ∈ Finset.range blockDmodel, f d) = ∑ d ∈ Finset.range args.dimQk, f d := by
  have wide : blockDmodel ≤ args.dimQk := by
    rcases args.dims with rope | plain
    · rw [rope]
      exact (by decide : 512 ≤ 576)
    · exact Nat.le_of_eq plain.symm
  have parts : args.dimQk = blockDmodel + args.blockDpe := (Nat.add_sub_cancel' wide).symm
  by_cases rope : args.blockDpe > 0
  · rw [if_pos rope,parts,Finset.sum_range_add]
  · have plain : args.blockDpe = 0 := by omega
    rw [if_neg rope,parts,plain,Nat.add_zero]

omit [LinearOrder K] in
theorem dot_exact (curQ curHead : Nat) (valid : maskKv args index) :
    laneDot args curQ curHead 0 true index =
      ∑ d ∈ Finset.range args.dimQk, args.q curQ curHead d * args.kv index.toNat 0 d := by
  rw [← dims_split args fun d => args.q curQ curHead d * args.kv index.toNat 0 d]
  unfold laneDot
  simp only [if_pos valid,if_true]

theorem score_masked (curQ curHead : Nat) (masked : ¬ maskKv args index) :
    laneScore exps args curQ curHead 0 true index = negLarge := by
  unfold laneScore
  exact if_neg fun both => masked both.2

theorem score_real (curQ curHead : Nat) (valid : maskKv args index) :
    laneScore exps args curQ curHead 0 true index = real (logit args curQ curHead index * exps.log2E) := by
  unfold laneScore logit
  dsimp only
  rw [if_pos ⟨rfl,valid⟩,dot_exact args curQ curHead valid]
  congr 1
  ring

end Lanes

section Scores
variable (exps : Exponentials K) (args : MlaArgs K)

theorem lane_score (curQ curHead splitEnd i : Nat) : (lane exps args curQ curHead 0 true splitEnd i).1 =
    laneScore exps args curQ curHead 0 true (laneIndex args curQ 0 splitEnd i) := rfl

theorem lane_value (curQ curHead splitEnd i : Nat) : (lane exps args curQ curHead 0 true splitEnd i).2 =
    laneValue args 0 (laneIndex args curQ 0 splitEnd i) := rfl

-- A position outside the split is loaded as -1.
theorem lane_size (curQ curHead splitEnd i : Nat) (inside : splitEnd ≤ args.indexTopk) :
    power exps.exp2 (lane exps args curQ curHead 0 true splitEnd i).1 =
      if i < splitEnd then share exps args curQ curHead i else 0 := by
  rw [lane_score]
  unfold laneIndex share attended
  by_cases before : i < splitEnd
  · have listed : i < args.indexTopk := Nat.lt_of_lt_of_le before inside
    rw [if_pos before,if_pos before]
    by_cases valid : maskKv args (args.indices curQ 0 i)
    · rw [if_pos ⟨listed,valid⟩,score_real exps args curQ curHead valid,power_real,exp2_log2E]
    · rw [if_neg (fun both => valid both.2),score_masked exps args curQ curHead valid]
      exact if_neg (by simp)
  · have masked : ¬ maskKv args (-1) := fun both => absurd both.1 (by decide)
    rw [if_neg before,if_neg before,score_masked exps args curQ curHead masked]
    exact if_neg (by simp)

theorem lane_weighted (curQ curHead splitEnd dv i : Nat) (inside : splitEnd ≤ args.indexTopk) :
    power exps.exp2 (lane exps args curQ curHead 0 true splitEnd i).1 *
        (lane exps args curQ curHead 0 true splitEnd i).2 dv =
      if i < splitEnd then weighted exps args curQ curHead dv i else 0 := by
  rw [lane_size exps args curQ curHead splitEnd i inside]
  by_cases before : i < splitEnd
  · rw [if_pos before,if_pos before]
    rw [lane_value]
    unfold weighted laneIndex laneValue share attended
    by_cases valid : maskKv args (args.indices curQ 0 i)
    · rw [if_pos before,if_pos valid]
    · rw [if_neg fun both : i < args.indexTopk ∧ maskKv args (args.indices curQ 0 i) => valid both.2,zero_mul,zero_mul]
  · rw [if_neg before,if_neg before,zero_mul]

theorem lane_proper [IsStrictOrderedRing K] (curQ curHead splitEnd i : Nat) :
    proper (lane exps args curQ curHead 0 true splitEnd i).1 := by
  rw [lane_score]
  by_cases valid : maskKv args (laneIndex args curQ 0 splitEnd i)
  · rw [score_real exps args curQ curHead valid]
    exact le_refl (0 : K)
  · rw [score_masked exps args curQ curHead valid]
    exact neg_nonpos_of_nonneg (zero_le_one : (0 : K) ≤ 1)

theorem lane_masked (curQ curHead splitEnd i dv : Nat)
    (weightless : power exps.exp2 (lane exps args curQ curHead 0 true splitEnd i).1 = 0) :
    (lane exps args curQ curHead 0 true splitEnd i).2 dv = 0 := by
  rw [lane_score] at weightless
  rw [lane_value]
  by_cases valid : maskKv args (laneIndex args curQ 0 splitEnd i)
  · rw [score_real exps args curQ curHead valid,power_real] at weightless
    exact absurd weightless (ne_of_gt (exp2_pos exps _))
  · exact if_neg valid

end Scores

section Split
variable (exps : Exponentials K) (args : MlaArgs K)

def splitLanes (blockN curQ curHead splitStart splitEnd : Nat) : List (Wide K × (Nat → K)) :=
  (List.range (cdiv (splitEnd - splitStart) blockN * blockN)).map fun i =>
    lane exps args curQ curHead 0 true splitEnd (splitStart + i)

theorem split_share (positive : 0 < blockN) (inside : splitEnd ≤ args.indexTopk) (curQ curHead splitStart : Nat) :
    ((splitLanes exps args blockN curQ curHead splitStart splitEnd).map fun item => power exps.exp2 item.1).sum =
      ∑ i ∈ Finset.range (splitEnd - splitStart), share exps args curQ curHead (splitStart + i) := by
  unfold splitLanes
  rw [List.map_map,list_sum,cut_sum _ (covered positive _)]
  · apply Finset.sum_congr rfl
    intro i member
    have before := Finset.mem_range.mp member
    rw [Function.comp_apply,lane_size exps args curQ curHead splitEnd _ inside,if_pos (by omega)]
  · intro i past _
    rw [Function.comp_apply,lane_size exps args curQ curHead splitEnd _ inside,if_neg (by omega)]

theorem split_weighted (positive : 0 < blockN) (inside : splitEnd ≤ args.indexTopk)
    (curQ curHead splitStart dv : Nat) :
    ((splitLanes exps args blockN curQ curHead splitStart splitEnd).map fun item =>
      power exps.exp2 item.1 * item.2 dv).sum =
      ∑ i ∈ Finset.range (splitEnd - splitStart), weighted exps args curQ curHead dv (splitStart + i) := by
  unfold splitLanes
  rw [List.map_map,list_sum,cut_sum _ (covered positive _)]
  · apply Finset.sum_congr rfl
    intro i member
    have before := Finset.mem_range.mp member
    rw [Function.comp_apply,lane_weighted exps args curQ curHead splitEnd dv _ inside,if_pos (by omega)]
  · intro i past _
    rw [Function.comp_apply,lane_weighted exps args curQ curHead splitEnd dv _ inside,if_neg (by omega)]

variable [IsStrictOrderedRing K]

def scoreWeighing : Weighing (Wide K) K := weighing exps.exp2 (exp2_pos exps) (exp2_add exps)

theorem lanes_proper (blockN curQ curHead splitStart splitEnd : Nat)
    (member : item ∈ splitLanes exps args blockN curQ curHead splitStart splitEnd) : proper item.1 := by
  obtain ⟨i,_,rfl⟩ := List.mem_map.mp member
  exact lane_proper exps args curQ curHead splitEnd (splitStart + i)

theorem tile_holds (blockN curQ curHead splitStart splitEnd : Nat) :
    Holds (scoreWeighing exps) (sparseMlaComputeTile exps args blockN curQ curHead 0 true splitStart splitEnd)
      (splitLanes exps args blockN curQ curHead splitStart splitEnd) := by
  have joined : ((List.range (cdiv (splitEnd - splitStart) blockN)).map (fun i => splitStart + i * blockN)
      |>.map fun startIndice => (List.range blockN).map fun j =>
        lane exps args curQ curHead 0 true splitEnd (startIndice + j)).flatten =
      splitLanes exps args blockN curQ curHead splitStart splitEnd := by
    unfold splitLanes
    rw [← rows_cover,List.map_flatMap,List.map_map,← List.flatMap_def]
    simp only [List.map_map,Function.comp_def,Nat.add_assoc]
  have run := run_holds (scoreWeighing exps) ((List.range (cdiv (splitEnd - splitStart) blockN)).map
    (fun i => splitStart + i * blockN) |>.map fun startIndice => (List.range blockN).map fun j =>
      lane exps args curQ curHead 0 true splitEnd (startIndice + j))
    (start_holds (scoreWeighing exps) : Holds _ (start _ : Running (Wide K) K Nat) [])
  rw [List.nil_append,joined] at run
  exact run fun item member => lanes_proper exps args blockN curQ curHead splitStart splitEnd member

theorem tile_exact (positive : 0 < blockN) (inside : splitEnd ≤ args.indexTopk)
    (curQ curHead splitStart dv : Nat) :
    guarded (sparseMlaComputeTile exps args blockN curQ curHead 0 true splitStart splitEnd) dv =
      (∑ i ∈ Finset.range (splitEnd - splitStart), weighted exps args curQ curHead dv (splitStart + i)) /
        ∑ i ∈ Finset.range (splitEnd - splitStart), share exps args curQ curHead (splitStart + i) := by
  rw [← split_share exps args positive inside,← split_weighted exps args positive inside]
  apply quotient_exact (scoreWeighing exps) (tile_holds exps args blockN curQ curHead splitStart splitEnd)
  · intro item member
    exact lanes_proper exps args blockN curQ curHead splitStart splitEnd member
  · intro item member weightless
    obtain ⟨i,_,rfl⟩ := List.mem_map.mp member
    exact lane_masked exps args curQ curHead splitEnd _ dv weightless

end Split

section LogSumExp
variable [IsStrictOrderedRing K] (exps : Exponentials K) {state : Running (Wide K) K Nat}
  {items : List (Wide K × (Nat → K))}

-- The weight of a split is what its positions weigh together.
theorem log_sum_exp_size (holds : Holds (scoreWeighing exps) state items) (small : ∀ item ∈ items, proper item.1) :
    power exps.exp (logSumExp exps state) = (items.map fun item => power exps.exp2 item.1).sum := by
  have total := sum_sized (scoreWeighing exps) holds small
  have below := max_proper (scoreWeighing exps) holds small
  refine Eq.trans ?_ total
  show _ = state.sum * power exps.exp2 state.max
  unfold logSumExp wideLog2
  by_cases none_attended : state.sum = 0
  · rw [if_pos none_attended,none_attended,zero_mul]
    cases state.max with
    | negInf => rfl
    | fin rank rest => rfl
  · rw [if_neg none_attended]
    cases top : state.max with
    | negInf => exact (mul_zero _).symm
    | fin rank rest =>
        by_cases masked : rank = 0
        · have weighs : (scoreWeighing exps).size state.max ≠ 0 := by
            rw [top]
            show power exps.exp2 (.fin rank rest) ≠ 0
            rw [power_fin,if_pos masked]
            exact ne_of_gt (exp2_pos exps rest)
          have some_attended := sum_positive (scoreWeighing exps) holds small weighs
          show (if (rank + 0) * exps.logE2 = 0 then exps.exp ((rest + exps.log2 state.sum) * exps.logE2) else 0) =
            state.sum * if rank = 0 then exps.exp2 rest else 0
          rw [if_pos (by rw [masked,zero_add,zero_mul]),if_pos masked,← exps.exp2_exact,exp2_add,
            exps.exp2_log2 _ some_attended,mul_comm]
        · show (if (rank + 0) * exps.logE2 = 0 then exps.exp ((rest + exps.log2 state.sum) * exps.logE2) else 0) =
            state.sum * if rank = 0 then exps.exp2 rest else 0
          have apart : (rank + 0) * exps.logE2 ≠ 0 := by
            rw [add_zero]
            exact mul_ne_zero masked (ne_of_gt exps.logE2_pos)
          rw [if_neg apart,if_neg masked,mul_zero]

theorem log_sum_exp_proper (holds : Holds (scoreWeighing exps) state items)
    (small : ∀ item ∈ items, proper item.1) : proper (logSumExp exps state) := by
  have below := max_proper (scoreWeighing exps) holds small
  unfold logSumExp wideLog2
  cases top : state.max with
  | negInf =>
      split
      · trivial
      · trivial
  | fin rank rest =>
      split
      · trivial
      · show (rank + 0) * exps.logE2 ≤ 0
        have nonpositive : rank ≤ 0 := by
          rw [top] at below
          exact below
        rw [add_zero]
        exact mul_nonpos_of_nonpos_of_nonneg nonpositive (le_of_lt exps.logE2_pos)

end LogSumExp

end Glm5Next.SparseMla
