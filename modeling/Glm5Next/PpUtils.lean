import Mathlib.Data.BitVec
import Glm5Next.DelayLine

namespace Glm5Next.PpUtils

-- The np arrays of an InputBatch are the columns of these rows.
-- `numComputedTokens` is the CPU mirror, optimistic about rejected drafts.
structure BatchRow (ReqId : Type) where
  reqId : ReqId
  idxMapping : Nat
  numComputedTokens : Nat
  numScheduledTokens : Nat
  prefillLen : Nat
  maxSeqLen : Nat
  deriving DecidableEq, Repr

abbrev InputBatch (ReqId : Type) := List (BatchRow ReqId)

def producesSample (row : BatchRow ReqId) : Bool :=
  decide (row.prefillLen ≤ row.numComputedTokens + row.numScheduledTokens)

def notFinishing (row : BatchRow ReqId) : Bool :=
  decide (max row.numComputedTokens row.prefillLen + 1 < row.maxSeqLen)

def computeNeedSampledMask (batch : InputBatch ReqId) : Option (List Bool) :=
  let needSampledMask := batch.map fun row => producesSample row && notFinishing row
  if needSampledMask.any id then some needSampledMask else none

-- The mask of a row depends on that row alone; `none` only replaces an all-false mask.
theorem mask_row (batch : InputBatch ReqId) (i : Nat) :
    (∃ mask, computeNeedSampledMask batch = some mask ∧ mask[i]? = some true) ↔
      ∃ row, batch[i]? = some row ∧ producesSample row = true ∧ notFinishing row = true := by
  unfold computeNeedSampledMask
  constructor
  · rintro ⟨mask,computed,at_i⟩
    dsimp only at computed
    split at computed
    · cases computed
      rw [List.getElem?_map] at at_i
      cases found : batch[i]? with
      | none => simp [found] at at_i
      | some row => exact ⟨row,rfl,by simpa [found] using at_i⟩
    · cases computed
  · rintro ⟨row,found,produces,continues⟩
    have needed : (batch.map fun row => producesSample row && notFinishing row)[i]? = some true := by
      simp [List.getElem?_map,found,produces,continues]
    refine ⟨_,if_pos ?_,needed⟩
    exact List.any_eq_true.mpr ⟨true,List.mem_of_getElem? needed,rfl⟩

theorem mask_length (computed : computeNeedSampledMask batch = some mask) :
    mask.length = batch.length := by
  unfold computeNeedSampledMask at computed
  dsimp only at computed
  split at computed
  · cases computed; simp
  · cases computed

inductive DType where
  | int32
  | int64
  deriving DecidableEq, Repr

-- A two-dimensional tensor; entries outside its shape are never read.
structure Tensor2 where
  rows : Nat
  cols : Nat
  entry : Nat → Nat → Int

-- What one rank posts on the pp_broadcast group: NCCL pairs the operations of
-- the ranks by position, and a pair must agree on element count and type.
structure Signature where
  rows : Nat
  cols : Nat
  dtype : DType
  deriving DecidableEq, Repr

structure Collective where
  tensor : Tensor2
  dtype : DType

def Collective.signature (c : Collective) : Signature := ⟨c.tensor.rows,c.tensor.cols,c.dtype⟩

structure PendingRecv where
  sampledTokens : Tensor2
  numSampled : Nat → Int
  numRejected : Nat → Int
  idxMapping : List Nat
  needSampledMask : List Bool
  -- req_idx_gen_np is an int32 array: the counters wrap.
  genAtReceive : List (BitVec 32)
  draftTokens : Option Tensor2

-- Per-rank constants. Rank counts are C ints.
structure Config where
  worldSize : Nat
  numSpeculativeSteps : Nat
  relayDraftTokens : Bool
  world_pos : 0 < worldSize
  world_lt : worldSize < 2 ^ 31

def Config.maxSampleLen (cfg : Config) : Nat := cfg.numSpeculativeSteps + 1

structure PPHandler where
  isLastRank : Bool
  queue : List (Option PendingRecv)
  reqIdxGen : Nat → BitVec 32

def PPHandler.init (cfg : Config) (isLastRank : Bool) : PPHandler where
  isLastRank := isLastRank
  queue := if isLastRank then [] else List.replicate cfg.worldSize none
  reqIdxGen := fun _ => 0

def onReqIdxFreed (h : PPHandler) (reqIdx : Nat) : PPHandler :=
  { h with reqIdxGen := fun i => if i = reqIdx then h.reqIdxGen i + 1 else h.reqIdxGen i }

structure SampledOutputs where
  sampledTokens : Tensor2
  numSampled : Nat → Int
  numRejected : Nat → Int
  -- -1 marks a row that must not be applied.
  idxMapping : List Int
  draftTokens : Option Tensor2

def excludeMask (h : PPHandler) (slot : PendingRecv) : List Bool :=
  let freed := List.zipWith (fun idx gen => h.reqIdxGen idx != gen) slot.idxMapping slot.genAtReceive
  List.zipWith (fun wasFreed needed => wasFreed || !needed) freed slot.needSampledMask

def filterExcluded (h : PPHandler) (slot : PendingRecv) : Option SampledOutputs :=
  let exclude := excludeMask h slot
  let outputs (idxMapping : List Int) : SampledOutputs :=
    ⟨slot.sampledTokens,slot.numSampled,slot.numRejected,idxMapping,slot.draftTokens⟩
  if exclude.any id then
    if exclude.all id then none
    else some (outputs (List.zipWith (fun out idx => if out then -1 else (idx : Int)) exclude slot.idxMapping))
  else some (outputs (slot.idxMapping.map Int.ofNat))

-- Second component: the popped entry, kept for the history of a run.
def getPrevSampledOutputs (h : PPHandler) :
    PPHandler × Option PendingRecv × Option SampledOutputs :=
  match h.queue with
  | [] => (h,none,none)
  | slot :: rest =>
    let h := { h with queue := rest ++ [none] }
    match slot with
    | none => (h,none,none)
    | some slot => (h,some slot,filterExcluded h slot)

-- Contents of the tensors of one step: on the last rank what the sampler and
-- the speculator produced, on the others what the broadcasts delivered.
structure Relay where
  sampledTokens : Tensor2
  numSampled : Nat → Int
  numRejected : Nat → Int
  draftTokens : Tensor2

def receive (cfg : Config) (h : PPHandler) (batch : InputBatch ReqId) (delivered : Relay) :
    PPHandler × List Signature × Bool :=
  match computeNeedSampledMask batch with
  | none => (h,[],false)
  | some needSampledMask =>
    let numReqs := batch.length
    let posted := [⟨numReqs,cfg.maxSampleLen,.int64⟩,⟨2,numReqs,.int32⟩] ++
      if cfg.relayDraftTokens then [⟨numReqs,cfg.maxSampleLen - 1,.int64⟩] else []
    let pending : PendingRecv := {
      sampledTokens := ⟨numReqs,cfg.maxSampleLen,delivered.sampledTokens.entry⟩
      numSampled := delivered.numSampled
      numRejected := delivered.numRejected
      idxMapping := batch.map (·.idxMapping)
      needSampledMask := needSampledMask
      genAtReceive := batch.map fun row => h.reqIdxGen row.idxMapping
      draftTokens := if cfg.relayDraftTokens then
        some ⟨numReqs,cfg.maxSampleLen - 1,delivered.draftTokens.entry⟩ else none }
    ({ h with queue := h.queue.dropLast ++ [some pending] },posted,needSampledMask.all id)

-- `none` is a failed assert: the sampler emitted more columns than max_sample_len.
def padSampled (cfg : Config) (sampledTokenIds : Tensor2) : Option Tensor2 :=
  let width := sampledTokenIds.cols
  if width = cfg.maxSampleLen then some sampledTokenIds
  else if width < cfg.maxSampleLen then
    some ⟨sampledTokenIds.rows,cfg.maxSampleLen,
      fun i j => if j < width then sampledTokenIds.entry i j else -1⟩
  else none

def broadcast (cfg : Config) (batch : InputBatch ReqId) (relay : Relay) : Option (List Collective) :=
  match computeNeedSampledMask batch with
  | none => some []
  | some _ => do
    let sampledTokenIds ← padSampled cfg relay.sampledTokens
    let combined : Tensor2 := ⟨2,batch.length,
      fun i r => if i = 0 then relay.numSampled r else relay.numRejected r⟩
    return [⟨sampledTokenIds,.int64⟩,⟨combined,.int32⟩]

def broadcastDraft (cfg : Config) (batch : InputBatch ReqId) (draftTokens : Tensor2) : List Collective :=
  if !cfg.relayDraftTokens then []
  else match computeNeedSampledMask batch with
    | none => []
    | some _ => [⟨draftTokens,.int64⟩]

end Glm5Next.PpUtils
