import Mathlib.Data.List.Nodup
import Mathlib.Data.List.Sort
import Glm5Next.PpUtils

namespace Glm5Next.WorkerLoop
open PpUtils
variable {ReqId M : Type} [DecidableEq ReqId]

-- RequestState's dict req_id_to_index and its per-slot CPU arrays. No request
-- has two slots and no slot two requests.
structure ReqStates (ReqId : Type) where
  reqIdToIndex : List (ReqId × Nat)
  numComputedTokensNp : Nat → Nat
  prefillLenNp : Nat → Nat
  maxSeqLen : Nat → Nat
  ids_nodup : (reqIdToIndex.map Prod.fst).Nodup
  slots_nodup : (reqIdToIndex.map Prod.snd).Nodup

def ReqStates.empty : ReqStates ReqId :=
  ⟨[],fun _ => 0,fun _ => 0,fun _ => 0,by simp,by simp⟩

def ReqStates.index (s : ReqStates ReqId) (reqId : ReqId) : Option Nat :=
  (s.reqIdToIndex.find? (fun row => row.1 = reqId)).map Prod.snd

def ReqStates.slots (s : ReqStates ReqId) : List Nat := s.reqIdToIndex.map Prod.snd

structure NewRequestData (ReqId : Type) where
  reqId : ReqId
  numComputedTokens : Nat
  prefillLen : Nat
  -- What RequestState.add_request stores for the prompt and max_tokens.
  maxSeqLen : Nat
  blockIds : List (List Nat)

structure CachedRequestData (ReqId : Type) where
  reqId : ReqId
  numComputedTokens : Nat
  newBlockIds : Option (List (List Nat))

-- The scheduler names a new request once per step; num_scheduled_tokens is a dict.
structure SchedulerOutput (ReqId : Type) where
  finishedReqIds : List ReqId
  preemptedReqIds : List ReqId
  scheduledNewReqs : List (NewRequestData ReqId)
  scheduledCachedReqs : List (CachedRequestData ReqId)
  numScheduledTokens : List (ReqId × Nat)
  -- Number of draft tokens scheduled for a request, zero when it has none.
  scheduledSpecDecodeTokens : ReqId → Nat
  new_nodup : (scheduledNewReqs.map NewRequestData.reqId).Nodup
  scheduled_nodup : (numScheduledTokens.map Prod.fst).Nodup

def SchedulerOutput.totalNumScheduledTokens (out : SchedulerOutput ReqId) : Nat :=
  (out.numScheduledTokens.map Prod.snd).sum

def ReqStates.removeRequest (s : ReqStates ReqId) (reqId : ReqId) : ReqStates ReqId × Option Nat :=
  ({ s with
      reqIdToIndex := s.reqIdToIndex.filter fun row => row.1 ≠ reqId
      ids_nodup := s.ids_nodup.sublist (List.filter_sublist.map _)
      slots_nodup := s.slots_nodup.sublist (List.filter_sublist.map _) },
    s.index reqId)

-- RequestState picks the slot; any slot not in use will do.
def ReqStates.addRequest (s : ReqStates ReqId) (new : NewRequestData ReqId) (slot : Nat) :
    Option (ReqStates ReqId) :=
  if free : new.reqId ∉ s.reqIdToIndex.map Prod.fst ∧ slot ∉ s.reqIdToIndex.map Prod.snd then
    some {
      reqIdToIndex := (new.reqId,slot) :: s.reqIdToIndex
      numComputedTokensNp := fun i => if i = slot then new.numComputedTokens else s.numComputedTokensNp i
      prefillLenNp := fun i => if i = slot then new.prefillLen else s.prefillLenNp i
      maxSeqLen := fun i => if i = slot then new.maxSeqLen else s.maxSeqLen i
      ids_nodup := List.nodup_cons.mpr ⟨free.1,s.ids_nodup⟩
      slots_nodup := List.nodup_cons.mpr ⟨free.2,s.slots_nodup⟩ }
  else none

-- The parts of the runner that keep per-slot state on the device: model_state,
-- block_tables, num_computed_tokens.gpu, the caches. The loop only calls them.
structure Device (ReqId M : Type) where
  addRequest : M → Nat → NewRequestData ReqId → M
  appendBlockIds : M → Nat → List (List Nat) → M
  preprocessState : M → InputBatch ReqId → M
  forward : M → InputBatch ReqId → M
  postprocessNumComputedTokens : M → InputBatch ReqId → M
  -- One program of the post_update kernel: the slot, the row's sampled tokens,
  -- num_sampled, num_rejected, and the row's query length when it is given.
  postUpdateRow : M → Nat → (Nat → Int) → Int → Int → Option Nat → M
  -- model_state.postprocess_state with per-row counts.
  postprocessState : M → List Int → (Nat → Int) → M
  -- model_state.postprocess_state(idx_mapping, 0).
  resetAccepted : M → List Int → M

structure Runner (ReqId M : Type) where
  reqStates : ReqStates ReqId
  ppHandler : PPHandler
  -- req_states.draft_tokens
  draftTokens : Nat → Nat → Int
  device : M

-- Second component: the freed slot, which the source reports as a Boolean.
def removeRequest (r : Runner ReqId M) (reqId : ReqId) : Runner ReqId M × Option Nat :=
  let (reqStates,reqIdx) := r.reqStates.removeRequest reqId
  match reqIdx with
  | none => ({ r with reqStates := reqStates },none)
  | some idx => ({ r with reqStates := reqStates,ppHandler := onReqIdxFreed r.ppHandler idx },some idx)

-- Second component: the slots freed, in order.
def removeRequests (r : Runner ReqId M) : List ReqId → Runner ReqId M × List Nat
  | [] => (r,[])
  | reqId :: rest =>
    let (r,freed) := removeRequest r reqId
    let (r,later) := removeRequests r rest
    (r,freed.toList ++ later)

def finishRequests (r : Runner ReqId M) (out : SchedulerOutput ReqId) : Runner ReqId M × List Nat :=
  removeRequests r (out.finishedReqIds ++ out.preemptedReqIds)

-- x[valid] for a Boolean mask.
def maskSelect (valid : List Bool) (xs : List α) : List α :=
  ((valid.zip xs).filter Prod.fst).map Prod.snd

def writeDraftRow (relayed : Tensor2) (draftTokens : Nat → Nat → Int) (target : Nat × Nat) :
    Nat → Nat → Int :=
  fun i => if i = target.1 then relayed.entry target.2 else draftTokens i

-- valid = idx_mapping >= 0; draft_tokens[idx_mapping[valid]] = relayed[valid]
def scatterDraftTokens (draftTokens : Nat → Nat → Int) (idxMapping : List Int) (relayed : Tensor2) :
    Nat → Nat → Int :=
  let valid := idxMapping.map fun idx => decide (0 ≤ idx)
  let slots := (maskSelect valid idxMapping).map Int.toNat
  let rows := maskSelect valid (List.range idxMapping.length)
  (slots.zip rows).foldl (writeDraftRow relayed) draftTokens

-- The launch over all rows; the kernel skips the -1 entries.
def postUpdate (dev : Device ReqId M) (m : M) (idxMapping : List Int) (sampledTokens : Tensor2)
    (numSampled numRejected : Nat → Int) (batch : Option (InputBatch ReqId)) : M :=
  idxMapping.zipIdx.foldl (fun m (idx,row) =>
    if idx < 0 then m
    else dev.postUpdateRow m idx.toNat (sampledTokens.entry row) (numSampled row) (numRejected row)
      (batch.bind fun b => b[row]?.map BatchRow.numScheduledTokens)) m

def postprocessSampled (dev : Device ReqId M) (m : M) (idxMapping : List Int) (sampledTokens : Tensor2)
    (numSampled numRejected : Nat → Int) (batch : Option (InputBatch ReqId)) : M :=
  dev.postprocessState (postUpdate dev m idxMapping sampledTokens numSampled numRejected batch)
    idxMapping numSampled

def updatePpDecodeRequests (dev : Device ReqId M) (r : Runner ReqId M) :
    Runner ReqId M × Option PendingRecv × Option SampledOutputs :=
  let (ppHandler,consumed,outputs) := getPrevSampledOutputs r.ppHandler
  let r := { r with ppHandler := ppHandler }
  match outputs with
  | none => (r,consumed,none)
  | some out =>
    let device := postprocessSampled dev r.device out.idxMapping out.sampledTokens out.numSampled
      out.numRejected none
    let draftTokens := match out.draftTokens with
      | none => r.draftTokens
      | some relayed => scatterDraftTokens r.draftTokens out.idxMapping relayed
    ({ r with device := device,draftTokens := draftTokens },consumed,some out)

-- A streaming re-add frees the old slot of the request first.
def addRequests (dev : Device ReqId M) (r : Runner ReqId M) :
    List (NewRequestData ReqId) → List Nat → Option (Runner ReqId M × List Nat)
  | [],_ => some (r,[])
  | _ :: _,[] => none
  | new :: rest,slot :: slots => do
    let (r,freed) := removeRequest r new.reqId
    let reqStates ← r.reqStates.addRequest new slot
    let device := dev.addRequest r.device slot new
    let (r,later) ← addRequests dev { r with reqStates := reqStates,device := device } rest slots
    return (r,freed.toList ++ later)

-- `none` is a KeyError.
def updateRequest (dev : Device ReqId M) (r : Runner ReqId M) (req : CachedRequestData ReqId) :
    Option (Runner ReqId M) := do
  let reqIndex ← r.reqStates.index req.reqId
  let reqStates := { r.reqStates with
    numComputedTokensNp := fun i =>
      if i = reqIndex then req.numComputedTokens else r.reqStates.numComputedTokensNp i }
  let device := match req.newBlockIds with
    | none => r.device
    | some blockIds => dev.appendBlockIds r.device reqIndex blockIds
  return { r with reqStates := reqStates,device := device }

def updateRequests (dev : Device ReqId M) (r : Runner ReqId M) :
    List (CachedRequestData ReqId) → Option (Runner ReqId M)
  | [] => some r
  | req :: rest => do updateRequests dev (← updateRequest dev r req) rest

-- sorted() is stable and compares the key tuples lexicographically.
def sortKeyLe (decodeQueryLen : Nat) (draft : ReqId → Nat) (a b : ReqId × Nat) : Bool :=
  let key (x : ReqId × Nat) : Nat × Nat × Nat :=
    (if draft x.1 = 0 then 1 else 0,if x.2 ≠ decodeQueryLen then 1 else 0,x.2)
  let ka := key a
  let kb := key b
  ka.1 < kb.1 || ka.1 = kb.1 && (ka.2.1 < kb.2.1 || ka.2.1 = kb.2.1 && ka.2.2 ≤ kb.2.2)

def sortBatchReqIds (decodeQueryLen : Nat) (out : SchedulerOutput ReqId) : List (ReqId × Nat) :=
  out.numScheduledTokens.mergeSort (sortKeyLe decodeQueryLen out.scheduledSpecDecodeTokens)

def batchRow (s : ReqStates ReqId) (req : ReqId × Nat) : Option (BatchRow ReqId) := do
  let idx ← s.index req.1
  return ⟨req.1,idx,s.numComputedTokensNp idx,req.2,s.prefillLenNp idx,s.maxSeqLen idx⟩

def prepareInputs (decodeQueryLen : Nat) (s : ReqStates ReqId) (out : SchedulerOutput ReqId) :
    Option (InputBatch ReqId) :=
  (sortBatchReqIds decodeQueryLen out).mapM (batchRow s)

structure StepInput (ReqId : Type) where
  out : SchedulerOutput ReqId
  -- The slots RequestState hands out, one per new request.
  slots : List Nat
  relay : Relay

-- What one step did, for statements about a whole run.
structure StepRecord (ReqId : Type) where
  queueAtStart : List (Option PendingRecv)
  -- req_id_to_index when the step starts.
  owners : List (ReqId × Nat)
  consumed : Option PendingRecv
  outputs : Option SampledOutputs
  freed : List Nat
  batch : Option (InputBatch ReqId)
  reserved : Option PendingRecv
  sent : List Collective
  posted : List Signature

-- Second component: the batch that was run, none when no tokens were scheduled.
def executeModel (cfg : Config) (dev : Device ReqId M) (r : Runner ReqId M) (input : StepInput ReqId) :
    Option (Runner ReqId M × StepRecord ReqId) := do
  let queueAtStart := r.ppHandler.queue
  let owners := r.reqStates.reqIdToIndex
  let (r,consumed,outputs) := updatePpDecodeRequests dev r
  let (r,finished) := finishRequests r input.out
  let (r,readded) ← addRequests dev r input.out.scheduledNewReqs input.slots
  let r ← updateRequests dev r input.out.scheduledCachedReqs
  let idle : StepRecord ReqId :=
    ⟨queueAtStart,owners,consumed,outputs,finished ++ readded,none,none,[],[]⟩
  if input.out.totalNumScheduledTokens = 0 then return (r,idle)
  let batch ← prepareInputs (cfg.numSpeculativeSteps + 1) r.reqStates input.out
  let device := dev.forward (dev.preprocessState r.device batch) batch
  return ({ r with device := device },{ idle with batch := some batch })

def sampleTokens (cfg : Config) (dev : Device ReqId M) (r : Runner ReqId M) (batch : InputBatch ReqId)
    (relay : Relay) : Option (Runner ReqId M × List Collective × List Signature) :=
  let idxMapping := batch.map fun row => (row.idxMapping : Int)
  if !r.ppHandler.isLastRank then
    let (ppHandler,posted,allDecodeNext) := receive cfg r.ppHandler batch relay
    let device := dev.postprocessNumComputedTokens r.device batch
    let device := if !allDecodeNext then dev.resetAccepted device idxMapping else device
    some ({ r with ppHandler := ppHandler,device := device },[],posted)
  else do
    let sent ← broadcast cfg batch relay
    let device := postprocessSampled dev r.device idxMapping relay.sampledTokens relay.numSampled
      relay.numRejected (some batch)
    -- The last rank has a speculator exactly when a speculative config is set.
    if cfg.relayDraftTokens then
      let draftTokens := scatterDraftTokens r.draftTokens idxMapping relay.draftTokens
      return ({ r with device := device,draftTokens := draftTokens },
        sent ++ broadcastDraft cfg batch relay.draftTokens,[])
    else return ({ r with device := device },sent,[])

def step (cfg : Config) (dev : Device ReqId M) (r : Runner ReqId M) (input : StepInput ReqId) :
    Option (Runner ReqId M × StepRecord ReqId) := do
  let (r,record) ← executeModel cfg dev r input
  match record.batch with
  | none => return (r,record)
  | some batch =>
    let (r,sent,posted) ← sampleTokens cfg dev r batch input.relay
    return (r,{ record with reserved := r.ppHandler.queue.getLast?.join,sent := sent,posted := posted })

def Runner.init (cfg : Config) (isLastRank : Bool) (device : M) : Runner ReqId M :=
  ⟨.empty,.init cfg isLastRank,fun _ _ => 0,device⟩

-- Runs of the worker loop with the records of their steps, oldest first.
inductive Runs (cfg : Config) (dev : Device ReqId M) (start : Runner ReqId M) :
    List (StepInput ReqId) → Runner ReqId M → List (StepRecord ReqId) → Prop where
  | nil : Runs cfg dev start [] start []
  | snoc : Runs cfg dev start inputs r history → step cfg dev r input = some (next,record) →
      Runs cfg dev start (inputs ++ [input]) next (history ++ [record])

end Glm5Next.WorkerLoop
