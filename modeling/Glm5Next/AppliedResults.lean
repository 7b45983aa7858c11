import Glm5Next.RankStates

-- The deferred phase in the run it is part of: the runner that a step returns
-- holds the results of the step world size turns ago, as they were relayed.
namespace Glm5Next.AppliedResults
open PpUtils WorkerLoop SlotOwners AppliedRows DeferredResults StepPhases RankStates
variable {ReqId M : Type} {cfg : Config} {dev : Device ReqId M}

-- What the receive of a step takes from the broadcasts.
structure Carries (cfg : Config) (out : SampledOutputs) (relay : Relay) : Prop where
  tokens : out.sampledTokens.entry = relay.sampledTokens.entry
  counts : out.numSampled = relay.numSampled ∧ out.numRejected = relay.numRejected
  drafts : out.draftTokens.map Tensor2.entry = if cfg.relayDraftTokens then some relay.draftTokens.entry else none

theorem reserved_carries (reserves : Reserved cfg record relay gen pending batch mask)
    (kept : filterExcluded h pending = some out) : Carries cfg out relay := by
  obtain ⟨tokens,sampled,rejected,drafts⟩ := filter_tensors kept
  refine ⟨?_,⟨sampled.trans reserves.counts.1,rejected.trans reserves.counts.2⟩,?_⟩
  · rw [tokens,reserves.tokens]
  · rw [drafts,reserves.drafts]
    split <;> rfl

section Step
variable [DecidableEq ReqId]

def appendBlocks (dev : Device ReqId M) (s : ReqStates ReqId) (m : M) (req : CachedRequestData ReqId) : M :=
  match s.index req.reqId,req.newBlockIds with
  | some slot,some blockIds => dev.appendBlockIds m slot blockIds
  | _,_ => m

def allDecodeNext (batch : InputBatch ReqId) : Bool := (computeNeedSampledMask batch).elim false fun mask => mask.all id

def batchPhases (dev : Device ReqId M) (m : M) (batch : InputBatch ReqId) : M :=
  let m := dev.postprocessNumComputedTokens (dev.forward (dev.preprocessState m batch) batch) batch
  if allDecodeNext batch then m else dev.resetAccepted m (batch.map fun row => (row.idxMapping : Int))

def laterPhases (dev : Device ReqId M) (input : StepInput ReqId) (s : ReqStates ReqId)
    (batch : Option (InputBatch ReqId)) (m : M) : M :=
  let added := (input.out.scheduledNewReqs.zip input.slots).foldl (fun m new => dev.addRequest m new.2 new.1) m
  batch.elim (input.out.scheduledCachedReqs.foldl (appendBlocks dev s) added)
    (batchPhases dev (input.out.scheduledCachedReqs.foldl (appendBlocks dev s) added))

theorem adds_device (news : List (NewRequestData ReqId)) (slots : List Nat) (r next : Runner ReqId M)
    (added : addRequests dev r news slots = some (next,freed)) :
    next.device = (news.zip slots).foldl (fun m new => dev.addRequest m new.2 new.1) r.device := by
  induction news generalizing r slots freed with
  | nil =>
      obtain ⟨rfl,rfl⟩ : r = next ∧ [] = freed := by simpa [addRequests] using added
      rfl
  | cons new rest ih =>
      cases slots with
      | nil => cases added
      | cons slot slots =>
          simp only [addRequests,Option.bind_eq_bind,Option.bind_eq_some_iff,Option.pure_def,
            Option.some.injEq,Prod.mk.injEq,Prod.exists] at added
          obtain ⟨reqStates,inserted,last,later,ran,rfl,rfl⟩ := added
          have later_device := ih slots _ ran
          rw [remove_device] at later_device
          exact later_device

theorem updates_device (reqs : List (CachedRequestData ReqId)) (r next : Runner ReqId M)
    (updated : updateRequests dev r reqs = some next) :
    next.device = reqs.foldl (appendBlocks dev next.reqStates) r.device := by
  have table := (updates_table reqs r next updated).1
  generalize next.reqStates = s at table ⊢
  induction reqs generalizing r with
  | nil =>
      obtain rfl : r = next := by simpa [updateRequests] using updated
      rfl
  | cons req rest ih =>
      simp only [updateRequests,updateRequest,Option.bind_eq_bind,Option.bind_eq_some_iff,
        Option.pure_def,Option.some.injEq] at updated
      obtain ⟨middle,⟨slot,found,rfl⟩,ran⟩ := updated
      have own : s.index req.reqId = some slot := by
        rw [index_exact,table]
        exact (index_exact _ _ _).mp found
      rw [List.foldl_cons,ih _ ran table]
      congr 1
      unfold appendBlocks
      rw [own]
      cases req.newBlockIds <;> rfl

theorem prepared_device (prepares : prepared dev r input = some (ready,freed)) :
    ready.device = laterPhases dev input ready.reqStates none (updatePpDecodeRequests dev r).1.device := by
  simp only [prepared,Option.bind_eq_bind,Option.bind_eq_some_iff,Option.pure_def,Option.some.injEq,
    Prod.mk.injEq,Prod.exists] at prepares
  obtain ⟨grown,readded,adds,last,updated,rfl,rfl⟩ := prepares
  rw [updates_device _ grown last updated,adds_device _ _ _ grown adds,finishRequests,removes_keep]
  rfl

omit [DecidableEq ReqId] in
theorem sampled_device (rank : r.ppHandler.isLastRank = false)
    (samples : sampleTokens cfg dev (forwarded dev r batch) batch relay = some (next,sent,posted)) :
    next.device = batchPhases dev r.device batch ∧ next.draftTokens = r.draftTokens ∧ next.reqStates = r.reqStates := by
  have other : (forwarded dev r batch).ppHandler.isLastRank = false := rank
  simp only [sampleTokens,other,Bool.not_false,if_true,Option.some.injEq,Prod.mk.injEq] at samples
  obtain ⟨rfl,_,_⟩ := samples
  refine ⟨?_,rfl,rfl⟩
  have next_decodes : (receive cfg (forwarded dev r batch).ppHandler batch relay).2.2 = allDecodeNext batch := by
    unfold receive allDecodeNext
    cases computeNeedSampledMask batch <;> rfl
  dsimp only
  rw [next_decodes]
  unfold batchPhases
  cases allDecodeNext batch <;> rfl

theorem step_applied (rank : r.ppHandler.isLastRank = false)
    (same : (updatePpDecodeRequests dev r).1.ppHandler.isLastRank = r.ppHandler.isLastRank)
    (stepped : step cfg dev r input = some (next,record)) :
    next.device = laterPhases dev input next.reqStates record.batch (updatePpDecodeRequests dev r).1.device ∧
      next.draftTokens = (updatePpDecodeRequests dev r).1.draftTokens := by
  obtain ⟨ready,prepares,_,_,⟨idle,rfl⟩ | ⟨batch,sent,posted,ran,_,samples⟩⟩ := step_phases stepped
  · rw [idle]
    exact ⟨prepared_device prepares,prepared_drafts prepares⟩
  · have other : ready.ppHandler.isLastRank = false := ((prepared_handler r input prepares).1.trans same).trans rank
    obtain ⟨device,drafts,table⟩ := sampled_device other samples
    refine ⟨?_,drafts.trans (prepared_drafts prepares)⟩
    rw [ran,device,prepared_device prepares,table]
    rfl

end Step

section Run
variable [DecidableEq ReqId]

def Received (cfg : Config) (inputs : List (StepInput ReqId)) (history : List (StepRecord ReqId)) : Prop :=
  inputs.length = history.length ∧ ∀ (t : Nat) (record : StepRecord ReqId) (pending : PendingRecv),
    history[t]? = some record → record.reserved = some pending →
      ∃ (source : StepInput ReqId) (gen : Nat → BitVec 32) (batch : InputBatch ReqId) (mask : List Bool),
        inputs[t]? = some source ∧ Reserved cfg record source.relay gen pending batch mask

theorem step_received (received : Received cfg inputs history) (facts : StepFacts cfg r next input.relay record) :
    Received cfg (inputs ++ [input]) (history ++ [record]) := by
  obtain ⟨same,reserves⟩ := received
  refine ⟨by simp [same],?_⟩
  intro t other pending found reserved
  rcases snoc_get found with ⟨old,found⟩ | ⟨rfl,rfl⟩
  · obtain ⟨source,gen,batch,mask,at_t,holds⟩ := reserves t other pending found reserved
    refine ⟨source,gen,batch,mask,?_,holds⟩
    rw [List.getElem?_append_left (same ▸ old)]
    exact at_t
  · obtain ⟨batch,mask,holds⟩ := facts.reserves pending reserved
    refine ⟨input,_,batch,mask,?_,holds⟩
    rw [← same,List.getElem?_concat_length]

theorem reached_received (cfg : Config) (dev : Device ReqId M) (device : M)
    (run : Runs cfg dev (Runner.init cfg false device) inputs r history) : Received cfg inputs history := by
  induction run with
  | nil =>
      exact ⟨rfl,by simp⟩
  | snoc ran stepped ih =>
      have valid := reached_invariant cfg dev device ran
      obtain ⟨front,rest,queued⟩ := valid.queued
      exact step_received ih (step_facts _ valid.rank queued stepped)

theorem outputs_carry (valid : Invariant cfg r history) (received : Received cfg inputs history)
    (facts : StepFacts cfg r next delivered record) (applied : record.outputs = some out) :
    cfg.worldSize ≤ history.length ∧
      ∃ source, inputs[history.length - cfg.worldSize]? = some source ∧ Carries cfg out source.relay := by
  have consumed := valid.front facts
  rw [facts.outputs] at applied
  by_cases young : history.length < cfg.worldSize
  · rw [if_pos young] at consumed
    rw [consumed] at applied
    cases applied
  · refine ⟨Nat.le_of_not_lt young,?_⟩
    rw [if_neg young] at consumed
    obtain ⟨pending,popped,kept⟩ := Option.bind_eq_some_iff.mp applied
    rw [consumed] at popped
    obtain ⟨record,found,reserved⟩ := Option.bind_eq_some_iff.mp popped
    obtain ⟨source,gen,batch,mask,at_t,reserves⟩ := received.2 _ record pending found reserved
    exact ⟨source,at_t,reserved_carries reserves kept⟩

-- For the step after any run. The outputs carry what the broadcasts of the step
-- world size turns ago delivered; the rows they are applied to are those still
-- due, and what is applied is in the device and the draft tokens that the step
-- returns.
theorem deferred_results_applied (cfg : Config) (dev : Device ReqId M) (device : M)
    (run : Runs cfg dev (Runner.init cfg false device) inputs r history)
    (stepped : step cfg dev r input = some (next,record)) :
    record.queueAtStart.length = cfg.worldSize ∧
    (record.consumed = if history.length < cfg.worldSize then none
      else (history[history.length - cfg.worldSize]?).bind StepRecord.reserved) ∧
    (applications cfg (history ++ [record])).Nodup ∧
    (∀ slot row, (slot,row) ∈ appliedRows record.outputs ↔ ∃ entry, Due cfg history slot row entry) ∧
    (∀ slot row entry, Due cfg history slot row entry → (entry.reqId,slot) ∈ record.owners) ∧
    (∀ out, record.outputs = some out → cfg.worldSize ≤ history.length ∧
      ∃ source, inputs[history.length - cfg.worldSize]? = some source ∧ Carries cfg out source.relay) ∧
    next.device = laterPhases dev input next.reqStates record.batch (record.outputs.elim r.device (fun out =>
      dev.postprocessState ((appliedRows record.outputs).foldl (fun m target =>
        dev.postUpdateRow m target.1 (out.sampledTokens.entry target.2) (out.numSampled target.2)
          (out.numRejected target.2) none) r.device) out.idxMapping out.numSampled)) ∧
    next.draftTokens = (record.outputs.bind SampledOutputs.draftTokens).elim r.draftTokens (fun relayed =>
      (appliedRows record.outputs).foldl (writeDraftRow relayed) r.draftTokens) := by
  have valid := reached_invariant cfg dev device run
  obtain ⟨front,rest,queued⟩ := valid.queued
  have facts := step_facts r valid.rank queued stepped
  obtain ⟨consumed,_,_,handler⟩ := deferred_parts dev r queued
  have outputs : record.outputs = (updatePpDecodeRequests dev r).2.2 := by
    obtain ⟨_,_,_,same,_⟩ := step_phases stepped
    exact same
  obtain ⟨applied,drafted⟩ := deferred_phase_exact dev r
  obtain ⟨later,kept⟩ := step_applied valid.rank (by rw [handler]) stepped
  refine ⟨?_,valid.front facts,applications_nodup (step_preserves r next history valid stepped),
    applied_due valid facts,fun slot row entry due => due_owned valid facts due,
    fun out => outputs_carry valid (reached_received cfg dev device run) facts,?_,?_⟩
  · rw [facts.start,valid.queue,DelayLine.line_length]
  · rw [later,applied,outputs]
  · rw [kept,drafted,outputs]

end Run

-- A device that logs what post_update writes, and a prompt whose sample 42 and
-- draft 5 the next step applies to slot 4.
def loggingDevice : Device Nat (List (Nat × Int)) where
  addRequest m _ _ := m
  appendBlockIds m _ _ := m
  preprocessState m _ := m
  forward m _ := m
  postprocessNumComputedTokens m _ := m
  postUpdateRow m slot tokens _ _ _ := m ++ [(slot,tokens 0)]
  postprocessState m _ _ := m
  resetAccepted m _ := m

def draftingRank : Config := { oneRank with numSpeculativeSteps := 1,relayDraftTokens := true }

def draftedStep : StepInput Nat :=
  { promptStep with relay := ⟨⟨1,2,fun _ _ => 42⟩,fun _ => 1,fun _ => 0,⟨1,1,fun _ _ => 5⟩⟩ }

theorem deferred_results_applied_prompt :
    ∃ r history next record, Runs draftingRank loggingDevice (Runner.init draftingRank false []) [draftedStep] r history ∧
      step draftingRank loggingDevice r idleStep = some (next,record) ∧ appliedRows record.outputs = [(4,0)] ∧
      next.device = [(4,42)] ∧ next.draftTokens 4 0 = 5 ∧ (applications draftingRank (history ++ [record])).Nodup := by
  have computed : (do
      let (r,_) ← step draftingRank loggingDevice (Runner.init draftingRank false []) draftedStep
      let (next,record) ← step draftingRank loggingDevice r idleStep
      return (appliedRows record.outputs,next.device,next.draftTokens 4 0)) = some ([(4,0)],[(4,42)],5) := by decide +kernel
  simp only [Option.bind_eq_bind,Option.bind_eq_some_iff,Prod.exists,Option.pure_def,
    Option.some.injEq,Prod.mk.injEq] at computed
  obtain ⟨r,first,ran,next,record,stepped,applied,device,draft⟩ := computed
  have run : Runs draftingRank loggingDevice (Runner.init draftingRank false []) [draftedStep] r [first] := .snoc .nil ran
  exact ⟨r,[first],next,record,run,stepped,applied,device,draft,
    (deferred_results_applied draftingRank loggingDevice [] run stepped).2.2.1⟩

end Glm5Next.AppliedResults
