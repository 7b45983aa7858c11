import Glm5Next.StepPhases
import Glm5Next.AlignFlight

namespace Glm5Next.AlignSampling
open PpUtils WorkerLoop SlotOwners AppliedRows StepPhases MambaAlign PointUpdates AlignKernels AlignColumns AlignSeats
open AlignFlight
variable {ReqId T V : Type} {ac : AlignConfig} {up : Upstream T} {cfg : Config}

theorem counted_seats (ready : Runner ReqId (AlignDevice T V)) (mem : Memory T V) {after : Memory T V}
    (batch : InputBatch ReqId)
    (distinct : (batch.map BatchRow.idxMapping).Nodup) (seats : Seats ac up ready count)
    (advanced : Advanced ac up ready.device.mem mem batch) (tables : after.tables = mem.tables)
    (computed : after.numComputed = modifies (fun _ queryLen n => up.postUpdateNumComputedTokens n queryLen)
      mem.numComputed (queryRows batch))
    (documented : up.Documented) (columns : ∀ slot, (after.align slot).stateIdx = (mem.align slot).stateIdx)
    (counted : ∀ slot, Counted ac (mem.align slot) → Counted ac (after.align slot))
    (apart : ∀ slot, slot ∉ batch.map BatchRow.idxMapping → after.align slot = mem.align slot) :
    ∀ slot ∈ ready.reqStates.slots, Seated ac up after slot (batchTokens batch slot + count slot) := by
  intro slot used
  have seated := seats.seated slot used
  by_cases present : slot ∈ batch.map BatchRow.idxMapping
  · obtain ⟨entry,member,rfl⟩ := List.mem_map.mp present
    have advances : after.numComputed entry.idxMapping =
        mem.numComputed entry.idxMapping + entry.numScheduledTokens := by
      rw [computed,queryRows,row_exact _ _ distinct member,documented.post_num_computed]
    have placed := advanced.placed entry member
    rw [← tables,← advances] at placed
    have before := congrFun advanced.computed entry.idxMapping
    have inFlight := seated.inFlight
    refine ⟨?_,counted _ (advanced.counted entry member),Or.inl ?_⟩
    · rw [batch_tokens_exact batch distinct member,advances,before]
      omega
    · exact placed.moved (columns _)
  · rw [batch_tokens_apart batch present,Nat.zero_add]
    refine seated.grow ((apart slot present).trans (advanced.apart slot present)) ?_ fun group => ?_
    · rw [computed,queryRows,row_apart _ _ present,advanced.computed]
    · rw [tables,advanced.tables]

theorem fill_rows (ac : AlignConfig) (align : Nat → AlignState) (idxMapping : List Int)
    (distinct : ((validRows idxMapping).map Prod.fst).Nodup) (slot : Nat) :
    let filled := modifies (fun _ _ a => fillNumAccepted (max 0 1) a) align (validRows idxMapping)
    (filled slot).stateIdx = (align slot).stateIdx ∧ (Counted ac (align slot) → Counted ac (filled slot)) ∧
      (slot ∉ (validRows idxMapping).map Prod.fst → filled slot = align slot) := by
  intro filled
  by_cases present : slot ∈ (validRows idxMapping).map Prod.fst
  · obtain ⟨⟨_,row⟩,valid,rfl⟩ := List.mem_map.mp present
    have neutral : filled _ = fillNumAccepted (max 0 1) (align _) :=
      modifies_exact (fun _ _ a => fillNumAccepted (max 0 1) a) align _ distinct valid
    rw [neutral]
    exact ⟨rfl,fun _ => ⟨Nat.le_refl 1,Nat.le_add_left 1 _⟩,fun absent => absurd present absent⟩
  · have same : filled slot = align slot := modifies_apart _ align _ slot present
    rw [same]
    exact ⟨rfl,id,fun _ => rfl⟩

section Sampling
variable {forward : (Nat → Nat → Nat → V) → InputBatch ReqId → Nat → Nat → Nat → V}

theorem received_seats (documented : up.Documented) (ready next : Runner ReqId (AlignDevice T V))
    (batch : InputBatch ReqId) (distinct : (batch.map BatchRow.idxMapping).Nodup)
    (owned : ∀ entry ∈ batch, entry.idxMapping ∈ ready.reqStates.slots) (seats : Seats ac up ready count)
    (advanced : Advanced ac up ready.device.mem (preprocessState ac up ready.device batch).mem batch)
    (rank : ready.ppHandler.isLastRank = false)
    (samples : sampleTokens cfg (alignDevice ac up forward) (forwarded (alignDevice ac up forward) ready batch) batch
      relay = some (next,sent,posted)) :
    Seats ac up next (fun slot => batchTokens batch slot + count slot) ∧
    next.device.launches = (preprocessState ac up ready.device batch).launches ∧ next.reqStates = ready.reqStates := by
  have filled := fill_rows ac (preprocessState ac up ready.device batch).mem.align _
    (batch_valid_nodup batch distinct)
  unfold sampleTokens at samples
  rw [show (forwarded (alignDevice ac up forward) ready batch).ppHandler.isLastRank = false from rank] at samples
  simp only [Bool.not_false,if_true,Option.some.injEq,Prod.mk.injEq] at samples
  obtain ⟨rfl,rfl,rfl⟩ := samples
  have unused (slot : Nat) (free : slot ∉ ready.reqStates.slots) : batchTokens batch slot + count slot = 0 := by
    have apart : slot ∉ batch.map BatchRow.idxMapping := by
      intro member
      obtain ⟨entry,listed,rfl⟩ := List.mem_map.mp member
      exact free (owned entry listed)
    rw [batch_tokens_apart batch apart,seats.empty slot free]
  cases all : (receive cfg (forwarded (alignDevice ac up forward) ready batch).ppHandler batch relay).2.2 with
  | true =>
      refine ⟨⟨?_,unused⟩,rfl,rfl⟩
      exact counted_seats ready (preprocessState ac up ready.device batch).mem batch distinct seats advanced rfl rfl
        documented (fun _ => rfl) (fun _ => id) fun _ _ => rfl
  | false =>
      refine ⟨⟨?_,unused⟩,rfl,rfl⟩
      exact counted_seats ready (preprocessState ac up ready.device batch).mem batch distinct seats advanced rfl rfl
        documented (fun slot => (filled slot).1) (fun slot => (filled slot).2.1) fun slot apart => (filled slot).2.2 fun member =>
          apart ((batch_targets batch slot).mp member)

theorem sampled_device (d : AlignDevice T V) (idxMapping : List Int) (sampledTokens : Tensor2)
    (numSampled numRejected : Nat → Int) (batch : Option (InputBatch ReqId)) :
    postprocessSampled (alignDevice ac up forward) d idxMapping sampledTokens numSampled numRejected batch =
      postprocessState ac up (settleRows up d (validRows idxMapping) numRejected fun row =>
        batch.bind fun b => b[row]?.map BatchRow.numScheduledTokens) idxMapping numSampled := by
  unfold postprocessSampled
  rw [post_update_exact,post_update_rows d _ sampledTokens.entry numSampled numRejected fun row =>
    batch.bind fun b => b[row]?.map BatchRow.numScheduledTokens]
  rfl

theorem last_rank_samples (ready next : Runner ReqId (AlignDevice T V)) (batch : InputBatch ReqId)
    (rank : ready.ppHandler.isLastRank = true)
    (samples : sampleTokens cfg (alignDevice ac up forward) (forwarded (alignDevice ac up forward) ready batch) batch
      relay = some (next,sent,posted)) :
    next.device = postprocessSampled (alignDevice ac up forward)
      (forwarded (alignDevice ac up forward) ready batch).device (batchMapping batch) relay.sampledTokens
      relay.numSampled relay.numRejected (some batch) ∧
    next.reqStates = ready.reqStates ∧ next.ppHandler = ready.ppHandler := by
  unfold sampleTokens at samples
  rw [show (forwarded (alignDevice ac up forward) ready batch).ppHandler.isLastRank = true from rank] at samples
  simp only [Bool.not_true,Bool.false_eq_true,if_false,Option.bind_eq_bind,Option.bind_eq_some_iff] at samples
  obtain ⟨sends,_,samples⟩ := samples
  split at samples
  · simp only [Option.pure_def,Option.some.injEq,Prod.mk.injEq] at samples
    obtain ⟨rfl,_,_⟩ := samples
    exact ⟨rfl,rfl,rfl⟩
  · simp only [Option.pure_def,Option.some.injEq,Prod.mk.injEq] at samples
    obtain ⟨rfl,_,_⟩ := samples
    exact ⟨rfl,rfl,rfl⟩

theorem settled_seats (documented : up.Documented) (ready next : Runner ReqId (AlignDevice T V))
    (batch : InputBatch ReqId) (distinct : (batch.map BatchRow.idxMapping).Nodup)
    (seats : Seats ac up ready fun _ => 0)
    (advanced : Advanced ac up ready.device.mem (preprocessState ac up ready.device batch).mem batch)
    (results : ∀ (row : Nat) entry, batch[row]? = some entry →
      RowResult ac (relay.numSampled row) (relay.numRejected row) entry.numScheduledTokens)
    (rank : ready.ppHandler.isLastRank = true)
    (samples : sampleTokens cfg (alignDevice ac up forward) (forwarded (alignDevice ac up forward) ready batch) batch
      relay = some (next,sent,posted)) :
    Seats ac up next (fun _ => 0) ∧
    Launched ac up (preprocessState ac up ready.device batch) next.device (batchMapping batch) ∧
    next.reqStates = ready.reqStates ∧ next.ppHandler = ready.ppHandler := by
  obtain ⟨device,states,handler⟩ := last_rank_samples ready next batch rank samples
  rw [sampled_device] at device
  have at_row (row : Nat) (entry : BatchRow ReqId) (found : batch[row]? = some entry) :
      ((some batch).bind fun b => b[row]?.map BatchRow.numScheduledTokens).getD 0 = entry.numScheduledTokens := by
    rw [Option.bind_some,found]
    rfl
  obtain ⟨launched,processed,counts,apart⟩ := settle_exact documented
    (forwarded (alignDevice ac up forward) ready batch).device (batchMapping batch) relay.numSampled relay.numRejected
    (fun row => (some batch).bind fun b => b[row]?.map BatchRow.numScheduledTokens)
    (batch_valid_nodup batch distinct) (by
      intro slot row valid
      obtain ⟨entry,found,rfl⟩ := batch_valid valid
      refine ⟨?_,entry.numScheduledTokens,results row entry found,?_⟩
      · rw [at_row row entry found]
        exact advanced.placed entry (List.mem_of_getElem? found)
      · rw [at_row row entry found]
        exact Nat.le_add_left _ _)
  rw [← device] at launched processed
  refine ⟨⟨fun slot used => ?_,fun _ _ => rfl⟩,launched,states,handler⟩
  rw [states] at used
  by_cases present : slot ∈ (validRows (batchMapping batch)).map Prod.fst
  · obtain ⟨⟨_,row⟩,valid,rfl⟩ := List.mem_map.mp present
    have counted := processed.counted _ row valid
    obtain ⟨entry,found,rfl⟩ := batch_valid valid
    have computed := (congrFun processed.computed _).trans (counts _ row valid)
    rw [at_row row entry found] at computed
    have placed := (advanced.placed entry (List.mem_of_getElem? found)).fewer
      (Nat.sub_le _ (relay.numRejected row).toNat)
    refine ⟨Nat.zero_le _,counted,Or.inl ?_⟩
    rw [computed,processed.tables]
    exact placed.moved (processed.column _)
  · have outside : slot ∉ batch.map BatchRow.idxMapping := fun member =>
      present ((batch_targets batch slot).mpr member)
    have absent : (slot : Int) ∉ batchMapping batch := fun member => present ((valid_slot _ _).mpr member)
    refine (seats.seated slot used).grow ?_ ?_ fun group => ?_
    · exact (processed.apart slot absent).trans (advanced.apart slot outside)
    · exact (congrFun processed.computed slot).trans ((apart slot present).trans (congrFun advanced.computed slot))
    · rw [processed.tables]
      exact Nat.le_of_eq (congrArg (fun tables => up.numBlocks tables group slot) advanced.tables).symm

end Sampling

-- What the caller promises of a step. The scheduler gives a scheduled request
-- the blocks of its tokens, by a count that is not behind the device's, and
-- the sampler keeps at least one token of a row.
structure Promised [DecidableEq ReqId] (ac : AlignConfig) (up : Upstream T) (cfg : Config)
    (dev : Device ReqId (AlignDevice T V)) (r : Runner ReqId (AlignDevice T V)) (input : StepInput ReqId)
    (record : StepRecord ReqId) : Prop where
  blocks : ∀ ready freed batch, prepared dev r input = some (ready,freed) →
    prepareInputs (cfg.numSpeculativeSteps + 1) ready.reqStates input.out = some batch → ∀ entry ∈ batch,
    0 < entry.numScheduledTokens ∧ ready.device.mem.numComputed entry.idxMapping ≤ entry.numComputedTokens ∧
      Allocated ac up ready.device.mem.tables entry.idxMapping (entry.numComputedTokens + entry.numScheduledTokens)
  results : ∀ batch (row : Nat) entry, record.batch = some batch → batch[row]? = some entry →
    RowResult ac (input.relay.numSampled row) (input.relay.numRejected row) entry.numScheduledTokens

section Phases
variable [DecidableEq ReqId] {forward : (Nat → Nat → Nat → V) → InputBatch ReqId → Nat → Nat → Nat → V}

theorem middle_seats (documented : up.Documented) (r : Runner ReqId (AlignDevice T V)) (input : StepInput ReqId)
    (prepares : prepared (alignDevice ac up forward) r input = some (ready,freed))
    (seats : Seats ac up (updatePpDecodeRequests (alignDevice ac up forward) r).1 count) :
    Seats ac up ready (keepUnless freed count) := by
  simp only [prepared,Option.bind_eq_bind,Option.bind_eq_some_iff,Option.pure_def,Option.some.injEq,
    Prod.mk.injEq,Prod.exists] at prepares
  obtain ⟨grown,readded,added,last,updated,rfl,rfl⟩ := prepares
  have finished := removes_seats (updatePpDecodeRequests (alignDevice ac up forward) r).1
    (input.out.finishedReqIds ++ input.out.preemptedReqIds) seats
  have adds := adds_seats documented _ _ _ grown finished added
  rw [keep_append] at adds
  exact updates_seats documented _ grown last adds updated

theorem ready_advanced (ready : Runner ReqId (AlignDevice T V)) (out : SchedulerOutput ReqId)
    (seats : Seats ac up ready count)
    (batched : prepareInputs decodeQueryLen ready.reqStates out = some batch)
    (promised : ∀ entry ∈ batch, 0 < entry.numScheduledTokens ∧
      ready.device.mem.numComputed entry.idxMapping ≤ entry.numComputedTokens ∧
      Allocated ac up ready.device.mem.tables entry.idxMapping (entry.numComputedTokens + entry.numScheduledTokens)) :
    Launched ac up ready.device (preprocessState ac up ready.device batch) (batchMapping batch) ∧
    Advanced ac up ready.device.mem (preprocessState ac up ready.device batch).mem batch := by
  apply preprocess_state_exact _ _ (batch_slots_distinct batched)
  intro entry member
  obtain ⟨positive,mirrored,allocated⟩ := promised entry member
  have used : entry.idxMapping ∈ ready.reqStates.slots := List.mem_map.mpr ⟨_,batch_owned batched entry member,rfl⟩
  have seated := seats.seated _ used
  refine ⟨seated.counted,?_,positive,_,allocated,Nat.add_le_add_right mirrored _⟩
  exact seated.standing.imp_right And.left

end Phases

end Glm5Next.AlignSampling
