import Mathlib.Algebra.Order.BigOperators.Group.List
import Mathlib.Algebra.Order.Group.Nat
import Glm5Next.SlotOwners
import Glm5Next.AppliedRows

namespace Glm5Next.DeferredResults
open PpUtils WorkerLoop SlotOwners AppliedRows
variable {ReqId M : Type} {cfg : Config} {dev : Device ReqId M}

-- The entry a step reserved, against the batch of that step, what the
-- broadcasts delivered, and the slot counters at the time of the receive.
structure Reserved (cfg : Config) (record : StepRecord ReqId) (delivered : Relay) (gen : Nat → BitVec 32)
    (pending : PendingRecv) (batch : InputBatch ReqId) (mask : List Bool) : Prop where
  ran : record.batch = some batch
  masked : computeNeedSampledMask batch = some mask
  rows : pending.idxMapping = batch.map (·.idxMapping)
  needed : pending.needSampledMask = mask
  snapshot : pending.genAtReceive = batch.map fun row => gen row.idxMapping
  tokens : pending.sampledTokens = ⟨batch.length,cfg.maxSampleLen,delivered.sampledTokens.entry⟩
  counts : pending.numSampled = delivered.numSampled ∧ pending.numRejected = delivered.numRejected
  drafts : pending.draftTokens = if cfg.relayDraftTokens then
    some ⟨batch.length,cfg.maxSampleLen - 1,delivered.draftTokens.entry⟩ else none

structure StepFacts (cfg : Config) (before after : Runner ReqId M) (delivered : Relay) (record : StepRecord ReqId) :
    Prop where
  start : record.queueAtStart = before.ppHandler.queue
  owners : record.owners = before.reqStates.reqIdToIndex
  consumed : record.consumed = before.ppHandler.queue.head?.join
  outputs : record.outputs = record.consumed.bind (filterExcluded before.ppHandler)
  queue : after.ppHandler.queue = before.ppHandler.queue.tail ++ [record.reserved]
  rank : after.ppHandler.isLastRank = false
  counter : ∀ slot, after.ppHandler.reqIdxGen slot =
    before.ppHandler.reqIdxGen slot + BitVec.ofNat 32 (record.freed.count slot)
  short : ∀ slot, record.freed.count slot ≤ 2
  keeps : ∀ reqId slot, (reqId,slot) ∈ before.reqStates.reqIdToIndex → slot ∉ record.freed →
    (reqId,slot) ∈ after.reqStates.reqIdToIndex
  owned : ∀ batch, record.batch = some batch → ∀ row ∈ batch,
    (row.reqId,row.idxMapping) ∈ after.reqStates.reqIdToIndex
  distinct : ∀ batch, record.batch = some batch → (batch.map BatchRow.reqId).Nodup
  reserves : ∀ pending, record.reserved = some pending →
    ∃ batch mask, Reserved cfg record delivered after.ppHandler.reqIdxGen pending batch mask
  idle : record.reserved = none → ∀ batch, record.batch = some batch → computeNeedSampledMask batch = none

theorem deferred_parts (dev : Device ReqId M) (r : Runner ReqId M) (queued : r.ppHandler.queue = front :: rest) :
    (updatePpDecodeRequests dev r).2.1 = front ∧
      (updatePpDecodeRequests dev r).2.2 = front.bind (filterExcluded r.ppHandler) ∧
      (updatePpDecodeRequests dev r).1.reqStates = r.reqStates ∧
      (updatePpDecodeRequests dev r).1.ppHandler = { r.ppHandler with queue := rest ++ [none] } := by
  unfold updatePpDecodeRequests getPrevSampledOutputs
  rw [queued]
  cases front with
  | none => exact ⟨rfl,rfl,rfl,rfl⟩
  | some pending =>
      have same : filterExcluded { r.ppHandler with queue := rest ++ [none] } pending =
          filterExcluded r.ppHandler pending := rfl
      cases kept : filterExcluded r.ppHandler pending <;> simp [same,kept]

-- What receive does to the queue, whose last entry is the placeholder the
-- consume left.
theorem receive_queue (cfg : Config) (h : PPHandler) (batch : InputBatch ReqId) (relay : Relay)
    (rest : List (Option PendingRecv)) (queued : h.queue = rest ++ [none]) :
    (receive cfg h batch relay).1.queue = rest ++ [(receive cfg h batch relay).1.queue.getLast?.join] ∧
      (receive cfg h batch relay).1.isLastRank = h.isLastRank ∧
      (receive cfg h batch relay).1.reqIdxGen = h.reqIdxGen := by
  unfold receive
  cases masked : computeNeedSampledMask batch with
  | none => exact ⟨by simp [queued],rfl,rfl⟩
  | some mask => exact ⟨by simp [queued],rfl,rfl⟩

theorem receive_reserves (h : PPHandler) (batch : InputBatch ReqId) (relay : Relay)
    (rest : List (Option PendingRecv)) (queued : h.queue = rest ++ [none])
    (record : StepRecord ReqId) (ran : record.batch = some batch) :
    (∀ pending, (receive cfg h batch relay).1.queue.getLast?.join = some pending →
      ∃ batch mask, Reserved cfg record relay h.reqIdxGen pending batch mask) ∧
    ((receive cfg h batch relay).1.queue.getLast?.join = none → computeNeedSampledMask batch = none) := by
  unfold receive
  cases masked : computeNeedSampledMask batch with
  | none => exact ⟨by simp [queued],fun _ => rfl⟩
  | some mask =>
      constructor
      · intro pending last
        simp only [List.getLast?_concat,Option.join_some,Option.some.injEq] at last
        cases last
        exact ⟨batch,mask,ran,masked,rfl,rfl,rfl,rfl,⟨rfl,rfl⟩,rfl⟩
      · simp

section Step
variable [DecidableEq ReqId]

-- What execute_model alone did: consume, finish, add, update, and the batch.
structure ExecuteFacts (before after : Runner ReqId M) (record : StepRecord ReqId) : Prop where
  start : record.queueAtStart = before.ppHandler.queue
  owners : record.owners = before.reqStates.reqIdToIndex
  consumed : record.consumed = before.ppHandler.queue.head?.join
  outputs : record.outputs = record.consumed.bind (filterExcluded before.ppHandler)
  queue : after.ppHandler.queue = before.ppHandler.queue.tail ++ [none]
  rank : after.ppHandler.isLastRank = before.ppHandler.isLastRank
  counter : ∀ slot, after.ppHandler.reqIdxGen slot =
    before.ppHandler.reqIdxGen slot + BitVec.ofNat 32 (record.freed.count slot)
  short : ∀ slot, record.freed.count slot ≤ 2
  keeps : ∀ reqId slot, (reqId,slot) ∈ before.reqStates.reqIdToIndex → slot ∉ record.freed →
    (reqId,slot) ∈ after.reqStates.reqIdToIndex
  owned : ∀ batch, record.batch = some batch → ∀ row ∈ batch,
    (row.reqId,row.idxMapping) ∈ after.reqStates.reqIdToIndex
  distinct : ∀ batch, record.batch = some batch → (batch.map BatchRow.reqId).Nodup
  unreserved : record.reserved = none

theorem phases_free (r : Runner ReqId M) (out : SchedulerOutput ReqId) (slots : List Nat)
    (added : addRequests dev (finishRequests r out).1 out.scheduledNewReqs slots = some (grown,readded))
    (updated : updateRequests dev grown out.scheduledCachedReqs = some next) :
    next.ppHandler.queue = r.ppHandler.queue ∧ next.ppHandler.isLastRank = r.ppHandler.isLastRank ∧
      (∀ slot, next.ppHandler.reqIdxGen slot = r.ppHandler.reqIdxGen slot +
        BitVec.ofNat 32 (((finishRequests r out).2 ++ readded).count slot)) ∧
      (∀ slot, ((finishRequests r out).2 ++ readded).count slot ≤ 2) ∧
      ∀ reqId slot, (reqId,slot) ∈ r.reqStates.reqIdToIndex → slot ∉ (finishRequests r out).2 ++ readded →
        (reqId,slot) ∈ next.reqStates.reqIdToIndex := by
  have finished := (removes_free r (out.finishedReqIds ++ out.preemptedReqIds)).1
  have adds := adds_free out.scheduledNewReqs slots _ _ out.new_nodup added
  have updates := updates_free out.scheduledCachedReqs grown next updated
  refine ⟨?_,?_,?_,?_,?_⟩
  · exact updates.queue.trans (adds.queue.trans finished.queue)
  · exact updates.rank.trans (adds.rank.trans finished.rank)
  · intro slot
    rw [updates.counter,adds.counter]
    simp only [finishRequests,finished.counter,List.count_append,List.count_nil,BitVec.ofNat_add,
      BitVec.add_assoc,BitVec.add_zero]
  · intro slot
    have one := List.nodup_iff_count_le_one.mp finished.once slot
    have two := List.nodup_iff_count_le_one.mp adds.once slot
    simp only [finishRequests,List.count_append]
    omega
  · intro reqId slot member kept
    rw [List.mem_append,not_or] at kept
    exact updates.keeps _ _ (adds.keeps _ _ (finished.keeps _ _ member kept.1) kept.2) (by simp)

theorem execute_facts (r : Runner ReqId M) (queued : r.ppHandler.queue = front :: rest)
    (executed : executeModel cfg dev r input = some (next,record)) : ExecuteFacts r next record := by
  obtain ⟨consumed,outputs,table,handler⟩ := deferred_parts dev r queued
  unfold executeModel at executed
  simp only [Option.bind_eq_bind,Option.bind_eq_some_iff,Option.pure_def,Prod.exists] at executed
  obtain ⟨grown,readded,added,updated,ran,executed⟩ := executed
  obtain ⟨queue,rank,counter,short,keeps⟩ := phases_free _ _ _ added ran
  rw [handler] at queue rank counter
  rw [table] at keeps
  split at executed
  · cases executed
    refine ⟨rfl,rfl,?_,?_,?_,rank,counter,short,keeps,?_,?_,rfl⟩
    · simpa [queued] using consumed
    · simpa [consumed] using outputs
    · simpa [queued] using queue
    · simp
    · simp
  · simp only [Option.bind_eq_some_iff,Option.some.injEq,Prod.mk.injEq] at executed
    obtain ⟨batch,prepared,rfl,rfl⟩ := executed
    refine ⟨rfl,rfl,?_,?_,?_,rank,counter,short,keeps,?_,?_,rfl⟩
    · simpa [queued] using consumed
    · simpa [consumed] using outputs
    · simpa [queued] using queue
    · intro other same
      cases same
      exact batch_owned prepared
    · intro other same
      cases same
      exact batch_distinct prepared

theorem step_facts (r : Runner ReqId M) (rank : r.ppHandler.isLastRank = false)
    (queued : r.ppHandler.queue = front :: rest) (stepped : step cfg dev r input = some (next,record)) :
    StepFacts cfg r next input.relay record := by
  unfold step at stepped
  simp only [Option.bind_eq_bind,Option.bind_eq_some_iff,Prod.exists] at stepped
  obtain ⟨middle,executed,ran,stepped⟩ := stepped
  have facts := execute_facts r queued ran
  cases batched : executed.batch with
  | none =>
      simp only [batched,Option.pure_def,Option.some.injEq,Prod.mk.injEq] at stepped
      obtain ⟨rfl,rfl⟩ := stepped
      refine ⟨facts.start,facts.owners,facts.consumed,facts.outputs,?_,facts.rank.trans rank,facts.counter,
        facts.short,facts.keeps,facts.owned,facts.distinct,?_,?_⟩
      · rw [facts.queue,facts.unreserved]
      · simp [facts.unreserved]
      · simp [batched]
  | some batch =>
      simp only [batched,Option.bind_eq_some_iff,Option.pure_def,Option.some.injEq,Prod.mk.injEq,
        Prod.exists] at stepped
      obtain ⟨sampled,sent,posted,received,rfl,rfl⟩ := stepped
      have queue := facts.queue
      simp only [sampleTokens,facts.rank.trans rank,Bool.not_false,if_true,Option.some.injEq,
        Prod.mk.injEq] at received
      obtain ⟨rfl,rfl,rfl⟩ := received
      obtain ⟨turned,same_rank,same_gen⟩ := receive_queue cfg middle.ppHandler batch input.relay _ queue
      refine ⟨facts.start,facts.owners,facts.consumed,facts.outputs,turned,?_,?_,facts.short,facts.keeps,?_,?_,?_,?_⟩
      · exact same_rank.trans (facts.rank.trans rank)
      · intro slot
        dsimp only
        rw [same_gen]
        exact facts.counter slot
      · intro other same
        cases same
        exact facts.owned batch batched
      · intro other same
        cases same
        exact facts.distinct batch batched
      · dsimp only
        rw [same_gen]
        exact (receive_reserves middle.ppHandler batch input.relay _ queue _ rfl).1
      · intro idle other same
        cases same
        exact (receive_reserves middle.ppHandler batch input.relay _ queue executed batched).2 idle

end Step

def freedSince (history : List (StepRecord ReqId)) (t slot : Nat) : Nat :=
  ((history.drop (t + 1)).map fun record => record.freed.count slot).sum

theorem freed_since_snoc (history : List (StepRecord ReqId)) (record : StepRecord ReqId)
    (before : t < history.length) :
    freedSince (history ++ [record]) t slot = freedSince history t slot + record.freed.count slot := by
  simp [freedSince,List.drop_append_of_le_length (Nat.succ_le_of_lt before)]

theorem freed_since_last (history : List (StepRecord ReqId)) (record : StepRecord ReqId) :
    freedSince (history ++ [record]) history.length slot = 0 := by
  simp [freedSince]

theorem freed_since_zero (history : List (StepRecord ReqId)) (t slot : Nat) :
    freedSince history t slot = 0 ↔
      ∀ u record, t < u → history[u]? = some record → slot ∉ record.freed := by
  unfold freedSince
  rw [List.sum_eq_zero_iff_forall_eq_nat]
  constructor
  · intro zero u record later found
    have dropped : (history.drop (t + 1))[u - (t + 1)]? = some record := by
      rw [List.getElem?_drop,← found]; congr 1; omega
    have count := zero _ (List.mem_map.mpr ⟨record,List.mem_of_getElem? dropped,rfl⟩)
    exact List.count_eq_zero.mp count
  · intro kept count member
    obtain ⟨record,listed,rfl⟩ := List.mem_map.mp member
    obtain ⟨u,found⟩ := List.mem_iff_getElem?.mp listed
    rw [List.getElem?_drop] at found
    exact List.count_eq_zero.mpr (kept _ record (by omega) found)

theorem freed_since_bound (history : List (StepRecord ReqId))
    (short : ∀ record ∈ history, ∀ slot, record.freed.count slot ≤ 2) (t slot : Nat) :
    freedSince history t slot ≤ (history.length - (t + 1)) * 2 := by
  unfold freedSince
  have bounded := List.sum_le_card_nsmul ((history.drop (t + 1)).map fun record => record.freed.count slot) 2
    (by
      intro count member
      obtain ⟨record,listed,rfl⟩ := List.mem_map.mp member
      exact short record (List.mem_of_mem_drop listed) slot)
  simpa using bounded

-- The counter of a slot moved by the number of frees since the receive, and a
-- slot that was not freed still belongs to the request of the row.
def Since (r : Runner ReqId M) (history : List (StepRecord ReqId)) (t : Nat) (gen : Nat → BitVec 32)
    (row : BatchRow ReqId) : Prop :=
  r.ppHandler.reqIdxGen row.idxMapping = gen row.idxMapping + BitVec.ofNat 32 (freedSince history t row.idxMapping) ∧
    (freedSince history t row.idxMapping = 0 → (row.reqId,row.idxMapping) ∈ r.reqStates.reqIdToIndex)

def resultRow (history : List (StepRecord ReqId)) (t row : Nat) : Option (BatchRow ReqId) := do
  let source ← history[t]?
  let batch ← source.batch
  batch[row]?

structure Invariant (cfg : Config) (r : Runner ReqId M) (history : List (StepRecord ReqId)) : Prop where
  rank : r.ppHandler.isLastRank = false
  queue : r.ppHandler.queue = DelayLine.line cfg.worldSize none (history.map StepRecord.reserved)
  distinct : ∀ record ∈ history, ∀ batch, record.batch = some batch → (batch.map BatchRow.reqId).Nodup
  sourced : ∀ t record, history[t]? = some record → ∀ slot row, (slot,row) ∈ appliedRows record.outputs →
    cfg.worldSize ≤ t ∧ ∃ entry, resultRow history (t - cfg.worldSize) row = some entry
  short : ∀ record ∈ history, ∀ slot, record.freed.count slot ≤ 2
  idle : ∀ record ∈ history, record.reserved = none → ∀ batch, record.batch = some batch →
    computeNeedSampledMask batch = none
  since : ∀ t record pending, history[t]? = some record → record.reserved = some pending →
    ∃ delivered gen batch mask, Reserved cfg record delivered gen pending batch mask ∧ ∀ row ∈ batch, Since r history t gen row

theorem init_invariant (cfg : Config) (device : M) :
    Invariant cfg (Runner.init cfg false device : Runner ReqId M) [] :=
  ⟨rfl,by simp [Runner.init,PPHandler.init],by simp,by simp,by simp,by simp,by simp⟩

theorem Invariant.queued (valid : Invariant cfg r history) :
    ∃ front rest, r.ppHandler.queue = front :: rest := by
  have length : r.ppHandler.queue.length = cfg.worldSize := by rw [valid.queue,DelayLine.line_length]
  have positive := cfg.world_pos
  cases queue : r.ppHandler.queue with
  | nil => rw [queue,List.length_nil] at length; omega
  | cons front rest => exact ⟨front,rest,rfl⟩

theorem Invariant.front (valid : Invariant cfg r history) (facts : StepFacts cfg r next delivered record) :
    record.consumed = if history.length < cfg.worldSize then none
      else (history[history.length - cfg.worldSize]?).bind StepRecord.reserved := by
  rw [facts.consumed,valid.queue,DelayLine.line_head,List.length_map]
  split
  · rfl
  · rw [List.getElem?_map]
    cases history[history.length - cfg.worldSize]? <;> rfl

theorem result_row_snoc (result : resultRow history t row = some entry) :
    resultRow (history ++ [record]) t row = some entry := by
  unfold resultRow at result ⊢
  cases found : history[t]? with
  | none => rw [found] at result; cases result
  | some source =>
      rw [List.getElem?_append_left (List.getElem?_eq_some_iff.mp found).1,found]
      rw [found] at result
      exact result

theorem snoc_get {history : List (StepRecord ReqId)} (found : (history ++ [record])[t]? = some other) :
    (t < history.length ∧ history[t]? = some other) ∨ (t = history.length ∧ other = record) := by
  by_cases old : t < history.length
  · rw [List.getElem?_append_left old] at found
    exact Or.inl ⟨old,found⟩
  · have bound := (List.getElem?_eq_some_iff.mp found).1
    rw [List.length_append,List.length_singleton] at bound
    have last : t = history.length := by omega
    subst last
    exact Or.inr ⟨rfl,by simpa [eq_comm] using found⟩

-- Row `row` of the step `worldSize` steps ago, whose entry is `entry`, needed
-- its sample, and its slot was not freed in the steps since the receive.
structure Due (cfg : Config) (history : List (StepRecord ReqId)) (slot row : Nat) (entry : BatchRow ReqId) :
    Prop where
  old : cfg.worldSize ≤ history.length
  slot_exact : entry.idxMapping = slot
  needed : ∃ source batch mask, history[history.length - cfg.worldSize]? = some source ∧
    source.batch = some batch ∧ batch[row]? = some entry ∧ computeNeedSampledMask batch = some mask ∧
    mask[row]? = some true
  kept : ∀ u later, history.length - cfg.worldSize < u → history[u]? = some later → slot ∉ later.freed

theorem Due.result (due : Due cfg history slot row entry) :
    resultRow history (history.length - cfg.worldSize) row = some entry := by
  obtain ⟨source,batch,_,found,ran,at_row,_⟩ := due.needed
  simp [resultRow,found,ran,at_row]

-- Which results a run applied, as (step,request): step `t` applies the results
-- of step `t - worldSize`.
def applications (cfg : Config) (history : List (StepRecord ReqId)) : List (Nat × Option ReqId) :=
  history.zipIdx.flatMap fun entry => (appliedRows entry.1.outputs).map fun target =>
    (entry.2 - cfg.worldSize,(resultRow history (entry.2 - cfg.worldSize) target.2).map BatchRow.reqId)

theorem result_row_unique (valid : Invariant cfg r history) (one : resultRow history t a = some entry)
    (two : resultRow history t b = some other) (same : entry.reqId = other.reqId) : a = b := by
  simp only [resultRow,Option.bind_eq_bind,Option.bind_eq_some_iff] at one two
  obtain ⟨source,found,batch,ran,at_a⟩ := one
  obtain ⟨source',found',batch',ran',at_b⟩ := two
  rw [found] at found'; cases found'
  rw [ran] at ran'; cases ran'
  have distinct := valid.distinct source (List.mem_of_getElem? found) batch ran
  have bound := (List.getElem?_eq_some_iff.mp at_a).1
  refine (List.getElem?_inj (by simpa using bound) distinct).mp ?_
  rw [List.getElem?_map,List.getElem?_map,at_a,at_b]
  simp [same]

theorem applications_nodup (valid : Invariant cfg r history) : (applications cfg history).Nodup := by
  unfold applications
  rw [List.nodup_flatMap]
  constructor
  · intro entry listed
    have found := List.mem_zipIdx_iff_getElem?.mp listed
    have rows : ((appliedRows entry.1.outputs).map Prod.snd).Nodup := by
      cases entry.1.outputs with
      | none => simp [appliedRows]
      | some out => exact valid_rows_nodup out.idxMapping
    refine List.pairwise_map.mpr ((List.pairwise_map.mp rows).imp_of_mem ?_)
    intro a b at_a at_b different same
    obtain ⟨_,one,result⟩ := valid.sourced _ _ found a.1 a.2 at_a
    obtain ⟨_,two,result'⟩ := valid.sourced _ _ found b.1 b.2 at_b
    rw [result,result'] at same
    exact different (result_row_unique valid result result' (by simpa using same))
  · have steps : (history.zipIdx.map Prod.snd).Nodup := by
      rw [List.zipIdx_map_snd]; exact List.nodup_range'
    refine (List.pairwise_map.mp steps).imp_of_mem ?_
    intro a b at_a at_b different result in_a in_b
    obtain ⟨target,applied,rfl⟩ := List.mem_map.mp in_a
    obtain ⟨other,applied',same⟩ := List.mem_map.mp in_b
    have old_a := (valid.sourced _ _ (List.mem_zipIdx_iff_getElem?.mp at_a) _ _ applied).1
    have old_b := (valid.sourced _ _ (List.mem_zipIdx_iff_getElem?.mp at_b) _ _ applied').1
    have equal := congrArg Prod.fst same
    dsimp only at equal
    omega

theorem since_kept (valid : Invariant cfg r history) (old : cfg.worldSize ≤ history.length)
    (since : Since r history (history.length - cfg.worldSize) gen row) :
    gen row.idxMapping = r.ppHandler.reqIdxGen row.idxMapping ↔
      freedSince history (history.length - cfg.worldSize) row.idxMapping = 0 := by
  have drift := freed_since_bound history valid.short (history.length - cfg.worldSize) row.idxMapping
  have world := cfg.world_lt
  have short : freedSince history (history.length - cfg.worldSize) row.idxMapping < 2 ^ 32 := by omega
  rw [since.1,eq_comm]
  exact EventCounter.bumped_same _ _ short

theorem source_step (valid : Invariant cfg r history) (facts : StepFacts cfg r next delivered record)
    (old : cfg.worldSize ≤ history.length) :
    ∃ source, history[history.length - cfg.worldSize]? = some source ∧
      record.outputs = source.reserved.bind (filterExcluded r.ppHandler) := by
  have positive := cfg.world_pos
  have bound : history.length - cfg.worldSize < history.length := by omega
  refine ⟨history[history.length - cfg.worldSize],List.getElem?_eq_getElem bound,?_⟩
  rw [facts.outputs,valid.front facts,if_neg (Nat.not_lt.mpr old),List.getElem?_eq_getElem bound]
  rfl

theorem applied_due (valid : Invariant cfg r history) (facts : StepFacts cfg r next delivered record) (slot row : Nat) :
    (slot,row) ∈ appliedRows record.outputs ↔ ∃ entry, Due cfg history slot row entry := by
  by_cases old : cfg.worldSize ≤ history.length
  · obtain ⟨source,found,outputs⟩ := source_step valid facts old
    rw [outputs]
    cases reserved : source.reserved with
    | none =>
        constructor
        · intro applied
          cases applied
        · intro ⟨entry,due⟩
          obtain ⟨other,batch,mask,at_source,ran,_,masked,_⟩ := due.needed
          rw [found] at at_source
          cases at_source
          have idle := valid.idle source (List.mem_of_getElem? found) reserved batch ran
          rw [idle] at masked
          cases masked
    | some pending =>
        obtain ⟨_,gen,batch,mask,facts,since⟩ := valid.since _ source pending found reserved
        rw [Option.bind_some,filter_row r.ppHandler pending (by simp [facts.rows,facts.snapshot])
          (by simp [facts.rows,facts.needed,mask_length facts.masked]),facts.rows,facts.needed,facts.snapshot,
          List.getElem?_map,List.getElem?_map]
        constructor
        · intro ⟨at_slot,needed,snapshot⟩
          cases at_row : batch[row]? with
          | none => rw [at_row] at at_slot; cases at_slot
          | some entry =>
              rw [at_row] at at_slot snapshot
              cases at_slot
              have same : gen entry.idxMapping = r.ppHandler.reqIdxGen entry.idxMapping := by
                simpa using snapshot
              have kept := (since_kept valid old (since entry (List.mem_of_getElem? at_row))).mp same
              exact ⟨entry,old,rfl,⟨source,batch,mask,found,facts.ran,at_row,facts.masked,needed⟩,
                (freed_since_zero _ _ _).mp kept⟩
        · intro ⟨entry,due⟩
          obtain ⟨other,batch',mask',at_source,ran,at_row,masked,needed⟩ := due.needed
          rw [found] at at_source
          cases at_source
          rw [facts.ran] at ran
          cases ran
          rw [facts.masked] at masked
          cases masked
          have kept := (freed_since_zero _ _ _).mpr due.kept
          rw [← due.slot_exact] at kept ⊢
          have same := (since_kept valid old (since entry (List.mem_of_getElem? at_row))).mpr kept
          rw [at_row]
          exact ⟨rfl,needed,by simp [same]⟩
  · have young : record.outputs = none := by
      rw [facts.outputs,valid.front facts,if_pos (Nat.lt_of_not_le old)]
      rfl
    rw [young]
    constructor
    · intro applied
      cases applied
    · intro ⟨entry,due⟩
      exact absurd due.old old

theorem due_owned (valid : Invariant cfg r history) (facts : StepFacts cfg r next delivered record)
    (due : Due cfg history slot row entry) : (entry.reqId,slot) ∈ record.owners := by
  obtain ⟨source,batch,mask,found,ran,at_row,masked,needed⟩ := due.needed
  have kept := (freed_since_zero _ _ _).mpr due.kept
  cases reserved : source.reserved with
  | none =>
      have idle := valid.idle source (List.mem_of_getElem? found) reserved batch ran
      rw [idle] at masked
      cases masked
  | some pending =>
      obtain ⟨_,gen,batch',mask',reserves,since⟩ := valid.since _ source pending found reserved
      rw [reserves.ran] at ran
      cases ran
      rw [facts.owners,← due.slot_exact]
      rw [← due.slot_exact] at kept
      exact (since entry (List.mem_of_getElem? at_row)).2 kept

section Run
variable [DecidableEq ReqId]

theorem step_preserves (r next : Runner ReqId M) (history : List (StepRecord ReqId))
    (valid : Invariant cfg r history) (stepped : step cfg dev r input = some (next,record)) :
    Invariant cfg next (history ++ [record]) := by
  obtain ⟨front,rest,queued⟩ := valid.queued
  have facts := step_facts r valid.rank queued stepped
  refine ⟨facts.rank,?_,?_,?_,?_,?_,?_⟩
  · rw [facts.queue,valid.queue,DelayLine.line_turn cfg.world_pos,List.map_append]
    rfl
  · intro other member
    rcases List.mem_append.mp member with old | new
    · exact valid.distinct other old
    · rw [List.mem_singleton.mp new]; exact facts.distinct
  · intro t other found slot row applied
    rcases snoc_get found with ⟨_,found⟩ | ⟨rfl,rfl⟩
    · obtain ⟨old,entry,result⟩ := valid.sourced t other found slot row applied
      exact ⟨old,entry,result_row_snoc result⟩
    · obtain ⟨entry,due⟩ := (applied_due valid facts slot row).mp applied
      exact ⟨due.old,entry,result_row_snoc due.result⟩
  · intro other member
    rcases List.mem_append.mp member with old | new
    · exact valid.short other old
    · rw [List.mem_singleton.mp new]; exact facts.short
  · intro other member
    rcases List.mem_append.mp member with old | new
    · exact valid.idle other old
    · rw [List.mem_singleton.mp new]; exact facts.idle
  · intro t other pending found reserved
    rcases snoc_get found with ⟨old,found⟩ | ⟨rfl,rfl⟩
    · obtain ⟨delivered,gen,batch,mask,source,since⟩ := valid.since t other pending found reserved
      refine ⟨delivered,gen,batch,mask,source,?_⟩
      intro row member
      obtain ⟨counter,owned⟩ := since row member
      unfold Since
      rw [freed_since_snoc history record old]
      refine ⟨?_,?_⟩
      · rw [facts.counter,counter,BitVec.ofNat_add,BitVec.add_assoc]
      · intro zero
        exact facts.keeps _ _ (owned (by omega)) (List.count_eq_zero.mp (by omega))
    · obtain ⟨batch,mask,source⟩ := facts.reserves pending reserved
      refine ⟨_,_,batch,mask,source,?_⟩
      intro row member
      unfold Since
      rw [freed_since_last]
      exact ⟨by simp,fun _ => facts.owned batch source.ran row member⟩

theorem reached_invariant (cfg : Config) (dev : Device ReqId M) (device : M)
    (run : Runs cfg dev (Runner.init cfg false device) inputs r history) : Invariant cfg r history := by
  induction run with
  | nil => exact init_invariant cfg device
  | snoc _ stepped ih => exact step_preserves _ _ _ ih stepped

end Run

def idleDevice : Device Nat Unit :=
  ⟨fun _ _ _ => (),fun _ _ _ => (),fun _ _ => (),fun _ _ => (),fun _ _ => (),fun _ _ _ _ _ _ => (),
    fun _ _ _ => (),fun _ _ => ()⟩

def oneRank : Config := ⟨1,0,false,by decide,by decide⟩

def promptStep : StepInput Nat where
  out := ⟨[],[],[⟨7,0,2,10,[]⟩],[],[(7,2)],fun _ => 0,by decide,by decide⟩
  slots := [4]
  relay := ⟨⟨1,1,fun _ _ => 42⟩,fun _ => 1,fun _ => 0,⟨1,0,fun _ _ => 0⟩⟩

def idleStep : StepInput Nat := { promptStep with out := ⟨[],[],[],[],[],fun _ => 0,by decide,by decide⟩ }

end Glm5Next.DeferredResults
