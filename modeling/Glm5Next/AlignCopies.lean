import Glm5Next.AlignSampling

namespace Glm5Next.AlignCopies
open PpUtils WorkerLoop SlotOwners AppliedRows DeferredResults StepPhases AlignKernels AlignColumns AlignSeats
open AlignFlight AlignSampling
variable {ReqId T V : Type} {ac : AlignConfig} {up : Upstream T} {cfg : Config}

-- The results a receive will deliver, against the batch they belong to.
def Relayed (ac : AlignConfig) (history : List (StepRecord ReqId)) : Prop :=
  ∀ (t row : Nat) source pending batch entry, history[t]? = some source → source.reserved = some pending →
    source.batch = some batch → batch[row]? = some entry →
    RowResult ac (pending.numSampled row) (pending.numRejected row) entry.numScheduledTokens

structure Serving (ac : AlignConfig) (up : Upstream T) (cfg : Config) (r : Runner ReqId (AlignDevice T V))
    (history : List (StepRecord ReqId)) : Prop where
  valid : DeferredResults.Invariant cfg r history
  relayed : Relayed ac history
  seats : Seats ac up r (inFlight cfg.worldSize history.reverse)

section Deferred
variable {forward : (Nat → Nat → Nat → V) → InputBatch ReqId → Nat → Nat → Nat → V}

theorem due_result (serving : Serving ac up cfg r history) (facts : StepFacts cfg r next delivered record)
    (outputs : record.outputs = some out) (due : Due cfg history slot row entry) (world : cfg.worldSize = steps + 1) :
    slot ∈ r.reqStates.slots ∧ ∃ queryLen, RowResult ac (out.numSampled row) (out.numRejected row) queryLen ∧
      inFlight steps history.reverse slot + queryLen ≤ inFlight cfg.worldSize history.reverse slot := by
  have owner := due_owned serving.valid facts due
  rw [facts.owners] at owner
  obtain ⟨source,batch,mask,found,ran,at_row,_⟩ := due.needed
  obtain ⟨other,at_source,filtered⟩ := source_step serving.valid facts due.old
  rw [found] at at_source
  cases at_source
  rw [outputs] at filtered
  obtain ⟨pending,reserved,kept⟩ := Option.bind_eq_some_iff.mp filtered.symm
  obtain ⟨_,sampled,rejected,_⟩ := filter_tensors kept
  refine ⟨List.mem_map.mpr ⟨_,owner,rfl⟩,entry.numScheduledTokens,?_,due_in_flight due world found ran at_row⟩
  rw [sampled,rejected]
  exact serving.relayed _ row source pending batch entry found reserved ran at_row

theorem due_rows_distinct (serving : Serving ac up cfg r history) (facts : StepFacts cfg r next delivered record)
    (applied : ∀ slot row : Nat, (slot,row) ∈ validRows idxMapping ↔ ∃ entry, Due cfg history slot row entry) :
    ((validRows idxMapping).map Prod.fst).Nodup := by
  apply valid_slots_nodup
  intro slot a b one two
  obtain ⟨entry,due⟩ := (applied slot a).mp one
  obtain ⟨other,due'⟩ := (applied slot b).mp two
  have owner := due_owned serving.valid facts due
  have owner' := due_owned serving.valid facts due'
  rw [facts.owners] at owner owner'
  exact result_row_unique serving.valid due.result due'.result (owner_unique r.reqStates owner owner')

theorem deferred_phase (documented : up.Documented) (r : Runner ReqId (AlignDevice T V))
    (serving : Serving ac up cfg r history) (facts : StepFacts cfg r next delivered record)
    (same : record.outputs = (updatePpDecodeRequests (alignDevice ac up forward) r).2.2)
    (world : cfg.worldSize = steps + 1) :
    Seats ac up (updatePpDecodeRequests (alignDevice ac up forward) r).1 (inFlight steps history.reverse) ∧
    ∃ launches, (updatePpDecodeRequests (alignDevice ac up forward) r).1.device.launches =
        r.device.launches ++ launches ∧
      ∀ launch ∈ launches, OwnLaunch ac up launch ∧ ∀ row slot : Nat, launch.idxMapping[row]? = some (slot : Int) →
        ∃ entry, Due cfg history slot row entry ∧ (entry.reqId,slot) ∈ record.owners := by
  obtain ⟨front,rest,queued⟩ := serving.valid.queued
  have states := (deferred_parts (alignDevice ac up forward) r queued).2.2.1
  have device := (deferred_phase_exact (alignDevice ac up forward) r).1
  rw [← same] at device
  have less (slot : Nat) : inFlight steps history.reverse slot ≤ inFlight cfg.worldSize history.reverse slot := by
    rw [world]
    exact in_flight_grows steps _ slot
  have left := serving.seats.fewer less
  cases outputs : record.outputs with
  | none =>
      rw [outputs] at device
      refine ⟨⟨?_,?_⟩,[],?_,by simp⟩
      · rw [states,device]
        exact left.seated
      · rw [states]
        exact left.empty
      · rw [device,List.append_nil]
        rfl
  | some out =>
      have applied (slot row : Nat) : (slot,row) ∈ validRows out.idxMapping ↔ ∃ entry, Due cfg history slot row entry := by
        rw [← applied_due serving.valid facts slot row,outputs]
        rfl
      have distinct := due_rows_distinct serving facts applied
      rw [outputs] at device
      have settles : (updatePpDecodeRequests (alignDevice ac up forward) r).1.device = postprocessState ac up
          (settleRows up r.device (validRows out.idxMapping) out.numRejected fun _ => none) out.idxMapping
          out.numSampled := by
        rw [device,← post_update_rows r.device (validRows out.idxMapping) out.sampledTokens.entry out.numSampled]
        rfl
      obtain ⟨⟨launches,launched,own⟩,seated⟩ := deferred_seats documented r.device out distinct r.reqStates.slots
        (inFlight cfg.worldSize history.reverse) (inFlight steps history.reverse) serving.seats.seated less (by
          intro slot row valid
          obtain ⟨entry,due⟩ := (applied slot row).mp valid
          exact due_result serving facts outputs due world)
      refine ⟨⟨?_,?_⟩,launches,?_,?_⟩
      · rw [states,settles]
        exact seated
      · rw [states]
        exact left.empty
      · rw [settles]
        exact launched
      · intro launch member
        obtain ⟨mapping,owned⟩ := own launch member
        refine ⟨owned,fun row slot at_row => ?_⟩
        rw [mapping,← valid_row] at at_row
        obtain ⟨entry,due⟩ := (applied slot row).mp at_row
        exact ⟨entry,due,due_owned serving.valid facts due⟩

end Deferred

-- What the copies of one step touched: the results of an earlier step go to
-- slots that still belong to the requests of its rows, the others to the slots
-- of the step's own batch.
def StepCopies (ac : AlignConfig) (up : Upstream T) (cfg : Config) (r next : Runner ReqId (AlignDevice T V))
    (history : List (StepRecord ReqId)) (record : StepRecord ReqId) : Prop :=
  ∃ deferred ran, next.device.launches = r.device.launches ++ deferred ++ ran ∧
    (∀ launch ∈ deferred, OwnLaunch ac up launch ∧ ∀ row slot : Nat, launch.idxMapping[row]? = some (slot : Int) →
      ∃ entry, Due cfg history slot row entry ∧ (entry.reqId,slot) ∈ record.owners) ∧
    ∀ launch ∈ ran, OwnLaunch ac up launch ∧ ∀ row slot : Nat, launch.idxMapping[row]? = some (slot : Int) →
      ∃ batch entry, record.batch = some batch ∧ batch[row]? = some entry ∧ entry.idxMapping = slot ∧
        (entry.reqId,slot) ∈ next.reqStates.reqIdToIndex

theorem batch_launched {record : StepRecord ReqId} {ready next : Runner ReqId (AlignDevice T V)} {before after : AlignDevice T V}
    (launched : Launched ac up before after (batchMapping batch)) (ran : record.batch = some batch)
    (owned : ∀ entry ∈ batch, (entry.reqId,entry.idxMapping) ∈ ready.reqStates.reqIdToIndex)
    (states : next.reqStates = ready.reqStates) :
    ∃ launches, after.launches = before.launches ++ launches ∧
      ∀ launch ∈ launches, OwnLaunch ac up launch ∧ ∀ row slot : Nat, launch.idxMapping[row]? = some (slot : Int) →
        ∃ batch entry, record.batch = some batch ∧ batch[row]? = some entry ∧ entry.idxMapping = slot ∧
          (entry.reqId,slot) ∈ next.reqStates.reqIdToIndex := by
  obtain ⟨launches,appended,own⟩ := launched
  refine ⟨launches,appended,fun launch member => ?_⟩
  obtain ⟨mapping,columns⟩ := own launch member
  refine ⟨columns,fun row slot at_row => ?_⟩
  rw [mapping,← valid_row] at at_row
  obtain ⟨entry,found,rfl⟩ := batch_valid at_row
  refine ⟨batch,entry,ran,found,rfl,?_⟩
  rw [states]
  exact owned entry (List.mem_of_getElem? found)

theorem init_seats (isLastRank : Bool) (device : AlignDevice T V) (count : Nat → Nat) (none : ∀ slot, count slot = 0) :
    Seats ac up (Runner.init cfg isLastRank device : Runner ReqId (AlignDevice T V)) count :=
  ⟨fun _ used => absurd used List.not_mem_nil,fun slot _ => none slot⟩

section Serve
variable [DecidableEq ReqId] {forward : (Nat → Nat → Nat → V) → InputBatch ReqId → Nat → Nat → Nat → V}

theorem deferred_step (documented : up.Documented) (r next : Runner ReqId (AlignDevice T V))
    (serving : Serving ac up cfg r history) (stepped : step cfg (alignDevice ac up forward) r input = some (next,record))
    (promised : Promised ac up cfg (alignDevice ac up forward) r input record) :
    Serving ac up cfg next (history ++ [record]) ∧ StepCopies ac up cfg r next history record := by
  obtain ⟨front,rest,queued⟩ := serving.valid.queued
  have facts := step_facts r serving.valid.rank queued stepped
  have valid := step_preserves r next history serving.valid stepped
  obtain ⟨ready,prepares,_,same,ran⟩ := step_phases stepped
  obtain ⟨steps,world⟩ := Nat.exists_eq_succ_of_ne_zero (Nat.ne_of_gt cfg.world_pos)
  obtain ⟨seats,deferred,launched,due⟩ := deferred_phase documented r serving facts same world
  have middle := middle_seats documented r input prepares seats
  have quiet := prepared_keeps AlignDevice.launches (fun _ _ _ => rfl) (fun _ _ _ => rfl) r input prepares
  rw [launched] at quiet
  have relayed : Relayed ac (history ++ [record]) := by
    intro t row source pending batch entry found reserved batched at_row
    rcases snoc_get found with ⟨_,found⟩ | ⟨rfl,rfl⟩
    · exact serving.relayed t row source pending batch entry found reserved batched at_row
    · obtain ⟨other,mask,source⟩ := facts.reserves pending reserved
      rw [source.counts.1,source.counts.2]
      exact promised.results batch row entry batched at_row
  have flight (slot : Nat) : inFlight cfg.worldSize (history ++ [record]).reverse slot =
      record.batch.elim 0 (fun batch => batchTokens batch slot) +
        keepUnless record.freed (inFlight steps history.reverse) slot := by
    rw [world,List.reverse_append]
    rfl
  rcases ran with ⟨idle,rfl⟩ | ⟨batch,sent,posted,batched,prepared,samples⟩
  · refine ⟨⟨valid,relayed,middle.fewer fun slot => ?_⟩,deferred,[],?_,due,by simp⟩
    · rw [flight,idle]
      exact Nat.le_of_eq (Nat.zero_add _)
    · rw [quiet,List.append_nil]
  · have owned := batch_owned prepared
    have rank : ready.ppHandler.isLastRank = false := by
      rw [(prepared_handler r input prepares).1,(deferred_parts (alignDevice ac up forward) r queued).2.2.2]
      exact serving.valid.rank
    obtain ⟨copies,advanced⟩ := ready_advanced ready input.out middle prepared
      (promised.blocks ready record.freed batch prepares prepared)
    obtain ⟨received,same_launches,states⟩ := received_seats documented ready next batch
      (batch_slots_distinct prepared) (fun entry member => List.mem_map.mpr ⟨_,owned entry member,rfl⟩) middle advanced
      rank samples
    obtain ⟨launches,appended,own⟩ := batch_launched copies batched owned states
    refine ⟨⟨valid,relayed,received.fewer fun slot => ?_⟩,deferred,launches,?_,due,own⟩
    · rw [flight,batched]
      exact Nat.le_refl _
    · rw [same_launches,appended,quiet]

-- The last rank: no results come in later, and none are in flight.
structure Alone (ac : AlignConfig) (up : Upstream T) (r : Runner ReqId (AlignDevice T V)) : Prop where
  rank : r.ppHandler.isLastRank = true
  queue : r.ppHandler.queue = []
  seats : Seats ac up r fun _ => 0

theorem last_step (documented : up.Documented) (r next : Runner ReqId (AlignDevice T V)) (alone : Alone ac up r)
    (history : List (StepRecord ReqId))
    (stepped : step cfg (alignDevice ac up forward) r input = some (next,record))
    (promised : Promised ac up cfg (alignDevice ac up forward) r input record) :
    Alone ac up next ∧ StepCopies ac up cfg r next history record := by
  obtain ⟨ready,prepares,_,_,ran⟩ := step_phases stepped
  have unchanged : (updatePpDecodeRequests (alignDevice ac up forward) r).1 = r := by
    unfold updatePpDecodeRequests getPrevSampledOutputs
    rw [alone.queue]
  have middle : Seats ac up ready fun _ => 0 :=
    (middle_seats documented r input prepares (unchanged.symm ▸ alone.seats)).fewer fun _ => Nat.zero_le _
  have quiet := prepared_keeps AlignDevice.launches (fun _ _ _ => rfl) (fun _ _ _ => rfl) r input prepares
  obtain ⟨rank,queue⟩ := prepared_handler r input prepares
  rw [unchanged] at quiet rank queue
  rcases ran with ⟨idle,rfl⟩ | ⟨batch,sent,posted,batched,prepared,samples⟩
  · refine ⟨⟨rank.trans alone.rank,queue.trans alone.queue,middle⟩,[],[],?_,by simp,by simp⟩
    rw [quiet,List.append_nil,List.append_nil]
  · have owned := batch_owned prepared
    obtain ⟨copies,advanced⟩ := ready_advanced ready input.out middle prepared
      (promised.blocks ready record.freed batch prepares prepared)
    obtain ⟨seats,settles,states,handler⟩ := settled_seats documented ready next batch (batch_slots_distinct prepared)
      middle advanced (fun row entry found => promised.results batch row entry batched found) (rank.trans alone.rank)
      samples
    obtain ⟨before,copied,own⟩ := batch_launched copies batched owned states
    obtain ⟨after,settled,own'⟩ := batch_launched settles batched owned states
    refine ⟨⟨?_,?_,seats⟩,[],before ++ after,?_,by simp,?_⟩
    · rw [handler]
      exact rank.trans alone.rank
    · rw [handler]
      exact queue.trans alone.queue
    · rw [settled,copied,quiet,List.append_nil,List.append_assoc]
    · intro launch member
      rcases List.mem_append.mp member with early | late
      · exact own launch early
      · exact own' launch late

-- Runs whose callers keep their promises, with the records of their steps.
inductive ServedRuns (ac : AlignConfig) (up : Upstream T) (cfg : Config)
    (forward : (Nat → Nat → Nat → V) → InputBatch ReqId → Nat → Nat → Nat → V)
    (start : Runner ReqId (AlignDevice T V)) : Runner ReqId (AlignDevice T V) → List (StepRecord ReqId) → Prop where
  | start : ServedRuns ac up cfg forward start start []
  | step (run : ServedRuns ac up cfg forward start r history)
      (stepped : step cfg (alignDevice ac up forward) r input = some (next,record))
      (promised : Promised ac up cfg (alignDevice ac up forward) r input record) :
      ServedRuns ac up cfg forward start next (history ++ [record])

theorem reached_serving (documented : up.Documented) (device : AlignDevice T V)
    (run : ServedRuns ac up cfg forward (Runner.init cfg false device) r history) : Serving ac up cfg r history := by
  induction run with
  | start =>
      refine ⟨init_invariant cfg device,fun t _ _ _ _ _ found => ?_,init_seats false device _ fun slot => ?_⟩
      · rw [List.getElem?_nil] at found
        cases found
      · obtain ⟨steps,world⟩ := Nat.exists_eq_succ_of_ne_zero (Nat.ne_of_gt cfg.world_pos)
        rw [world]
        rfl
  | step run stepped promised ih => exact (deferred_step documented _ _ ih stepped promised).1

theorem reached_alone (documented : up.Documented) (device : AlignDevice T V)
    (run : ServedRuns ac up cfg forward (Runner.init cfg true device) r history) : Alone ac up r := by
  induction run with
  | start => exact ⟨rfl,rfl,init_seats true device _ fun _ => rfl⟩
  | step run stepped promised ih => exact (last_step documented _ _ ih [] stepped promised).1

end Serve

section Resumed

-- One temporal state, rows of four blocks with two speculative blocks, and
-- tables that list the blocks of a slot.
def rowConfig : AlignConfig := ⟨3,3,4,2,[⟨0,0⟩],by decide,rfl⟩

def rowTables : Upstream (Nat → List Nat) where
  entry tables _ address := (tables (address / 4).toNat)[(address % 4).toNat]?.getD 0
  numBlocks tables _ slot := (tables slot).length
  appendBlockIds tables slot blockIds overwrite :=
    fun s => if s = slot then (if overwrite then [] else tables s) ++ blockIds.headD [] else tables s
  postUpdate count rejected query := count + query.getD 0 - rejected.toNat
  postUpdateNumComputedTokens count query := count + query

theorem row_tables_documented : rowTables.Documented where
  append_other _ _ _ _ _ _ different := congrArg List.length (if_neg (Ne.symm different))
  append_grows tables slot blockIds _ := by
    show (tables slot).length ≤ (if slot = slot then tables slot ++ blockIds.headD [] else tables slot).length
    rw [if_pos rfl,List.length_append]
    exact Nat.le_add_right _ _
  post_update _ _ _ := rfl
  post_num_computed _ _ := rfl

def rowDevice : Device Nat (AlignDevice (Nat → List Nat) Nat) := alignDevice rowConfig rowTables fun blocks _ => blocks

def emptyDevice : AlignDevice (Nat → List Nat) Nat := ⟨⟨fun _ => ⟨0,1,-1,0⟩,fun _ => 0,fun _ => [],fun _ id _ => id,false⟩,[]⟩

def threeTokens : Config := { oneRank with numSpeculativeSteps := 2 }

-- A request resumed at the end of a block verifies two draft tokens, which are
-- accepted; the next step only brings in the result.
def resumeStep : StepInput Nat where
  out := ⟨[],[],[⟨5,3,3,10,[[5,6,8,9]]⟩],[],[(5,3)],fun _ => 2,by decide,by decide⟩
  slots := [1]
  relay := ⟨⟨1,3,fun _ _ => 42⟩,fun _ => 3,fun _ => 0,⟨1,2,fun _ _ => 0⟩⟩

def resultStep : StepInput Nat := { resumeStep with out := idleStep.out }

end Resumed

end Glm5Next.AlignCopies
