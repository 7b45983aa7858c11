import Glm5Next.StepPhases
import Glm5Next.AlignFlight

-- The part of a rank's state that the sampled tokens change, slot by slot, and
-- what each phase of a step does to it.
namespace Glm5Next.RankStates
open PpUtils WorkerLoop SlotOwners AppliedRows DeferredResults StepPhases PointUpdates AlignKernels AlignColumns AlignFlight
variable {ReqId S : Type}

-- post_update and post_update_num_computed_tokens on the entries of one slot:
-- num_computed_tokens, last_sampled_tokens, all_token_ids, total_len. The
-- kernels are not in the repository.
structure SlotKernels (ReqId S : Type) where
  addRequest : NewRequestData ReqId → S
  postUpdate : S → (Nat → Int) → Int → Int → Option Nat → S
  postUpdateNumComputed : S → Nat → S

-- post_update reads num_sampled of the tokens; without a query length it leaves
-- out just the advance that post_update_num_computed_tokens makes.
structure SlotKernels.Documented (k : SlotKernels ReqId S) : Prop where
  split : ∀ s tokens sampled rejected queryLen,
    k.postUpdate (k.postUpdateNumComputed s queryLen) tokens sampled rejected none =
      k.postUpdate s tokens sampled rejected (some queryLen)
  apart : ∀ s tokens sampled rejected queryLen,
    k.postUpdate (k.postUpdateNumComputed s queryLen) tokens sampled rejected none =
      k.postUpdateNumComputed (k.postUpdate s tokens sampled rejected none) queryLen
  unsampled : ∀ s tokens queryLen, k.postUpdate s tokens 0 0 (some queryLen) = k.postUpdateNumComputed s queryLen
  reads : ∀ s tokens tokens' sampled rejected queryLen, (∀ j : Nat, (j : Int) < sampled → tokens j = tokens' j) →
    k.postUpdate s tokens sampled rejected queryLen = k.postUpdate s tokens' sampled rejected queryLen

def rankDevice (k : SlotKernels ReqId S) : Device ReqId (Nat → S) where
  addRequest m slot new := modify m slot fun _ => k.addRequest new
  appendBlockIds m _ _ := m
  preprocessState m _ := m
  forward m _ := m
  postprocessNumComputedTokens m batch :=
    modifies (fun _ queryLen s => k.postUpdateNumComputed s queryLen) m
      (batch.map fun row => (row.idxMapping,row.numScheduledTokens))
  postUpdateRow m slot tokens sampled rejected queryLen :=
    modify m slot fun s => k.postUpdate s tokens sampled rejected queryLen
  postprocessState m _ _ := m
  resetAccepted m _ := m

variable {k : SlotKernels ReqId S}

-- The launches of post_update and the draft scatter over a list of rows.
section Rows
variable {idxMapping : List Int} {tokens : Tensor2} {numSampled numRejected : Nat → Int}
  {batch : Option (InputBatch ReqId)} {drafts : Nat → Nat → Int} {relayed : Tensor2}

theorem post_update_modifies (m : Nat → S) :
    postprocessSampled (rankDevice k) m idxMapping tokens numSampled numRejected batch =
      modifies (fun _ row s => k.postUpdate s (tokens.entry row) (numSampled row) (numRejected row)
        (batch.bind fun rows => rows[row]?.map BatchRow.numScheduledTokens)) m (validRows idxMapping) :=
  post_update_exact (rankDevice k) m idxMapping tokens numSampled numRejected batch

theorem scatter_modifies : scatterDraftTokens drafts idxMapping relayed =
    modifies (fun _ row _ => relayed.entry row) drafts (validRows idxMapping) :=
  scatter_exact drafts idxMapping relayed

variable (distinct : ((validRows idxMapping).map Prod.fst).Nodup)
include distinct

theorem post_update_row (m : Nat → S) (valid : (slot,row) ∈ validRows idxMapping) :
    postprocessSampled (rankDevice k) m idxMapping tokens numSampled numRejected batch slot =
      k.postUpdate (m slot) (tokens.entry row) (numSampled row) (numRejected row)
        (batch.bind fun rows => rows[row]?.map BatchRow.numScheduledTokens) := by
  rw [post_update_modifies]
  exact modifies_exact _ m _ distinct valid

theorem scatter_drafts_row (valid : (slot,row) ∈ validRows idxMapping) :
    scatterDraftTokens drafts idxMapping relayed slot = relayed.entry row := by
  rw [scatter_modifies]
  exact modifies_exact _ drafts _ distinct valid

end Rows

theorem post_update_apart (m : Nat → S) (apart : slot ∉ (validRows idxMapping).map Prod.fst) :
    postprocessSampled (rankDevice k) m idxMapping tokens numSampled numRejected batch slot = m slot := by
  rw [post_update_modifies]
  exact modifies_apart _ m _ slot apart

theorem scatter_drafts_apart (apart : slot ∉ (validRows idxMapping).map Prod.fst) :
    scatterDraftTokens drafts idxMapping relayed slot = drafts slot := by
  rw [scatter_modifies]
  exact modifies_apart _ drafts _ slot apart

-- sample_tokens on the last rank and on the others.
section Sample
variable {cfg : Config} {r next : Runner ReqId (Nat → S)} {batch : InputBatch ReqId} {relay : Relay}

structure SampledLast (cfg : Config) (k : SlotKernels ReqId S) (batch : InputBatch ReqId) (relay : Relay)
    (r next : Runner ReqId (Nat → S)) : Prop where
  row : ∀ i row, batch[i]? = some row → next.device row.idxMapping =
    k.postUpdate (r.device row.idxMapping) (relay.sampledTokens.entry i) (relay.numSampled i) (relay.numRejected i)
      (some row.numScheduledTokens)
  apart : ∀ slot, slot ∉ batch.map BatchRow.idxMapping → next.device slot = r.device slot
  draft : cfg.relayDraftTokens = true → ∀ i row, batch[i]? = some row →
    next.draftTokens row.idxMapping = relay.draftTokens.entry i
  draft_apart : ∀ slot, slot ∉ batch.map BatchRow.idxMapping → next.draftTokens slot = r.draftTokens slot

structure SampledOther (k : SlotKernels ReqId S) (batch : InputBatch ReqId) (r next : Runner ReqId (Nat → S)) :
    Prop where
  row : ∀ row ∈ batch, next.device row.idxMapping =
    k.postUpdateNumComputed (r.device row.idxMapping) row.numScheduledTokens
  apart : ∀ slot, slot ∉ batch.map BatchRow.idxMapping → next.device slot = r.device slot
  draft : next.draftTokens = r.draftTokens

theorem sampled_last (rank : r.ppHandler.isLastRank = true) (distinct : (batch.map BatchRow.idxMapping).Nodup)
    (samples : sampleTokens cfg (rankDevice k) r batch relay = some (next,sent,posted)) :
    SampledLast cfg k batch relay r next := by
  have valid := batch_valid_nodup batch distinct
  have listed (i : Nat) (row : BatchRow ReqId) (found : batch[i]? = some row) :
      (row.idxMapping,i) ∈ validRows (batchMapping batch) := by
    rw [valid_row,batchMapping,List.getElem?_map,found]
    rfl
  have device (i : Nat) (row : BatchRow ReqId) (found : batch[i]? = some row) :
      postprocessSampled (rankDevice k) r.device (batchMapping batch) relay.sampledTokens relay.numSampled
        relay.numRejected (some batch) row.idxMapping = k.postUpdate (r.device row.idxMapping)
          (relay.sampledTokens.entry i) (relay.numSampled i) (relay.numRejected i) (some row.numScheduledTokens) := by
    rw [post_update_row valid r.device (listed i row found),Option.bind_some,found]
    rfl
  simp only [sampleTokens,rank,Bool.not_true,Bool.false_eq_true,if_false,Option.bind_eq_bind,
    Option.bind_eq_some_iff] at samples
  obtain ⟨first,_,samples⟩ := samples
  cases relays : cfg.relayDraftTokens with
  | false =>
      simp only [relays,Bool.false_eq_true,if_false,Option.pure_def,Option.some.injEq,Prod.mk.injEq] at samples
      obtain ⟨rfl,_,_⟩ := samples
      refine ⟨device,?_,by simp [relays],fun _ _ => rfl⟩
      intro slot apart
      exact post_update_apart r.device fun member => apart ((batch_targets batch slot).mp member)
  | true =>
      simp only [relays,if_true,Option.pure_def,Option.some.injEq,Prod.mk.injEq] at samples
      obtain ⟨rfl,_,_⟩ := samples
      refine ⟨device,?_,fun _ i row found => scatter_drafts_row valid (listed i row found),?_⟩
      · intro slot apart
        exact post_update_apart r.device fun member => apart ((batch_targets batch slot).mp member)
      · intro slot apart
        exact scatter_drafts_apart fun member => apart ((batch_targets batch slot).mp member)

theorem sampled_other (rank : r.ppHandler.isLastRank = false) (distinct : (batch.map BatchRow.idxMapping).Nodup)
    (samples : sampleTokens cfg (rankDevice k) r batch relay = some (next,sent,posted)) :
    SampledOther k batch r next := by
  simp only [sampleTokens,rank,Bool.not_false,if_true,Option.some.injEq,Prod.mk.injEq] at samples
  obtain ⟨rfl,_,_⟩ := samples
  have device : (if (!(receive cfg r.ppHandler batch relay).2.2) = true then
      (rankDevice k).resetAccepted ((rankDevice k).postprocessNumComputedTokens r.device batch)
        (batch.map fun row => (row.idxMapping : Int))
      else (rankDevice k).postprocessNumComputedTokens r.device batch) =
      (rankDevice k).postprocessNumComputedTokens r.device batch := ite_self _
  refine ⟨?_,?_,rfl⟩
  · intro row member
    refine (congrFun device row.idxMapping).trans ?_
    exact row_exact (fun _ queryLen s => k.postUpdateNumComputed s queryLen) r.device distinct member
  · intro slot apart
    refine (congrFun device slot).trans ?_
    exact row_apart (fun _ queryLen s => k.postUpdateNumComputed s queryLen) r.device apart

end Sample

theorem deferred_table {M : Type} (dev : Device ReqId M) (r : Runner ReqId M) :
    (updatePpDecodeRequests dev r).1.reqStates = r.reqStates := by
  unfold updatePpDecodeRequests
  cases popped : getPrevSampledOutputs r.ppHandler with
  | mk ppHandler rest =>
      obtain ⟨consumed,outputs⟩ := rest
      cases outputs <;> rfl

theorem deferred_launches {M : Type} (dev : Device ReqId M) (r : Runner ReqId M) :
    (updatePpDecodeRequests dev r).1.device = (updatePpDecodeRequests dev r).2.2.elim r.device (fun out =>
      postprocessSampled dev r.device out.idxMapping out.sampledTokens out.numSampled out.numRejected none) ∧
    (updatePpDecodeRequests dev r).1.draftTokens = (updatePpDecodeRequests dev r).2.2.elim r.draftTokens (fun out =>
      out.draftTokens.elim r.draftTokens (scatterDraftTokens r.draftTokens out.idxMapping)) := by
  unfold updatePpDecodeRequests
  cases popped : getPrevSampledOutputs r.ppHandler with
  | mk ppHandler rest =>
      obtain ⟨consumed,outputs⟩ := rest
      cases outputs with
      | none => exact ⟨rfl,rfl⟩
      | some out => cases relayed : out.draftTokens <;> simp [relayed]

section Slots
variable [DecidableEq ReqId]

theorem updates_table {M : Type} {dev : Device ReqId M} (reqs : List (CachedRequestData ReqId)) (r next : Runner ReqId M)
    (updated : updateRequests dev r reqs = some next) :
    next.reqStates.reqIdToIndex = r.reqStates.reqIdToIndex ∧ next.draftTokens = r.draftTokens := by
  induction reqs generalizing r with
  | nil =>
      obtain rfl : r = next := by simpa [updateRequests] using updated
      exact ⟨rfl,rfl⟩
  | cons req rest ih =>
      simp only [updateRequests,updateRequest,Option.bind_eq_bind,Option.bind_eq_some_iff,
        Option.pure_def,Option.some.injEq] at updated
      obtain ⟨middle,⟨reqIndex,_,rfl⟩,ran⟩ := updated
      obtain ⟨table,drafts⟩ := ih _ ran
      exact ⟨table,drafts⟩

theorem remove_drafts {M : Type} (r : Runner ReqId M) (reqId : ReqId) :
    (removeRequest r reqId).1.draftTokens = r.draftTokens := by
  unfold removeRequest
  cases found : r.reqStates.index reqId <;> simp [ReqStates.removeRequest,found]

theorem removes_drafts {M : Type} (r : Runner ReqId M) (ids : List ReqId) :
    (removeRequests r ids).1.draftTokens = r.draftTokens := by
  induction ids generalizing r with
  | nil => rfl
  | cons reqId rest ih => exact (ih _).trans (remove_drafts r reqId)

theorem adds_drafts {M : Type} {dev : Device ReqId M} (news : List (NewRequestData ReqId)) (slots : List Nat)
    (r next : Runner ReqId M) (added : addRequests dev r news slots = some (next,freed)) :
    next.draftTokens = r.draftTokens := by
  induction news generalizing r slots freed with
  | nil =>
      obtain ⟨rfl,rfl⟩ : r = next ∧ [] = freed := by simpa [addRequests] using added
      rfl
  | cons new rest ih =>
      cases slots with
      | nil => cases added
      | cons slot slots =>
          simp only [addRequests,Option.bind_eq_bind,Option.bind_eq_some_iff,Option.pure_def,
            Option.some.injEq,Prod.mk.injEq,Prod.exists] at added
          obtain ⟨reqStates,inserted,last,later,ran,rfl,rfl⟩ := added
          exact (ih slots _ ran).trans (remove_drafts r new.reqId)

-- A slot in use after the adds was added in them or left alone by them.
structure Added (k : SlotKernels ReqId S) (news : List (NewRequestData ReqId)) (r next : Runner ReqId (Nat → S))
    (freed : List Nat) (reqId : ReqId) (slot : Nat) : Prop where
  fresh : ∃ new ∈ news, new.reqId = reqId ∧ next.device slot = k.addRequest new
  unused : slot ∈ freed ∨ slot ∉ r.reqStates.slots

structure Kept (news : List (NewRequestData ReqId)) (r next : Runner ReqId (Nat → S)) (freed : List Nat)
    (reqId : ReqId) (slot : Nat) : Prop where
  old : reqId ∉ news.map NewRequestData.reqId
  held : (reqId,slot) ∈ r.reqStates.reqIdToIndex
  unfreed : slot ∉ freed
  same : next.device slot = r.device slot

theorem adds_hold (news : List (NewRequestData ReqId)) (slots : List Nat) (r next : Runner ReqId (Nat → S))
    (added : addRequests (rankDevice k) r news slots = some (next,freed))
    (held : (reqId,slot) ∈ next.reqStates.reqIdToIndex) :
    Added k news r next freed reqId slot ∨ Kept news r next freed reqId slot := by
  induction news generalizing r slots freed with
  | nil =>
      obtain ⟨rfl,rfl⟩ : r = next ∧ [] = freed := by simpa [addRequests] using added
      exact Or.inr ⟨by simp,held,by simp,rfl⟩
  | cons new rest ih =>
      cases slots with
      | nil => cases added
      | cons first slots =>
          simp only [addRequests,Option.bind_eq_bind,Option.bind_eq_some_iff,Option.pure_def,
            Option.some.injEq,Prod.mk.injEq,Prod.exists] at added
          obtain ⟨reqStates,inserted,last,later,ran,rfl,rfl⟩ := added
          obtain ⟨_,unused,table⟩ := add_parts inserted
          have removed : ∀ other, other ∉ (removeRequest r new.reqId).1.reqStates.slots →
              other ∈ (removeRequest r new.reqId).2.toList ∨ other ∉ r.reqStates.slots := by
            intro other gone
            by_cases owned : (new.reqId,other) ∈ r.reqStates.reqIdToIndex
            · exact Or.inl ((remove_freed r new.reqId other).mpr owned)
            · refine Or.inr fun used => gone ?_
              obtain ⟨⟨id,_⟩,member,rfl⟩ := List.mem_map.mp used
              have different : id ≠ new.reqId := fun same => owned (same ▸ member)
              refine List.mem_map.mpr ⟨_,?_,rfl⟩
              rw [remove_entries]
              exact List.mem_filter.mpr ⟨member,by simpa using different⟩
          rcases ih slots _ ran with ⟨⟨source,listed,named,state⟩,away⟩ | ⟨old,owned,unfreed,same⟩
          · refine Or.inl ⟨⟨source,List.mem_cons_of_mem _ listed,named,state⟩,?_⟩
            rcases away with freed | away
            · exact Or.inl (List.mem_append_right _ freed)
            · have away : slot ∉ reqStates.slots := away
              rw [ReqStates.slots,table,List.map_cons,List.mem_cons,not_or] at away
              rcases removed slot away.2 with freed | away
              · exact Or.inl (List.mem_append_left _ freed)
              · exact Or.inr away
          · have owned : (reqId,slot) ∈ reqStates.reqIdToIndex := owned
            rw [table] at owned
            rcases List.mem_cons.mp owned with equal | owned
            · cases equal
              refine Or.inl ⟨⟨new,by simp,rfl,same.trans (if_pos rfl)⟩,?_⟩
              rcases removed slot unused with freed | away
              · exact Or.inl (List.mem_append_left _ freed)
              · exact Or.inr away
            · have apart : slot ≠ first := fun equal => unused (equal ▸ List.mem_map.mpr ⟨_,owned,rfl⟩)
              rw [remove_entries] at owned
              obtain ⟨member,different⟩ := List.mem_filter.mp owned
              have different : reqId ≠ new.reqId := by simpa using different
              refine Or.inr ⟨?_,member,?_,?_⟩
              · rw [List.map_cons,List.mem_cons,not_or]
                exact ⟨different,old⟩
              · rw [List.mem_append,not_or]
                refine ⟨fun freed => different ?_,unfreed⟩
                exact owner_unique r.reqStates member ((remove_freed r new.reqId slot).mp freed)
              · exact same.trans ((if_neg apart).trans (congrFun (remove_device r new.reqId) slot))

theorem finish_keeps {M : Type} (r : Runner ReqId M) (out : SchedulerOutput ReqId)
    (unused : slot ∉ (finishRequests r out).1.reqStates.slots) :
    slot ∈ (finishRequests r out).2 ∨ slot ∉ r.reqStates.slots := by
  by_cases freed : slot ∈ (finishRequests r out).2
  · exact Or.inl freed
  · refine Or.inr fun used => unused ?_
    obtain ⟨⟨id,_⟩,member,rfl⟩ := List.mem_map.mp used
    have kept := (removes_free r (out.finishedReqIds ++ out.preemptedReqIds)).1.keeps id _ member freed
    exact List.mem_map.mpr ⟨_,kept,rfl⟩

theorem finish_held {M : Type} (r : Runner ReqId M) (out : SchedulerOutput ReqId)
    (held : (reqId,slot) ∈ (finishRequests r out).1.reqStates.reqIdToIndex) :
    (reqId,slot) ∈ r.reqStates.reqIdToIndex ∧ slot ∉ (finishRequests r out).2 := by
  obtain ⟨frees,table⟩ := removes_free r (out.finishedReqIds ++ out.preemptedReqIds)
  unfold finishRequests at held ⊢
  rw [table] at held
  obtain ⟨member,unlisted⟩ := List.mem_filter.mp held
  have unlisted : reqId ∉ out.finishedReqIds ++ out.preemptedReqIds := by simpa using unlisted
  refine ⟨member,fun freed => ?_⟩
  obtain ⟨id,listed,owned⟩ := frees.source slot freed
  exact unlisted (owner_unique r.reqStates member owned ▸ listed)

theorem prepared_hold (prepares : prepared (rankDevice k) r input = some (ready,freed))
    (held : (reqId,slot) ∈ ready.reqStates.reqIdToIndex) :
    Added k input.out.scheduledNewReqs (updatePpDecodeRequests (rankDevice k) r).1 ready freed reqId slot ∨
    Kept input.out.scheduledNewReqs (updatePpDecodeRequests (rankDevice k) r).1 ready freed reqId slot := by
  simp only [prepared,Option.bind_eq_bind,Option.bind_eq_some_iff,Option.pure_def,Option.some.injEq,
    Prod.mk.injEq,Prod.exists] at prepares
  obtain ⟨grown,readded,adds,last,updated,rfl,rfl⟩ := prepares
  have table := (updates_table _ grown last updated).1
  have device : last.device = grown.device := updates_keep id (fun _ _ _ => rfl) _ grown last updated
  rw [table] at held
  rcases adds_hold _ _ _ _ adds held with ⟨⟨new,listed,named,state⟩,unused⟩ | ⟨old,owned,unfreed,same⟩
  · refine Or.inl ⟨⟨new,listed,named,(congrFun device slot).trans state⟩,?_⟩
    rcases unused with freed | unused
    · exact Or.inl (List.mem_append_right _ freed)
    · rcases finish_keeps _ _ unused with freed | unused
      · exact Or.inl (List.mem_append_left _ freed)
      · exact Or.inr unused
  · obtain ⟨owned,spared⟩ := finish_held _ _ owned
    have finished : (finishRequests (updatePpDecodeRequests (rankDevice k) r).1 input.out).1.device =
        (updatePpDecodeRequests (rankDevice k) r).1.device := removes_keep _ _
    refine Or.inr ⟨old,owned,?_,?_⟩
    · rw [List.mem_append,not_or]
      exact ⟨spared,unfreed⟩
    · exact (congrFun device slot).trans (same.trans (congrFun finished slot))

theorem prepared_drafts {M : Type} {dev : Device ReqId M} {r ready : Runner ReqId M}
    (prepares : prepared dev r input = some (ready,freed)) :
    ready.draftTokens = (updatePpDecodeRequests dev r).1.draftTokens := by
  simp only [prepared,Option.bind_eq_bind,Option.bind_eq_some_iff,Option.pure_def,Option.some.injEq,
    Prod.mk.injEq,Prod.exists] at prepares
  obtain ⟨grown,readded,adds,last,updated,rfl,rfl⟩ := prepares
  rw [(updates_table _ grown last updated).2,adds_drafts _ _ _ grown adds]
  exact removes_drafts _ _

end Slots

end Glm5Next.RankStates
