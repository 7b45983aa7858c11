import Glm5Next.SchedulerMirror
import Glm5Next.DeferredResults

namespace Glm5Next.PpBroadcast
open PpUtils WorkerLoop SlotOwners SchedulerMirror DeferredResults
variable {ReqId M N : Type}

-- What the sampler and the speculator of the last rank hand over: one row a
-- request, at most k + 1 sampled columns, k draft columns.
structure Sampled (cfg : Config) (batch : InputBatch ReqId) (relay : Relay) : Prop where
  rows : relay.sampledTokens.rows = batch.length
  width : relay.sampledTokens.cols ≤ cfg.maxSampleLen
  draft_rows : relay.draftTokens.rows = batch.length
  draft_cols : relay.draftTokens.cols = cfg.numSpeculativeSteps

def viewSignatures (cfg : Config) (views : List (RowView ReqId)) : List Signature :=
  if (views.map viewNeeded).any id then
    [⟨views.length,cfg.maxSampleLen,.int64⟩,⟨2,views.length,.int32⟩] ++
      if cfg.relayDraftTokens then [⟨views.length,cfg.maxSampleLen - 1,.int64⟩] else []
  else []

theorem pad_exact (sampled : Sampled cfg batch relay) :
    ∃ padded, padSampled cfg relay.sampledTokens = some padded ∧
      padded.rows = batch.length ∧ padded.cols = cfg.maxSampleLen ∧
      (∀ i j, j < relay.sampledTokens.cols → padded.entry i j = relay.sampledTokens.entry i j) ∧
      ∀ i j, relay.sampledTokens.cols ≤ j → j < cfg.maxSampleLen → padded.entry i j = -1 := by
  unfold padSampled
  by_cases full : relay.sampledTokens.cols = cfg.maxSampleLen
  · refine ⟨_,if_pos full,sampled.rows,full,fun _ _ _ => rfl,?_⟩
    intro i j low high
    omega
  · have short : relay.sampledTokens.cols < cfg.maxSampleLen := Nat.lt_of_le_of_ne sampled.width full
    refine ⟨_,(if_neg full).trans (if_pos short),sampled.rows,rfl,?_,?_⟩
    · intro i j inside
      exact if_pos inside
    · intro i j outside _
      exact if_neg (Nat.not_lt.mpr outside)

def sentBy (cfg : Config) (batch : InputBatch ReqId) (relay : Relay) : Option (List Collective) := do
  let sent ← broadcast cfg batch relay
  return sent ++ broadcastDraft cfg batch relay.draftTokens

-- The contents of what was sent, when anything was.
structure Payload (cfg : Config) (relay : Relay) (sent : List Collective) : Prop where
  tokens : ∀ first rest, sent = first :: rest →
    (∀ i j, j < relay.sampledTokens.cols → first.tensor.entry i j = relay.sampledTokens.entry i j) ∧
    ∀ i j, relay.sampledTokens.cols ≤ j → j < cfg.maxSampleLen → first.tensor.entry i j = -1
  counts : ∀ first second rest, sent = first :: second :: rest →
    second.tensor.entry 0 = relay.numSampled ∧ second.tensor.entry 1 = relay.numRejected
  drafts : ∀ first second rest, sent = first :: second :: rest →
    ∀ draft ∈ rest, draft.tensor = relay.draftTokens

theorem sent_needed (masked : computeNeedSampledMask batch = some mask)
    (pads : padSampled cfg relay.sampledTokens = some padded) :
    sentBy cfg batch relay = some ([⟨padded,.int64⟩,⟨⟨2,batch.length,
      fun i r => if i = 0 then relay.numSampled r else relay.numRejected r⟩,.int32⟩] ++
        if cfg.relayDraftTokens then [⟨relay.draftTokens,.int64⟩] else []) := by
  cases relays : cfg.relayDraftTokens <;> simp [sentBy,broadcast,broadcastDraft,masked,pads,relays]

theorem sent_idle (masked : computeNeedSampledMask batch = none) : sentBy cfg batch relay = some [] := by
  cases relays : cfg.relayDraftTokens <;> simp [sentBy,broadcast,broadcastDraft,masked,relays]

theorem signatures_needed (masked : computeNeedSampledMask batch = some mask) :
    viewSignatures cfg (batch.map viewRow) =
      [⟨batch.length,cfg.maxSampleLen,.int64⟩,⟨2,batch.length,.int32⟩] ++
        if cfg.relayDraftTokens then [⟨batch.length,cfg.maxSampleLen - 1,.int64⟩] else [] := by
  rw [mask_view] at masked
  split at masked
  · rename_i needed
    unfold viewSignatures
    rw [if_pos needed,List.length_map]
  · cases masked

theorem signatures_idle (masked : computeNeedSampledMask batch = none) :
    viewSignatures cfg (batch.map viewRow) = [] := by
  rw [mask_view] at masked
  split at masked
  · cases masked
  · rename_i unneeded
    exact if_neg unneeded

theorem receive_posts (h : PPHandler) (batch : InputBatch ReqId) (delivered : Relay) :
    (receive cfg h batch delivered).2.1 = viewSignatures cfg (batch.map viewRow) := by
  unfold receive
  cases masked : computeNeedSampledMask batch with
  | none => exact (signatures_idle masked).symm
  | some mask => exact (signatures_needed masked).symm

theorem sent_exact (sampled : Sampled cfg batch relay) :
    ∃ sent, sentBy cfg batch relay = some sent ∧
      sent.map Collective.signature = viewSignatures cfg (batch.map viewRow) ∧ Payload cfg relay sent := by
  cases masked : computeNeedSampledMask batch with
  | none => exact ⟨[],sent_idle masked,(signatures_idle masked).symm,by simp,by simp,by simp⟩
  | some mask =>
      obtain ⟨padded,pads,rows,cols,inside,outside⟩ := pad_exact sampled
      refine ⟨_,sent_needed masked pads,?_,?_,?_,?_⟩
      · rw [signatures_needed masked]
        cases cfg.relayDraftTokens <;>
          simp [Collective.signature,rows,cols,sampled.draft_rows,sampled.draft_cols,Config.maxSampleLen]
      · intro first rest same
        cases same
        exact ⟨inside,outside⟩
      · intro first second rest same
        cases same
        exact ⟨rfl,rfl⟩
      · intro first second rest same draft member
        cases same
        cases relays : cfg.relayDraftTokens with
        | false => simp [relays] at member
        | true =>
            simp only [relays,if_true] at member
            rw [List.mem_singleton.mp member]

-- The sampler's tensors are fresh in every step: a matched broadcast delivers them
-- as the last rank sent them.
def SamplesDelivered (sent : List Collective) (relay : Relay) : Prop :=
  ∀ tokens counts rest, sent = tokens :: counts :: rest →
    relay.sampledTokens.entry = tokens.tensor.entry ∧ relay.numSampled = counts.tensor.entry 0 ∧
      relay.numRejected = counts.tensor.entry 1

-- A matched broadcast delivers what the last rank sent.
def Delivered (sent : List Collective) (relay : Relay) : Prop :=
  ∀ tokens counts rest, sent = tokens :: counts :: rest →
    relay.sampledTokens.entry = tokens.tensor.entry ∧ relay.numSampled = counts.tensor.entry 0 ∧
      relay.numRejected = counts.tensor.entry 1 ∧ ∀ draft ∈ rest, relay.draftTokens.entry = draft.tensor.entry

-- The receiver's entry holds the sampler's columns unchanged and -1 behind them.
structure Arrived (cfg : Config) (relay : Relay) (pending : PendingRecv) : Prop where
  inside : ∀ i j, j < relay.sampledTokens.cols → pending.sampledTokens.entry i j = relay.sampledTokens.entry i j
  padding : ∀ i j, relay.sampledTokens.cols ≤ j → j < cfg.maxSampleLen → pending.sampledTokens.entry i j = -1
  counts : pending.numSampled = relay.numSampled ∧ pending.numRejected = relay.numRejected
  drafts : ∀ draft, pending.draftTokens = some draft → draft.entry = relay.draftTokens.entry

structure SamplesArrived (cfg : Config) (relay : Relay) (pending : PendingRecv) : Prop where
  inside : ∀ i j, j < relay.sampledTokens.cols → pending.sampledTokens.entry i j = relay.sampledTokens.entry i j
  padding : ∀ i j, relay.sampledTokens.cols ≤ j → j < cfg.maxSampleLen → pending.sampledTokens.entry i j = -1
  counts : pending.numSampled = relay.numSampled ∧ pending.numRejected = relay.numRejected

theorem sent_tokens {record : StepRecord ReqId} (source : Reserved cfg record delivered gen pending batch mask)
    (signatures : sent.map Collective.signature = viewSignatures cfg (batch.map viewRow)) :
    ∃ tokens counts rest, sent = tokens :: counts :: rest := by
  rw [signatures_needed source.masked] at signatures
  match sent with
  | [] => simp at signatures
  | [_] => simp at signatures
  | tokens :: counts :: rest => exact ⟨tokens,counts,rest,rfl⟩

theorem samples_arrive {record : StepRecord ReqId} (payload : Payload cfg relay sent)
    (source : Reserved cfg record delivered gen pending batch mask)
    (signatures : sent.map Collective.signature = viewSignatures cfg (batch.map viewRow))
    (matched : SamplesDelivered sent delivered) : SamplesArrived cfg relay pending := by
  obtain ⟨tokens,counts,rest,rfl⟩ := sent_tokens source signatures
  obtain ⟨columns,sampled,rejected⟩ := matched tokens counts rest rfl
  obtain ⟨inside,outside⟩ := payload.tokens tokens (counts :: rest) rfl
  obtain ⟨first_row,second_row⟩ := payload.counts tokens counts rest rfl
  refine ⟨?_,?_,?_⟩
  · intro i j bound
    rw [source.tokens,← inside i j bound,← columns]
  · intro i j low high
    rw [source.tokens,← outside i j low high,← columns]
  · rw [source.counts.1,source.counts.2]
    exact ⟨sampled.trans first_row,rejected.trans second_row⟩

theorem delivered_samples (matched : Delivered sent relay) : SamplesDelivered sent relay := by
  intro tokens counts rest same
  obtain ⟨columns,sampled,rejected,_⟩ := matched tokens counts rest same
  exact ⟨columns,sampled,rejected⟩

theorem payload_arrives {record : StepRecord ReqId} (payload : Payload cfg relay sent)
    (source : Reserved cfg record delivered gen pending batch mask)
    (signatures : sent.map Collective.signature = viewSignatures cfg (batch.map viewRow))
    (matched : Delivered sent delivered) : Arrived cfg relay pending := by
  have samples := samples_arrive payload source signatures (delivered_samples matched)
  refine ⟨samples.inside,samples.padding,samples.counts,?_⟩
  · intro draft stored
    obtain ⟨tokens,counts,rest,rfl⟩ := sent_tokens source signatures
    rw [signatures_needed source.masked] at signatures
    obtain ⟨_,_,_,drafts⟩ := matched tokens counts rest rfl
    rw [source.drafts] at stored
    cases relays : cfg.relayDraftTokens with
    | false => simp [relays] at stored
    | true =>
        simp only [relays,if_true,Option.some.injEq] at stored signatures
        obtain ⟨last,rfl⟩ : ∃ last, rest = [last] := List.length_eq_one_iff.mp
          (by simpa using congrArg List.length signatures)
        rw [← stored,← payload.drafts tokens counts _ rfl last (by simp)]
        exact drafts last (by simp)

variable {cfg : Config} {dev : Device ReqId M}

theorem deferred_keeps (dev : Device ReqId M) (r : Runner ReqId M) :
    (updatePpDecodeRequests dev r).1.reqStates = r.reqStates ∧
      (updatePpDecodeRequests dev r).1.ppHandler.isLastRank = r.ppHandler.isLastRank := by
  have turned : (getPrevSampledOutputs r.ppHandler).1.isLastRank = r.ppHandler.isLastRank := by
    unfold getPrevSampledOutputs
    cases r.ppHandler.queue with
    | nil => rfl
    | cons front rest => cases front <;> rfl
  unfold updatePpDecodeRequests
  cases popped : getPrevSampledOutputs r.ppHandler with
  | mk ppHandler rest =>
      obtain ⟨consumed,outputs⟩ := rest
      rw [popped] at turned
      cases outputs <;> exact ⟨rfl,turned⟩

theorem sample_last (rank : r.ppHandler.isLastRank = true)
    (sampled : sampleTokens cfg dev r batch relay = some (next,sent,posted)) :
    next.reqStates = r.reqStates ∧ next.ppHandler = r.ppHandler ∧ posted = [] ∧
      sentBy cfg batch relay = some sent := by
  simp only [sampleTokens,rank,Bool.not_true,Bool.false_eq_true,if_false,Option.bind_eq_bind,
    Option.bind_eq_some_iff] at sampled
  obtain ⟨first,broadcasts,sampled⟩ := sampled
  cases relays : cfg.relayDraftTokens with
  | false =>
      simp only [relays,Bool.false_eq_true,if_false,Option.pure_def,Option.some.injEq,Prod.mk.injEq] at sampled
      obtain ⟨rfl,rfl,rfl⟩ := sampled
      exact ⟨rfl,rfl,rfl,by simp [sentBy,broadcasts,broadcastDraft,relays]⟩
  | true =>
      simp only [relays,if_true,Option.pure_def,Option.some.injEq,Prod.mk.injEq] at sampled
      obtain ⟨rfl,rfl,rfl⟩ := sampled
      exact ⟨rfl,rfl,rfl,by simp [sentBy,broadcasts]⟩

theorem sample_other (rank : r.ppHandler.isLastRank = false)
    (sampled : sampleTokens cfg dev r batch relay = some (next,sent,posted)) :
    next.reqStates = r.reqStates ∧ next.ppHandler = (receive cfg r.ppHandler batch relay).1 ∧ sent = [] ∧
      posted = viewSignatures cfg (batch.map viewRow) := by
  simp only [sampleTokens,rank,Bool.not_false,if_true,Option.some.injEq,Prod.mk.injEq] at sampled
  obtain ⟨rfl,rfl,rfl⟩ := sampled
  exact ⟨rfl,rfl,rfl,receive_posts r.ppHandler batch relay⟩

variable [DecidableEq ReqId]

-- What every rank of the group must post in a step: it depends on the scheduler
-- outputs alone.
def stepSignatures (cfg : Config) (m : Mirrors ReqId) (out : SchedulerOutput ReqId) : List Signature :=
  if out.totalNumScheduledTokens = 0 then []
  else viewSignatures cfg (batchViews (cfg.numSpeculativeSteps + 1) (stepMirrors m out) out)

def script (cfg : Config) (m : Mirrors ReqId) : List (SchedulerOutput ReqId) → List (List Signature)
  | [] => []
  | out :: rest => stepSignatures cfg m out :: script cfg (stepMirrors m out) rest

theorem script_snoc (m : Mirrors ReqId) (outs : List (SchedulerOutput ReqId)) (out : SchedulerOutput ReqId) :
    script cfg m (outs ++ [out]) = script cfg m outs ++ [stepSignatures cfg (outs.foldl stepMirrors m) out] := by
  induction outs generalizing m with
  | nil => rfl
  | cons first rest ih => simp [script,ih]

structure ExecuteMirror (cfg : Config) (r next : Runner ReqId M) (out : SchedulerOutput ReqId)
    (record : StepRecord ReqId) : Prop where
  mirror : mirrors next.reqStates = stepMirrors (mirrors r.reqStates) out
  rank : next.ppHandler.isLastRank = r.ppHandler.isLastRank
  quiet : record.sent = [] ∧ record.posted = []
  idle : record.batch = none → out.totalNumScheduledTokens = 0
  busy : ∀ batch, record.batch = some batch → out.totalNumScheduledTokens ≠ 0 ∧
    batch.map viewRow = batchViews (cfg.numSpeculativeSteps + 1) (stepMirrors (mirrors r.reqStates) out) out

theorem execute_mirror (r : Runner ReqId M) (executed : executeModel cfg dev r input = some (next,record)) :
    ExecuteMirror cfg r next input.out record := by
  obtain ⟨table,rank⟩ := deferred_keeps dev r
  unfold executeModel at executed
  simp only [Option.bind_eq_bind,Option.bind_eq_some_iff,Option.pure_def,Prod.exists] at executed
  obtain ⟨grown,readded,added,updated,ran,executed⟩ := executed
  have finished := (removes_free (updatePpDecodeRequests dev r).1
    (input.out.finishedReqIds ++ input.out.preemptedReqIds)).1
  have same_rank : updated.ppHandler.isLastRank = r.ppHandler.isLastRank :=
    (updates_free _ _ _ ran).rank.trans ((adds_free _ _ _ _ input.out.new_nodup added).rank.trans
      (finished.rank.trans rank))
  have mirror : mirrors updated.reqStates = stepMirrors (mirrors r.reqStates) input.out := by
    rw [updates_mirror _ _ _ ran,adds_mirror _ _ _ _ added]
    simp only [finishRequests,removes_mirror,table,stepMirrors]
  split at executed
  · rename_i zero
    cases executed
    exact ⟨mirror,same_rank,⟨rfl,rfl⟩,fun _ => zero,by simp⟩
  · rename_i scheduled
    simp only [Option.bind_eq_some_iff,Option.some.injEq,Prod.mk.injEq] at executed
    obtain ⟨batch,prepared,rfl,rfl⟩ := executed
    refine ⟨mirror,same_rank,⟨rfl,rfl⟩,by simp,?_⟩
    intro other same
    cases same
    exact ⟨scheduled,by rw [batch_views prepared,mirror]⟩

-- One step of any rank follows the script of the scheduler outputs.
structure StepScript (cfg : Config) (r next : Runner ReqId M) (input : StepInput ReqId)
    (record : StepRecord ReqId) : Prop where
  mirror : mirrors next.reqStates = stepMirrors (mirrors r.reqStates) input.out
  rank : next.ppHandler.isLastRank = r.ppHandler.isLastRank
  other : r.ppHandler.isLastRank = false → record.sent = [] ∧
    record.posted = stepSignatures cfg (mirrors r.reqStates) input.out ∧
    ∀ batch, record.batch = some batch → record.posted = viewSignatures cfg (batch.map viewRow)
  last : r.ppHandler.isLastRank = true →
    (∀ batch, record.batch = some batch → Sampled cfg batch input.relay) →
    record.posted = [] ∧ record.sent.map Collective.signature = stepSignatures cfg (mirrors r.reqStates) input.out ∧
      Payload cfg input.relay record.sent

theorem step_script (r : Runner ReqId M) (stepped : step cfg dev r input = some (next,record)) :
    StepScript cfg r next input record := by
  unfold step at stepped
  simp only [Option.bind_eq_bind,Option.bind_eq_some_iff,Prod.exists] at stepped
  obtain ⟨middle,executed,ran,stepped⟩ := stepped
  have facts := execute_mirror r ran
  cases batched : executed.batch with
  | none =>
      simp only [batched,Option.pure_def,Option.some.injEq,Prod.mk.injEq] at stepped
      obtain ⟨rfl,rfl⟩ := stepped
      have silent : stepSignatures cfg (mirrors r.reqStates) input.out = [] := if_pos (facts.idle batched)
      refine ⟨facts.mirror,facts.rank,fun _ => ⟨facts.quiet.1,?_,by simp [batched]⟩,fun _ _ => ⟨facts.quiet.2,?_,?_⟩⟩
      · rw [facts.quiet.2,silent]
      · rw [facts.quiet.1,silent]
        rfl
      · rw [facts.quiet.1]
        exact ⟨by simp,by simp,by simp⟩
  | some batch =>
      simp only [batched,Option.bind_eq_some_iff,Option.pure_def,Option.some.injEq,Prod.mk.injEq,
        Prod.exists] at stepped
      obtain ⟨finished,sent,posted,sampled,rfl,rfl⟩ := stepped
      obtain ⟨scheduled,views⟩ := facts.busy batch batched
      have spoken : stepSignatures cfg (mirrors r.reqStates) input.out = viewSignatures cfg (batch.map viewRow) := by
        rw [views]; exact if_neg scheduled
      cases rank : r.ppHandler.isLastRank with
      | false =>
          obtain ⟨table,handler,silent,posts⟩ := sample_other (facts.rank.trans rank) sampled
          refine ⟨by rw [table,facts.mirror],?_,fun _ => ⟨silent,posts.trans spoken.symm,?_⟩,?_⟩
          · rw [handler,← facts.rank]
            unfold receive
            cases computeNeedSampledMask batch <;> rfl
          · intro other same
            cases same
            exact posts
          · intro last
            rw [rank] at last
            cases last
      | true =>
          obtain ⟨table,handler,posts,sends⟩ := sample_last (facts.rank.trans rank) sampled
          refine ⟨by rw [table,facts.mirror],by rw [handler,facts.rank,rank],?_,?_⟩
          · intro other
            rw [rank] at other
            cases other
          · intro _ fits
            obtain ⟨expected,sends',signatures,payload⟩ := sent_exact (fits batch rfl)
            rw [sends] at sends'
            cases sends'
            exact ⟨posts,signatures.trans spoken.symm,payload⟩

theorem snoc_pair {xs : List α} {ys : List β} {t : Nat} (lengths : xs.length = ys.length)
    (one : (xs ++ [x])[t]? = some a) (two : (ys ++ [y])[t]? = some b) :
    (xs[t]? = some a ∧ ys[t]? = some b) ∨ (a = x ∧ b = y) := by
  by_cases old : t < xs.length
  · rw [List.getElem?_append_left old] at one
    rw [List.getElem?_append_left (lengths ▸ old)] at two
    exact Or.inl ⟨one,two⟩
  · have bound := (List.getElem?_eq_some_iff.mp one).1
    rw [List.length_append,List.length_singleton] at bound
    obtain rfl : t = xs.length := by omega
    rw [List.getElem?_concat_length] at one
    rw [lengths,List.getElem?_concat_length] at two
    exact Or.inr ⟨by simpa [eq_comm] using one,by simpa [eq_comm] using two⟩

-- A property of single steps, from states that satisfy a preserved condition,
-- holds at every step of a run.
theorem runs_steps {start r : Runner ReqId M} (valid : Runner ReqId M → Prop)
    (good : StepInput ReqId → StepRecord ReqId → Prop) (base : valid start)
    (keeps : ∀ r input next record, valid r → step cfg dev r input = some (next,record) →
      valid next ∧ good input record)
    (run : Runs cfg dev start inputs r history) :
    valid r ∧ inputs.length = history.length ∧
      ∀ (t : Nat) input record, inputs[t]? = some input → history[t]? = some record → good input record := by
  induction run with
  | nil => exact ⟨base,rfl,by simp⟩
  | snoc _ stepped ih =>
      obtain ⟨before,lengths,earlier⟩ := ih
      obtain ⟨after,now⟩ := keeps _ _ _ _ before stepped
      refine ⟨after,by simp [lengths],?_⟩
      intro t input record one two
      rcases snoc_pair lengths one two with ⟨one,two⟩ | ⟨rfl,rfl⟩
      · exact earlier t _ _ one two
      · exact now

theorem run_mirror (run : Runs cfg dev (Runner.init cfg isLastRank device) inputs r history) :
    r.ppHandler.isLastRank = isLastRank ∧
      mirrors r.reqStates = (inputs.map StepInput.out).foldl stepMirrors fun _ => none := by
  induction run with
  | nil => exact ⟨rfl,rfl⟩
  | snoc _ stepped ih =>
      have facts := step_script _ stepped
      rw [List.map_append,List.foldl_append,← ih.2]
      exact ⟨facts.rank.trans ih.1,facts.mirror⟩

theorem other_posts (run : Runs cfg dev (Runner.init cfg false device) inputs r history) :
    history.map StepRecord.posted = script cfg (fun _ => none) (inputs.map StepInput.out) := by
  induction run with
  | nil => rfl
  | snoc before stepped ih =>
      obtain ⟨rank,mirror⟩ := run_mirror before
      have posts := ((step_script _ stepped).other rank).2.1
      rw [List.map_append,List.map_append,List.map_singleton,List.map_singleton,script_snoc,ih,← mirror,posts]

def AllSampled (cfg : Config) (inputs : List (StepInput ReqId)) (history : List (StepRecord ReqId)) : Prop :=
  ∀ (t : Nat) input record, inputs[t]? = some input → history[t]? = some record →
    ∀ batch, record.batch = some batch → Sampled cfg batch input.relay

theorem last_sends (run : Runs cfg dev (Runner.init cfg true device) inputs r history)
    (sampled : AllSampled cfg inputs history) :
    inputs.length = history.length ∧
      (history.map fun record => record.sent.map Collective.signature) =
        script cfg (fun _ => none) (inputs.map StepInput.out) := by
  induction run with
  | nil => exact ⟨rfl,rfl⟩
  | @snoc inputs r history input next record before stepped ih =>
      have early : AllSampled cfg inputs history := by
        intro t input record one two
        refine sampled t input record ?_ ?_
        · rw [List.getElem?_append_left (List.getElem?_eq_some_iff.mp one).1,one]
        · rw [List.getElem?_append_left (List.getElem?_eq_some_iff.mp two).1,two]
      obtain ⟨lengths,sends⟩ := ih early
      have now := sampled history.length input record (by rw [← lengths]; simp) (by simp)
      obtain ⟨rank,mirror⟩ := run_mirror before
      obtain ⟨_,signatures,_⟩ := (step_script _ stepped).last rank now
      refine ⟨by simp [lengths],?_⟩
      rw [List.map_append,List.map_append,List.map_singleton,List.map_singleton,script_snoc,sends,← mirror,
        signatures]

theorem last_payload (run : Runs cfg dev (Runner.init cfg true device) inputs r history)
    (sampled : AllSampled cfg inputs history) (t : Nat) (one : inputs[t]? = some input)
    (two : history[t]? = some record) : record.posted = [] ∧ Payload cfg input.relay record.sent := by
  have each := runs_steps (fun r => r.ppHandler.isLastRank = true)
    (fun input record => (∀ batch, record.batch = some batch → Sampled cfg batch input.relay) →
      record.posted = [] ∧ Payload cfg input.relay record.sent) rfl ?_ run
  · exact each.2.2 t input record one two (sampled t input record one two)
  · intro r input next record rank stepped
    have facts := step_script r stepped
    exact ⟨facts.rank.trans rank,fun fits => ⟨(facts.last rank fits).1,(facts.last rank fits).2.2⟩⟩

theorem other_receives (run : Runs cfg dev (Runner.init cfg false device) inputs r history) (t : Nat)
    (one : inputs[t]? = some input) (two : history[t]? = some record) :
    record.sent = [] ∧ ∀ pending, record.reserved = some pending → ∃ gen batch mask,
      Reserved cfg record input.relay gen pending batch mask ∧
        record.posted = viewSignatures cfg (batch.map viewRow) := by
  have each := runs_steps (fun r => r.ppHandler.isLastRank = false ∧
      ∃ front rest, r.ppHandler.queue = front :: rest)
    (fun input record => record.sent = [] ∧ ∀ pending, record.reserved = some pending →
      ∃ gen batch mask, Reserved cfg record input.relay gen pending batch mask ∧
        record.posted = viewSignatures cfg (batch.map viewRow)) ?_ ?_ run
  · exact each.2.2 t input record one two
  · exact ⟨rfl,(init_invariant cfg device).queued⟩
  · intro r input next record valid stepped
    obtain ⟨rank,front,rest,queued⟩ := valid
    have script := (step_script r stepped).other rank
    have facts := step_facts r rank queued stepped
    refine ⟨⟨facts.rank,?_⟩,script.1,?_⟩
    · rw [facts.queue,queued,List.tail_cons]
      cases rest with
      | nil => exact ⟨_,_,rfl⟩
      | cons second rest => exact ⟨_,_,rfl⟩
    · intro pending reserved
      obtain ⟨batch,mask,source⟩ := facts.reserves pending reserved
      exact ⟨_,batch,mask,source,script.2.2 batch source.ran⟩

theorem broadcasts_match (cfg : Config) (dev : Device ReqId M) (other : Device ReqId N) (device : M)
    (device' : N) (last : Runs cfg dev (Runner.init cfg true device) inputs r history)
    (run : Runs cfg other (Runner.init cfg false device') inputs' r' history')
    (same : inputs.map StepInput.out = inputs'.map StepInput.out) (sampled : AllSampled cfg inputs history) :
    (history.map fun record => record.sent.map Collective.signature) = history'.map StepRecord.posted ∧
    ∀ (t : Nat) input record input' record', inputs[t]? = some input → history[t]? = some record →
      inputs'[t]? = some input' → history'[t]? = some record' →
      record.posted = [] ∧ record'.sent = [] ∧ Payload cfg input.relay record.sent ∧
      (Delivered record.sent input'.relay → ∀ pending, record'.reserved = some pending →
        Arrived cfg input.relay pending) := by
  have matched : (history.map fun record => record.sent.map Collective.signature) =
      history'.map StepRecord.posted := by
    rw [(last_sends last sampled).2,other_posts run,same]
  refine ⟨matched,?_⟩
  intro t input record input' record' one two three four
  obtain ⟨quiet,payload⟩ := last_payload last sampled t one two
  obtain ⟨silent,receives⟩ := other_receives run t three four
  refine ⟨quiet,silent,payload,?_⟩
  intro delivered pending reserved
  obtain ⟨gen,batch,mask,source,posts⟩ := receives pending reserved
  have signatures : record.sent.map Collective.signature = record'.posted := by
    have at_t := congrArg (fun xs => xs[t]?) matched
    simpa [List.getElem?_map,two,four] using at_t
  exact payload_arrives payload source (signatures.trans posts) delivered

def twoRanks : Config := ⟨2,1,true,by decide,by decide⟩

def narrowStep (slot : Nat) : StepInput Nat where
  out := ⟨[],[],[⟨3,0,2,10,[]⟩],[],[(3,2)],fun _ => 0,by decide,by decide⟩
  slots := [slot]
  relay := ⟨⟨1,1,fun _ _ => 42⟩,fun _ => 1,fun _ => 0,⟨1,1,fun _ _ => 43⟩⟩

theorem broadcasts_match_narrow :
    ∃ r record r' record',
      Runs twoRanks idleDevice (Runner.init twoRanks true ()) [narrowStep 4] r [record] ∧
      Runs twoRanks idleDevice (Runner.init twoRanks false ()) [narrowStep 9] r' [record'] ∧
      record.sent.map Collective.signature = record'.posted ∧
      record'.posted = [⟨1,2,.int64⟩,⟨2,1,.int32⟩,⟨1,1,.int64⟩] := by
  have computed : (do
      let (_,record) ← step twoRanks idleDevice (Runner.init twoRanks true ()) (narrowStep 4)
      let (_,record') ← step twoRanks idleDevice (Runner.init twoRanks false ()) (narrowStep 9)
      return (record.batch.map List.length,record'.posted)) =
        some (some 1,[⟨1,2,.int64⟩,⟨2,1,.int32⟩,⟨1,1,.int64⟩]) := by decide +kernel
  simp only [Option.bind_eq_bind,Option.bind_eq_some_iff,Prod.exists,Option.pure_def,Option.some.injEq,
    Prod.mk.injEq] at computed
  obtain ⟨r,record,ran,r',record',ran',single,posts⟩ := computed
  have last : Runs twoRanks idleDevice (Runner.init twoRanks true ()) [narrowStep 4] r [record] := .snoc .nil ran
  have run : Runs twoRanks idleDevice (Runner.init twoRanks false ()) [narrowStep 9] r' [record'] := .snoc .nil ran'
  have sampled : AllSampled twoRanks [narrowStep 4] [record] := by
    intro t input other one two batch batched
    obtain ⟨rfl,rfl⟩ : t = 0 ∧ other = record := by
      cases t with
      | zero => exact ⟨rfl,by simpa [eq_comm] using two⟩
      | succ t => simp at two
    obtain rfl : narrowStep 4 = input := by simpa using one
    have length : batch.length = 1 := by simpa [batched] using single
    exact ⟨by rw [length]; rfl,by decide,by rw [length]; rfl,rfl⟩
  have matched := (broadcasts_match twoRanks idleDevice idleDevice () () last run rfl sampled).1
  exact ⟨r,record,r',record',last,run,by simpa using matched,posts⟩

end Glm5Next.PpBroadcast
