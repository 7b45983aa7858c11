import Glm5Next.PpUtils
import Glm5Next.SideStream

namespace Glm5Next.DraftRelay
open PpUtils OwnedRegions SideStream

-- draft_tokens [max_num_reqs, num_speculative_steps], one storage for all steps.
abbrev DraftTokens := Nat → Nat → Int

inductive MainOp where
  -- A kernel that leaves draft_tokens alone.
  | compute
  | store (column rows : Nat) (tokens : Nat → Int)

def MainOp.apply : MainOp → DraftTokens → DraftTokens
  | .compute,buffer => buffer
  | .store column rows tokens,buffer => fun i j => if j = column ∧ i < rows then tokens i else buffer i j

inductive Send where
  -- Fresh tensors of the step.
  | sampled (call : Nat) (collective : Collective)
  -- draft_tokens[:rows], read when the broadcast executes.
  | draft (call rows : Nat)

def Send.read (cfg : Config) : Send → DraftTokens → Collective
  | .sampled _ collective,_ => collective
  | .draft _ rows,buffer => ⟨⟨rows,cfg.numSpeculativeSteps,buffer⟩,.int64⟩

-- One sample_tokens of the last rank, or one dummy run, which proposes only.
-- `relay` is what the sampler and sample_draft produce in it, the latter for the
-- rows of the batch and those a captured graph pads it to.
structure Call (ReqId : Type) where
  batch : InputBatch ReqId
  dummyRun : Bool
  relay : Relay
  prefillReqs : Nat
  decodeReqs : Nat
  prefill_covers : batch.length ≤ prefillReqs
  decode_covers : batch.length ≤ decodeReqs

abbrev Commands := List (Command MainOp Send)

def propose (cfg : Config) (call : Call ReqId) : List MainOp :=
  let sampleDraft (step : Nat) : Nat → Int := fun i => call.relay.draftTokens.entry i step
  .compute :: .store 0 call.prefillReqs (sampleDraft 0) ::
    if cfg.numSpeculativeSteps = 1 then []
    else (List.range' 1 (cfg.numSpeculativeSteps - 1)).map fun step =>
      .store step call.decodeReqs (sampleDraft step)

-- `none` is the failed assert of the padding.
def enqueueBroadcast (cfg : Config) (n : Nat) (call : Call ReqId) : Option Commands :=
  match computeNeedSampledMask call.batch with
  | none => some []
  | some _ => do
    let sent ← broadcast cfg call.batch call.relay
    return [.launch .compute,.waitStream] ++ sent.map fun collective => .post (.sampled n collective)

def enqueueBroadcastDraft (cfg : Config) (n : Nat) (call : Call ReqId) : Commands :=
  if !cfg.relayDraftTokens then []
  else match computeNeedSampledMask call.batch with
    | none => []
    | some _ => [.waitStream,.post (.draft n call.batch.length)]

-- Everything the host issues, call after call. After a failed assert the worker is gone.
def program (cfg : Config) : Nat → List (Call ReqId) → Commands
  | _,[] => []
  | n,call :: calls =>
    if call.dummyRun then (propose cfg call).map .launch ++ program cfg (n + 1) calls
    else match enqueueBroadcast cfg n call with
      | none => [.launch .compute]
      | some relayed =>
        -- sample, postprocess_sampled and the copy into req_states.draft_tokens
        -- stand before, between and behind the two.
        [.launch .compute] ++ relayed ++ (MainOp.compute :: propose cfg call ++ [MainOp.compute]).map .launch ++
          enqueueBroadcastDraft cfg n call ++ program cfg (n + 1) calls

theorem stores_apart (buffer : DraftTokens) (steps : List Nat) (rows : Nat) (tokens : Nat → Nat → Int)
    (apart : j ∉ steps) :
    run MainOp.apply (steps.map fun step => .store step rows (tokens step)) buffer i j = buffer i j := by
  induction steps generalizing buffer with
  | nil => rfl
  | cons step steps ih =>
      rw [List.mem_cons,not_or] at apart
      have rest := ih (MainOp.apply (.store step rows (tokens step)) buffer) apart.2
      refine rest.trans ?_
      exact if_neg fun both => apart.1 both.1

theorem stores_exact (buffer : DraftTokens) (steps : List Nat) (rows : Nat) (tokens : Nat → Nat → Int)
    (member : j ∈ steps) (inside : i < rows) :
    run MainOp.apply (steps.map fun step => .store step rows (tokens step)) buffer i j = tokens j i := by
  induction steps generalizing buffer with
  | nil => cases member
  | cons step steps ih =>
      by_cases later : j ∈ steps
      · exact ih _ later
      · have here : j = step := by simpa [later] using member
        refine (stores_apart _ steps rows tokens later).trans ?_
        subst here
        exact if_pos ⟨rfl,inside⟩

-- The view propose returns: what sample_draft gave in this call, whatever was there before.
theorem propose_exact (cfg : Config) (call : Call ReqId) (buffer : DraftTokens)
    (row : i < call.batch.length) (column : j < cfg.numSpeculativeSteps) :
    run MainOp.apply (propose cfg call) buffer i j = call.relay.draftTokens.entry i j := by
  have prefilled : i < call.prefillReqs := Nat.lt_of_lt_of_le row call.prefill_covers
  have decoded : i < call.decodeReqs := Nat.lt_of_lt_of_le row call.decode_covers
  have first : MainOp.apply (.store 0 call.prefillReqs fun i => call.relay.draftTokens.entry i 0) buffer i 0 =
      call.relay.draftTokens.entry i 0 := if_pos ⟨rfl,prefilled⟩
  simp only [propose]
  by_cases single : cfg.numSpeculativeSteps = 1
  · have only : j = 0 := by omega
    subst only
    rw [if_pos single]
    exact first
  · rw [if_neg single]
    by_cases zero : j = 0
    · subst zero
      refine (stores_apart _ _ call.decodeReqs (fun step i => call.relay.draftTokens.entry i step) ?_).trans first
      simp
    · refine stores_exact _ _ call.decodeReqs (fun step i => call.relay.draftTokens.entry i step) ?_ decoded
      rw [List.mem_range'_1]
      omega

def Proposed (cfg : Config) (calls : List (Call ReqId)) : Send → DraftTokens → Prop
  | .sampled _ _,_ => True
  | .draft n rows,buffer => ∃ call, calls[n]? = some call ∧ rows = call.batch.length ∧
      ∀ i j, i < rows → j < cfg.numSpeculativeSteps → buffer i j = call.relay.draftTokens.entry i j

theorem broadcast_sound (cfg : Config) (calls : List (Call ReqId)) (n : Nat) (sent : List Collective)
    (sound : ∀ fresh, Sound MainOp.apply (Proposed cfg calls) buffer fresh rest) (fresh : Prop) (waited : fresh) :
    Sound MainOp.apply (Proposed cfg calls) buffer fresh
      ((sent.map fun collective => .post (.sampled n collective)) ++ rest) := by
  induction sent with
  | nil => exact sound fresh
  | cons collective sent ih => exact ⟨waited,trivial,ih⟩

theorem relayed_sound (cfg : Config) (calls : List (Call ReqId)) (n : Nat)
    (posted : enqueueBroadcast cfg n call = some relayed)
    (sound : ∀ fresh, Sound MainOp.apply (Proposed cfg calls) buffer fresh rest) (fresh : Prop) :
    Sound MainOp.apply (Proposed cfg calls) buffer fresh (relayed ++ rest) := by
  unfold enqueueBroadcast at posted
  cases masked : computeNeedSampledMask call.batch with
  | none =>
      rw [masked] at posted
      cases posted
      exact sound fresh
  | some mask =>
      rw [masked] at posted
      obtain ⟨sent,_,same⟩ := Option.bind_eq_some_iff.mp posted
      cases Option.some.inj same
      exact broadcast_sound cfg calls n sent sound True trivial

theorem draft_sound (cfg : Config) (calls : List (Call ReqId)) (found : calls[n]? = some call)
    (proposed : ∀ i j, i < call.batch.length → j < cfg.numSpeculativeSteps →
      buffer i j = call.relay.draftTokens.entry i j)
    (sound : ∀ fresh, Sound MainOp.apply (Proposed cfg calls) buffer fresh rest) (fresh : Prop) :
    Sound MainOp.apply (Proposed cfg calls) buffer fresh (enqueueBroadcastDraft cfg n call ++ rest) := by
  unfold enqueueBroadcastDraft
  cases cfg.relayDraftTokens with
  | false => exact sound fresh
  | true =>
      cases computeNeedSampledMask call.batch with
      | none => exact sound fresh
      | some mask => exact ⟨trivial,⟨call,found,rfl,proposed⟩,sound True⟩

theorem program_sound (cfg : Config) (calls rest : List (Call ReqId)) (n : Nat) (ahead : calls.drop n = rest)
    (buffer : DraftTokens) (fresh : Prop) :
    Sound MainOp.apply (Proposed cfg calls) buffer fresh (program cfg n rest) := by
  induction rest generalizing n buffer fresh with
  | nil => trivial
  | cons call rest ih =>
      have found : calls[n]? = some call := by
        rw [← List.head?_drop,ahead]
        rfl
      have further : calls.drop (n + 1) = rest := by
        rw [← List.tail_drop,ahead]
        rfl
      simp only [program]
      by_cases dummy : call.dummyRun = true
      · rw [if_pos dummy]
        exact sound_launches _ _ fun fresh => ih (n + 1) further _ fresh
      · rw [if_neg dummy]
        cases posted : enqueueBroadcast cfg n call with
        | none => trivial
        | some relayed =>
            simp only [List.append_assoc]
            refine relayed_sound cfg calls n posted ?_ False
            intro fresh
            refine sound_launches _ _ fun fresh => ?_
            refine draft_sound cfg calls found ?_ (fun fresh => ih (n + 1) further _ fresh) fresh
            intro i j row column
            rw [run_append]
            exact propose_exact cfg call buffer row column

abbrev Device := Streams DraftTokens MainOp Send Collective

-- The next operation of the main stream puts another token into a row that a
-- draft broadcast, free to go, has not read yet.
def overtakes (cfg : Config) (s : Device) : Bool :=
  match s.main with
  | .store column rows tokens :: _ => decide (column < cfg.numSpeculativeSteps) && s.side.any fun (after,send) =>
    match send with
    | .draft _ pending => decide (after ≤ s.executed) &&
        (List.range (min rows pending)).any fun i => tokens i != s.mem i column
    | .sampled _ _ => false
  | _ => false

def keepsUp (cfg : Config) (s : Device) (tick : Tick) : Bool := !(tick == .main && overtakes cfg s)

def Agree (cfg : Config) : Send → DraftTokens → DraftTokens → Prop
  | .sampled _ _,_,_ => True
  | .draft _ rows,buffer,buffer' => ∀ i j, i < rows → j < cfg.numSpeculativeSteps → buffer' i j = buffer i j

theorem proposed_agree (send : Send) (proposed : Proposed cfg calls send buffer)
    (agree : Agree cfg send buffer buffer') : Proposed cfg calls send buffer' := by
  cases send with
  | sampled call collective => trivial
  | draft n rows =>
      obtain ⟨call,found,size,held⟩ := proposed
      exact ⟨call,found,size,fun i j row column => (agree i j row column).trans (held i j row column)⟩

theorem keeps_up_undisturbed (cfg : Config) (s : Device) (tick : Tick) (keeps : keepsUp cfg s tick = true) :
    Undisturbed MainOp.apply (Agree cfg) s tick := by
  intro main op rest pending after send member ready
  subst main
  have calm : overtakes cfg s = false := by simpa [keepsUp] using keeps
  cases send with
  | sampled call collective => trivial
  | draft n waiting =>
      intro i j row column
      cases op with
      | compute => rfl
      | store stored rows tokens =>
          by_cases written : j = stored ∧ i < rows
          · obtain ⟨rfl,inside⟩ := written
            refine (if_pos ⟨rfl,inside⟩).trans ?_
            by_contra different
            have raced : overtakes cfg s = true := by
              simp only [overtakes,pending,Bool.and_eq_true,decide_eq_true_eq,List.any_eq_true]
              refine ⟨column,(after,.draft n waiting),member,?_⟩
              simp only [Bool.and_eq_true,decide_eq_true_eq,List.any_eq_true,List.mem_range,bne_iff_ne]
              exact ⟨ready,i,Nat.lt_min.mpr ⟨inside,row⟩,different⟩
            rw [calm] at raced
            cases raced
          · exact if_neg written

-- A draft broadcast that kept up carries what its call proposed.
theorem relayed_drafts (cfg : Config) (calls : List (Call ReqId)) (initial : DraftTokens) (ticks : List Tick)
    (played : play MainOp.apply (Send.read cfg) (keepsUp cfg) (start (program cfg 0 calls) initial) ticks = some s)
    (arrived : (.draft n rows,payload) ∈ s.delivered) :
    ∃ call, calls[n]? = some call ∧ payload.signature = ⟨call.batch.length,cfg.numSpeculativeSteps,.int64⟩ ∧
      ∀ i j, i < call.batch.length → j < cfg.numSpeculativeSteps →
        payload.tensor.entry i j = call.relay.draftTokens.entry i j := by
  have sound := program_sound cfg calls calls 0 rfl initial False
  have kept := runs_kept (start_kept sound) (fun send _ _ => proposed_agree send) (keeps_up_undisturbed cfg)
    (play_exact.mp played)
  obtain ⟨buffer,⟨call,found,size,held⟩,rfl⟩ := kept.exact _ payload arrived
  subst size
  exact ⟨call,found,rfl,held⟩

theorem draft_relay_exact (cfg : Config) (calls : List (Call ReqId)) (initial : DraftTokens) (ticks : List Tick)
    (played : play MainOp.apply (Send.read cfg) (keepsUp cfg) (start (program cfg 0 calls) initial) ticks = some s)
    (n rows : Nat) (payload : Collective) (arrived : (.draft n rows,payload) ∈ s.delivered) :
    ∃ call, calls[n]? = some call ∧ payload.signature = ⟨call.batch.length,cfg.numSpeculativeSteps,.int64⟩ ∧
      ∀ buffer i j, i < call.batch.length → j < cfg.numSpeculativeSteps →
        payload.tensor.entry i j = run MainOp.apply (propose cfg call) buffer i j := by
  obtain ⟨call,found,signature,held⟩ := relayed_drafts cfg calls initial ticks played arrived
  refine ⟨call,found,signature,?_⟩
  intro before i j row column
  exact (held i j row column).trans (propose_exact cfg call before row column).symm

def relayConfig : Config := ⟨7,1,true,by decide,by decide⟩

def relayCall (token : Int) : Call Unit where
  batch := [⟨(),0,5,2,3,100⟩]
  dummyRun := false
  relay := ⟨⟨1,1,fun _ _ => 0⟩,fun _ => 1,fun _ => 0,⟨1,1,fun _ _ => token⟩⟩
  prefillReqs := 8
  decodeReqs := 4
  prefill_covers := by decide
  decode_covers := by decide

def relayStart : Device := start (program relayConfig 0 [relayCall 7,relayCall 9]) fun _ _ => 0

def callTicks : List Tick := List.replicate 11 .issue ++ List.replicate 6 .main

def promptTicks : List Tick := callTicks ++ List.replicate 3 .side ++ callTicks ++ List.replicate 3 .side

theorem draft_relay_exact_prompt : ∃ s,
    play MainOp.apply (Send.read relayConfig) (keepsUp relayConfig) relayStart promptTicks = some s ∧
    (.draft 1 1,Send.read relayConfig (.draft 1 1) s.mem) ∈ s.delivered ∧
    ∃ call, [relayCall 7,relayCall 9][1]? = some call ∧
      (Send.read relayConfig (.draft 1 1) s.mem).signature = ⟨call.batch.length,relayConfig.numSpeculativeSteps,.int64⟩ ∧
      ∀ buffer i j, i < call.batch.length → j < relayConfig.numSpeculativeSteps →
        s.mem i j = run MainOp.apply (propose relayConfig call) buffer i j := by
  have finishes : (play MainOp.apply (Send.read relayConfig) (keepsUp relayConfig) relayStart promptTicks).isSome := rfl
  refine ⟨Option.get _ finishes,(Option.some_get finishes).symm,?arrived,?_⟩
  case arrived => exact .tail _ (.tail _ (.tail _ (.tail _ (.tail _ (.head _)))))
  exact draft_relay_exact relayConfig [relayCall 7,relayCall 9] (fun _ _ => 0) promptTicks
    (Option.some_get finishes).symm 1 1 _ (.tail _ (.tail _ (.tail _ (.tail _ (.tail _ (.head _))))))

-- The broadcast of the first call executes behind the propose of the second.
theorem draft_overwritten : ¬∀ (cfg : Config) (calls : List (Call Unit)) (initial : DraftTokens) (ticks : List Tick)
    (s : Device), play MainOp.apply (Send.read cfg) (fun _ _ => true) (start (program cfg 0 calls) initial) ticks = some s →
    ∀ n rows payload, (.draft n rows,payload) ∈ s.delivered →
    ∃ call, calls[n]? = some call ∧ ∀ buffer i j, i < call.batch.length → j < cfg.numSpeculativeSteps →
      payload.tensor.entry i j = run MainOp.apply (propose cfg call) buffer i j := by
  intro always
  obtain ⟨call,found,proposed⟩ := always relayConfig [relayCall 7,relayCall 9] (fun _ _ => 0)
    (callTicks ++ List.replicate 2 .side ++ callTicks ++ [.side]) _ rfl 0 1 _
    (.tail _ (.tail _ (.head _)))
  cases found
  have wrong : (9 : Int) = 7 := proposed (fun _ _ => 0) 0 0 (by decide) (by decide)
  cases wrong

end Glm5Next.DraftRelay
