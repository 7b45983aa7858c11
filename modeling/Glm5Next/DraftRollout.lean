import Glm5Next.DraftInputs

namespace Glm5Next.DraftRollout
open GridStores DraftInputs

-- What one forward of the drafter and the sampling behind it are given. The
-- attention metadata holds views of query_start_loc and seq_lens.
structure Inputs (V M : Type) where
  inputIds : List Int
  positions : List Int
  hiddenStates : List (List V)
  queryStartLoc : List Int
  seqLens : List Int
  attnMetadata : Option M
  samplePositions : List Int
  currentDraftStep : Int

structure Output (V : Type) where
  draftTokens : Nat → Int
  hiddenStates : Nat → Nat → V

-- The rows and tokens of a forward, padded where a captured graph runs.
structure BatchDesc where
  numReqs : Nat
  numTokens : Nat

structure State (V M : Type) where
  mem : Buffers V
  calls : List (Inputs V M)
  attnMetadata : Option M

-- Code outside the speculator. The drafter and its sampler keep caches of their
-- own, so they answer by all the calls so far.
structure Outside (V M : Type) where
  drafter : List (Inputs V M) → Output V
  targetMetadata : M
  -- compute_slot_mappings and _build_draft_attn_metadata.
  build : (queryStartLoc positions seqLens : List Int) → (step : Nat) → M
  -- compute_slot_mappings into the same buffers and update_draft_decode_metadata.
  update : M → (queryStartLoc positions seqLens : List Int) → M
  -- In which order the device runs the statements of the n-th launch.
  schedule : Nat → List (Statement (Val V)) → List (Statement (Val V))
  all : ∀ n sts, (schedule n sts).Perm sts

section Speculator
variable {V M : Type} (o : Outside V M) (t : Target) (z : Sizes)

def view (f : Nat → Int) (n : Nat) : List Int := (List.range n).map f

def hiddenRows (mem : Buffers V) (n : Nat) : List (List V) :=
  (List.range n).map fun i => (List.range z.hiddenSize).map fun j => mem (.hiddenStates (i * z.hiddenSize + j))

def modelInputs (mem : Buffers V) (desc : BatchDesc) (attnMetadata : Option M) (samplePositions : List Int) : Inputs V M where
  inputIds := view (fun i => mem (.inputIds i)) desc.numTokens
  positions := view (fun i => mem (.positions i)) desc.numTokens
  hiddenStates := hiddenRows z mem desc.numTokens
  queryStartLoc := view (fun i => mem (.queryStartLoc i)) (desc.numReqs + 1)
  seqLens := view (fun i => mem (.seqLens i)) desc.numReqs
  attnMetadata := attnMetadata
  samplePositions := samplePositions
  currentDraftStep := mem .currentDraftStep

def lastTokenIndex (mem : Buffers V) (r : Nat) : Nat := (mem (.lastTokenIndices r) : Int).toNat

-- The end of _prefill: draft_tokens[:num_reqs, 0], hidden_states[:num_reqs] and positions[:num_reqs].
def gathered (mem : Buffers V) (rows : Nat) (out : Output V) : Buffers V
  | .draftTokens i =>
    if i / z.numSpeculativeSteps < rows ∧ i % z.numSpeculativeSteps = 0 then out.draftTokens (i / z.numSpeculativeSteps)
    else mem (.draftTokens i)
  | .hiddenStates i =>
    if i / z.hiddenSize < rows then out.hiddenStates (lastTokenIndex mem (i / z.hiddenSize)) (i % z.hiddenSize)
    else mem (.hiddenStates i)
  | .positions r => if r < rows then mem (.positions (lastTokenIndex mem r)) else mem (.positions r)
  | c => mem c

def prefill (desc : BatchDesc) (mem : Buffers V) : State V M :=
  let call := modelInputs z mem desc (some o.targetMetadata)
    (view (fun r => mem (.positions (lastTokenIndex mem r))) desc.numReqs)
  ⟨gathered z mem desc.numReqs (o.drafter [call]),[call],none⟩

def setStep (step : Nat) (mem : Buffers V) : Buffers V
  | .currentDraftStep => (step : Int)
  | c => mem c

def samplePositions (mem : Buffers V) (rows : Nat) : List Int :=
  view (fun r => if z.advanceDraftPositions then mem (.positions r)
    else (mem (.positions r) : Int) + mem .currentDraftStep) rows

def generateDraft (desc : BatchDesc) (s : State V M) : State V M :=
  let calls := s.calls ++ [modelInputs z s.mem desc s.attnMetadata (samplePositions z s.mem desc.numReqs)]
  let out := o.drafter calls
  {s with
    mem := run (o.schedule calls.length (updateDraftInputs z desc.numReqs (s.mem .currentDraftStep : Int).toNat
      out.draftTokens out.hiddenStates)) s.mem
    calls := calls}

def buildMetadata (desc : BatchDesc) (mem : Buffers V) (step : Nat) : M :=
  o.build (view (fun i => mem (.queryStartLoc i)) (desc.numReqs + 1)) (view (fun i => mem (.positions i)) z.numReqs)
    (view (fun i => mem (.seqLens i)) desc.numReqs) step

def updateMetadata (desc : BatchDesc) (mem : Buffers V) (attnMetadata : M) : M :=
  o.update attnMetadata (view (fun i => mem (.queryStartLoc i)) (desc.numReqs + 1))
    (view (fun i => mem (.positions i)) z.numReqs) (view (fun i => mem (.seqLens i)) desc.numReqs)

def multiStepTurn (skipAttn : Bool) (desc : BatchDesc) (s : State V M) (step : Nat) : State V M :=
  let s := if !skipAttn && (z.advanceDraftPositions || step == 1) then
    {s with attnMetadata := some (buildMetadata o z desc s.mem step)} else s
  generateDraft o z desc {s with mem := setStep step s.mem}

def multiStepDecode (skipAttn : Bool) (desc : BatchDesc) (s : State V M) : State V M :=
  (List.range' 1 (z.numSpeculativeSteps - 1)).foldl (multiStepTurn o z skipAttn desc) s

def fusedTurn (desc : BatchDesc) (s : State V M) (step : Nat) : State V M :=
  let s := generateDraft o z desc {s with mem := setStep step s.mem}
  if decide (step < z.numSpeculativeSteps - 1) && z.advanceDraftPositions then
    {s with attnMetadata := s.attnMetadata.map (updateMetadata o z desc s.mem)}
  else s

def fusedMultiStepDecode (skipAttn : Bool) (desc : BatchDesc) (s : State V M) : State V M :=
  let s := if skipAttn then s else {s with attnMetadata := some (buildMetadata o z desc s.mem 1)}
  (List.range' 1 (z.numSpeculativeSteps - 1)).foldl (fusedTurn o z desc) s

structure Plan where
  prefillDesc : BatchDesc
  decodeDesc : BatchDesc
  numTokensPadded : Nat
  skipAttn : Bool
  useFusedMultiStepDecode : Bool

def copyHidden (numTokensPadded : Nat) (targetHidden : Nat → Nat → V) (mem : Buffers V) : Buffers V
  | .hiddenStates i =>
    if i / z.hiddenSize < numTokensPadded then targetHidden (i / z.hiddenSize) (i % z.hiddenSize)
    else mem (.hiddenStates i)
  | c => mem c

def propose (plan : Plan) (targetHidden : Nat → Nat → V) (mem : Buffers V) : State V M :=
  let copied := copyHidden z plan.numTokensPadded targetHidden mem
  let s := prefill o z plan.prefillDesc (run (o.schedule 0 (preparePrefillInputs t z)) copied)
  if z.numSpeculativeSteps = 1 then s
  else
    let s := {s with mem := run (o.schedule 1 (prepareDecodeInputs t z)) s.mem}
    if plan.useFusedMultiStepDecode then fusedMultiStepDecode o z plan.skipAttn plan.decodeDesc s
    else multiStepDecode o z plan.skipAttn plan.decodeDesc s

def State.draftTokens (s : State V M) (r step : Nat) : Int := s.mem (.draftTokens (r * z.numSpeculativeSteps + step))

end Speculator

section Rollout
variable {V M : Type} (o : Outside V M) (reqs : List Request) (t : Target) (z : Sizes)

def lastPosition (r : Nat) : Int := ((reqs[r]?.map fun q => q.numComputed + q.kept - 1).getD 0 : Nat)

def draftPosition (r k : Nat) : Int :=
  if z.advanceDraftPositions then min (lastPosition reqs r + k) ((z.maxModelLen : Int) - 1) else lastPosition reqs r

def draftLength (r k : Nat) : Int :=
  if r < z.numReqs then draftPosition reqs z r k + 1
  else if z.advanceDraftPositions then min ((k : Int) - 1) z.maxModelLen else 0

def stepStarts (desc : BatchDesc) : List Int := view (fun i => ((min i z.numReqs : Nat) : Int)) (desc.numReqs + 1)

def stepPositions (k : Nat) : List Int := view (fun r => draftPosition reqs z r k) z.numReqs

def stepLengths (desc : BatchDesc) (k : Nat) : List Int := view (fun r => draftLength reqs z r k) desc.numReqs

def builtMetadata (desc : BatchDesc) (k : Nat) : M :=
  o.build (stepStarts z desc) (stepPositions reqs z k) (stepLengths reqs z desc k) k

-- Built for the first step and brought up to date `later` times.
def updatedMetadata (desc : BatchDesc) : (later : Nat) → M
  | 0 => builtMetadata o reqs z desc 1
  | m + 1 => o.update (updatedMetadata desc m) (stepStarts z desc) (stepPositions reqs z (m + 2))
      (stepLengths reqs z desc (m + 2))

-- The metadata of the k-th step; where positions stand still it is built once.
def stepMetadata (plan : Plan) (k : Nat) : Option M :=
  if plan.skipAttn then none
  else if !z.advanceDraftPositions then some (builtMetadata o reqs z plan.decodeDesc 1)
  else if plan.useFusedMultiStepDecode then some (updatedMetadata o reqs z plan.decodeDesc (k - 1))
  else some (builtMetadata o reqs z plan.decodeDesc k)

def feedbackRow (r k : Nat) : Nat := if k = 1 then queryStart reqs r + keptOf reqs r - 1 else r

structure PrefillGiven (targetHidden : Nat → Nat → V) (call : Inputs V M) : Prop where
  inputId : ∀ r q k, reqs[r]? = some q → k < q.kept → call.inputIds[queryStart reqs r + k]? =
    some (if k + 1 < q.kept then t.inputIds (queryStart reqs r + (k + 1)) else t.nextToken r)
  position : ∀ r q k, reqs[r]? = some q → k < q.kept → call.positions[queryStart reqs r + k]? =
    some ((q.numComputed + k : Nat) : Int)
  hidden : ∀ i < (queryLens reqs).sum, call.hiddenStates[i]? = some ((List.range z.hiddenSize).map (targetHidden i))
  queryStart : ∀ i ≤ z.numReqs, call.queryStartLoc[i]? = some (queryStart reqs i : Int)
  seqLen : ∀ (r : Nat) (q : Request), reqs[r]? = some q → call.seqLens[r]? = some ((q.numComputed + q.queryLen : Nat) : Int)
  metadata : call.attnMetadata = some o.targetMetadata
  samplePosition : ∀ r < z.numReqs, call.samplePositions[r]? = some (lastPosition reqs r)
  step : call.currentDraftStep = 0

structure DecodeGiven (plan : Plan) (calls : List (Inputs V M)) (k : Nat) (call : Inputs V M) : Prop where
  inputId : ∀ r < z.numReqs, call.inputIds[r]? = some ((o.drafter (calls.take k)).draftTokens r)
  position : ∀ r < z.numReqs, call.positions[r]? = some (draftPosition reqs z r k)
  hidden : ∀ r < z.numReqs, call.hiddenStates[r]? =
    some ((List.range z.hiddenSize).map ((o.drafter (calls.take k)).hiddenStates (feedbackRow reqs r k)))
  queryStart : ∀ i ≤ plan.decodeDesc.numReqs, call.queryStartLoc[i]? = some ((min i z.numReqs : Nat) : Int)
  seqLen : ∀ r < plan.decodeDesc.numReqs, call.seqLens[r]? = some (draftLength reqs z r k)
  metadata : call.attnMetadata = stepMetadata o reqs z plan k
  samplePosition : ∀ r < z.numReqs, call.samplePositions[r]? =
    some (if z.advanceDraftPositions then draftPosition reqs z r k else lastPosition reqs r + k)
  step : call.currentDraftStep = k

-- The buffers before the k-th step, with `rows` the requests and their padding.
structure Ready (rows k : Nat) (s : State V M) : Prop where
  inputId : ∀ r < z.numReqs, s.mem (.inputIds r) = (o.drafter s.calls).draftTokens r
  position : ∀ r < z.numReqs, s.mem (.positions r) = draftPosition reqs z r k
  hidden : ∀ r < z.numReqs, ∀ j < z.hiddenSize,
    s.mem (.hiddenStates (r * z.hiddenSize + j)) = (o.drafter s.calls).hiddenStates (feedbackRow reqs r k) j
  queryStart : ∀ i ≤ z.maxNumReqs, s.mem (.queryStartLoc i) = ((min i z.numReqs : Nat) : Int)
  seqLen : ∀ r < rows, s.mem (.seqLens r) = draftLength reqs z r k

structure Progress (plan : Plan) (first : Inputs V M) (k : Nat) (s : State V M) : Prop where
  counted : s.calls.length = k
  started : s.calls[0]? = some first
  given : ∀ i, 1 ≤ i → i < k → ∃ call, s.calls[i]? = some call ∧ DecodeGiven o reqs z plan s.calls i call
  stored : ∀ r < z.numReqs, ∀ i < k, s.draftTokens z r i = (o.drafter (s.calls.take (i + 1))).draftTokens r
  ready : k < z.numSpeculativeSteps → Ready o reqs z plan.decodeDesc.numReqs k s

structure Covers (plan : Plan) : Prop where
  tokens : (queryLens reqs).sum ≤ plan.numTokensPadded
  prefillTokens : (queryLens reqs).sum ≤ plan.prefillDesc.numTokens
  prefillReqs : z.numReqs ≤ plan.prefillDesc.numReqs
  decodeTokens : z.numReqs ≤ plan.decodeDesc.numTokens
  decodeReqs : z.numReqs ≤ plan.decodeDesc.numReqs
  decodeFits : plan.decodeDesc.numReqs ≤ z.maxNumReqs

variable {o reqs t z}

theorem view_get (f : Nat → Int) (inside : i < n) : (view f n)[i]? = some (f i) := by simp [view,inside]

theorem row_get (mem : Buffers V) (inside : i < n) : (hiddenRows z mem n)[i]? =
    some ((List.range z.hiddenSize).map fun j => mem (.hiddenStates (i * z.hiddenSize + j))) := by
  rw [hiddenRows,List.getElem?_map,List.getElem?_range inside]
  rfl

theorem position_next (r k : Nat) :
    draftPosition reqs z r (k + 1) =
      if z.advanceDraftPositions then min (draftPosition reqs z r k + 1) ((z.maxModelLen : Int) - 1)
      else draftPosition reqs z r k := by
  unfold draftPosition
  split
  · push_cast
    omega
  · rfl

theorem length_next (later : z.numReqs ≤ r) (begun : 1 ≤ k) :
    draftLength reqs z r (k + 1) =
      if z.advanceDraftPositions then min (draftLength reqs z r k + 1) (z.maxModelLen : Int)
      else draftLength reqs z r k := by
  have past : ¬ r < z.numReqs := Nat.not_lt.mpr later
  obtain ⟨before,rfl⟩ := Nat.exists_eq_add_of_le begun
  unfold draftLength
  rw [if_neg past,if_neg past]
  split
  · push_cast
    omega
  · rfl

theorem given_exact {s : State V M} {plan : Plan} (ready : Ready o reqs z plan.decodeDesc.numReqs k s)
    (counted : s.calls.length = k) (tokens : z.numReqs ≤ plan.decodeDesc.numTokens)
    (fits : plan.decodeDesc.numReqs ≤ z.maxNumReqs) (metadata : s.attnMetadata = stepMetadata o reqs z plan k)
    (later : List (Inputs V M)) (samplePositions : List Int)
    (sampled : ∀ r < z.numReqs, samplePositions[r]? =
      some (if z.advanceDraftPositions then draftPosition reqs z r k else lastPosition reqs r + k)) :
    DecodeGiven o reqs z plan (s.calls ++ later) k
      (modelInputs z (setStep k s.mem) plan.decodeDesc s.attnMetadata samplePositions) := by
  have calls : (s.calls ++ later).take k = s.calls := by rw [← counted,List.take_left]
  constructor
  · intro r row
    rw [calls,← ready.inputId r row]
    exact view_get _ (Nat.lt_of_lt_of_le row tokens)
  · intro r row
    rw [← ready.position r row]
    exact view_get _ (Nat.lt_of_lt_of_le row tokens)
  · intro r row
    rw [calls]
    refine (row_get _ (Nat.lt_of_lt_of_le row tokens)).trans (congrArg some ?_)
    apply List.map_congr_left
    intro j listed
    exact ready.hidden r row j (List.mem_range.mp listed)
  · intro i inside
    rw [← ready.queryStart i (Nat.le_trans inside fits)]
    exact view_get _ (Nat.lt_succ_of_le inside)
  · intro r row
    rw [← ready.seqLen r row]
    exact view_get _ row
  · exact metadata
  · exact sampled
  · rfl

theorem take_before (calls later : List (Inputs V M)) (inside : i ≤ calls.length) :
    (calls ++ later).take i = calls.take i := List.take_append_of_le_length inside

theorem DecodeGiven.extended {calls : List (Inputs V M)} (given : DecodeGiven o reqs z plan calls i call)
    (inside : i ≤ calls.length) (later : List (Inputs V M)) : DecodeGiven o reqs z plan (calls ++ later) i call := by
  have same := take_before calls later inside
  exact {given with
    inputId := by rw [same]; exact given.inputId
    hidden := by rw [same]; exact given.hidden}

theorem clamp_next (position maxModelLen : Int) :
    min (position + 1 + 1) maxModelLen = min (position + 1) (maxModelLen - 1) + 1 := by omega

theorem ready_next {s : State V M} (ready : Ready o reqs z n k s) (later : k + 1 < z.numSpeculativeSteps) (first : 1 ≤ k)
    (rows : z.numReqs ≤ n) (calls : List (Inputs V M)) :
    Ready o reqs z n (k + 1) {s with
      mem := updated z n k (o.drafter calls).draftTokens (o.drafter calls).hiddenStates (setStep k s.mem)
      calls := calls} := by
  have more : k < z.numSpeculativeSteps - 1 := Nat.lt_sub_of_add_lt later
  constructor
  · intro r row
    exact if_pos ⟨more,Nat.lt_of_lt_of_le row rows⟩
  · intro r row
    have inside := Nat.lt_of_lt_of_le row rows
    have before := ready.position r row
    rw [position_next]
    simp only [updated,setStep,more,inside,before,and_true,true_and]
  · intro r row j short
    have next : feedbackRow reqs r (k + 1) = r := if_neg (by omega)
    have inside := Nat.lt_of_lt_of_le row rows
    simp only [updated,setStep,more,inside,next,Ragged.grid_row short,Ragged.grid_col short,and_self,if_true]
  · intro i inside
    exact ready.queryStart i inside
  · intro r inside
    have before := ready.seqLen r inside
    simp only [updated,setStep,more,inside,before,and_true,true_and]
    by_cases row : r < z.numReqs
    · rw [draftLength,draftLength,if_pos row,if_pos row,position_next]
      split
      · exact clamp_next _ _
      · rfl
    · exact (length_next (Nat.le_of_not_lt row) first).symm

theorem generate_exact (s : State V M) (inside : k < z.numSpeculativeSteps) :
    generateDraft o z desc {s with mem := setStep k s.mem} =
      let calls := s.calls ++ [modelInputs z (setStep k s.mem) desc s.attnMetadata
        (samplePositions z (setStep k s.mem) desc.numReqs)]
      {s with
        mem := updated z desc.numReqs k (o.drafter calls).draftTokens (o.drafter calls).hiddenStates (setStep k s.mem)
        calls := calls} := by
  unfold generateDraft
  dsimp only
  rw [show ((setStep k s.mem) .currentDraftStep : Int).toNat = k from Int.toNat_natCast k,
    update_exact _ _ inside _ _ (o.all _ _)]

theorem draft_step {s : State V M} {plan : Plan} (covers : Covers reqs z plan)
    (progress : Progress o reqs z plan first k s) (metadata : s.attnMetadata = stepMetadata o reqs z plan k)
    (begun : 1 ≤ k) (inside : k < z.numSpeculativeSteps) :
    Progress o reqs z plan first (k + 1)
      (generateDraft o z plan.decodeDesc {s with mem := setStep k s.mem}) := by
  have ready := progress.ready inside
  have counted := progress.counted
  have sampled : ∀ r < z.numReqs, (samplePositions z (setStep k s.mem) plan.decodeDesc.numReqs)[r]? =
      some (if z.advanceDraftPositions then draftPosition reqs z r k else lastPosition reqs r + k) := by
    intro r row
    have before := ready.position r row
    rw [samplePositions,view_get _ (Nat.lt_of_lt_of_le row covers.decodeReqs)]
    simp only [setStep,before]
    split
    · rfl
    · rename_i still
      simp [draftPosition,still]
  have given := fun call => given_exact ready counted covers.decodeTokens covers.decodeFits metadata [call] _ sampled
  rw [generate_exact s inside]
  dsimp only
  generalize modelInputs z (setStep k s.mem) plan.decodeDesc s.attnMetadata
    (samplePositions z (setStep k s.mem) plan.decodeDesc.numReqs) = call at given ⊢
  generalize answered : o.drafter (s.calls ++ [call]) = out
  constructor
  · simp [counted]
  · rw [List.getElem?_append_left (by omega),progress.started]
  · intro i low high
    rcases Nat.lt_succ_iff_lt_or_eq.mp high with before | rfl
    · obtain ⟨old,listed,kept⟩ := progress.given i low before
      exact ⟨old,by rw [List.getElem?_append_left (by omega),listed],kept.extended (by omega) [call]⟩
    · exact ⟨call,by simp [← counted],given call⟩
  · intro r row i inside'
    have column : i < z.numSpeculativeSteps := by omega
    have wide := Nat.lt_of_lt_of_le row covers.decodeReqs
    rcases Nat.lt_succ_iff_lt_or_eq.mp inside' with before | rfl
    · have other : i ≠ k := Nat.ne_of_lt before
      rw [take_before s.calls [call] (by omega),← progress.stored r row i before]
      simp only [State.draftTokens,updated,setStep,Ragged.grid_row column,Ragged.grid_col column,other,and_false,if_false]
    · have whole : (s.calls ++ [call]).take (i + 1) = s.calls ++ [call] := List.take_of_length_le (by simp [counted])
      rw [whole,answered]
      simp only [State.draftTokens,updated,Ragged.grid_row column,Ragged.grid_col column,wide,and_self,if_true]
  · intro later
    subst answered
    exact ready_next ready later begun covers.decodeReqs _

theorem metadata_apart (attnMetadata : Option M) {s : State V M} (progress : Progress o reqs z plan first k s) :
    Progress o reqs z plan first k {s with attnMetadata := attnMetadata} :=
  {progress with ready := fun later => {progress.ready later with}}

-- `carried` is what a loop keeps of the metadata between its turns.
theorem turns_run {s : State V M} {plan : Plan} (turn : State V M → Nat → State V M) (carried : Nat → Option M → Prop)
    (stepped : ∀ k s, 1 ≤ k → k < z.numSpeculativeSteps → Progress o reqs z plan first k s → carried k s.attnMetadata →
      Progress o reqs z plan first (k + 1) (turn s k) ∧ carried (k + 1) (turn s k).attnMetadata)
    (start : Progress o reqs z plan first 1 s) (begun : carried 1 s.attnMetadata) (m : Nat)
    (inside : m ≤ z.numSpeculativeSteps - 1) :
    Progress o reqs z plan first (1 + m) ((List.range' 1 m).foldl turn s) ∧
      carried (1 + m) ((List.range' 1 m).foldl turn s).attnMetadata := by
  have positive := z.drafts
  induction m with
  | zero => exact ⟨start,begun⟩
  | succ m ih =>
      obtain ⟨progress,kept⟩ := ih (by omega)
      rw [List.range'_concat,List.foldl_append,Nat.one_mul]
      exact stepped (1 + m) _ (Nat.le_add_right 1 m) (by omega) progress kept

theorem loop_progress {s : State V M} {plan : Plan} (turn : State V M → Nat → State V M) (carried : Nat → Option M → Prop)
    (stepped : ∀ k s, 1 ≤ k → k < z.numSpeculativeSteps → Progress o reqs z plan first k s → carried k s.attnMetadata →
      Progress o reqs z plan first (k + 1) (turn s k) ∧ carried (k + 1) (turn s k).attnMetadata)
    (start : Progress o reqs z plan first 1 s) (begun : carried 1 s.attnMetadata) :
    Progress o reqs z plan first z.numSpeculativeSteps ((List.range' 1 (z.numSpeculativeSteps - 1)).foldl turn s) := by
  have ran := (turns_run turn carried stepped start begun _ (Nat.le_refl _)).1
  have total : 1 + (z.numSpeculativeSteps - 1) = z.numSpeculativeSteps := Nat.add_sub_cancel' z.drafts
  rwa [total] at ran

section Metadata
variable {s : State V M} {desc : BatchDesc} (ready : Ready o reqs z desc.numReqs k s)
  (fits : desc.numReqs ≤ z.maxNumReqs)
include ready fits

theorem starts_exact : view (fun i => s.mem (.queryStartLoc i)) (desc.numReqs + 1) = stepStarts z desc := by
  apply List.map_congr_left
  intro i listed
  exact ready.queryStart i (Nat.le_trans (Nat.le_of_lt_succ (List.mem_range.mp listed)) fits)

omit fits in
theorem positions_exact : view (fun r => s.mem (.positions r)) z.numReqs = stepPositions reqs z k := by
  apply List.map_congr_left
  intro r listed
  exact ready.position r (List.mem_range.mp listed)

omit fits in
theorem lengths_exact : view (fun r => s.mem (.seqLens r)) desc.numReqs = stepLengths reqs z desc k := by
  apply List.map_congr_left
  intro r listed
  exact ready.seqLen r (List.mem_range.mp listed)

theorem built_exact : buildMetadata o z desc s.mem k = builtMetadata o reqs z desc k := by
  unfold buildMetadata builtMetadata
  rw [starts_exact ready fits,positions_exact ready,lengths_exact ready]

theorem update_metadata_exact (metadata : M) : updateMetadata o z desc s.mem metadata =
    o.update metadata (stepStarts z desc) (stepPositions reqs z k) (stepLengths reqs z desc k) := by
  unfold updateMetadata
  rw [starts_exact ready fits,positions_exact ready,lengths_exact ready]

end Metadata

theorem generate_metadata (s : State V M) : (generateDraft o z desc s).attnMetadata = s.attnMetadata := rfl

def turnMetadata (o : Outside V M) (z : Sizes) (skipAttn : Bool) (desc : BatchDesc) (s : State V M) (k : Nat) : Option M :=
  if !skipAttn && (z.advanceDraftPositions || k == 1) then some (buildMetadata o z desc s.mem k) else s.attnMetadata

theorem plain_turn (skipAttn : Bool) (s : State V M) (k : Nat) :
    multiStepTurn o z skipAttn desc s k =
      generateDraft o z desc ⟨setStep k s.mem,s.calls,turnMetadata o z skipAttn desc s k⟩ := by
  unfold multiStepTurn turnMetadata
  dsimp only
  split <;> rfl

def Rebuilt (o : Outside V M) (reqs : List Request) (z : Sizes) (plan : Plan) (k : Nat) (metadata : Option M) : Prop :=
  (plan.skipAttn = true → metadata = none) ∧
    (1 < k → z.advanceDraftPositions = false → metadata = stepMetadata o reqs z plan 1)

theorem rebuilt_exact {s : State V M} {plan : Plan} (plain : plan.useFusedMultiStepDecode = false) (begun : 1 ≤ k)
    (ready : Ready o reqs z plan.decodeDesc.numReqs k s) (fits : plan.decodeDesc.numReqs ≤ z.maxNumReqs)
    (kept : Rebuilt o reqs z plan k s.attnMetadata) :
    turnMetadata o z plan.skipAttn plan.decodeDesc s k = stepMetadata o reqs z plan k := by
  unfold turnMetadata
  rw [built_exact ready fits]
  cases skip : plan.skipAttn with
  | true => simp [stepMetadata,skip,kept.1 skip]
  | false =>
      cases advancing : z.advanceDraftPositions with
      | true => simp [stepMetadata,skip,advancing,plain]
      | false =>
          rcases Nat.eq_or_lt_of_le begun with rfl | later
          · simp [stepMetadata,skip,advancing]
          · have again : (k == 1) = false := by simpa using Nat.ne_of_gt later
            rw [again,kept.2 later advancing]
            simp [stepMetadata,skip,advancing]

theorem plain_step {s : State V M} {plan : Plan} (covers : Covers reqs z plan)
    (plain : plan.useFusedMultiStepDecode = false) (begun : 1 ≤ k) (inside : k < z.numSpeculativeSteps)
    (progress : Progress o reqs z plan first k s) (kept : Rebuilt o reqs z plan k s.attnMetadata) :
    Progress o reqs z plan first (k + 1) (multiStepTurn o z plan.skipAttn plan.decodeDesc s k) ∧
      Rebuilt o reqs z plan (k + 1) (multiStepTurn o z plan.skipAttn plan.decodeDesc s k).attnMetadata := by
  have metadata := rebuilt_exact plain begun (progress.ready inside) covers.decodeFits kept
  rw [plain_turn,generate_metadata]
  dsimp only
  rw [metadata]
  refine ⟨draft_step covers (metadata_apart _ progress) rfl begun inside,fun skip => ?_,fun _ still => ?_⟩
  · simp [stepMetadata,skip]
  · simp [stepMetadata,still]

theorem fused_step {s : State V M} {plan : Plan} (covers : Covers reqs z plan)
    (fused : plan.useFusedMultiStepDecode = true) (begun : 1 ≤ k) (inside : k < z.numSpeculativeSteps)
    (progress : Progress o reqs z plan first k s) (kept : s.attnMetadata = stepMetadata o reqs z plan k) :
    Progress o reqs z plan first (k + 1) (fusedTurn o z plan.decodeDesc s k) ∧
      (k + 1 < z.numSpeculativeSteps →
        (fusedTurn o z plan.decodeDesc s k).attnMetadata = stepMetadata o reqs z plan (k + 1)) := by
  have stepped := draft_step covers progress kept begun inside
  unfold fusedTurn
  dsimp only
  generalize drafted : generateDraft o z plan.decodeDesc {s with mem := setStep k s.mem} = next at stepped
  have same : next.attnMetadata = stepMetadata o reqs z plan k := by
    rw [← drafted,generate_metadata]
    exact kept
  obtain ⟨m,rfl⟩ := Nat.exists_eq_add_of_le' begun
  split
  · rename_i advances
    simp only [Bool.and_eq_true,decide_eq_true_eq] at advances
    refine ⟨metadata_apart _ stepped,fun later => ?_⟩
    show next.attnMetadata.map _ = _
    rw [same]
    cases skip : plan.skipAttn with
    | true => simp [stepMetadata,skip]
    | false =>
        simp only [stepMetadata,skip,advances.2,fused,Bool.not_true,Bool.false_eq_true,if_false,if_true,Option.map_some,
          Nat.add_sub_cancel]
        rw [update_metadata_exact (stepped.ready later) covers.decodeFits]
        rfl
  · rename_i stays
    refine ⟨stepped,fun later => ?_⟩
    have before : m + 1 < z.numSpeculativeSteps - 1 := Nat.lt_sub_of_add_lt later
    have still : z.advanceDraftPositions = false := by simpa [before] using stays
    rw [same]
    simp [stepMetadata,still]

def draftMaxSeqLen (z : Sizes) (maxSeqLen : Nat) : Nat := min (maxSeqLen + z.numSpeculativeSteps) z.maxModelLen

theorem draft_length_bounded (described : Describes reqs t z) (maxSeqLen : Nat) (row : r < z.numReqs)
    (inside : k < z.numSpeculativeSteps) (bounded : t.seqLens r ≤ maxSeqLen) (short : maxSeqLen ≤ z.maxModelLen) :
    draftPosition reqs z r k + 1 ≤ draftMaxSeqLen z maxSeqLen := by
  obtain ⟨q,found⟩ := request_found described row
  have last : lastPosition reqs r = ((q.numComputed + q.kept - 1 : Nat) : Int) := by simp [lastPosition,found]
  have kept : q.kept ≤ q.queryLen := Nat.sub_le _ _
  have positive := kept_pos q
  rw [described.seqLens r q found] at bounded
  unfold draftPosition draftMaxSeqLen
  rw [last]
  split <;> omega

theorem last_found {q : Request} (found : reqs[r]? = some q) :
    lastPosition reqs r = ((q.numComputed + q.kept - 1 : Nat) : Int) := by simp [lastPosition,found]

theorem last_index {q : Request} (mem : Buffers V) (described : Describes reqs t z) (found : reqs[r]? = some q) :
    lastTokenIndex (prefillPrepared reqs t z mem) r = queryStart reqs r + q.kept - 1 := by
  have row : r < z.numReqs := described.counted ▸ (List.getElem?_eq_some_iff.mp found).1
  simp [lastTokenIndex,prefillPrepared,row,kept_found found]

theorem prepared_input {q : Request} (mem : Buffers V) (found : reqs[r]? = some q) (inside : k < q.kept) :
    prefillPrepared reqs t z mem (.inputIds (queryStart reqs r + k)) =
      if k + 1 < q.kept then t.inputIds (queryStart reqs r + (k + 1)) else t.nextToken r := by
  have bounded : q.kept ≤ q.queryLen := Nat.sub_le _ _
  obtain ⟨owner,within⟩ := owner_row found (show k < q.queryLen by omega)
  by_cases before : k + 1 < q.kept
  · simp [prefillPrepared,owner,within,kept_found found,before,Nat.add_assoc]
  · have ends : k + 1 = q.kept := by omega
    simp [prefillPrepared,owner,within,kept_found found,ends,Nat.add_assoc]

theorem prepared_position {q : Request} (described : Describes reqs t z) (mem : Buffers V) (found : reqs[r]? = some q)
    (inside : k < q.kept) :
    prefillPrepared reqs t z mem (.positions (queryStart reqs r + k)) = ((q.numComputed + k : Nat) : Int) := by
  have short : k < q.queryLen := Nat.lt_of_lt_of_le inside (Nat.sub_le _ _)
  obtain ⟨owner,within⟩ := owner_row found short
  simp only [prefillPrepared,owner,within,kept_found found,true_and,Nat.add_lt_add_iff_left,inside,if_true]
  exact described.positions r q k found short

theorem prepared_last {q : Request} (described : Describes reqs t z) (mem : Buffers V) (found : reqs[r]? = some q) :
    prefillPrepared reqs t z mem (.positions (lastTokenIndex (prefillPrepared reqs t z mem) r)) =
      lastPosition reqs r := by
  have positive := kept_pos q
  have place : queryStart reqs r + q.kept - 1 = queryStart reqs r + (q.kept - 1) := by omega
  have count : q.numComputed + (q.kept - 1) = q.numComputed + q.kept - 1 := by omega
  rw [last_index mem described found,place,prepared_position described mem found (Nat.sub_lt positive Nat.one_pos),
    last_found found,count]

theorem prefill_given {plan : Plan} (covers : Covers reqs z plan) (described : Describes reqs t z)
    (targetHidden : Nat → Nat → V) (mem : Buffers V) :
    let prepared := prefillPrepared reqs t z (copyHidden z plan.numTokensPadded targetHidden mem)
    PrefillGiven o reqs t z targetHidden (modelInputs z prepared plan.prefillDesc (some o.targetMetadata)
      (view (fun r => prepared (.positions (lastTokenIndex prepared r))) plan.prefillDesc.numReqs)) := by
  intro prepared
  have bound : ∀ (r : Nat) (q : Request), reqs[r]? = some q → r < z.numReqs :=
    fun r q found => described.counted ▸ (List.getElem?_eq_some_iff.mp found).1
  have token : ∀ (r k : Nat) (q : Request), reqs[r]? = some q → k < q.kept →
      queryStart reqs r + k < plan.prefillDesc.numTokens := by
    intro r k q found inside
    have short : k < q.queryLen := Nat.lt_of_lt_of_le inside (Nat.sub_le _ _)
    exact Nat.lt_of_lt_of_le (owner_row found short).2 covers.prefillTokens
  constructor
  · intro r q k found inside
    rw [← prepared_input (z := z) (copyHidden z plan.numTokensPadded targetHidden mem) found inside]
    exact view_get _ (token r k q found inside)
  · intro r q k found inside
    rw [← prepared_position described (copyHidden z plan.numTokensPadded targetHidden mem) found inside]
    exact view_get _ (token r k q found inside)
  · intro i inside
    refine (row_get _ (Nat.lt_of_lt_of_le inside covers.prefillTokens)).trans (congrArg some ?_)
    apply List.map_congr_left
    intro j listed
    have short := List.mem_range.mp listed
    have copied := Nat.lt_of_lt_of_le inside covers.tokens
    show copyHidden z plan.numTokensPadded targetHidden mem (.hiddenStates (i * z.hiddenSize + j)) = targetHidden i j
    simp only [copyHidden,Ragged.grid_row short,Ragged.grid_col short,copied,if_true]
  · intro i inside
    have wide : i ≤ z.maxNumReqs := Nat.le_trans inside z.fits
    refine (view_get _ (Nat.lt_succ_of_le (Nat.le_trans inside covers.prefillReqs))).trans (congrArg some ?_)
    simp [prepared,prefillPrepared,wide,Nat.min_eq_left inside]
  · intro r q found
    have row := bound r q found
    refine (view_get _ (Nat.lt_of_lt_of_le row covers.prefillReqs)).trans (congrArg some ?_)
    rw [← described.seqLens r q found]
    simp [prepared,prefillPrepared,row]
  · rfl
  · intro r row
    obtain ⟨q,found⟩ := request_found described row
    refine (view_get _ (Nat.lt_of_lt_of_le row covers.prefillReqs)).trans (congrArg some ?_)
    exact prepared_last described _ found
  · rfl

theorem first_ready {plan : Plan} (covers : Covers reqs z plan) (described : Describes reqs t z) (source : Buffers V)
    (call : Inputs V M) :
    let prepared := prefillPrepared reqs t z source
    Ready o reqs z plan.decodeDesc.numReqs 1
      ⟨decodePrepared t z (gathered z prepared plan.prefillDesc.numReqs (o.drafter [call])),[call],none⟩ := by
  intro prepared
  have wide : ∀ r < z.numReqs, r < plan.prefillDesc.numReqs := fun r row => Nat.lt_of_lt_of_le row covers.prefillReqs
  have gatheredPosition : ∀ r < z.numReqs,
      gathered z prepared plan.prefillDesc.numReqs (o.drafter [call]) (.positions r) = lastPosition reqs r := by
    intro r row
    obtain ⟨q,found⟩ := request_found described row
    exact (if_pos (wide r row)).trans (prepared_last described source found)
  have left : ∀ r < z.numReqs, t.seqLenLeft r = lastPosition reqs r + 1 := by
    intro r row
    obtain ⟨q,found⟩ := request_found described row
    have accepted := q.accepted
    rw [Target.seqLenLeft,described.seqLens r q found,described.rejected r q found,last_found found,Request.kept]
    omega
  constructor
  · intro r row
    have head : r * z.numSpeculativeSteps / z.numSpeculativeSteps = r := Nat.mul_div_cancel r z.drafts
    simp [decodePrepared,gathered,row,head,wide r row]
  · intro r row
    have before := gatheredPosition r row
    simp only [decodePrepared,row,before,and_true,draftPosition]
    rfl
  · intro r row j short
    obtain ⟨q,found⟩ := request_found described row
    have place := last_index source described found
    simp only [decodePrepared,gathered,Ragged.grid_row short,Ragged.grid_col short,wide r row,if_true,prepared,place,
      feedbackRow,kept_found found]
  · intro i inside
    simp only [decodePrepared,inside,if_true]
    split
    · rename_i row
      rw [Nat.min_eq_left (Nat.le_of_lt row)]
    · rename_i past
      rw [Nat.min_eq_right (Nat.le_of_not_lt past)]
  · intro r inside
    by_cases row : r < z.numReqs
    · simp only [decodePrepared,row,if_true,left r row,draftLength,draftPosition]
      split
      · exact clamp_next _ _
      · rfl
    · have padded := Nat.lt_of_lt_of_le inside covers.decodeFits
      simp only [decodePrepared,row,padded,if_false,if_true,draftLength]
      split
      · exact (Int.min_eq_left (Int.natCast_nonneg _)).symm
      · rfl

theorem prefill_progress {plan : Plan} (covers : Covers reqs z plan) (described : Describes reqs t z)
    (targetHidden : Nat → Nat → V) (mem : Buffers V) :
    ∃ first, PrefillGiven o reqs t z targetHidden first ∧
      Progress o reqs z plan first 1
        (let s := prefill o z plan.prefillDesc (run (o.schedule 0 (preparePrefillInputs t z))
          (copyHidden z plan.numTokensPadded targetHidden mem))
        if z.numSpeculativeSteps = 1 then s
        else {s with mem := run (o.schedule 1 (prepareDecodeInputs t z)) s.mem}) := by
  rw [prefill_exact described _ _ (o.all _ _)]
  generalize prepared : prefillPrepared reqs t z (copyHidden z plan.numTokensPadded targetHidden mem) = launched
  generalize called : modelInputs z launched plan.prefillDesc (some o.targetMetadata)
    (view (fun r => launched (.positions (lastTokenIndex launched r))) plan.prefillDesc.numReqs) = first
  have filled : prefill o z plan.prefillDesc launched =
      ⟨gathered z launched plan.prefillDesc.numReqs (o.drafter [first]),[first],none⟩ := by
    subst called
    rfl
  have column : ∀ r, r * z.numSpeculativeSteps / z.numSpeculativeSteps = r := fun r => Nat.mul_div_cancel r z.drafts
  have wide : ∀ r < z.numReqs, r < plan.prefillDesc.numReqs := fun r row => Nat.lt_of_lt_of_le row covers.prefillReqs
  have tabled : ∀ r < z.numReqs, ∀ i < 1,
      gathered z launched plan.prefillDesc.numReqs (o.drafter [first]) (.draftTokens (r * z.numSpeculativeSteps + i)) =
        (o.drafter ([first].take (i + 1))).draftTokens r := by
    intro r row i single
    obtain rfl : i = 0 := Nat.lt_one_iff.mp single
    simp [gathered,column,wide r row]
  refine ⟨first,?_,?_⟩
  · subst prepared
    subst called
    exact prefill_given covers described targetHidden mem
  · rw [filled]
    dsimp only
    split
    · rename_i single
      exact ⟨rfl,rfl,fun i low high => absurd high (Nat.not_lt.mpr low),tabled,fun more => absurd single (Nat.ne_of_gt more)⟩
    · rw [decode_exact _ _ (o.all _ _)]
      refine ⟨rfl,rfl,fun i low high => absurd high (Nat.not_lt.mpr low),tabled,fun _ => ?_⟩
      subst prepared
      exact first_ready covers described _ first

theorem propose_progress (plan : Plan) (covers : Covers reqs z plan) (described : Describes reqs t z)
    (targetHidden : Nat → Nat → V) (mem : Buffers V) :
    ∃ first, PrefillGiven o reqs t z targetHidden first ∧
      Progress o reqs z plan first z.numSpeculativeSteps (propose o t z plan targetHidden mem) := by
  obtain ⟨first,given,start⟩ := prefill_progress (o := o) covers described targetHidden mem
  refine ⟨first,given,?_⟩
  have positive := z.drafts
  have unset (mem : Buffers V) : (prefill o z plan.prefillDesc mem).attnMetadata = none := rfl
  unfold propose
  dsimp only at start ⊢
  split
  · rename_i single
    rw [if_pos single] at start
    rw [single]
    exact start
  · rename_i several
    rw [if_neg several] at start
    have more : 1 < z.numSpeculativeSteps := by omega
    split
    · rename_i fused
      unfold fusedMultiStepDecode
      refine loop_progress (fusedTurn o z plan.decodeDesc)
        (fun k metadata => k < z.numSpeculativeSteps → metadata = stepMetadata o reqs z plan k)
        (fun k s begun inside progress kept => fused_step covers fused begun inside progress (kept inside)) ?_ fun _ => ?_
      · split
        · exact start
        · exact metadata_apart _ start
      · split
        · rename_i skip
          simp [stepMetadata,skip,unset]
        · rename_i attends
          rw [built_exact (start.ready more) covers.decodeFits]
          cases advancing : z.advanceDraftPositions <;> simp [stepMetadata,attends,advancing,fused,updatedMetadata]
    · rename_i plain
      unfold multiStepDecode
      refine loop_progress _ (Rebuilt o reqs z plan) (fun k s begun inside progress kept => plain_step covers
        (by simpa using plain) begun inside progress kept) start ?_
      exact ⟨fun _ => rfl,fun later => absurd later (Nat.lt_irrefl 1)⟩

end Rollout

-- Whatever the drafter answers, in whichever order the kernels' programs run and
-- however the batch is padded: every forward goes on from the draft before it,
-- and the table holds what was sampled.
theorem draft_rollout_exact {V M : Type} (o : Outside V M) (reqs : List Request) (t : Target) (z : Sizes) (plan : Plan)
    (covers : Covers reqs z plan) (described : Describes reqs t z) (targetHidden : Nat → Nat → V) (mem : Buffers V) :
    let s := propose o t z plan targetHidden mem
    s.calls.length = z.numSpeculativeSteps ∧
    (∃ first, s.calls[0]? = some first ∧ PrefillGiven o reqs t z targetHidden first) ∧
    (∀ k, 1 ≤ k → k < z.numSpeculativeSteps →
      ∃ call, s.calls[k]? = some call ∧ DecodeGiven o reqs z plan s.calls k call) ∧
    ∀ r < z.numReqs, ∀ k < z.numSpeculativeSteps,
      s.draftTokens z r k = (o.drafter (s.calls.take (k + 1))).draftTokens r := by
  intro s
  obtain ⟨first,given,progress⟩ := propose_progress (o := o) plan covers described targetHidden mem
  exact ⟨progress.counted,⟨first,progress.started,given⟩,progress.given,progress.stored⟩

theorem sample_refused : 1 < 2 := Nat.lt_succ_self 1

theorem sample_plain : 0 < 1 := Nat.lt_succ_self 0

theorem sample_steps : 0 < 3 := Nat.lt_add_left 2 sample_plain

theorem sample_block : 0 < 2 := Nat.lt_add_left 1 sample_plain

theorem sample_fits : 2 ≤ 4 := Nat.le_add_left 2 2

def sampleRequests : List Request := [⟨5,2,1,sample_refused⟩,⟨0,1,0,sample_plain⟩]

def sampleSizes : Sizes :=
  ⟨2,4,8,3,1,2,true,sample_block,sample_fits,sample_steps,sample_plain,sample_block⟩

def sampleTarget : Target where
  inputIds := fun i => 40 + i
  positions := fun i => if i < 2 then 5 + i else 0
  idxMapping := id
  queryStartLoc := fun r => Ragged.start [2,1] r
  seqLens := fun r => if r = 0 then 7 else 1
  numSampled := fun _ => 1
  numRejected := fun r => if r = 0 then 1 else 0
  lastSampled := fun r => 60 + r
  nextPrefillTokens := fun _ => 0

def sampleOutside : Outside Int Unit where
  drafter := fun calls => ⟨fun r => 100 * calls.length + r,fun i _ => i⟩
  targetMetadata := ()
  build := fun _ _ _ _ => ()
  update := fun _ _ _ _ => ()
  schedule := fun _ sts => sts.reverse
  all := fun _ sts => sts.reverse_perm

def samplePlan : Plan := ⟨⟨2,3⟩,⟨4,4⟩,3,false,true⟩

theorem sample_covers : Covers sampleRequests sampleSizes samplePlan := by
  constructor <;> decide

theorem sample_described : Describes sampleRequests sampleTarget sampleSizes := by
  constructor
  · rfl
  · intro r _
    rfl
  · rintro (_ | _ | r) q found
    · cases found
      rfl
    · cases found
      rfl
    · simp [sampleRequests] at found
  · rintro (_ | _ | r) q k found inside
    · cases found
      obtain rfl | rfl : k = 0 ∨ k = 1 := by simp only at inside; omega
      · rfl
      · rfl
    · cases found
      obtain rfl : k = 0 := Nat.lt_one_iff.mp inside
      rfl
    · simp [sampleRequests] at found
  · rintro (_ | _ | r) q found
    · cases found
      rfl
    · cases found
      rfl
    · simp [sampleRequests] at found

def zeroed : Buffers Int
  | .inputIds _ | .positions _ | .queryStartLoc _ | .seqLens _ | .lastTokenIndices _ | .currentDraftStep
  | .draftTokens _ | .hiddenStates _ => (0 : Int)

theorem draft_rollout_exact_twoRequests :
    ((List.range 2).map fun r => (List.range 3).map fun k =>
      (propose sampleOutside sampleTarget sampleSizes samplePlan (fun i _ => i) zeroed).draftTokens sampleSizes r k) =
      [[100,200,300],[101,201,301]] := by
  obtain ⟨counted,_,_,table⟩ := draft_rollout_exact sampleOutside sampleRequests sampleTarget sampleSizes samplePlan
    sample_covers sample_described (fun i _ => i) zeroed
  have drafted : ∀ r ∈ List.range 2, ∀ k ∈ List.range 3,
      (propose sampleOutside sampleTarget sampleSizes samplePlan (fun i _ => i) zeroed).draftTokens sampleSizes r k =
        100 * (k + 1 : Nat) + r := by
    intro r row k inside
    have short : k + 1 ≤ 3 := List.mem_range.mp inside
    rw [table r (List.mem_range.mp row) k (List.mem_range.mp inside)]
    simp only [sampleOutside,List.length_take] at counted ⊢
    rw [counted]
    show (100 * ((min (k + 1) 3 : Nat) : Int) + r) = _
    rw [Nat.min_eq_left short]
  rw [List.map_congr_left fun r row => List.map_congr_left (drafted r row)]
  decide

section Fused
variable {V M : Type} {o : Outside V M} {t : Target} {z : Sizes} {desc : BatchDesc}

-- What an update in place must give: the metadata that a rebuild for the next
-- step would.
def Rebuilds (o : Outside V M) : Prop :=
  ∀ queryStartLoc positions seqLens step queryStartLoc' positions' seqLens',
    o.update (o.build queryStartLoc positions seqLens step) queryStartLoc' positions' seqLens' =
      o.build queryStartLoc' positions' seqLens' (step + 1)

structure Mirrors (o : Outside V M) (z : Sizes) (skipAttn : Bool) (desc : BatchDesc) (k : Nat) (fused plain : State V M) :
    Prop where
  mem : fused.mem = plain.mem
  calls : fused.calls = plain.calls
  metadata : k < z.numSpeculativeSteps → fused.attnMetadata = turnMetadata o z skipAttn desc plain k
  skipped : skipAttn = true → plain.attnMetadata = none

theorem turn_mirrors (rebuilds : Rebuilds o) (begun : 1 ≤ k) (inside : k < z.numSpeculativeSteps)
    (mirrors : Mirrors o z skipAttn desc k fused plain) :
    Mirrors o z skipAttn desc (k + 1) (fusedTurn o z desc fused k) (multiStepTurn o z skipAttn desc plain k) := by
  have metadata := mirrors.metadata inside
  have skipped := mirrors.skipped
  rw [plain_turn]
  unfold fusedTurn
  rw [mirrors.mem,mirrors.calls,metadata]
  generalize drafted : generateDraft o z desc ⟨setStep k plain.mem,plain.calls,turnMetadata o z skipAttn desc plain k⟩ = next
  have kept : next.attnMetadata = turnMetadata o z skipAttn desc plain k := by rw [← drafted]; exact generate_metadata _
  have later : (k + 1 == 1) = false := by simpa using Nat.ne_of_gt begun
  dsimp only
  constructor
  · split <;> rfl
  · split <;> rfl
  · intro more
    have before : k < z.numSpeculativeSteps - 1 := Nat.lt_sub_of_add_lt more
    cases advancing : z.advanceDraftPositions with
    | false =>
        simp only [advancing,Bool.and_false,Bool.false_eq_true,if_false,turnMetadata,Bool.false_or,later]
    | true =>
        simp only [before,decide_true,Bool.and_self,if_true,kept]
        cases skip : skipAttn with
        | true => simp [turnMetadata,skipped skip,kept,skip]
        | false =>
            simp only [turnMetadata,advancing,Bool.not_false,Bool.true_or,Bool.and_self,if_true,Option.map_some]
            exact congrArg some (rebuilds _ _ _ _ _ _ _)
  · intro skip
    rw [kept,turnMetadata,skip]
    exact skipped skip

-- Building the metadata once and updating it in place proposes what rebuilding it
-- before every step does.
theorem fused_proposes_same (rebuilds : Rebuilds o) (plan : Plan) (targetHidden : Nat → Nat → V) (mem : Buffers V) :
    let fused := propose o t z {plan with useFusedMultiStepDecode := true} targetHidden mem
    let plain := propose o t z {plan with useFusedMultiStepDecode := false} targetHidden mem
    fused.calls = plain.calls ∧ fused.mem = plain.mem := by
  intro fused plain
  unfold fused plain propose
  dsimp only
  split
  · exact ⟨rfl,rfl⟩
  · rename_i several
    simp only [if_true,Bool.false_eq_true,if_false]
    generalize shape : State.mk _ _ _ = s
    have unset : s.attnMetadata = none := by rw [← shape]; rfl
    have run : ∀ m ≤ z.numSpeculativeSteps - 1, Mirrors o z plan.skipAttn plan.decodeDesc (1 + m)
        ((List.range' 1 m).foldl (fusedTurn o z plan.decodeDesc)
          (if plan.skipAttn then s else {s with attnMetadata := some (buildMetadata o z plan.decodeDesc s.mem 1)}))
        ((List.range' 1 m).foldl (multiStepTurn o z plan.skipAttn plan.decodeDesc) s) := by
      intro m
      induction m with
      | zero =>
          intro _
          constructor
          · show State.mem (ite _ _ _) = s.mem
            split <;> rfl
          · show State.calls (ite _ _ _) = s.calls
            split <;> rfl
          · intro _
            show State.attnMetadata (ite _ _ _) = turnMetadata o z plan.skipAttn plan.decodeDesc s 1
            cases skip : plan.skipAttn <;> simp [turnMetadata]
          · intro _
            exact unset
      | succ m ih =>
          intro inside
          have within : 1 + m < z.numSpeculativeSteps := by omega
          rw [List.range'_concat,List.foldl_append,List.foldl_append,Nat.one_mul]
          exact turn_mirrors rebuilds (Nat.le_add_right 1 m) within (ih (Nat.le_of_succ_le inside))
    have all := run _ (Nat.le_refl _)
    exact ⟨all.calls,all.mem⟩

end Fused

def countingOutside : Outside Int (List Int × List Int × Nat) where
  drafter := fun calls => ⟨fun r => 100 * calls.length + r,fun i _ => i⟩
  targetMetadata := ([],[],0)
  build := fun _ positions seqLens step => (positions,seqLens,step)
  update := fun metadata _ positions seqLens => (positions,seqLens,metadata.2.2 + 1)
  schedule := fun _ sts => sts.reverse
  all := fun _ sts => sts.reverse_perm

theorem fused_proposes_same_twoRequests :
    (propose countingOutside sampleTarget sampleSizes samplePlan (fun i _ => i) zeroed).calls =
      (propose countingOutside sampleTarget sampleSizes {samplePlan with useFusedMultiStepDecode := false}
        (fun i _ => i) zeroed).calls :=
  (fused_proposes_same (o := countingOutside) (t := sampleTarget) (z := sampleSizes)
    (fun _ _ _ _ _ _ _ => rfl) samplePlan (fun i _ => i) zeroed).1

end Glm5Next.DraftRollout
