import Glm5Next.MtpLoading

namespace Glm5Next.MtpOrder
open TextSearch PairedHalves Fp8Projections MtpLoading

inductive Slot where
  | wk (layerPrefix : Name)
  | attn (layerPrefix : Name) (proj : AttnProj)
  deriving DecidableEq

section Events
variable {T : Type} (d : Drafter T)

-- What one tensor does, by its name: nothing, half of a pair, or a call of a
-- loader, which fails where the dict has no such parameter.
def layerEvent (specLayer : Nat) (t : CheckpointTensor T) : Option (Event Slot T (Option (Call T))) :=
  match wkHalf t with
  | some (layerPrefix,isWeight) => some (.half (.wk layerPrefix) isWeight t.tensor)
  | none => match attnHalf d.params t with
    | some (slot,isWeight) => some (.half (.attn slot.1 slot.2) isWeight t.tensor)
    | none => match paramRoute d specLayer t.name with
      | .skip => none
      | .fail => some (.direct none)
      | .load param shard => some (.direct (some ⟨param,shard,t.tensor⟩))

def event (t : CheckpointTensor T) : Option (Event Slot T (Option (Call T))) :=
  if contains "rotary_emb.inv_freq".toList t.name then none
  else
    let name := stripped t.name
    match getSpecLayerIdxFromWeightName d.numHiddenLayers d.numNextnPredictLayers name with
    | none => if name = embedTokens ∧ name ∈ d.params then some (.direct (some ⟨name,none,t.tensor⟩)) else none
    | some specLayer => layerEvent d specLayer {t with name := rewriteSpecLayerName specLayer name}

def slotDequant : Slot → T → T → Option T
  | .wk _ => d.dequantWk
  | .attn _ proj => d.dequantAttn (fp8AttnProjs proj).isKva

def slotTarget : Slot → Name
  | .wk layerPrefix => fusedName layerPrefix
  | .attn layerPrefix proj => targetW layerPrefix proj

def slotShard : Slot → Option Shard
  | .wk _ => some (.index 0)
  | .attn _ proj => (fp8AttnProjs proj).shardId.map .index

def slotCall (slot : Slot) (weightFp8 scaleInv : T) : Option (Call T) :=
  (slotDequant d slot weightFp8 scaleInv).bind fun weightBf16 =>
    if slotTarget slot ∈ d.params then some ⟨slotTarget slot,slotShard slot,weightBf16⟩ else none

def waits (s : Loading T) : Slot → Entry T
  | .wk layerPrefix => (s.buf layerPrefix).own
  | .attn layerPrefix proj => waiting s (layerPrefix,proj)

def seen (s : Loading T) : State Slot T (Call T) := ⟨waits s,s.calls⟩

theorem waits_own (s : Loading T) (layerPrefix : Name) (entry : Entry T) :
    waits {s with buf := Function.update s.buf layerPrefix {s.buf layerPrefix with own := entry}} =
      Function.update (waits s) (.wk layerPrefix) entry := by
  funext slot
  cases slot with
  | wk other =>
      by_cases same : other = layerPrefix
      · subst same
        simp [waits]
      · simp [waits,same]
  | attn other proj =>
      by_cases same : other = layerPrefix
      · subst same
        simp [waits,waiting]
      · simp [waits,waiting,same]

theorem waits_key (s : Loading T) (layerPrefix : Name) (proj : AttnProj) (entry : Entry T) :
    waits (s.setKey layerPrefix (fp8AttnProjs proj).key entry) = Function.update (waits s) (.attn layerPrefix proj) entry := by
  funext slot
  cases slot with
  | wk other =>
      by_cases same : other = layerPrefix
      · subst same
        simp [waits,Loading.setKey]
      · simp [waits,Loading.setKey,same]
  | attn other proj' =>
      have found := congrFun (waiting_set s layerPrefix proj entry) (other,proj')
      by_cases same : other = layerPrefix ∧ proj' = proj
      · obtain ⟨rfl,rfl⟩ := same
        rw [Function.update_self] at found ⊢
        exact found
      · rw [Function.update_of_ne (by simpa using same)] at found ⊢
        exact found

-- Deleting the inner dict takes only the indexer's halves, where no projection
-- waits under the same prefix.
theorem waits_deleted (s : Loading T) (layerPrefix : Name) (clear : ∀ proj, waiting s (layerPrefix,proj) = Entry.empty) :
    waits {s with buf := Function.update s.buf layerPrefix ⟨Entry.empty,fun _ => Entry.empty⟩} =
      Function.update (waits s) (.wk layerPrefix) Entry.empty := by
  funext slot
  cases slot with
  | wk other =>
      by_cases same : other = layerPrefix
      · subst same
        simp [waits]
      · simp [waits,same]
  | attn other proj =>
      by_cases same : other = layerPrefix
      · subst same
        simpa [waits,waiting] using (clear proj).symm
      · simp [waits,waiting,same]

theorem wk_step {t : CheckpointTensor T} (half : wkHalf t = some (layerPrefix,isWeight)) (s : Loading T)
    (clear : ∀ proj, waiting s (layerPrefix,proj) = Entry.empty) :
    (tryLoadFp8IndexerWk d.dequantWk d.params t s).map (fun next => (next.1,seen next.2)) =
      (stepNow id (slotCall d) (seen s) (.half (.wk layerPrefix) isWeight t.tensor)).map fun next => (true,next) := by
  rw [step_now_half]
  unfold tryLoadFp8IndexerWk
  rw [half]
  have own : (seen s).pending (.wk layerPrefix) = (s.buf layerPrefix).own := rfl
  rw [own]
  dsimp only
  cases ((s.buf layerPrefix).own.put isWeight t.tensor).both with
  | none => exact congrArg (fun pending => some (true,State.mk pending s.calls)) (waits_own s layerPrefix _)
  | some pair =>
      dsimp only [id]
      unfold slotCall slotDequant slotTarget
      dsimp only
      cases d.dequantWk pair.1 pair.2 with
      | none => rfl
      | some weightBf16 =>
          rw [Option.bind_some,Option.bind_some]
          by_cases present : fusedName layerPrefix ∈ d.params
          · rw [if_pos present,if_pos present]
            exact congrArg (fun pending => some (true,State.mk pending _)) (waits_deleted s layerPrefix clear)
          · rw [if_neg present,if_neg present]
            rfl

theorem attn_step {t : CheckpointTensor T} (half : attnHalf d.params t = some (slot,isWeight)) (s : Loading T) :
    (tryLoadFp8AttnProj d.dequantAttn d.params t s).map (fun next => (next.1,seen next.2)) =
      (stepNow id (slotCall d) (seen s) (.half (.attn slot.1 slot.2) isWeight t.tensor)).map fun next => (true,next) := by
  rw [step_now_half,try_load_half d.dequantAttn d.params half]
  have own : (seen s).pending (.attn slot.1 slot.2) = waiting s slot := rfl
  rw [own]
  cases ((waiting s slot).put isWeight t.tensor).both with
  | none => exact congrArg (fun pending => some (true,State.mk pending s.calls)) (waits_key s slot.1 slot.2 _)
  | some pair =>
      have same : slotCall d (.attn slot.1 slot.2) pair.1 pair.2 = attnCall d.dequantAttn d.params (slot,pair.1,pair.2) := rfl
      dsimp only [id]
      rw [same]
      cases attnCall d.dequantAttn d.params (slot,pair.1,pair.2) with
      | none => rfl
      | some call => exact congrArg (fun pending => some (true,State.mk pending _)) (waits_key s slot.1 slot.2 _)

def carried (s : State Slot T (Call T)) : Option (Event Slot T (Option (Call T))) → Option (State Slot T (Call T))
  | none => some s
  | some e => stepNow id (slotCall d) s e

theorem carried_call (s : Loading T) (call : Call T) :
    carried d (seen s) (some (.direct (some call))) = some (seen {s with calls := s.calls ++ [call]}) :=
  step_now_direct id (slotCall d) (seen s) (some call)

theorem taken_cases {attempt : Option (Bool × Loading T)} {after : Option (State Slot T (Call T))}
    (step : attempt.map (fun next => (next.1,seen next.2)) = after.map fun next => (true,next)) :
    attempt = none ∧ after = none ∨ ∃ s, attempt = some (true,s) ∧ after = some (seen s) := by
  cases attempt with
  | none => exact Or.inl ⟨rfl,Option.map_eq_none_iff.mp step.symm⟩
  | some next =>
      obtain ⟨taken,s⟩ := next
      obtain ⟨state,rfl,same⟩ := Option.map_eq_some_iff.mp step.symm
      cases same
      exact Or.inr ⟨s,rfl,rfl⟩

theorem layer_step (specLayer : Nat) (t : CheckpointTensor T) (s : Loading T)
    (clear : ∀ layerPrefix isWeight v, layerEvent d specLayer t = some (.half (.wk layerPrefix) isWeight v) →
      ∀ proj, waiting s (layerPrefix,proj) = Entry.empty) :
    (loadLayerTensor d specLayer t s).map seen = carried d (seen s) (layerEvent d specLayer t) := by
  unfold layerEvent at clear ⊢
  unfold loadLayerTensor
  cases wk : wkHalf t with
  | some half =>
      obtain ⟨layerPrefix,isWeight⟩ := half
      rw [wk] at clear
      dsimp only [carried]
      rcases taken_cases (wk_step d wk s (clear layerPrefix isWeight t.tensor rfl)) with ⟨failed,fails⟩ | ⟨s',loaded,steps⟩
      · rw [failed,fails]
        rfl
      · rw [loaded,steps]
        rfl
  | none =>
      have declined : tryLoadFp8IndexerWk d.dequantWk d.params t s = some (false,s) := by
        unfold tryLoadFp8IndexerWk
        rw [wk]
      rw [declined,Option.bind_some]
      dsimp only
      rw [if_neg (by decide)]
      cases attn : attnHalf d.params t with
      | some half =>
          dsimp only [carried]
          rcases taken_cases (attn_step d attn s) with ⟨failed,fails⟩ | ⟨s',loaded,steps⟩
          · rw [failed,fails]
            rfl
          · rw [loaded,steps]
            rfl
      | none =>
          have declined : tryLoadFp8AttnProj d.dequantAttn d.params t s = some (false,s) := by
            unfold tryLoadFp8AttnProj
            rw [attn]
          rw [declined,Option.bind_some]
          dsimp only
          rw [if_neg (by decide)]
          cases paramRoute d specLayer t.name with
          | skip => rfl
          | fail => exact (step_now_direct id (slotCall d) (seen s) none).symm
          | load param shard => exact (carried_call d s _).symm

-- One turn of the loop is one event, while nothing else waits under the prefix
-- of a completed wk.
theorem load_one_step (t : CheckpointTensor T) (s : Loading T)
    (clear : ∀ layerPrefix isWeight v, event d t = some (.half (.wk layerPrefix) isWeight v) →
      ∀ proj, waiting s (layerPrefix,proj) = Entry.empty) :
    (loadOne d t s).map seen = carried d (seen s) (event d t) := by
  unfold event at clear ⊢
  unfold loadOne
  split
  · rfl
  · rename_i plain
    rw [if_neg plain] at clear
    dsimp only at clear ⊢
    cases found : getSpecLayerIdxFromWeightName d.numHiddenLayers d.numNextnPredictLayers (stripped t.name) with
    | none =>
        dsimp only
        split
        · exact (carried_call d s _).symm
        · rfl
    | some specLayer =>
        rw [found] at clear
        exact layer_step d specLayer _ s clear

def Half (tensors : List (CheckpointTensor T)) (slot : Slot) (isWeight : Bool) (v : T) : Prop :=
  ∃ t ∈ tensors, event d t = some (.half slot isWeight v)

def Apart (tensors : List (CheckpointTensor T)) : Prop :=
  ∀ layerPrefix isWeight v, Half d tensors (.wk layerPrefix) isWeight v →
    ∀ proj isWeight' v', ¬ Half d tensors (.attn layerPrefix proj) isWeight' v'

def events (stream : List (CheckpointTensor T)) : List (Event Slot T (Option (Call T))) := stream.filterMap (event d)

theorem half_event {stream : List (CheckpointTensor T)} :
    Event.half slot isWeight v ∈ events d stream ↔ Half d stream slot isWeight v := List.mem_filterMap

theorem seen_initial : seen (Loading.initial : Loading T) = start := by
  have nothing : waits (Loading.initial : Loading T) = fun _ => Entry.empty := by
    funext slot
    cases slot <;> rfl
  exact congrArg (State.mk · []) nothing

-- A whole stream is a run of the pairing machine.
theorem load_run (stream : List (CheckpointTensor T)) (apart : Apart d stream) :
    (stream.foldlM (fun s t => loadOne d t s) Loading.initial).map seen =
      ((run (slotCall d) start (events d stream)).log.mapM id).map
        fun calls => ⟨(run (slotCall d) start (events d stream)).pending,calls⟩ := by
  rw [← run_now_exact]
  induction stream using List.reverseRecOn with
  | nil => exact congrArg some seen_initial
  | append_singleton stream t ih =>
      have before : Apart d stream := by
        intro layerPrefix isWeight v ⟨t,member,half⟩ proj isWeight' v' ⟨t',member',half'⟩
        exact apart layerPrefix isWeight v ⟨t,List.mem_append_left _ member,half⟩ proj isWeight' v'
          ⟨t',List.mem_append_left _ member',half'⟩
      have ran := ih before
      have split : runNow id (slotCall d) start (events d (stream ++ [t])) =
          (runNow id (slotCall d) start (events d stream)).bind fun s => carried d s (event d t) := by
        unfold runNow events
        rw [List.filterMap_append,List.foldlM_append]
        apply congrArg
        funext s
        cases found : event d t with
        | none =>
            rw [List.filterMap_cons_none found]
            rfl
        | some e =>
            rw [List.filterMap_cons_some found]
            exact Option.bind_fun_some _
      rw [split,← ran,List.foldlM_append]
      cases loaded : stream.foldlM (fun s t => loadOne d t s) Loading.initial with
      | none => rfl
      | some s =>
          rw [loaded,run_now_exact] at ran
          obtain ⟨calls,_,same⟩ := Option.map_eq_some_iff.mp ran.symm
          have clear : ∀ layerPrefix isWeight v, event d t = some (.half (.wk layerPrefix) isWeight v) →
              ∀ proj, waiting s (layerPrefix,proj) = Entry.empty := by
            intro layerPrefix isWeight v half proj
            have pending := congrFun (congrArg State.pending same) (.attn layerPrefix proj)
            refine pending.symm.trans (run_apart _ _ ?_)
            rintro e member isWeight' v' rfl
            obtain ⟨t',member',half'⟩ := (half_event d).mp member
            exact apart layerPrefix isWeight v ⟨t,List.mem_append_right _ List.mem_cons_self,half⟩ proj isWeight' v'
              ⟨t',List.mem_append_left _ member',half'⟩
          have step := load_one_step d t s clear
          refine Eq.trans ?_ step
          exact congrArg (Option.map seen) (Option.bind_fun_some _)

end Events
end Glm5Next.MtpOrder
