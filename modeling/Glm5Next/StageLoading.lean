import Glm5Next.MtpOrder

namespace Glm5Next.StageLoading
open TextSearch PairedHalves Fp8Projections
open MtpLoading (getSpecLayerIdxFromWeightName ExpertMapping Route loadInto wkHalf fusedName tryLoadFp8IndexerWk)
open MtpOrder (Slot slotTarget slotShard)

-- What the loaders of all ranks have in common. `remapKvScale` is
-- maybe_remap_kv_scale_name; no expert mappings where the model is no MoE.
structure Loader (T : Type) where
  numHiddenLayers : Nat
  numNextnPredictLayers : Nat
  isLinearAttn : Bool
  expertParamsMapping : List ExpertMapping
  remapKvScale : List Name → Name → Option Name
  dequantWk : T → T → Option T
  dequantAttn : Bool → T → T → Option T
  padKva : Option (T → T)

-- The parameters that a rank's model has, the names of the modules it lacks, and
-- is_pp_missing_parameter on it.
structure Stage where
  params : List Name
  missing : List Name
  isPpMissingParameter : Name → Bool

inductive LoadError where
  | keyError
  -- Whatever scaled_dequantize or _dequant_fp8_block raises.
  | dequantization
  deriving DecidableEq

def stackedParamsMapping : List (Name × Name × Nat) :=
  [(".gate_up_proj".toList,".gate_proj".toList,0),(".gate_up_proj".toList,".up_proj".toList,1),
    (".fused_qkv_a_proj".toList,".q_a_proj".toList,0),(".fused_qkv_a_proj".toList,".kv_a_proj_with_mqa".toList,1),
    (".wk_weights_proj".toList,".wk".toList,0),(".wk_weights_proj".toList,".weights_proj".toList,1),
    (".in_proj_qkvbfg_a".toList,".q_proj".toList,0),(".in_proj_qkvbfg_a".toList,".k_proj".toList,1),
    (".in_proj_qkvbfg_a".toList,".v_proj".toList,2),(".in_proj_qkvbfg_a".toList,".b_proj".toList,3),
    (".in_proj_qkvbfg_a".toList,".f_a_proj".toList,4),(".in_proj_qkvbfg_a".toList,".g_a_proj".toList,5)]

-- A parameter that the rank lacks leaves the new name to the entries after.
def stackedRoute (st : Stage) : List (Name × Name × Nat) → Name → Route ⊕ Name
  | [],name => .inr name
  | (paramName,weightName,shardId) :: rest,name =>
      if !contains weightName name then stackedRoute st rest name
      else if contains "mlp.experts.".toList name ∧ name ∉ st.params then stackedRoute st rest name
      else
        let nameMapped := replace weightName paramName name
        if paramName = ".fused_qkv_a_proj".toList ∧ nameMapped ∉ st.params then stackedRoute st rest name
        else if endsWith ".bias".toList nameMapped ∧ nameMapped ∉ st.params then stackedRoute st rest nameMapped
        else if st.isPpMissingParameter nameMapped then stackedRoute st rest nameMapped
        else .inl (loadInto st.params nameMapped (some (.index shardId)))

def expertRoute (st : Stage) : List ExpertMapping → Name → Route ⊕ Name
  | [],name => .inr name
  | mapping :: rest,name =>
      if !contains mapping.weightName name then expertRoute st rest name
      else
        let name := replace mapping.weightName mapping.paramName name
        if st.isPpMissingParameter name then expertRoute st rest name
        else .inl (loadInto st.params name (some (.expert mapping.expertId mapping.shardId)))

theorem ok_then {E A B : Type} (a : A) (f : A → Except E B) : (Except.ok a >>= f) = f a := rfl

theorem bind_ok {E A B : Type} {b : B} {x : Except E A} {f : A → Except E B} : x.bind f = .ok b ↔ ∃ a, x = .ok a ∧ f a = .ok b := by
  cases x <;> simp [Except.bind]

theorem map_ok {E A B : Type} {b : B} {x : Except E A} {f : A → B} : x.map f = .ok b ↔ ∃ a, x = .ok a ∧ f a = b := by
  cases x <;> simp [Except.map]

variable {T : Type}

def directRoute (l : Loader T) (st : Stage) (name : Name) : Route :=
  if endsWith ".bias".toList name ∧ name ∉ st.params ∧ l.isLinearAttn = false then .skip
  else match l.remapKvScale st.params name with
    | none => .skip
    | some name => if st.isPpMissingParameter name then .skip else loadInto st.params name none

def paramRoute (l : Loader T) (st : Stage) (name : Name) : Route :=
  match stackedRoute st stackedParamsMapping name with
  | .inl route => route
  | .inr name => match expertRoute st l.expertParamsMapping name with
    | .inl route => route
    | .inr name => directRoute l st name

def padded (l : Loader T) (t : CheckpointTensor T) : T :=
  match l.padKva with
  | none => t.tensor
  | some pad => if contains ".kv_a_proj_with_mqa.".toList t.name then pad t.tensor else t.tensor

def skipped (l : Loader T) (name : Name) : Bool :=
  contains "rotary_emb.inv_freq".toList name ||
    (getSpecLayerIdxFromWeightName l.numHiddenLayers l.numNextnPredictLayers name).isSome ||
    contains "rotary_emb.cos_cached".toList name || contains "rotary_emb.sin_cached".toList name

section Pairs

def slotPrefix : Slot → Name
  | .wk layerPrefix => layerPrefix
  | .attn layerPrefix _ => layerPrefix

def pairDequant (l : Loader T) : Slot → T → T → Option T
  | .wk _ => l.dequantWk
  | .attn _ proj => l.dequantAttn (fp8AttnProjs proj).isKva

def entryOf (inner : Inner T) : Slot → Entry T
  | .wk _ => inner.own
  | .attn _ proj => inner.byKey (fp8AttnProjs proj).key

def putEntry (inner : Inner T) (entry : Entry T) : Slot → Inner T
  | .wk _ => {inner with own := entry}
  | .attn _ proj => {inner with byKey := Function.update inner.byKey (fp8AttnProjs proj).key entry}

-- A completed wk takes the whole inner dict with it.
def clearEntry (inner : Inner T) : Slot → Inner T
  | .wk _ => ⟨Entry.empty,fun _ => Entry.empty⟩
  | .attn layerPrefix proj => putEntry inner Entry.empty (.attn layerPrefix proj)

-- What either FP8 helper makes of a half: the inner dict and the loader's call.
def takeInner (l : Loader T) (params : List Name) (slot : Slot) (isWeight : Bool) (v : T) (inner : Inner T) :
    Except LoadError (Inner T × List (Call T)) :=
  let entry := (entryOf inner slot).put isWeight v
  match entry.both with
  | none => .ok (putEntry inner entry slot,[])
  | some (weightFp8,scaleInv) => match pairDequant l slot weightFp8 scaleInv with
    | none => .error .dequantization
    | some weightBf16 =>
        if slotTarget slot ∈ params then .ok (clearEntry inner slot,[⟨slotTarget slot,slotShard slot,weightBf16⟩])
        else .error .keyError

def takeHalf (l : Loader T) (params : List Name) (slot : Slot) (isWeight : Bool) (v : T) (s : Loading T) :
    Except LoadError (Loading T) :=
  (takeInner l params slot isWeight v (s.buf (slotPrefix slot))).map fun (inner,calls) =>
    ⟨Function.update s.buf (slotPrefix slot) inner,s.calls ++ calls⟩

def pairHalf (st : Stage) (t : CheckpointTensor T) : Option (Slot × Bool) :=
  match wkHalf t with
  | some (layerPrefix,isWeight) => some (.wk layerPrefix,isWeight)
  | none => (attnHalf st.params t).map fun half => (.attn half.1.1 half.1.2,half.2)

end Pairs

-- The body of the loop over the checkpoint.
def loadOne (l : Loader T) (st : Stage) (t : CheckpointTensor T) (s : Loading T) : Except LoadError (Loading T) :=
  if skipped l t.name then .ok s
  else match pairHalf st t with
    | some (slot,isWeight) => takeHalf l st.params slot isWeight t.tensor s
    | none => match paramRoute l st t.name with
      | .skip => .ok s
      | .fail => .error .keyError
      | .load param shard => .ok {s with calls := s.calls ++ [⟨param,shard,padded l t⟩]}

theorem load_one_exact (l : Loader T) (st : Stage) (t : CheckpointTensor T) (s : Loading T)
    (used : skipped l t.name = false) : loadOne l st t s =
      match pairHalf st t with
      | some (slot,isWeight) => takeHalf l st.params slot isWeight t.tensor s
      | none => match paramRoute l st t.name with
        | .skip => .ok s
        | .fail => .error .keyError
        | .load param shard => .ok {s with calls := s.calls ++ [⟨param,shard,padded l t⟩]} := by
  unfold loadOne
  rw [used,if_neg Bool.false_ne_true]

def loadWeights (l : Loader T) (st : Stage) (weights : List (CheckpointTensor T)) : Except LoadError (List (Call T)) :=
  (weights.foldlM (fun s t => loadOne l st t s) Loading.initial).map Loading.calls

-- The two FP8 helpers one after the other, as the loop calls them.
section Helpers

theorem try_wk_half (l : Loader T) (params : List Name) {t : CheckpointTensor T} (half : wkHalf t = some (layerPrefix,isWeight))
    (s : Loading T) : tryLoadFp8IndexerWk l.dequantWk params t s =
      (takeHalf l params (.wk layerPrefix) isWeight t.tensor s).toOption.map fun s => (true,s) := by
  unfold tryLoadFp8IndexerWk takeHalf takeInner
  rw [half]
  dsimp only [slotPrefix,entryOf]
  cases ((s.buf layerPrefix).own.put isWeight t.tensor).both with
  | none => simp [putEntry,Except.map,Except.toOption]
  | some pair =>
      dsimp only [pairDequant]
      cases l.dequantWk pair.1 pair.2 with
      | none => rfl
      | some weightBf16 =>
          rw [Option.bind_some]
          dsimp only
          by_cases present : fusedName layerPrefix ∈ params
          · have target : slotTarget (.wk layerPrefix) ∈ params := present
            rw [if_pos present,if_pos target]
            rfl
          · have target : slotTarget (.wk layerPrefix) ∉ params := present
            rw [if_neg present,if_neg target]
            rfl

theorem try_attn_half (l : Loader T) (params : List Name) {t : CheckpointTensor T}
    (half : attnHalf params t = some ((layerPrefix,proj),isWeight)) (s : Loading T) :
    tryLoadFp8AttnProj l.dequantAttn params t s =
      (takeHalf l params (.attn layerPrefix proj) isWeight t.tensor s).toOption.map fun s => (true,s) := by
  unfold tryLoadFp8AttnProj takeHalf takeInner
  rw [half]
  dsimp only [slotPrefix,entryOf]
  cases (((s.buf layerPrefix).byKey (fp8AttnProjs proj).key).put isWeight t.tensor).both with
  | none => simp [putEntry,Loading.setKey,Except.map,Except.toOption]
  | some pair =>
      dsimp only [pairDequant]
      cases l.dequantAttn (fp8AttnProjs proj).isKva pair.1 pair.2 with
      | none => rfl
      | some weightBf16 =>
          rw [Option.bind_some]
          dsimp only
          by_cases present : targetW layerPrefix proj ∈ params
          · have target : slotTarget (.attn layerPrefix proj) ∈ params := present
            rw [if_pos present,if_pos target]
            rfl
          · have target : slotTarget (.attn layerPrefix proj) ∉ params := present
            rw [if_neg present,if_neg target]
            rfl

theorem load_one_helpers (l : Loader T) (st : Stage) (t : CheckpointTensor T) (s : Loading T)
    (used : skipped l t.name = false) : (loadOne l st t s).toOption =
      (tryLoadFp8IndexerWk l.dequantWk st.params t s).bind fun (taken,s) =>
        if taken then some s
        else (tryLoadFp8AttnProj l.dequantAttn st.params t s).bind fun (taken,s) =>
          if taken then some s
          else match paramRoute l st t.name with
            | .skip => some s
            | .fail => none
            | .load param shard => some {s with calls := s.calls ++ [⟨param,shard,padded l t⟩]} := by
  have unwrap : ∀ (attempt : Option (Loading T)) (rest : Bool × Loading T → Option (Loading T)),
      (∀ s, rest (true,s) = some s) → (attempt.map fun s => (true,s)).bind rest = attempt := by
    intro attempt rest taken
    cases attempt with
    | none => rfl
    | some s => exact taken s
  rw [load_one_exact l st t s used]
  unfold pairHalf
  cases wk : wkHalf t with
  | some half =>
      rw [try_wk_half l st.params wk s]
      exact (unwrap _ _ fun s => rfl).symm
  | none =>
      have declined : tryLoadFp8IndexerWk l.dequantWk st.params t s = some (false,s) := by
        unfold tryLoadFp8IndexerWk
        rw [wk]
      rw [declined,Option.bind_some]
      dsimp only
      rw [if_neg Bool.false_ne_true]
      cases attn : attnHalf st.params t with
      | some half =>
          rw [try_attn_half l st.params attn s]
          exact (unwrap _ _ fun s => rfl).symm
      | none =>
          have declined : tryLoadFp8AttnProj l.dequantAttn st.params t s = some (false,s) := by
            unfold tryLoadFp8AttnProj
            rw [attn]
          rw [declined,Option.bind_some]
          dsimp only [Option.map_none]
          cases paramRoute l st t.name <;> rfl

end Helpers

end Glm5Next.StageLoading
