import Glm5Next.Fp8Projections

namespace Glm5Next.MtpLoading
open TextSearch PairedHalves Fp8Projections

def layerName (layer : Nat) : Name := "model.layers.".toList ++ (toString layer).toList ++ ['.']

def getSpecLayerIdxFromWeightName (numHiddenLayers numNextnPredictLayers : Nat) (weightName : Name) : Option Nat :=
  ((List.range numNextnPredictLayers).find? fun i =>
    startsWith (layerName (numHiddenLayers + i)) weightName ||
      startsWith ("layers.".toList ++ (toString (numHiddenLayers + i)).toList ++ ['.']) weightName).map (numHiddenLayers + ·)

def specLayerWeightNames : List Name :=
  ["embed_tokens".toList,"enorm".toList,"hnorm".toList,"eh_proj".toList,"shared_head".toList]

def sharedWeightNames : List Name := ["embed_tokens".toList]

def rewriteSpecLayerName (specLayer : Nat) (name : Name) : Name :=
  match specLayerWeightNames.find? fun weightName => contains weightName name with
  | none => replace (layerName specLayer) (layerName specLayer ++ "mtp_block.".toList) name
  | some weightName =>
      if weightName ∈ sharedWeightNames then replace (layerName specLayer) "model.".toList name else name

section Indexer
variable {T : Type}

def wkHalf (t : CheckpointTensor T) : Option (Name × Bool) :=
  if !contains "indexer.wk.".toList t.name || contains "wk_weights".toList t.name then none
  else
    let isWeight := endsWith ".weight".toList t.name && t.fp8
    let isScale := contains "weight_scale_inv".toList t.name
    if !isWeight && !isScale then none else some (rsplitFirst ".wk.".toList t.name,isWeight)

def fusedName (layerPrefix : Name) : Name := layerPrefix ++ ".wk_weights_proj.weight".toList

def tryLoadFp8IndexerWk (dequant : T → T → Option T) (params : List Name) (t : CheckpointTensor T) (s : Loading T) :
    Option (Bool × Loading T) :=
  match wkHalf t with
  | none => some (false,s)
  | some (layerPrefix,isWeight) =>
      let inner := s.buf layerPrefix
      let entry := inner.own.put isWeight t.tensor
      match entry.both with
      | none => some (true,{s with buf := Function.update s.buf layerPrefix {inner with own := entry}})
      | some (weightFp8,scaleInv) =>
          -- The whole inner dict goes, with all that waits under the prefix.
          let s := {s with buf := Function.update s.buf layerPrefix ⟨Entry.empty,fun _ => Entry.empty⟩}
          (dequant weightFp8 scaleInv).bind fun weightBf16 =>
            if fusedName layerPrefix ∈ params then
              some (true,{s with calls := s.calls ++ [⟨fusedName layerPrefix,some (.index 0),weightBf16⟩]})
            else none

end Indexer

-- An entry of fused_moe_make_expert_params_mapping.
structure ExpertMapping where
  paramName : Name
  weightName : Name
  expertId : Nat
  shardId : Name

-- The drafter as the loader sees it. `isLocal` tells whether an expert's loader
-- reports success, `remapKvScale` is maybe_remap_kv_scale_name.
structure Drafter (T : Type) where
  numHiddenLayers : Nat
  numNextnPredictLayers : Nat
  params : List Name
  expertParamsMapping : List ExpertMapping
  isLocal : Name → Nat → Name → Bool
  remapKvScale : Name → Option Name
  dequantWk : T → T → Option T
  dequantAttn : Bool → T → T → Option T
  someLayer : 0 < numNextnPredictLayers
  expertNames : ∀ mapping ∈ expertParamsMapping, "experts.".toList <:+: mapping.weightName
  remapPlain : ∀ name, ¬ "scale".toList <:+: name → remapKvScale name = some name

def stackedParamsMapping : List (Name × Name × Nat) :=
  [("gate_up_proj".toList,"gate_proj".toList,0),("gate_up_proj".toList,"up_proj".toList,1),
    ("fused_qkv_a_proj".toList,"q_a_proj".toList,0),("fused_qkv_a_proj".toList,"kv_a_proj_with_mqa".toList,1),
    ("wk_weights_proj".toList,"wk".toList,0),("wk_weights_proj".toList,"weights_proj".toList,1)]

inductive Route where
  | skip
  | fail
  | load (param : Name) (shard : Option Shard)

def loadInto (params : List Name) (name : Name) (shard : Option Shard) : Route :=
  if name ∈ params then .load name shard else .fail

-- The name left over when no stacked parameter takes the tensor.
def stackedRoute (params : List Name) : List (Name × Name × Nat) → Name → Route ⊕ Name
  | [],name => .inr name
  | (paramName,weightName,shardId) :: rest,name =>
      if !contains weightName name then stackedRoute params rest name
      else if contains "mlp.experts.".toList name ∧ name ∉ params then stackedRoute params rest name
      else
        let nameMapped := replace weightName paramName name
        if paramName = "fused_qkv_a_proj".toList ∧ nameMapped ∉ params then stackedRoute params rest name
        else if endsWith ".bias".toList nameMapped ∧ nameMapped ∉ params then stackedRoute params rest nameMapped
        else .inl (loadInto params nameMapped (some (.index shardId)))

-- None for a tensor that is no expert's.
def expertRoute (params : List Name) (isLocal : Name → Nat → Name → Bool) (name : Name) :
    List ExpertMapping → Bool → Option Route
  | [],isExpertWeight => if isExpertWeight then some .skip else none
  | mapping :: rest,isExpertWeight =>
      if !contains mapping.weightName name then expertRoute params isLocal name rest isExpertWeight
      else
        let nameMapped := replace mapping.weightName mapping.paramName name
        if nameMapped ∉ params then some .fail
        else if isLocal nameMapped mapping.expertId mapping.shardId then
          some (.load nameMapped (some (.expert mapping.expertId mapping.shardId)))
        else expertRoute params isLocal name rest true

def directRoute (d : Drafter T) (specLayer : Nat) (name : Name) : Route :=
  if endsWith ".bias".toList name ∧ name ∉ d.params then .skip
  else match d.remapKvScale name with
    | none => .skip
    | some name =>
        if specLayer ≠ d.numHiddenLayers ∧ !contains ".layers".toList name then .skip
        else loadInto d.params name none

def paramRoute (d : Drafter T) (specLayer : Nat) (name : Name) : Route :=
  match stackedRoute d.params stackedParamsMapping name with
  | .inl route => route
  | .inr name => (expertRoute d.params d.isLocal name d.expertParamsMapping false).getD (directRoute d specLayer name)

def embedTokens : Name := "model.embed_tokens.weight".toList

def stripped (name : Name) : Name :=
  if startsWith "model.language_model.".toList name then
    replaceFirst "model.language_model.".toList "model.".toList name
  else name

-- A tensor of an MTP layer, after its name was rewritten; none for an exception.
def loadLayerTensor (d : Drafter T) (specLayer : Nat) (t : CheckpointTensor T) (s : Loading T) : Option (Loading T) :=
  (tryLoadFp8IndexerWk d.dequantWk d.params t s).bind fun (taken,s) =>
    if taken then some s
    else (tryLoadFp8AttnProj d.dequantAttn d.params t s).bind fun (taken,s) =>
      if taken then some s
      else match paramRoute d specLayer t.name with
        | .skip => some s
        | .fail => none
        | .load param shard => some {s with calls := s.calls ++ [⟨param,shard,t.tensor⟩]}

def loadOne (d : Drafter T) (t : CheckpointTensor T) (s : Loading T) : Option (Loading T) :=
  if contains "rotary_emb.inv_freq".toList t.name then some s
  else
    let name := stripped t.name
    match getSpecLayerIdxFromWeightName d.numHiddenLayers d.numNextnPredictLayers name with
    | none =>
        if name = embedTokens ∧ name ∈ d.params then some {s with calls := s.calls ++ [⟨name,none,t.tensor⟩]}
        else some s
    | some specLayer => loadLayerTensor d specLayer {t with name := rewriteSpecLayerName specLayer name} s

def specLayers (d : Drafter T) : List Nat := (List.range d.numNextnPredictLayers).map (d.numHiddenLayers + ·)

def layerLoaded (d : Drafter T) (calls : List (Call T)) (layer : Nat) : Bool :=
  calls.any fun call =>
    decide (getSpecLayerIdxFromWeightName d.numHiddenLayers d.numNextnPredictLayers call.param = some layer)

-- The loader calls of a stream, with the check for missing layers at the end.
def loadWeights (d : Drafter T) (weights : List (CheckpointTensor T)) : Option (List (Call T)) :=
  (weights.foldlM (fun s t => loadOne d t s) Loading.initial).bind fun s =>
    if (specLayers d).all (layerLoaded d s.calls) then some s.calls else none

structure Loaders (T E A : Type) where
  covers : Name → Option Shard → E → Bool
  value : Name → Option Shard → T → E → A

section Parameters
variable {T E A : Type} (loaders : Loaders T E A)

def assign (params : Name → E → A) (call : Call T) : Name → E → A :=
  fun name e =>
    if call.param = name ∧ loaders.covers name call.shard e then loaders.value name call.shard call.tensor e
    else params name e

def finalParams (params : Name → E → A) (calls : List (Call T)) : Name → E → A := calls.foldl (assign loaders) params

end Parameters
end Glm5Next.MtpLoading
