import Mathlib.Algebra.BigOperators.Group.List.Basic
import Mathlib.Algebra.GroupWithZero.Nat
import Glm5Next.StagedFold

namespace Glm5Next.PipelineModel
open StagedFold

structure Tensor (R : Type) where
  shape : List Nat
  data : List R
  fits : data.length = shape.prod

-- view(*lead,-1) and reshape(*lead,-1) of a contiguous tensor: torch raises an
-- error when it cannot infer the last dimension.
def Tensor.viewLast (x : Tensor R) (lead : List Nat) : Option (Tensor R) :=
  if divides : lead.prod ≠ 0 ∧ lead.prod ∣ x.data.length then
    some ⟨lead ++ [x.data.length / lead.prod],x.data,by
      rw [List.prod_append,List.prod_singleton,Nat.mul_div_cancel' divides.2]⟩
  else none

structure ModelConfig where
  mhc : Bool
  mhcNumResidualStreams : Nat
  hcMult : Nat
  numHiddenLayers : Nat
  streams_exact : mhcNumResidualStreams = hcMult
  streams_pos : 1 ≤ hcMult

-- Glm5NextModel.hc_mult
def ModelConfig.relayStreams (cfg : ModelConfig) : Nat := if cfg.mhc then cfg.hcMult else 1

-- The kernels the model calls. `P` and `C` are the post and comb mixes, `H` the
-- parameters of one hyper-connection with its norm.
structure Ops (R P C H Ids : Type) where
  hcExpand : Tensor R → Nat → Tensor R
  hcContract : Tensor R → Nat → Tensor R
  hcPre : H → Tensor R → P × C × Tensor R
  hcPost : Tensor R → Tensor R → P → C → Tensor R
  hcFusedPostPre : H → Tensor R → Tensor R → P → C → Tensor R × P × C × Tensor R
  add : Tensor R → Tensor R → Tensor R
  embedTokens : Ids → Tensor R
  norm : Tensor R → Tensor R

-- hc_expand makes n streams of [T,H] rows, hc_post keeps the streams' shape, and
-- the fused kernel is hc_post followed by hc_pre.
structure Ops.Lawful (ops : Ops R P C H Ids) : Prop where
  expand_shape : ∀ (x : Tensor R) n tokens hidden, x.shape = [tokens,hidden] →
    (ops.hcExpand x n).shape = [tokens,n,hidden]
  post_shape : ∀ x residual post comb, (ops.hcPost x residual post comb).shape = residual.shape
  fused_exact : ∀ params x residual post comb, ops.hcFusedPostPre params x residual post comb =
    (ops.hcPost x residual post comb,ops.hcPre params (ops.hcPost x residual post comb))

structure DecoderLayer (R H Pos : Type) where
  layerIdx : Nat
  isMtpLayer : Bool
  hcAttn : H
  hcFfn : H
  inputLayernorm : Tensor R → Tensor R
  postAttentionLayernorm : Tensor R → Tensor R → Tensor R × Tensor R
  selfAttn : Pos → Tensor R → Tensor R
  mlp : Tensor R → Tensor R

-- The tuple (hidden_states,residual,post,comb): post and comb are None together,
-- and residual is set whenever they are.
inductive LayerState (R P C : Type) where
  | plain (hiddenStates : Tensor R) (residual : Option (Tensor R))
  | deferred (hiddenStates residual : Tensor R) (post : P) (comb : C)

def LayerState.hiddenStates : LayerState R P C → Tensor R
  | .plain x _ => x
  | .deferred x _ _ _ => x

variable {R P C H Ids Pos : Type}

-- The hc_pre in front of the attention, fused with the hc_post of the layer
-- before when that one is still pending.
def attnPre (cfg : ModelConfig) (ops : Ops R P C H Ids) (layer : DecoderLayer R H Pos) :
    LayerState R P C → Tensor R × P × C × Tensor R
  | .plain x _ =>
    let x := if layer.layerIdx = 0 then ops.hcExpand x cfg.mhcNumResidualStreams else x
    (x,ops.hcPre layer.hcAttn x)
  | .deferred x residual post comb => ops.hcFusedPostPre layer.hcAttn x residual post comb

def DecoderLayer.forward (cfg : ModelConfig) (ops : Ops R P C H Ids) (layer : DecoderLayer R H Pos)
    (positions : Pos) (state : LayerState R P C) : LayerState R P C :=
  if !cfg.mhc || layer.isMtpLayer then
    let attnOutput := layer.selfAttn positions (layer.inputLayernorm state.hiddenStates)
    let (hiddenStates,residual) := layer.postAttentionLayernorm attnOutput state.hiddenStates
    let hiddenStates := layer.mlp hiddenStates
    if layer.isMtpLayer then .plain hiddenStates (some residual)
    else .plain (ops.add residual hiddenStates) (some residual)
  else
    let (residual,post,comb,x) := attnPre cfg ops layer state
    let x := layer.selfAttn positions x
    let (residual,post,comb,x) := ops.hcFusedPostPre layer.hcFfn x residual post comb
    let x := layer.mlp x
    if layer.layerIdx = cfg.numHiddenLayers - 1 then
      .plain (ops.hcContract (ops.hcPost x residual post comb) cfg.mhcNumResidualStreams) none
    else .deferred x residual post comb

structure Model (R P C H Ids Pos : Type) where
  cfg : ModelConfig
  ops : Ops R P C H Ids
  -- The weights of layer i; get_layer passes no is_mtp_layer.
  weights : Nat → DecoderLayer R H Pos

def Model.getLayer (m : Model R P C H Ids Pos) (layerIdx : Nat) : DecoderLayer R H Pos :=
  { m.weights layerIdx with layerIdx := layerIdx,isMtpLayer := false }

structure ForwardInput (R Ids Pos : Type) where
  inputIds : Ids
  positions : Pos
  inputsEmbeds : Option (Tensor R)

def embedded (m : Model R P C H Ids Pos) (input : ForwardInput R Ids Pos) : Tensor R :=
  input.inputsEmbeds.getD (m.ops.embedTokens input.inputIds)

-- What a rank returns: IntermediateTensors or the normed hidden states.
inductive Output (R : Type) where
  | intermediateTensors (hiddenStates : Tensor R)
  | hiddenStates (hiddenStates : Tensor R)

-- [T,n*H] -> [T,n,H]
def receiveStreams (cfg : ModelConfig) (hiddenStates : Tensor R) : Option (Tensor R) := do
  if cfg.relayStreams > 1 then hiddenStates.viewLast [← hiddenStates.shape.head?,cfg.relayStreams]
  else some hiddenStates

-- The pending hc_post is done before the streams are sent.
def materialize (ops : Ops R P C H Ids) : LayerState R P C → Tensor R
  | .plain x _ => x
  | .deferred x residual post comb => ops.hcPost x residual post comb

def sendStreams (cfg : ModelConfig) (hiddenStates : Tensor R) : Option (Tensor R) := do
  if cfg.relayStreams > 1 then hiddenStates.viewLast [← hiddenStates.shape.head?]
  else some hiddenStates

-- Glm5NextModel.forward of the rank that holds the layers `active`.
def forward (m : Model R P C H Ids Pos) (isFirstRank isLastRank : Bool) (active : List (DecoderLayer R H Pos))
    (input : ForwardInput R Ids Pos) (intermediateTensors : Option (Tensor R)) : Option (Output R) := do
  let hiddenStates ←
    if isFirstRank then some (embedded m input)
    else receiveStreams m.cfg (← intermediateTensors)
  let state := active.foldl (fun state layer => layer.forward m.cfg m.ops input.positions state)
    (.plain hiddenStates none)
  if !isLastRank then return .intermediateTensors (← sendStreams m.cfg (materialize m.ops state))
  else return .hiddenStates (m.ops.norm state.hiddenStates)

def pipelineFrom (m : Model R P C H Ids Pos) (input : ForwardInput R Ids Pos) :
    Bool → Option (Tensor R) → List (List (DecoderLayer R H Pos)) → Option (Output R)
  | _,_,[] => none
  | isFirstRank,received,[slice] => forward m isFirstRank true slice input received
  | isFirstRank,received,slice :: next :: rest => do
    match ← forward m isFirstRank false slice input received with
    | .intermediateTensors sent => pipelineFrom m input false (some sent) (next :: rest)
    | .hiddenStates _ => none

-- make_layers: consecutive slices of the given sizes.
def slices (m : Model R P C H Ids Pos) (startLayer : Nat) : List Nat → List (List (DecoderLayer R H Pos))
  | [] => []
  | size :: sizes => (List.range' startLayer size).map m.getLayer :: slices m (startLayer + size) sizes

def pipeline (m : Model R P C H Ids Pos) (sizes : List Nat) (input : ForwardInput R Ids Pos) : Option (Output R) :=
  pipelineFrom m input true none (slices m 0 sizes)

def singleRank (m : Model R P C H Ids Pos) (input : ForwardInput R Ids Pos) : Option (Output R) :=
  forward m true true ((List.range m.cfg.numHiddenLayers).map m.getLayer) input none

theorem view_last (x : Tensor R) (lead : List Nat) (last : Nat) (size : x.data.length = lead.prod * last)
    (proper : lead.prod ≠ 0) (fits : x.data.length = (lead ++ [last]).prod) :
    x.viewLast lead = some ⟨lead ++ [last],x.data,fits⟩ := by
  have divides : lead.prod ≠ 0 ∧ lead.prod ∣ x.data.length := ⟨proper,last,size⟩
  have width : x.data.length / lead.prod = last := by
    rw [size,Nat.mul_div_cancel_left _ (Nat.pos_of_ne_zero proper)]
  unfold Tensor.viewLast
  rw [dif_pos divides]
  simp [width]

theorem streams_round (cfg : ModelConfig) (x : Tensor R) (tokens width : Nat)
    (shaped : x.shape = [tokens,cfg.relayStreams,width]) (positive : 0 < tokens) :
    (sendStreams cfg x).bind (receiveStreams cfg) = some x := by
  by_cases streams : cfg.relayStreams > 1
  · obtain ⟨shape,data,fits⟩ := x
    dsimp only at shaped
    subst shaped
    have size : data.length = tokens * (cfg.relayStreams * width) := by simpa using fits
    have apart : tokens * cfg.relayStreams ≠ 0 := Nat.mul_ne_zero (by omega) (by omega)
    have flat : sendStreams cfg ⟨[tokens,cfg.relayStreams,width],data,fits⟩ =
        some ⟨[tokens] ++ [cfg.relayStreams * width],data,by simpa using size⟩ := by
      simp only [sendStreams,streams,if_true,List.head?_cons,Option.bind_eq_bind,Option.bind_some]
      exact view_last _ [tokens] _ (by simpa using size) (by simpa using Nat.ne_of_gt positive) _
    rw [flat,Option.bind_some]
    simp only [receiveStreams,streams,if_true,List.cons_append,List.head?_cons,Option.bind_eq_bind,
      Option.bind_some]
    exact view_last _ [tokens,cfg.relayStreams] width (by simpa [Nat.mul_assoc] using size) (by simpa using apart) _
  · simp [sendStreams,receiveStreams,streams]

def layerStep (m : Model R P C H Ids Pos) (positions : Pos) (state : LayerState R P C)
    (layer : DecoderLayer R H Pos) : LayerState R P C :=
  layer.forward m.cfg m.ops positions state

def handoff (m : Model R P C H Ids Pos) (state : LayerState R P C) : Option (LayerState R P C) :=
  ((sendStreams m.cfg (materialize m.ops state)).bind (receiveStreams m.cfg)).map fun x => .plain x none

def finish (m : Model R P C H Ids Pos) (state : LayerState R P C) : Output R :=
  .hiddenStates (m.ops.norm state.hiddenStates)

def enter (m : Model R P C H Ids Pos) (input : ForwardInput R Ids Pos) (isFirstRank : Bool)
    (received : Option (Tensor R)) : Option (LayerState R P C) := do
  if isFirstRank then return .plain (embedded m input) none
  else return .plain (← receiveStreams m.cfg (← received)) none

theorem forward_exact (m : Model R P C H Ids Pos) (input : ForwardInput R Ids Pos) (isFirstRank isLastRank : Bool)
    (active : List (DecoderLayer R H Pos)) (received : Option (Tensor R)) :
    forward m isFirstRank isLastRank active input received =
      (enter m input isFirstRank received).bind fun state =>
        let state := active.foldl (layerStep m input.positions) state
        if isLastRank then some (finish m state)
        else (sendStreams m.cfg (materialize m.ops state)).map .intermediateTensors := by
  have ends : ∀ state : LayerState R P C, (do
      if !isLastRank then return .intermediateTensors (← sendStreams m.cfg (materialize m.ops state))
      else return .hiddenStates (m.ops.norm state.hiddenStates)) =
        if isLastRank then some (finish m state)
        else (sendStreams m.cfg (materialize m.ops state)).map .intermediateTensors := by
    intro state
    cases isLastRank with
    | true => rfl
    | false =>
        generalize sendStreams m.cfg (materialize m.ops state) = sent
        cases sent <;> rfl
  cases isFirstRank with
  | true => exact ends _
  | false =>
      cases received with
      | none => rfl
      | some sent =>
          simp only [forward,enter,Bool.false_eq_true,if_false,Option.bind_eq_bind,Option.bind_some]
          generalize receiveStreams m.cfg sent = streams
          cases streams with
          | none => rfl
          | some x => exact ends _

theorem pipeline_staged (m : Model R P C H Ids Pos) (input : ForwardInput R Ids Pos)
    (parts : List (List (DecoderLayer R H Pos))) (isFirstRank : Bool) (received : Option (Tensor R))
    (proper : parts ≠ []) :
    pipelineFrom m input isFirstRank received parts = (enter m input isFirstRank received).bind fun state =>
      (staged (layerStep m input.positions) (handoff m) state parts).map (finish m) := by
  induction parts generalizing isFirstRank received with
  | nil => exact absurd rfl proper
  | cons slice rest ih =>
      cases rest with
      | nil =>
          simp only [pipelineFrom,forward_exact,staged,if_true]
          rfl
      | cons next rest =>
          have later := fun sent => ih false (some sent) (by simp)
          simp only [pipelineFrom,forward_exact,staged,Bool.false_eq_true,if_false]
          cases enter m input isFirstRank received with
          | none => rfl
          | some start =>
              simp only [Option.bind_eq_bind,Option.bind_some,handoff]
              cases sendStreams m.cfg (materialize m.ops (slice.foldl (layerStep m input.positions) start)) with
              | none => rfl
              | some sent =>
                  simp only [Option.map_some,Option.bind_some,later]
                  cases received : receiveStreams m.cfg sent with
                  | none => simp [enter,received]
                  | some x => simp [enter,received]

-- What a boundary inside the layers sees: streams of the right shape while mHC
-- is on, a plain hidden state otherwise.
def Between (m : Model R P C H Ids Pos) (tokens width : Nat) : LayerState R P C → Prop
  | .plain _ _ => m.cfg.mhc = false
  | .deferred _ residual _ _ => m.cfg.mhc = true ∧ residual.shape = [tokens,m.cfg.mhcNumResidualStreams,width]

theorem layer_between (m : Model R P C H Ids Pos) (lawful : m.ops.Lawful) (positions : Pos) (layerIdx : Nat)
    (inner : layerIdx ≠ m.cfg.numHiddenLayers - 1) (state : LayerState R P C)
    (streams : m.cfg.mhc = true → (attnPre m.cfg m.ops (m.getLayer layerIdx) state).1.shape =
      [tokens,m.cfg.mhcNumResidualStreams,width]) :
    Between m tokens width (layerStep m positions state (m.getLayer layerIdx)) := by
  unfold layerStep DecoderLayer.forward
  cases mhc : m.cfg.mhc with
  | false => simp [Between,Model.getLayer,mhc]
  | true =>
      have shape := streams mhc
      simp only [Model.getLayer,Bool.not_true,Bool.or_self,Bool.false_eq_true,if_false,if_neg inner,
        lawful.fused_exact]
      exact ⟨mhc,(lawful.post_shape _ _ _ _).trans shape⟩

theorem first_streams (m : Model R P C H Ids Pos) (lawful : m.ops.Lawful) (x : Tensor R)
    (shaped : x.shape = [tokens,width]) :
    (attnPre m.cfg m.ops (m.getLayer 0) (.plain x none : LayerState R P C)).1.shape =
      [tokens,m.cfg.mhcNumResidualStreams,width] := by
  simpa [attnPre,Model.getLayer] using lawful.expand_shape x m.cfg.mhcNumResidualStreams tokens width shaped

theorem later_streams (m : Model R P C H Ids Pos) (lawful : m.ops.Lawful) (layerIdx : Nat)
    (state : LayerState R P C) (between : Between m tokens width state) (mhc : m.cfg.mhc = true) :
    (attnPre m.cfg m.ops (m.getLayer layerIdx) state).1.shape = [tokens,m.cfg.mhcNumResidualStreams,width] := by
  cases state with
  | plain x residual => rw [Between,mhc] at between; cases between
  | deferred x residual post comb =>
      simp only [attnPre,lawful.fused_exact]
      exact (lawful.post_shape _ _ _ _).trans between.2

theorem prefix_between (m : Model R P C H Ids Pos) (lawful : m.ops.Lawful) (input : ForwardInput R Ids Pos)
    (shaped : (embedded m input).shape = [tokens,width]) (k : Nat) (inner : k + 1 < m.cfg.numHiddenLayers) :
    Between m tokens width (((List.range (k + 1)).map m.getLayer).foldl (layerStep m input.positions)
      (.plain (embedded m input) none)) := by
  induction k with
  | zero =>
      exact layer_between m lawful input.positions 0 (by omega) _ fun _ => first_streams m lawful _ shaped
  | succ k ih =>
      rw [List.range_succ,List.map_append,List.foldl_append]
      exact layer_between m lawful input.positions (k + 1) (by omega) _
        (later_streams m lawful (k + 1) _ (ih (by omega)))

theorem forward_pre (cfg : ModelConfig) (ops : Ops R P C H Ids) (layer : DecoderLayer R H Pos) (positions : Pos)
    (on : cfg.mhc = true) (base : layer.isMtpLayer = false)
    (same : attnPre cfg ops layer one = attnPre cfg ops layer two) :
    layer.forward cfg ops positions one = layer.forward cfg ops positions two := by
  have streams : ¬ (!cfg.mhc || layer.isMtpLayer) = true := by simp [on,base]
  unfold DecoderLayer.forward
  rw [if_neg streams,if_neg streams,same]

-- The next layer cannot tell the handed-over streams from the pending hc_post.
theorem handoff_transparent (m : Model R P C H Ids Pos) (lawful : m.ops.Lawful) (positions : Pos)
    (state : LayerState R P C) (between : Between m tokens width state) (present : 0 < tokens) (layerIdx : Nat)
    (later : layerIdx ≠ 0) :
    ∃ handed, handoff m state = some handed ∧
      layerStep m positions handed (m.getLayer layerIdx) = layerStep m positions state (m.getLayer layerIdx) := by
  cases state with
  | plain x residual =>
      have off : m.cfg.mhc = false := between
      refine ⟨.plain x none,?_,?_⟩
      · simp [handoff,materialize,sendStreams,receiveStreams,ModelConfig.relayStreams,off]
      · simp [layerStep,DecoderLayer.forward,off,LayerState.hiddenStates]
  | deferred x residual post comb =>
      obtain ⟨on,shape⟩ := between
      have streams : (m.ops.hcPost x residual post comb).shape = [tokens,m.cfg.relayStreams,width] := by
        rw [lawful.post_shape,shape,m.cfg.streams_exact]
        simp [ModelConfig.relayStreams,on]
      refine ⟨.plain (m.ops.hcPost x residual post comb) none,?_,?_⟩
      · simp [handoff,materialize,streams_round m.cfg _ tokens width streams present]
      · have same : attnPre m.cfg m.ops (m.getLayer layerIdx)
            (.plain (m.ops.hcPost x residual post comb) none : LayerState R P C) =
            attnPre m.cfg m.ops (m.getLayer layerIdx) (.deferred x residual post comb) := by
          simp [attnPre,Model.getLayer,later,lawful.fused_exact]
        exact forward_pre m.cfg m.ops (m.getLayer layerIdx) positions on rfl same

theorem slices_flatten (m : Model R P C H Ids Pos) (startLayer : Nat) (sizes : List Nat) :
    (slices m startLayer sizes).flatten = (List.range' startLayer sizes.sum).map m.getLayer := by
  induction sizes generalizing startLayer with
  | nil => rfl
  | cons size sizes ih =>
      simp only [slices,List.flatten_cons,ih,List.sum_cons,← List.map_append]
      rw [List.range'_append_1]

theorem slices_proper (m : Model R P C H Ids Pos) (startLayer : Nat) (sizes : List Nat)
    (positive : ∀ size ∈ sizes, 0 < size) : ∀ slice ∈ slices m startLayer sizes, slice ≠ [] := by
  induction sizes generalizing startLayer with
  | nil => simp [slices]
  | cons size sizes ih =>
      intro slice member
      rcases List.mem_cons.mp member with rfl | member
      · have := positive size (by simp)
        simp only [ne_eq,List.map_eq_nil_iff,List.range'_eq_nil_iff]
        omega
      · exact ih _ (fun size member => positive size (List.mem_cons_of_mem _ member)) slice member

theorem layers_transparent (m : Model R P C H Ids Pos) (lawful : m.ops.Lawful) (input : ForwardInput R Ids Pos)
    (shaped : (embedded m input).shape = [tokens,width]) (present : 0 < tokens) :
    Transparent (layerStep m input.positions) (handoff m) (.plain (embedded m input) none)
      ((List.range m.cfg.numHiddenLayers).map m.getLayer) := by
  intro before layer after split proper
  have lengths := congrArg List.length split
  simp only [List.length_map,List.length_range,List.length_append,List.length_cons] at lengths
  have positive : before.length ≠ 0 := by simpa using proper
  obtain ⟨k,size⟩ := Nat.exists_eq_succ_of_ne_zero positive
  have taken : before = (List.range (k + 1)).map m.getLayer := by
    have cut := congrArg (List.take before.length) split
    rw [List.take_left,← List.map_take,List.take_range,Nat.min_eq_left (by omega),size] at cut
    exact cut.symm
  have next : layer = m.getLayer (k + 1) := by
    have at_k := congrArg (fun xs => xs[before.length]?) split
    simpa [size,List.getElem?_range,lengths.symm ▸ (by omega : k + 1 < before.length + (after.length + 1)),
      eq_comm] using at_k
  subst taken
  subst next
  exact handoff_transparent m lawful input.positions _
    (prefix_between m lawful input shaped k (by omega)) present (k + 1) (by omega)

theorem pipeline_split_exact (m : Model R P C H Ids Pos) (lawful : m.ops.Lawful) (sizes : List Nat)
    (positive : ∀ size ∈ sizes, 0 < size) (cover : sizes.sum = m.cfg.numHiddenLayers)
    (layers : 1 ≤ m.cfg.numHiddenLayers) (input : ForwardInput R Ids Pos)
    (shaped : (embedded m input).shape = [tokens,width]) (present : 0 < tokens) :
    pipeline m sizes input = singleRank m input ∧ (singleRank m input).isSome := by
  have flat : (slices m 0 sizes).flatten = (List.range m.cfg.numHiddenLayers).map m.getLayer := by
    rw [slices_flatten,cover,List.range_eq_range']
  have ranks : slices m 0 sizes ≠ [] := by
    intro empty
    rw [empty,List.flatten_nil] at flat
    have := congrArg List.length flat
    simp only [List.length_nil,List.length_map,List.length_range] at this
    omega
  have clear := layers_transparent m lawful input shaped present
  rw [← flat] at clear
  have single : singleRank m input = some (finish m (((List.range m.cfg.numHiddenLayers).map m.getLayer).foldl
      (layerStep m input.positions) (.plain (embedded m input) none))) := by
    rw [singleRank,forward_exact]
    rfl
  refine ⟨?_,by rw [single]; rfl⟩
  calc pipeline m sizes input
      = (staged (layerStep m input.positions) (handoff m) (.plain (embedded m input) none)
          (slices m 0 sizes)).map (finish m) := pipeline_staged m input _ true none ranks
    _ = singleRank m input := by
        rw [staged_exact _ _ (slices_proper m 0 sizes positive) clear,flat,single]
        rfl

def repeatRows (x : Tensor Int) (n : Nat) : Tensor Int :=
  match x.shape with
  | [tokens,width] => ⟨[tokens,n,width],(List.range (tokens * (n * width))).map fun i =>
      x.data.getD (i / (n * width) * width + i % width) 0,by simp⟩
  | _ => x

def countingOps : Ops Int Unit Unit Unit Unit where
  hcExpand := repeatRows
  hcContract x _ := x
  hcPre _ x := ((),(),x)
  hcPost _ residual _ _ := ⟨residual.shape,residual.data.map (· + 1),by simp [residual.fits]⟩
  hcFusedPostPre _ _ residual _ _ :=
    let streams : Tensor Int := ⟨residual.shape,residual.data.map (· + 1),by simp [residual.fits]⟩
    (streams,(),(),streams)
  add x _ := x
  embedTokens _ := ⟨[1,2],[3,4],rfl⟩
  norm x := x

def countingModel : Model Int Unit Unit Unit Unit Unit where
  cfg := ⟨true,2,2,3,rfl,by decide⟩
  ops := countingOps
  weights _ := ⟨0,false,(),(),id,Prod.mk,fun _ => id,id⟩

theorem counting_lawful : countingOps.Lawful where
  expand_shape x n tokens width shaped := by simp [countingOps,repeatRows,shaped]
  post_shape _ _ _ _ := rfl
  fused_exact _ _ _ _ _ := rfl

theorem pipeline_split_exact_counting :
    pipeline countingModel [1,2] ⟨(),(),none⟩ = singleRank countingModel ⟨(),(),none⟩ :=
  (pipeline_split_exact countingModel counting_lawful [1,2] (by decide) rfl (by decide) ⟨(),(),none⟩
    (rfl : (embedded countingModel ⟨(),(),none⟩).shape = [1,2]) (by decide)).1

end Glm5Next.PipelineModel
