import Mathlib.Algebra.Ring.Rat
import Mathlib.Tactic.FinCases
import Glm5Next.TextSearch
import Glm5Next.PairedHalves
import Glm5Next.Fp8Dequant

namespace Glm5Next.Fp8Projections
open TextSearch PairedHalves Fp8Dequant

abbrev Name := List Char

instance : LawfulBEq Name := inferInstance

-- The shard id a parameter's loader is called with.
inductive Shard where
  | index (shardId : Nat)
  | expert (expertId : Nat) (shardId : Name)
  deriving DecidableEq

structure Call (T : Type) where
  param : Name
  shard : Option Shard
  tensor : T

structure CheckpointTensor (T : Type) where
  name : Name
  fp8 : Bool
  tensor : T

-- The inner dict of the buffer under one prefix: the halves of the indexer's wk
-- and those under the projections' keys.
structure Inner (T : Type) where
  own : Entry T
  byKey : Name → Entry T

structure Loading (T : Type) where
  buf : Name → Inner T
  calls : List (Call T)

def Loading.initial : Loading T := ⟨fun _ => ⟨Entry.empty,fun _ => Entry.empty⟩,[]⟩

inductive AttnProj where
  | qA
  | kvA
  | qB
  | o
  deriving DecidableEq

structure ProjInfo where
  suffix : Name
  key : Name
  targetBase : Name
  shardId : Option Nat
  isKva : Bool

def fp8AttnProjs : AttnProj → ProjInfo
  | .qA => ⟨".q_a_proj.".toList,"q_a".toList,"fused_qkv_a_proj".toList,some 0,false⟩
  | .kvA => ⟨".kv_a_proj_with_mqa.".toList,"kv_a".toList,"fused_qkv_a_proj".toList,some 1,true⟩
  | .qB => ⟨".q_b_proj.".toList,"q_b".toList,"q_b_proj".toList,none,false⟩
  | .o => ⟨".o_proj.".toList,"o_proj".toList,"o_proj".toList,none,false⟩

-- The dict's order.
def projOrder : List AttnProj := [.qA,.kvA,.qB,.o]

def targetW (layerPrefix : Name) (proj : AttnProj) : Name :=
  layerPrefix ++ '.' :: (fp8AttnProjs proj).targetBase ++ ".weight".toList

def targetS (layerPrefix : Name) (proj : AttnProj) : Name :=
  layerPrefix ++ '.' :: (fp8AttnProjs proj).targetBase ++ ".weight_scale_inv".toList

-- Which half of which pair a tensor is; none where it is left to the other paths.
def attnHalf (params : List Name) (t : CheckpointTensor T) : Option ((Name × AttnProj) × Bool) :=
  match projOrder.find? fun proj => contains (fp8AttnProjs proj).suffix t.name with
  | none => none
  | some proj =>
      let isWeight := endsWith ".weight".toList t.name && t.fp8
      let isScale := contains "weight_scale_inv".toList t.name
      if !isWeight && !isScale then none
      else
        let layerPrefix := rsplitFirst (fp8AttnProjs proj).suffix t.name
        if targetS layerPrefix proj ∈ params then none else some ((layerPrefix,proj),isWeight)

def Loading.setKey (s : Loading T) (layerPrefix key : Name) (entry : Entry T) : Loading T :=
  let inner := s.buf layerPrefix
  {s with buf := Function.update s.buf layerPrefix {inner with byKey := Function.update inner.byKey key entry}}

-- `dequant` turns a weight and its scale into the tensor for the loader; false
-- stands for a tensor that was not taken, none for an exception.
def tryLoadFp8AttnProj (dequant : Bool → T → T → Option T) (params : List Name) (t : CheckpointTensor T)
    (s : Loading T) : Option (Bool × Loading T) :=
  match attnHalf params t with
  | none => some (false,s)
  | some ((layerPrefix,proj),isWeight) =>
      let info := fp8AttnProjs proj
      let entry := ((s.buf layerPrefix).byKey info.key).put isWeight t.tensor
      match entry.both with
      | none => some (true,s.setKey layerPrefix info.key entry)
      | some (weightFp8,scaleInv) =>
          let s := s.setKey layerPrefix info.key Entry.empty
          (dequant info.isKva weightFp8 scaleInv).bind fun weightBf16 =>
            if targetW layerPrefix proj ∈ params then
              some (true,{s with calls := s.calls ++ [⟨targetW layerPrefix proj,info.shardId.map .index,weightBf16⟩]})
            else none

def loadAttnProjs (dequant : Bool → T → T → Option T) (params : List Name) (stream : List (CheckpointTensor T)) :
    Option (Loading T) :=
  stream.foldlM (fun s t => (tryLoadFp8AttnProj dequant params t s).map Prod.snd) Loading.initial

section Pairing
variable {T : Type} (dequant : Bool → T → T → Option T) (params : List Name)

def attnCall (pair : (Name × AttnProj) × T × T) : Option (Call T) :=
  let info := fp8AttnProjs pair.1.2
  (dequant info.isKva pair.2.1 pair.2.2).bind fun weightBf16 =>
    if targetW pair.1.1 pair.1.2 ∈ params then some ⟨targetW pair.1.1 pair.1.2,info.shardId.map .index,weightBf16⟩ else none

def waiting (s : Loading T) (slot : Name × AttnProj) : Entry T := (s.buf slot.1).byKey (fp8AttnProjs slot.2).key

theorem keys_apart (different : proj ≠ proj') : (fp8AttnProjs proj).key ≠ (fp8AttnProjs proj').key := by
  cases proj <;> cases proj' <;> first | exact absurd rfl different | decide

theorem waiting_set (s : Loading T) (layerPrefix : Name) (proj : AttnProj) (entry : Entry T) :
    waiting (s.setKey layerPrefix (fp8AttnProjs proj).key entry) = Function.update (waiting s) (layerPrefix,proj) entry := by
  funext ⟨layer,other⟩
  unfold waiting Loading.setKey
  dsimp only
  by_cases same_layer : layer = layerPrefix
  · subst same_layer
    rw [Function.update_self]
    dsimp only
    by_cases same : other = proj
    · subst same
      rw [Function.update_self,Function.update_self]
    · rw [Function.update_of_ne (keys_apart same),Function.update_of_ne (by simp [same])]
  · rw [Function.update_of_ne same_layer,Function.update_of_ne (by simp [same_layer])]

def abstracted (s : Loading T) : State (Name × AttnProj) T (Call T) := ⟨waiting s,s.calls⟩

theorem try_load_half (half : attnHalf params t = some (slot,isWeight)) (s : Loading T) :
    tryLoadFp8AttnProj dequant params t s = match ((waiting s slot).put isWeight t.tensor).both with
      | none => some (true,s.setKey slot.1 (fp8AttnProjs slot.2).key ((waiting s slot).put isWeight t.tensor))
      | some (weightFp8,scaleInv) => (attnCall dequant params (slot,weightFp8,scaleInv)).map fun call =>
          (true,{s.setKey slot.1 (fp8AttnProjs slot.2).key Entry.empty with calls := s.calls ++ [call]}) := by
  obtain ⟨layerPrefix,proj⟩ := slot
  unfold tryLoadFp8AttnProj waiting
  rw [half]
  dsimp only
  cases (((s.buf layerPrefix).byKey (fp8AttnProjs proj).key).put isWeight t.tensor).both with
  | none => rfl
  | some pair =>
      unfold attnCall
      dsimp only
      cases dequant (fp8AttnProjs proj).isKva pair.1 pair.2 with
      | none => rfl
      | some weightBf16 =>
          rw [Option.bind_some,Option.bind_some]
          split <;> rfl

theorem try_load_step (half : attnHalf params t = some (slot,isWeight)) (s : Loading T) :
    (tryLoadFp8AttnProj dequant params t s).map (fun next => abstracted next.2) =
      stepNow (attnCall dequant params) (fun slot l r => (slot,l,r)) (abstracted s) (.half slot isWeight t.tensor) := by
  have set : ∀ entry calls, abstracted ⟨(s.setKey slot.1 (fp8AttnProjs slot.2).key entry).buf,calls⟩ =
      ⟨Function.update (waiting s) slot entry,calls⟩ := by
    intro entry calls
    exact congrArg (State.mk · calls) (waiting_set s slot.1 slot.2 entry)
  rw [try_load_half dequant params half,step_now_half]
  unfold abstracted
  dsimp only
  cases ((waiting s slot).put isWeight t.tensor).both with
  | none => exact congrArg some (set _ s.calls)
  | some pair =>
      dsimp only
      cases attnCall dequant params (slot,pair.1,pair.2) with
      | none => rfl
      | some call => exact congrArg some (set _ _)

theorem call_exact (resolved : attnCall dequant params pair = some call) : call.param = targetW pair.1.1 pair.1.2 ∧
    call.shard = (fp8AttnProjs pair.1.2).shardId.map .index ∧
    dequant (fp8AttnProjs pair.1.2).isKva pair.2.1 pair.2.2 = some call.tensor := by
  obtain ⟨tensor,dequantized,resolved⟩ := Option.bind_eq_some_iff.mp resolved
  split at resolved
  · cases resolved
    exact ⟨rfl,rfl,dequantized⟩
  · cases resolved

def halfOf (t : CheckpointTensor T) : Option ((Name × AttnProj) × Bool × T) :=
  (attnHalf params t).map fun half => (half.1,half.2,t.tensor)

-- The halves in the stream, paired, and the loader called for each pair; other
-- tensors make no difference.
theorem load_exact (stream : List (CheckpointTensor T)) :
    (loadAttnProjs dequant params stream).map abstracted =
      ((taken (stream.filterMap (halfOf params))).log.mapM (attnCall dequant params)).map
        fun calls => ⟨(taken (stream.filterMap (halfOf params))).pending,calls⟩ := by
  have steps : ∀ s : Loading T,
      (stream.foldlM (fun s t => (tryLoadFp8AttnProj dequant params t s).map Prod.snd) s).map abstracted =
        runNow (attnCall dequant params) (fun slot l r => (slot,l,r)) (abstracted s)
          ((stream.filterMap (halfOf params)).map halfEvent) := by
    induction stream with
    | nil => exact fun s => rfl
    | cons t stream ih =>
        intro s
        rw [List.foldlM_cons]
        cases taken : attnHalf params t with
        | none =>
            have skipped : halfOf params t = none := by rw [halfOf,taken]; rfl
            rw [List.filterMap_cons_none skipped,← ih s]
            unfold tryLoadFp8AttnProj
            rw [taken]
            rfl
        | some half =>
            obtain ⟨slot,isWeight⟩ := half
            have kept : halfOf params t = some (slot,isWeight,t.tensor) := by rw [halfOf,taken]; rfl
            have stepped := try_load_step dequant params taken s
            rw [List.filterMap_cons_some kept,List.map_cons]
            unfold runNow
            rw [List.foldlM_cons]
            have event : halfEvent (C := (Name × AttnProj) × T × T) (slot,isWeight,t.tensor) = .half slot isWeight t.tensor := rfl
            rw [event,← stepped]
            cases tryLoadFp8AttnProj dequant params t s with
            | none => rfl
            | some next => exact ih next.2
  exact (steps Loading.initial).trans (run_now_exact _ _ _)

end Pairing
section Names

def weightEnding : Name := "weight".toList

def scaleEnding : Name := "weight_scale_inv".toList

def Clean (layer : Name) : Prop := ∀ proj, ¬ (fp8AttnProjs proj).suffix <:+: layer ++ ['.']

theorem suffix_split (proj : AttnProj) : (fp8AttnProjs proj).suffix = '.' :: (fp8AttnProjs proj).suffix.tail := by
  cases proj <;> rfl

theorem others_absent (different : other ≠ proj) (known : ending = weightEnding ∨ ending = scaleEnding) :
    ¬ (fp8AttnProjs other).suffix <:+: (fp8AttnProjs proj).suffix.tail ++ ending ∧
      ∀ n < (fp8AttnProjs other).suffix.length, ((fp8AttnProjs other).suffix.take n).getLast? = some '.' →
        ¬ (fp8AttnProjs other).suffix.drop n <+: (fp8AttnProjs proj).suffix.tail ++ ending := by
  rcases known with rfl | rfl <;> cases other <;> cases proj <;> first | exact absurd rfl different | decide

theorem own_last (proj : AttnProj) (known : ending = weightEnding ∨ ending = scaleEnding) :
    ¬ (fp8AttnProjs proj).suffix <:+: (fp8AttnProjs proj).suffix.tail ++ ending := by
  rcases known with rfl | rfl <;> cases proj <;> decide

theorem name_split (layer ending : Name) (proj : AttnProj) : layer ++ (fp8AttnProjs proj).suffix ++ ending =
    layer ++ ['.'] ++ ((fp8AttnProjs proj).suffix.tail ++ ending) := by
  rw [suffix_split,List.append_assoc,List.append_assoc]
  rfl

theorem found_proj (clean : Clean layer) (proj : AttnProj) (known : ending = weightEnding ∨ ending = scaleEnding) :
    projOrder.find? (fun other => contains (fp8AttnProjs other).suffix (layer ++ (fp8AttnProjs proj).suffix ++ ending)) =
      some proj := by
  have own : contains (fp8AttnProjs proj).suffix (layer ++ (fp8AttnProjs proj).suffix ++ ending) = true :=
    decide_eq_true (List.infix_append _ _ _)
  have others : ∀ other, other ≠ proj →
      contains (fp8AttnProjs other).suffix (layer ++ (fp8AttnProjs proj).suffix ++ ending) = false := by
    intro other different
    obtain ⟨apart,cut⟩ := others_absent different known
    rw [name_split]
    exact decide_eq_false (absent_joined (clean other) apart cut)
  generalize layer ++ (fp8AttnProjs proj).suffix ++ ending = name at own others
  unfold projOrder
  cases proj <;> simp [List.find?,own,others]

theorem found_layer (layer : Name) (proj : AttnProj) (known : ending = weightEnding ∨ ending = scaleEnding) :
    rsplitFirst (fp8AttnProjs proj).suffix (layer ++ (fp8AttnProjs proj).suffix ++ ending) = layer := by
  rw [List.append_assoc]
  apply rsplit_exact
  · exact List.prefix_append _ _
  · have tail : ((fp8AttnProjs proj).suffix ++ ending).tail = (fp8AttnProjs proj).suffix.tail ++ ending := by
      cases proj <;> rfl
    rw [tail]
    exact own_last proj known

theorem ends_own (proj : AttnProj) (known : ending = weightEnding ∨ ending = scaleEnding) :
    ".weight".toList.length ≤ ((fp8AttnProjs proj).suffix ++ ending).length ∧
      endsWith ".weight".toList ((fp8AttnProjs proj).suffix ++ ending) = decide (ending = weightEnding) := by
  rcases known with rfl | rfl <;> cases proj <;> decide

theorem ends_weight (layer : Name) (proj : AttnProj) (known : ending = weightEnding ∨ ending = scaleEnding) :
    endsWith ".weight".toList (layer ++ (fp8AttnProjs proj).suffix ++ ending) = decide (ending = weightEnding) := by
  obtain ⟨long,ends⟩ := ends_own proj known
  rw [List.append_assoc,ends_with_exact layer long]
  exact ends

theorem weight_half (clean : Clean layer) (proj : AttnProj) (absent : targetS layer proj ∉ params) (tensor : T) :
    attnHalf params ⟨layer ++ (fp8AttnProjs proj).suffix ++ weightEnding,true,tensor⟩ = some ((layer,proj),true) := by
  unfold attnHalf
  rw [found_proj clean proj (Or.inl rfl)]
  dsimp only
  rw [ends_weight layer proj (Or.inl rfl),found_layer layer proj (Or.inl rfl)]
  simp [absent]

theorem scale_half (clean : Clean layer) (proj : AttnProj) (absent : targetS layer proj ∉ params) (fp8 : Bool) (tensor : T) :
    attnHalf params ⟨layer ++ (fp8AttnProjs proj).suffix ++ scaleEnding,fp8,tensor⟩ = some ((layer,proj),false) := by
  have scale : contains "weight_scale_inv".toList (layer ++ (fp8AttnProjs proj).suffix ++ scaleEnding) = true :=
    decide_eq_true (List.infix_append_right)
  have other : scaleEnding ≠ weightEnding := by decide
  unfold attnHalf
  rw [found_proj clean proj (Or.inr rfl)]
  dsimp only
  rw [ends_weight layer proj (Or.inr rfl),found_layer layer proj (Or.inr rfl),scale]
  simp [absent,other]

theorem target_apart (different : (fp8AttnProjs proj).targetBase ≠ (fp8AttnProjs other).targetBase) :
    ¬ '.' :: (fp8AttnProjs proj).targetBase ++ ".weight".toList <:+ '.' :: (fp8AttnProjs other).targetBase ++ ".weight".toList := by
  cases proj <;> cases other <;> first | decide | exact absurd rfl different

theorem target_injective (same : targetW layer proj = targetW layer' proj')
    (shard : (fp8AttnProjs proj).shardId = (fp8AttnProjs proj').shardId) : layer = layer' ∧ proj = proj' := by
  have base : (fp8AttnProjs proj).targetBase = (fp8AttnProjs proj').targetBase := by
    by_contra different
    unfold targetW at same
    rw [List.append_assoc,List.append_assoc] at same
    exact same_before same (target_apart different) (target_apart (Ne.symm different))
  constructor
  · unfold targetW at same
    rw [base] at same
    exact List.append_cancel_right (List.append_cancel_right same)
  · cases proj <;> cases proj' <;> first | rfl | exact absurd shard (by decide) | exact absurd base (by decide)

end Names

-- Projections the model keeps in BF16, of any layers, each with the shape of
-- its weight.
structure Projection where
  layer : Name
  proj : AttnProj
  out : Nat
  inn : Nat
  deriving DecidableEq

structure ProjectionSet (params : List Name) where
  projections : List Projection
  distinct : (projections.map fun p => (p.layer,p.proj)).Nodup
  clean : ∀ p ∈ projections, Clean p.layer
  target : ∀ p ∈ projections, targetW p.layer p.proj ∈ params
  unscaled : ∀ p ∈ projections, targetS p.layer p.proj ∉ params

section Loads
variable {R : Type} [MulZeroOneClass R]

def weightTensor (p : Projection) (w : Nat → Nat → R) : CheckpointTensor (Tensor R) :=
  ⟨p.layer ++ (fp8AttnProjs p.proj).suffix ++ weightEnding,true,⟨p.out,p.inn,w⟩⟩

def scaleTensor (b : Nat) (p : Projection) (s : Nat → Nat → R) : CheckpointTensor (Tensor R) :=
  ⟨p.layer ++ (fp8AttnProjs p.proj).suffix ++ scaleEnding,false,blockScale b p.out p.inn s⟩

-- The projection's loader got the dequantized weight, with the rope rows of kv_a.
structure Loaded (toBf16 : R → R) (b padSize : Nat) (p : Projection) (w s : Nat → Nat → R) (call : Call (Tensor R)) : Prop where
  param : call.param = targetW p.layer p.proj
  shard : call.shard = (fp8AttnProjs p.proj).shardId.map .index
  tensor : Dequantized toBf16 b (if (fp8AttnProjs p.proj).isKva then padSize else 0) ⟨p.out,p.inn,w⟩ s call.tensor

-- Whatever the values and the order of arrival: one call for each projection,
-- the right one, and nothing is left in the buffer.
def LoadsExactly (toBf16 : R → R) (b padSize : Nat) (set : ProjectionSet params) : Prop :=
  ∀ weight scale : Projection → Nat → Nat → R, ∀ stream : List (CheckpointTensor (Tensor R)),
    stream.Perm (set.projections.flatMap fun p => [weightTensor p (weight p),scaleTensor b p (scale p)]) →
    ∃ s done, loadAttnProjs (attnWeight toBf16 padSize) params stream = some s ∧ done.Perm set.projections ∧
      List.Forall₂ (fun p call => Loaded toBf16 b padSize p (weight p) (scale p) call) done s.calls ∧
      ∀ slot, waiting s slot = Entry.empty

def slotOf (b : Nat) (weight scale : Projection → Nat → Nat → R) (p : Projection) :
    (Name × AttnProj) × Tensor R × Tensor R :=
  ((p.layer,p.proj),⟨p.out,p.inn,weight p⟩,blockScale b p.out p.inn (scale p))

omit [MulZeroOneClass R] in
theorem stream_halves (set : ProjectionSet params) (b : Nat) (weight scale : Projection → Nat → Nat → R) :
    (set.projections.flatMap fun p => [weightTensor p (weight p),scaleTensor b p (scale p)]).filterMap (halfOf params) =
      (set.projections.map (slotOf b weight scale)).flatMap bothHalves := by
  rw [List.filterMap_flatMap,List.flatMap_map]
  apply List.flatMap_congr
  intro p listed
  have first : halfOf params (weightTensor p (weight p)) = some ((p.layer,p.proj),true,⟨p.out,p.inn,weight p⟩) := by
    unfold halfOf weightTensor
    rw [weight_half (set.clean p listed) p.proj (set.unscaled p listed)]
    rfl
  have second : halfOf params (scaleTensor b p (scale p)) =
      some ((p.layer,p.proj),false,blockScale b p.out p.inn (scale p)) := by
    unfold halfOf scaleTensor
    rw [scale_half (set.clean p listed) p.proj (set.unscaled p listed)]
    rfl
  rw [List.filterMap_cons_some first,List.filterMap_cons_some second]
  rfl

omit [MulZeroOneClass R] in
theorem stream_taken (set : ProjectionSet params) (b : Nat) (weight scale : Projection → Nat → Nat → R)
    {stream : List (CheckpointTensor (Tensor R))}
    (order : stream.Perm (set.projections.flatMap fun p => [weightTensor p (weight p),scaleTensor b p (scale p)])) :
    (∃ done : List Projection, (taken (stream.filterMap (halfOf params))).log = done.map (slotOf b weight scale) ∧
      done.Perm set.projections) ∧
      ∀ slot, (taken (stream.filterMap (halfOf params))).pending slot = Entry.empty := by
  have halves := order.filterMap (halfOf params)
  rw [stream_halves] at halves
  have distinct : ((set.projections.map (slotOf b weight scale)).map Prod.fst).Nodup := by
    rw [List.map_map]
    exact set.distinct
  obtain ⟨logged,cleared⟩ := slots_taken distinct halves
  exact ⟨(congrFun₂ (List.eq_map_comp_perm (slotOf b weight scale)) _ _).mpr logged,cleared⟩

theorem slot_call (set : ProjectionSet params) (listed : p ∈ set.projections) (toBf16 : R → R) (b padSize : Nat)
    (weight scale : Projection → Nat → Nat → R)
    (found : attnWeight toBf16 padSize (fp8AttnProjs p.proj).isKva ⟨p.out,p.inn,weight p⟩ (blockScale b p.out p.inn (scale p)) =
      some t) :
    attnCall (attnWeight toBf16 padSize) params (slotOf b weight scale p) =
      some ⟨targetW p.layer p.proj,(fp8AttnProjs p.proj).shardId.map .index,t⟩ := by
  unfold attnCall slotOf
  dsimp only
  rw [found,Option.bind_some,if_pos (set.target p listed)]

theorem exact_fits (positive : 0 < b) (toBf16 : R → R) (apart : toBf16 0 ≠ toBf16 1) (padSize : Nat)
    (set : ProjectionSet params) (right : LoadsExactly toBf16 b padSize set) :
    ∀ p ∈ set.projections, Fits b p.out p.inn := by
  intro p listed
  apply dequantized_fits positive apart padSize (fp8AttnProjs p.proj).isKva
  intro w s
  obtain ⟨state,done,loaded,order,calls,_⟩ := right (fun _ => w) (fun _ => s) _ (List.Perm.refl _)
  obtain ⟨⟨taken_order,log,all⟩,_⟩ := stream_taken set b (fun _ => w) (fun _ => s) (List.Perm.refl _)
  have ran := load_exact (attnWeight toBf16 padSize) params
    (set.projections.flatMap fun p => [weightTensor p w,scaleTensor b p s])
  rw [loaded,log] at ran
  obtain ⟨resolved,mapped,same⟩ := Option.map_eq_some_iff.mp ran.symm
  have same_calls : resolved = state.calls := congrArg State.log same
  subst same_calls
  have related := (mapM_some _ _).mp mapped
  rw [List.forall₂_map_left_iff] at related
  obtain ⟨call,member,called⟩ := related_left related (all.mem_iff.mpr listed)
  obtain ⟨p',member',loaded'⟩ := related_left calls.flip member
  obtain ⟨param,shard,found⟩ := call_exact _ _ called
  -- The call for p is the one the result lists for p.
  have own : p' = p := by
    have shards : (fp8AttnProjs p'.proj).shardId = (fp8AttnProjs p.proj).shardId :=
      Option.map_injective (fun _ _ => Shard.index.inj) (loaded'.shard.symm.trans shard)
    obtain ⟨same_layer,same_proj⟩ := target_injective (loaded'.param.symm.trans param) shards
    exact List.inj_on_of_nodup_map set.distinct (order.mem_iff.mp member') listed (Prod.ext same_layer same_proj)
  subst own
  exact ⟨call.tensor,found,loaded'.tensor⟩

theorem fits_exact (positive : 0 < b) (toBf16 : R → R) (padSize : Nat) (set : ProjectionSet params)
    (fits : ∀ p ∈ set.projections, Fits b p.out p.inn) : LoadsExactly toBf16 b padSize set := by
  intro weight scale stream order
  obtain ⟨⟨done,log,all⟩,cleared⟩ := stream_taken set b weight scale order
  have each : ∀ p ∈ done, ∃ call, attnCall (attnWeight toBf16 padSize) params (slotOf b weight scale p) = some call ∧
      Loaded toBf16 b padSize p (weight p) (scale p) call := by
    intro p member
    have listed := all.mem_iff.mp member
    obtain ⟨t,found,exactly⟩ := fits_dequantized positive (fits p listed) toBf16 padSize (fp8AttnProjs p.proj).isKva
      (weight p) (scale p)
    exact ⟨_,slot_call set listed toBf16 b padSize weight scale found,⟨rfl,rfl,exactly⟩⟩
  obtain ⟨calls,related⟩ := all_related done each
  have mapped : (done.map (slotOf b weight scale)).mapM (attnCall (attnWeight toBf16 padSize) params) = some calls := by
    rw [mapM_some,List.forall₂_map_left_iff]
    exact related.imp fun _ _ both => both.1
  have ran := load_exact (attnWeight toBf16 padSize) params stream
  rw [log,mapped] at ran
  obtain ⟨state,loaded,same⟩ := Option.map_eq_some_iff.mp ran
  have calls_same : state.calls = calls := congrArg State.log same
  have waits_same : waiting state = (taken (stream.filterMap (halfOf params))).pending := congrArg State.pending same
  refine ⟨state,done,loaded,all,?_,?_⟩
  · rw [calls_same]
    exact related.imp fun _ _ both => both.2
  · intro slot
    rw [waits_same]
    exact cleared slot

theorem loads_exactly_iff (positive : 0 < b) (toBf16 : R → R) (apart : toBf16 0 ≠ toBf16 1) (padSize : Nat)
    (set : ProjectionSet params) :
    LoadsExactly toBf16 b padSize set ↔ ∀ p ∈ set.projections, Fits b p.out p.inn :=
  ⟨exact_fits positive toBf16 apart padSize set,fits_exact positive toBf16 padSize set⟩

end Loads

def modelParams : List Name :=
  ["model.layers.3.self_attn.fused_qkv_a_proj.weight".toList,"model.layers.3.self_attn.o_proj.weight".toList]

def layerThree : ProjectionSet modelParams where
  projections := [⟨"model.layers.3.self_attn".toList,.qA,1536,6144⟩,⟨"model.layers.3.self_attn".toList,.kvA,576,6144⟩]
  distinct := by decide
  clean p listed proj := by
    fin_cases listed <;> cases proj <;> decide
  target := by decide
  unscaled := by decide

theorem loads_exactly_layerThree : LoadsExactly (id : ℚ → ℚ) 128 64 layerThree :=
  (loads_exactly_iff (by decide) id (by decide) 64 layerThree).mpr (by decide)

-- A row of one block and a half: the inferred size is 96, which divides neither
-- the rows nor the blocks of 128.
def halfBlock : ProjectionSet modelParams where
  projections := [⟨"model.layers.3.self_attn".toList,.o,128,192⟩]
  distinct := by decide
  clean p listed proj := by
    fin_cases listed; cases proj <;> decide
  target := by decide
  unscaled := by decide

theorem half_block_fails : ¬ LoadsExactly (id : ℚ → ℚ) 128 0 halfBlock ∧
    ∀ w s : Nat → Nat → ℚ, attnWeight id 0 false ⟨128,192,w⟩ (blockScale 128 128 192 s) = none := by
  constructor
  · intro right
    have fits := exact_fits (by decide) id (by decide) 0 halfBlock right _ List.mem_cons_self
    exact absurd fits (by decide)
  · intro w s
    simp [attnWeight,dequantFp8Block,blockScale,TiledGrid.cdiv,times,broadcast,Fp8Dequant.pad,repeatInterleave]

end Glm5Next.Fp8Projections
