import Glm5Next.StageLoading

namespace Glm5Next.StageRuns
open TextSearch PairedHalves Fp8Projections StageLoading
open MtpLoading (ExpertMapping Route loadInto wkHalf fusedName)
open MtpOrder (Slot slotTarget slotShard)

-- A module's name with its last dot. Inside, a dot stands before a digit, and no
-- name of experts starts.
structure ModuleName (front : Name) : Prop where
  dots : ∀ tail, '.' :: tail <:+ front → tail = [] ∨ ∃ d rest, tail = d :: rest ∧ d.isDigit = true
  experts : ∀ tail, 'e' :: tail <:+ front → ∃ d rest, tail = d :: rest ∧ d ≠ 'x'

def dotted : Name → Bool
  | '.' :: c :: _ => !c.isDigit
  | _ => false

-- The modules that a rank lacks, of a model with these parameters, and what
-- is_pp_missing_parameter makes of them.
structure Part (whole : List Name) (st : Stage) : Prop where
  missing : ∀ name, st.isPpMissingParameter name = true ↔ ∃ layer ∈ st.missing, layer <+: name
  params : ∀ name, name ∈ st.params ↔ name ∈ whole ∧ st.isPpMissingParameter name = false
  modules : ∀ layer ∈ st.missing, ModuleName layer

-- Names of experts, and what maybe_remap_kv_scale_name does: it stays in the
-- module, and looks up names of the module only.
structure Documented {T : Type} (l : Loader T) (whole : List Name) (st : Stage) : Prop where
  experts : ∀ mapping ∈ l.expertParamsMapping,
    "experts.".toList <+: mapping.weightName ∧ "experts.".toList <+: mapping.paramName
  stays : ∀ params name name', l.remapKvScale params name = some name' →
    st.isPpMissingParameter name' = st.isPpMissingParameter name
  same : ∀ name, st.isPpMissingParameter name = false → l.remapKvScale st.params name = l.remapKvScale whole name

section Names
variable {st : Stage} {whole : List Name}

theorem dotted_split (name : Name) (dot : dotted name = true) : ∃ c rest, name = '.' :: c :: rest ∧ c.isDigit = false := by
  unfold dotted at dot
  split at dot
  · rename_i c rest
    exact ⟨c,rest,rfl,by simpa using dot⟩
  · cases dot

theorem keeps_dotted {front old new : Name} (name : ModuleName front) (dot : dotted old = true) (dot' : dotted new = true) :
    Keeps front old new := by
  obtain ⟨a,old,rfl,plain⟩ := dotted_split old dot
  obtain ⟨b,new,rfl,plain'⟩ := dotted_split new dot'
  intro tail suffix
  cases tail with
  | nil => exact Or.inl ⟨List.nil_prefix,List.nil_prefix⟩
  | cons c tail =>
      by_cases here : c = '.'
      · subst here
        rcases name.dots tail suffix with rfl | ⟨d,rest,rfl,digit⟩
        · exact Or.inl ⟨List.prefix_append ['.'] _,List.prefix_append ['.'] _⟩
        · have apart : d ≠ a := fun same => by simp [same,plain] at digit
          have apart' : d ≠ b := fun same => by simp [same,plain'] at digit
          exact Or.inr (by simp [agrees,apart,apart'])
      · exact Or.inr (by simp [agrees,here])

theorem keeps_experts {front : Name} (name : ModuleName front) (old new : Name) (starts : "experts.".toList <+: old)
    (starts' : "experts.".toList <+: new) : Keeps front old new := by
  obtain ⟨old,rfl⟩ := starts
  obtain ⟨new,rfl⟩ := starts'
  intro tail suffix
  have split (rest : Name) : "experts.".toList ++ rest = 'e' :: 'x' :: ("perts.".toList ++ rest) := rfl
  rw [split,split]
  cases tail with
  | nil => exact Or.inl ⟨List.nil_prefix,List.nil_prefix⟩
  | cons c tail =>
      by_cases here : c = 'e'
      · subst here
        obtain ⟨d,rest,rfl,apart⟩ := name.experts tail suffix
        exact Or.inr (by simp [agrees,apart])
      · exact Or.inr (by simp [agrees,here])

variable (part : Part whole st)
include part

theorem missing_congr {a b : Name} (same : ∀ layer ∈ st.missing, (layer <+: a ↔ layer <+: b)) :
    st.isPpMissingParameter a = st.isPpMissingParameter b := by
  apply Bool.eq_iff_iff.mpr
  rw [part.missing,part.missing]
  constructor
  · rintro ⟨layer,listed,starts⟩
    exact ⟨layer,listed,(same layer listed).mp starts⟩
  · rintro ⟨layer,listed,starts⟩
    exact ⟨layer,listed,(same layer listed).mpr starts⟩

theorem missing_replaced {old new : Name} (dot : dotted old = true) (dot' : dotted new = true) (name : Name) :
    st.isPpMissingParameter (replace old new name) = st.isPpMissingParameter name :=
  missing_congr part fun layer listed => replace_starts (keeps_dotted (part.modules layer listed) dot dot') name

theorem missing_joined (old new : Name) (dot : dotted old = true) (dot' : dotted new = true) (before after after' : Name) :
    st.isPpMissingParameter (before ++ (new ++ after)) = st.isPpMissingParameter (before ++ (old ++ after')) :=
  missing_congr part fun layer listed => joined_starts (keeps_dotted (part.modules layer listed) dot dot') before after after'

theorem present_iff {name : Name} (held : st.isPpMissingParameter name = false) : name ∈ st.params ↔ name ∈ whole := by
  rw [part.params,and_iff_left held]

theorem missing_absent {name : Name} (missing : st.isPpMissingParameter name = true) : name ∉ st.params := by
  intro present
  rw [((part.params name).mp present).2] at missing
  cases missing

theorem missing_target (slot : Slot) :
    st.isPpMissingParameter (slotTarget slot) = st.isPpMissingParameter (fusedName (slotPrefix slot)) := by
  cases slot with
  | wk layerPrefix => rfl
  | attn layerPrefix proj =>
      have joined := missing_joined part ".wk_weights_proj.weight".toList
        ('.' :: (fp8AttnProjs proj).targetBase) (by decide) (by cases proj <;> decide) layerPrefix ".weight".toList []
      rw [List.append_nil] at joined
      rw [← List.append_assoc] at joined
      exact joined

theorem half_missing {T : Type} {t : CheckpointTensor T} {view : Stage} (half : pairHalf view t = some (slot,isWeight)) :
    st.isPpMissingParameter (slotTarget slot) = st.isPpMissingParameter t.name := by
  rw [missing_target part]
  unfold pairHalf at half
  cases wk : wkHalf t with
  | some found =>
      obtain ⟨layerPrefix,isWeight'⟩ := found
      rw [wk] at half
      cases half
      unfold wkHalf at wk
      split at wk
      · cases wk
      · rename_i matched
        dsimp only at wk
        split at wk
        · cases wk
        · cases wk
          have inside : ".wk.".toList <:+: t.name := by
            simp only [Bool.or_eq_true,Bool.not_eq_true',not_or,Bool.not_eq_false] at matched
            exact List.IsInfix.trans (by decide) (of_decide_eq_true matched.1)
          obtain ⟨after,split⟩ := rsplit_found inside
          have joined := missing_joined part ".wk.".toList ".wk_weights_proj.weight".toList (by decide)
            (by decide) (rsplitFirst ".wk.".toList t.name) [] after
          rw [List.append_nil,← split] at joined
          exact joined
  | none =>
      rw [wk] at half
      obtain ⟨⟨⟨layerPrefix,proj⟩,isWeight'⟩,attn,same⟩ := Option.map_eq_some_iff.mp half
      cases same
      unfold attnHalf at attn
      split at attn
      · cases attn
      · rename_i proj' found
        dsimp only at attn
        split at attn
        · cases attn
        · split at attn
          · cases attn
          · cases attn
            have inside : (fp8AttnProjs proj).suffix <:+: t.name := by
              have here := List.find?_some found
              exact of_decide_eq_true here
            obtain ⟨after,split⟩ := rsplit_found inside
            have joined := missing_joined part (fp8AttnProjs proj).suffix ".wk_weights_proj.weight".toList
              (by cases proj <;> decide) (by decide) (rsplitFirst (fp8AttnProjs proj).suffix t.name) [] after
            rw [List.append_nil,← split] at joined
            exact joined

end Names

section Routes
variable {T : Type} {l : Loader T} {st : Stage} {whole : List Name} (part : Part whole st)
  (documented : Documented l whole st)
include part

def model (whole : List Name) : Stage := ⟨whole,[],fun _ => false⟩

omit part in
theorem model_whole (whole : List Name) (name : Name) : (model whole).isPpMissingParameter name = false := rfl

-- A route stays in the module of the name, in whichever model it is looked up.
def Stays (st : Stage) (missing : Bool) : Route ⊕ Name → Prop
  | .inl route => ∀ param shard, route = .load param shard → st.isPpMissingParameter param = missing
  | .inr name => st.isPpMissingParameter name = missing

omit part in
theorem into_stays (params : List Name) (name : Name) (shard : Option Shard) :
    Stays st (st.isPpMissingParameter name) (.inl (loadInto params name shard)) := by
  intro param shard' loaded
  unfold loadInto at loaded
  split at loaded
  · cases loaded
    rfl
  · cases loaded

omit part in
theorem mapped_dotted : ∀ entry ∈ stackedParamsMapping, dotted entry.2.1 = true ∧ dotted entry.1 = true := by decide

theorem stacked_stays (view : Stage) (mappings : List (Name × Name × Nat)) (known : mappings ⊆ stackedParamsMapping)
    (name : Name) : Stays st (st.isPpMissingParameter name) (stackedRoute view mappings name) := by
  induction mappings generalizing name with
  | nil => rfl
  | cons entry mappings ih =>
      obtain ⟨paramName,weightName,shardId⟩ := entry
      obtain ⟨listed,rest⟩ := List.cons_subset.mp known
      obtain ⟨dot,dot'⟩ := mapped_dotted _ listed
      have same := missing_replaced part dot dot' name
      have mapped := ih rest (replace weightName paramName name)
      rw [same] at mapped
      unfold stackedRoute
      split
      · exact ih rest name
      · split
        · exact ih rest name
        · dsimp only
          split
          · exact ih rest name
          · split
            · exact mapped
            · split
              · exact mapped
              · rw [← same]
                exact into_stays view.params _ _

theorem stacked_same (mappings : List (Name × Name × Nat)) (known : mappings ⊆ stackedParamsMapping) (name : Name)
    (held : st.isPpMissingParameter name = false) :
    stackedRoute st mappings name = stackedRoute (model whole) mappings name := by
  induction mappings generalizing name with
  | nil => rfl
  | cons entry mappings ih =>
      obtain ⟨paramName,weightName,shardId⟩ := entry
      obtain ⟨listed,rest⟩ := List.cons_subset.mp known
      obtain ⟨dot,dot'⟩ := mapped_dotted _ listed
      have mapped : st.isPpMissingParameter (replace weightName paramName name) = false :=
        (missing_replaced part dot dot' name).trans held
      have present : name ∈ st.params ↔ name ∈ (model whole).params := present_iff part held
      have present' : replace weightName paramName name ∈ st.params ↔ replace weightName paramName name ∈ (model whole).params :=
        present_iff part mapped
      unfold stackedRoute loadInto
      simp only [ih rest name held,ih rest _ mapped,present,present',mapped,model_whole,Bool.false_eq_true,if_false]

theorem stacked_missing (mappings : List (Name × Name × Nat)) (known : mappings ⊆ stackedParamsMapping) (name : Name)
    (missing : st.isPpMissingParameter name = true) :
    ∃ name', stackedRoute st mappings name = .inr name' ∧ st.isPpMissingParameter name' = true := by
  induction mappings generalizing name with
  | nil => exact ⟨name,rfl,missing⟩
  | cons entry mappings ih =>
      obtain ⟨paramName,weightName,shardId⟩ := entry
      obtain ⟨listed,rest⟩ := List.cons_subset.mp known
      obtain ⟨dot,dot'⟩ := mapped_dotted _ listed
      have mapped : st.isPpMissingParameter (replace weightName paramName name) = true :=
        (missing_replaced part dot dot' name).trans missing
      unfold stackedRoute
      dsimp only
      rw [if_pos mapped]
      split
      · exact ih rest name missing
      · split
        · exact ih rest name missing
        · split
          · exact ih rest name missing
          · rw [ite_self]
            exact ih rest _ mapped

theorem missing_expert {mapping : ExpertMapping} (starts : "experts.".toList <+: mapping.weightName)
    (starts' : "experts.".toList <+: mapping.paramName) (name : Name) :
    st.isPpMissingParameter (replace mapping.weightName mapping.paramName name) = st.isPpMissingParameter name :=
  missing_congr part fun layer listed => replace_starts (keeps_experts (part.modules layer listed) _ _ starts starts') name

theorem expert_stays (view : Stage) (mappings : List ExpertMapping)
    (experts : ∀ mapping ∈ mappings, "experts.".toList <+: mapping.weightName ∧ "experts.".toList <+: mapping.paramName)
    (name : Name) : Stays st (st.isPpMissingParameter name) (expertRoute view mappings name) := by
  induction mappings generalizing name with
  | nil => rfl
  | cons mapping mappings ih =>
      obtain ⟨⟨starts,starts'⟩,rest⟩ := List.forall_mem_cons.mp experts
      have same := missing_expert part starts starts' name
      unfold expertRoute
      split
      · exact ih rest name
      · dsimp only
        split
        · rw [← same]
          exact ih rest _
        · rw [← same]
          exact into_stays view.params _ _

theorem expert_same (mappings : List ExpertMapping)
    (experts : ∀ mapping ∈ mappings, "experts.".toList <+: mapping.weightName ∧ "experts.".toList <+: mapping.paramName)
    (name : Name) (held : st.isPpMissingParameter name = false) :
    expertRoute st mappings name = expertRoute (model whole) mappings name := by
  induction mappings generalizing name with
  | nil => rfl
  | cons mapping mappings ih =>
      obtain ⟨⟨starts,starts'⟩,rest⟩ := List.forall_mem_cons.mp experts
      have mapped := (missing_expert part starts starts' name).trans held
      have present : replace mapping.weightName mapping.paramName name ∈ st.params ↔
          replace mapping.weightName mapping.paramName name ∈ (model whole).params := present_iff part mapped
      unfold expertRoute loadInto
      simp only [ih rest name held,ih rest _ mapped,present,mapped,model_whole,Bool.false_eq_true,if_false]

theorem expert_missing (mappings : List ExpertMapping)
    (experts : ∀ mapping ∈ mappings, "experts.".toList <+: mapping.weightName ∧ "experts.".toList <+: mapping.paramName)
    (name : Name) (missing : st.isPpMissingParameter name = true) :
    ∃ name', expertRoute st mappings name = .inr name' ∧ st.isPpMissingParameter name' = true := by
  induction mappings generalizing name with
  | nil => exact ⟨name,rfl,missing⟩
  | cons mapping mappings ih =>
      obtain ⟨⟨starts,starts'⟩,rest⟩ := List.forall_mem_cons.mp experts
      have mapped := (missing_expert part starts starts' name).trans missing
      unfold expertRoute
      dsimp only
      rw [if_pos mapped]
      split
      · exact ih rest name missing
      · exact ih rest _ mapped

include documented

omit part in
theorem direct_stays (view : Stage) (name : Name) :
    Stays st (st.isPpMissingParameter name) (.inl (directRoute l view name)) := by
  intro param shard loaded
  unfold directRoute at loaded
  split at loaded
  · cases loaded
  · split at loaded
    · cases loaded
    · rename_i name' remapped
      rw [← documented.stays _ _ _ remapped]
      split at loaded
      · cases loaded
      · exact into_stays view.params name' none param shard loaded

theorem direct_same (name : Name) (held : st.isPpMissingParameter name = false) :
    directRoute l st name = directRoute l (model whole) name := by
  have present : name ∈ st.params ↔ name ∈ (model whole).params := present_iff part held
  unfold directRoute
  rw [documented.same name held]
  simp only [present]
  split
  · rfl
  · rw [show (model whole).params = whole from rfl]
    cases remapped : l.remapKvScale whole name with
    | none => rfl
    | some name' =>
        have held' := (documented.stays _ _ _ remapped).trans held
        have present' : name' ∈ st.params ↔ name' ∈ whole := present_iff part held'
        dsimp only
        unfold loadInto
        simp only [held',present',model_whole,Bool.false_eq_true,if_false]

theorem route_same (name : Name) (held : st.isPpMissingParameter name = false) :
    paramRoute l st name = paramRoute l (model whole) name := by
  have stays := stacked_stays part (model whole) stackedParamsMapping (List.Subset.refl _) name
  rw [held] at stays
  unfold paramRoute
  rw [stacked_same part stackedParamsMapping (List.Subset.refl _) name held]
  cases stacked : stackedRoute (model whole) stackedParamsMapping name with
  | inl route => rfl
  | inr name' =>
      rw [stacked] at stays
      have held' : st.isPpMissingParameter name' = false := stays
      have further := expert_stays part (model whole) l.expertParamsMapping documented.experts name'
      rw [held'] at further
      dsimp only
      rw [expert_same part l.expertParamsMapping documented.experts name' held']
      cases expert : expertRoute (model whole) l.expertParamsMapping name' with
      | inl route => rfl
      | inr name'' =>
          rw [expert] at further
          exact direct_same part documented name'' further

theorem route_stays (view : Stage) (name : Name) (loaded : paramRoute l view name = .load param shard) :
    st.isPpMissingParameter param = st.isPpMissingParameter name := by
  have stays := stacked_stays part view stackedParamsMapping (List.Subset.refl _) name
  unfold paramRoute at loaded
  cases stacked : stackedRoute view stackedParamsMapping name with
  | inl route =>
      rw [stacked] at loaded stays
      exact stays param shard loaded
  | inr name' =>
      rw [stacked] at loaded stays
      have same : st.isPpMissingParameter name' = _ := stays
      have further := expert_stays part view l.expertParamsMapping documented.experts name'
      dsimp only at loaded
      rw [← same]
      cases expert : expertRoute view l.expertParamsMapping name' with
      | inl route =>
          rw [expert] at loaded further
          exact further param shard loaded
      | inr name'' =>
          rw [expert] at loaded further
          have same' : st.isPpMissingParameter name'' = _ := further
          rw [← same']
          exact direct_stays documented view name'' param shard loaded

-- A rank passes over what it lacks.
theorem route_missing (name : Name) (missing : st.isPpMissingParameter name = true) : paramRoute l st name = .skip := by
  obtain ⟨name',stacked,missing'⟩ := stacked_missing part stackedParamsMapping (List.Subset.refl _) name missing
  obtain ⟨name'',expert,missing''⟩ := expert_missing part l.expertParamsMapping documented.experts name' missing'
  unfold paramRoute
  rw [stacked]
  dsimp only
  rw [expert]
  unfold directRoute
  dsimp only
  split
  · rfl
  · cases remapped : l.remapKvScale st.params name'' with
    | none => rfl
    | some remappedName => exact if_pos ((documented.stays _ _ _ remapped).trans missing'')

end Routes

section Pairs
variable {T : Type} {l : Loader T} {params : List Name} {slot : Slot}

theorem taken_calls {inner : Inner T} (taken : takeInner l params slot isWeight v inner = .ok (inner',calls)) :
    ∀ call ∈ calls, call.param = slotTarget slot ∧ slotTarget slot ∈ params := by
  intro call member
  unfold takeInner at taken
  dsimp only at taken
  split at taken
  · cases taken
    cases member
  · split at taken
    · cases taken
    · split at taken
      · rename_i present
        cases taken
        rw [List.mem_singleton.mp member]
        exact ⟨rfl,present⟩
      · cases taken

theorem taken_same (present : slotTarget slot ∈ params ↔ slotTarget slot ∈ params') (isWeight : Bool) (v : T) (inner : Inner T) :
    takeInner l params slot isWeight v inner = takeInner l params' slot isWeight v inner := by
  unfold takeInner
  simp only [present]

theorem taken_waits {inner : Inner T} (missing : (entryOf inner slot).half (!isWeight) = none) (v : T) :
    takeInner l params slot isWeight v inner = .ok (putEntry inner (Entry.only isWeight v) slot,[]) := by
  obtain ⟨alone,waits⟩ := put_waits missing v
  unfold takeInner
  dsimp only
  rw [waits,alone]

theorem taken_fails {inner : Inner T} (there : (entryOf inner slot).half (!isWeight) = some other)
    (absent : slotTarget slot ∉ params) (v : T) : takeInner l params slot isWeight v inner = .error
      (if (pairDequant l slot (ordered isWeight v other).1 (ordered isWeight v other).2).isSome then .keyError
        else .dequantization) := by
  unfold takeInner
  dsimp only
  rw [put_meets there v]
  dsimp only
  cases pairDequant l slot (ordered isWeight v other).1 (ordered isWeight v other).2 with
  | none => rfl
  | some weightBf16 => exact if_neg absent

theorem entry_put (inner : Inner T) (entry : Entry T) (slot : Slot) : entryOf (putEntry inner entry slot) slot = entry := by
  cases slot with
  | wk layerPrefix => rfl
  | attn layerPrefix proj => exact Function.update_self _ _ _

theorem entry_put_other (inner : Inner T) (entry : Entry T) {slot slot' : Slot} (together : slotPrefix slot' = slotPrefix slot)
    (different : slot' ≠ slot) : entryOf (putEntry inner entry slot) slot' = entryOf inner slot' := by
  cases slot with
  | wk layerPrefix =>
      cases slot' with
      | wk other =>
          have same : other = layerPrefix := together
          exact absurd (congrArg Slot.wk same) different
      | attn other proj => rfl
  | attn layerPrefix proj =>
      cases slot' with
      | wk other => rfl
      | attn other proj' =>
          have same : other = layerPrefix := together
          subst same
          have apart : proj' ≠ proj := fun same => different (congrArg (Slot.attn other) same)
          exact Function.update_of_ne (keys_apart apart) _ _

end Pairs

section Steps
variable {T : Type} {l : Loader T} {st : Stage} {whole : List Name}

def ownCalls (st : Stage) (calls : List (Call T)) : List (Call T) :=
  calls.filter fun call => !st.isPpMissingParameter call.param

-- A rank's state next to that of the whole model: its own calls, and the halves
-- that wait for its own modules.
structure Follows (st : Stage) (s own : Loading T) : Prop where
  calls : own.calls = ownCalls st s.calls
  buf : ∀ layerPrefix, st.isPpMissingParameter (fusedName layerPrefix) = false → own.buf layerPrefix = s.buf layerPrefix

def HalfOf (l : Loader T) (st : Stage) (slot : Slot) (isWeight : Bool) (t : CheckpointTensor T) : Prop :=
  skipped l t.name = false ∧ pairHalf st t = some (slot,isWeight)

def Completes (l : Loader T) (st : Stage) (stream : List (CheckpointTensor T)) : Prop :=
  ∃ slot, st.isPpMissingParameter (slotTarget slot) = true ∧ ∀ isWeight, ∃ t ∈ stream, HalfOf l st slot isWeight t

def Dequantizes (l : Loader T) (st : Stage) (stream : List (CheckpointTensor T)) : Prop :=
  ∀ slot, st.isPpMissingParameter (slotTarget slot) = true → ∀ weight ∈ stream, ∀ scale ∈ stream,
    HalfOf l st slot true weight → HalfOf l st slot false scale →
      (pairDequant l slot weight.tensor scale.tensor).isSome = true

structure Fails (l : Loader T) (st : Stage) (stream : List (CheckpointTensor T)) (error : LoadError) : Prop where
  completes : Completes l st stream
  key : Dequantizes l st stream → error = .keyError

-- What waits for modules that the rank lacks.
structure Waiting (l : Loader T) (st : Stage) (seen : List (CheckpointTensor T)) (own : Loading T) : Prop where
  waits : ∀ slot, st.isPpMissingParameter (slotTarget slot) = true → ∀ isWeight,
    ((entryOf (own.buf (slotPrefix slot)) slot).half isWeight ≠ none ↔ ∃ t ∈ seen, HalfOf l st slot isWeight t)
  lone : ∀ slot, st.isPpMissingParameter (slotTarget slot) = true → ∀ isWeight,
    (entryOf (own.buf (slotPrefix slot)) slot).half isWeight ≠ none →
      (entryOf (own.buf (slotPrefix slot)) slot).half (!isWeight) = none
  held : ∀ slot, st.isPpMissingParameter (slotTarget slot) = true → ∀ isWeight v,
    (entryOf (own.buf (slotPrefix slot)) slot).half isWeight = some v → ∃ t ∈ seen, HalfOf l st slot isWeight t ∧ t.tensor = v

theorem waiting_incomplete (waiting : Waiting l st seen own) : ¬ Completes l st seen := by
  rintro ⟨slot,missing,both⟩
  have first := (waiting.waits slot missing true).mpr (both true)
  exact (waiting.waits slot missing false).mpr (both false) (waiting.lone slot missing true first)

theorem completes_more (complete : Completes l st stream) (t : CheckpointTensor T) : Completes l st (stream ++ [t]) := by
  obtain ⟨slot,missing,both⟩ := complete
  refine ⟨slot,missing,fun isWeight => ?_⟩
  obtain ⟨t',member,half⟩ := both isWeight
  exact ⟨t',List.mem_append_left _ member,half⟩

theorem fails_more (fails : Fails l st stream error) (t : CheckpointTensor T) : Fails l st (stream ++ [t]) error :=
  ⟨completes_more fails.completes t,fun dequantizes => fails.key fun slot missing weight member scale member' =>
    dequantizes slot missing weight (List.mem_append_left _ member) scale (List.mem_append_left _ member')⟩

theorem waiting_apart (waiting : Waiting l st seen own)
    (same : ∀ slot, st.isPpMissingParameter (slotTarget slot) = true → own'.buf (slotPrefix slot) = own.buf (slotPrefix slot))
    (apart : ∀ slot, st.isPpMissingParameter (slotTarget slot) = true → ∀ isWeight, ¬ HalfOf l st slot isWeight t) :
    Waiting l st (seen ++ [t]) own' := by
  constructor
  · intro slot missing isWeight
    rw [same slot missing,waiting.waits slot missing isWeight]
    constructor
    · rintro ⟨t',member,half⟩
      exact ⟨t',List.mem_append_left _ member,half⟩
    · rintro ⟨t',member,half⟩
      rcases List.mem_append.mp member with before | now
      · exact ⟨t',before,half⟩
      · rw [List.mem_singleton.mp now] at half
        exact absurd half (apart slot missing isWeight)
  · intro slot missing isWeight
    rw [same slot missing]
    exact waiting.lone slot missing isWeight
  · intro slot missing isWeight v
    rw [same slot missing]
    intro found
    obtain ⟨t',member,half⟩ := waiting.held slot missing isWeight v found
    exact ⟨t',List.mem_append_left _ member,half⟩

variable (part : Part whole st) (documented : Documented l whole st)
include part

omit part in
theorem calls_missing {calls : List (Call T)} (missing : ∀ call ∈ calls, st.isPpMissingParameter call.param = true) :
    ownCalls st calls = [] := by
  apply List.filter_eq_nil_iff.mpr
  intro call member
  simp [missing call member]

omit part in
theorem calls_held {calls : List (Call T)} (held : ∀ call ∈ calls, st.isPpMissingParameter call.param = false) :
    ownCalls st calls = calls := by
  apply List.filter_eq_self.mpr
  intro call member
  simp [held call member]

omit part in
theorem calls_more (calls more : List (Call T)) : ownCalls st (calls ++ more) = ownCalls st calls ++ ownCalls st more :=
  List.filter_append ..

theorem attn_half_same {t : CheckpointTensor T} (held : st.isPpMissingParameter t.name = false) :
    attnHalf st.params t = attnHalf whole t := by
  unfold attnHalf
  cases found : projOrder.find? fun proj => contains (fp8AttnProjs proj).suffix t.name with
  | none => rfl
  | some proj =>
      dsimp only
      split
      · rfl
      · have inside : (fp8AttnProjs proj).suffix <:+: t.name := by
          have here := List.find?_some found
          exact of_decide_eq_true here
        obtain ⟨after,whole_name⟩ := rsplit_found inside
        have joined := missing_joined part (fp8AttnProjs proj).suffix ('.' :: (fp8AttnProjs proj).targetBase)
          (by cases proj <;> decide) (by cases proj <;> decide) (rsplitFirst (fp8AttnProjs proj).suffix t.name)
          ".weight_scale_inv".toList after
        rw [← whole_name,held] at joined
        have scale : st.isPpMissingParameter (targetS (rsplitFirst (fp8AttnProjs proj).suffix t.name) proj) = false := by
          rw [← joined]
          unfold targetS
          rw [List.append_assoc]
        simp only [present_iff part scale]

theorem half_same {t : CheckpointTensor T} (held : st.isPpMissingParameter t.name = false) :
    pairHalf st t = pairHalf (model whole) t := by
  unfold pairHalf
  rw [attn_half_same part held]
  rfl

theorem slots_apart {slot slot' : Slot} (held : st.isPpMissingParameter (slotTarget slot) = false)
    (missing : st.isPpMissingParameter (slotTarget slot') = true) : slotPrefix slot' ≠ slotPrefix slot := by
  intro same
  rw [missing_target part,same,← missing_target part,held] at missing
  cases missing

end Steps

section Runs
variable {T : Type} {l : Loader T} {st : Stage} {whole : List Name} (part : Part whole st)
  (documented : Documented l whole st)
include part

theorem taken_follows (follows : Follows st s own) (held : st.isPpMissingParameter (slotTarget slot) = false)
    (taken : takeHalf l whole slot isWeight v s = .ok s') :
    ∃ own', takeHalf l st.params slot isWeight v own = .ok own' ∧ Follows st s' own' ∧
      ∀ layerPrefix, layerPrefix ≠ slotPrefix slot → own'.buf layerPrefix = own.buf layerPrefix := by
  have here := follows.buf (slotPrefix slot) (by rw [← missing_target part]; exact held)
  have present : slotTarget slot ∈ st.params ↔ slotTarget slot ∈ whole := present_iff part held
  obtain ⟨⟨inner,calls⟩,done,rfl⟩ := map_ok.mp taken
  refine ⟨⟨Function.update own.buf (slotPrefix slot) inner,own.calls ++ calls⟩,?_,⟨?_,?_⟩,?_⟩
  · unfold takeHalf
    rw [here,taken_same present,done]
    rfl
  · dsimp only
    rw [calls_more,← follows.calls,calls_held fun call member => by rw [(taken_calls done call member).1]; exact held]
  · intro layerPrefix held'
    dsimp only
    by_cases same : layerPrefix = slotPrefix slot
    · rw [same,Function.update_self,Function.update_self]
    · rw [Function.update_of_ne same,Function.update_of_ne same]
      exact follows.buf layerPrefix held'
  · intro layerPrefix different
    exact Function.update_of_ne different _ _

include documented

-- A tensor of a module that the rank lacks leaves the rank's part alone.
theorem other_follows (follows : Follows st s own) (missing : st.isPpMissingParameter t.name = true)
    (loaded : loadOne l (model whole) t s = .ok s') : Follows st s' own := by
  by_cases used : skipped l t.name = false
  · rw [load_one_exact l (model whole) t s used] at loaded
    cases half : pairHalf (model whole) t with
    | some found =>
        obtain ⟨slot,isWeight⟩ := found
        have outside := (half_missing part half).trans missing
        rw [half] at loaded
        obtain ⟨⟨inner,calls⟩,done,rfl⟩ := map_ok.mp loaded
        have dropped : ownCalls st calls = [] :=
          calls_missing fun call member => by rw [(taken_calls done call member).1]; exact outside
        constructor
        · dsimp only
          rw [calls_more,dropped,List.append_nil]
          exact follows.calls
        · intro layerPrefix held
          have different : layerPrefix ≠ slotPrefix slot := by
            rintro rfl
            rw [missing_target part,held] at outside
            cases outside
          dsimp only
          rw [Function.update_of_ne different]
          exact follows.buf layerPrefix held
    | none =>
        rw [half] at loaded
        dsimp only at loaded
        cases route : paramRoute l (model whole) t.name with
        | skip =>
            rw [route] at loaded
            cases loaded
            exact follows
        | fail =>
            rw [route] at loaded
            cases loaded
        | load param shard =>
            rw [route] at loaded
            cases loaded
            have outside := (route_stays part documented (model whole) t.name route).trans missing
            have dropped : ownCalls st [⟨param,shard,padded l t⟩] = [] :=
              calls_missing fun call member => by rw [List.mem_singleton.mp member]; exact outside
            constructor
            · rw [calls_more,dropped,List.append_nil]
              exact follows.calls
            · exact follows.buf
  · have plain : skipped l t.name = true := by simpa using used
    unfold loadOne at loaded
    rw [plain,if_pos rfl] at loaded
    cases loaded
    exact follows

omit documented in
theorem own_apart {t : CheckpointTensor T} (held : st.isPpMissingParameter t.name = false) (slot : Slot)
    (missing : st.isPpMissingParameter (slotTarget slot) = true) (isWeight : Bool) : ¬ HalfOf l st slot isWeight t := by
  intro ⟨_,half⟩
  rw [half_missing part half,held] at missing
  cases missing

theorem own_step (follows : Follows st s own) (waiting : Waiting l st seen own)
    (held : st.isPpMissingParameter t.name = false) (loaded : loadOne l (model whole) t s = .ok s') :
    ∃ own', loadOne l st t own = .ok own' ∧ Follows st s' own' ∧ Waiting l st (seen ++ [t]) own' := by
  have apart := own_apart (l := l) part held
  by_cases used : skipped l t.name = false
  · rw [load_one_exact l (model whole) t s used] at loaded
    rw [load_one_exact l st t own used,half_same part held,route_same part documented t.name held]
    cases half : pairHalf (model whole) t with
    | some found =>
        obtain ⟨slot,isWeight⟩ := found
        have inside := (half_missing part half).trans held
        rw [half] at loaded
        obtain ⟨own',taken,follows',frame⟩ := taken_follows part follows inside loaded
        refine ⟨own',taken,follows',waiting_apart waiting ?_ apart⟩
        exact fun slot' missing => frame _ (slots_apart part inside missing)
    | none =>
        rw [half] at loaded
        dsimp only at loaded ⊢
        cases route : paramRoute l (model whole) t.name with
        | skip =>
            rw [route] at loaded
            cases loaded
            exact ⟨own,rfl,follows,waiting_apart waiting (fun _ _ => rfl) apart⟩
        | fail =>
            rw [route] at loaded
            cases loaded
        | load param shard =>
            rw [route] at loaded
            cases loaded
            have inside := (route_stays part documented (model whole) t.name route).trans held
            refine ⟨_,rfl,⟨?_,follows.buf⟩,waiting_apart waiting (fun _ _ => rfl) apart⟩
            dsimp only
            rw [calls_more,← follows.calls,calls_held fun call member => by rw [List.mem_singleton.mp member]; exact inside]
  · have plain : skipped l t.name = true := by simpa using used
    unfold loadOne at loaded ⊢
    rw [plain,if_pos rfl] at loaded ⊢
    cases loaded
    exact ⟨own,rfl,follows,waiting_apart waiting (fun _ _ => rfl) apart⟩

omit part documented in
theorem half_waits (waiting : Waiting l st seen own) (half : HalfOf l st slot isWeight t)
    (alone : (entryOf (own.buf (slotPrefix slot)) slot).half (!isWeight) = none) :
    Waiting l st (seen ++ [t]) ⟨Function.update own.buf (slotPrefix slot)
      (putEntry (own.buf (slotPrefix slot)) (Entry.only isWeight t.tensor) slot),own.calls⟩ := by
  have more : ∀ slot' isWeight', (∃ t' ∈ seen ++ [t], HalfOf l st slot' isWeight' t') ↔
      (∃ t' ∈ seen, HalfOf l st slot' isWeight' t') ∨ HalfOf l st slot' isWeight' t := by
    intro slot' isWeight'
    simp only [List.mem_append,List.mem_singleton,or_and_right,exists_or,exists_eq_left]
  have own_half : ∀ slot' isWeight', HalfOf l st slot' isWeight' t → slot' = slot ∧ isWeight' = isWeight := by
    intro slot' isWeight' half'
    have same := half'.2.symm.trans half.2
    cases same
    exact ⟨rfl,rfl⟩
  have entries : ∀ slot', slot' ≠ slot → entryOf (Function.update own.buf (slotPrefix slot)
      (putEntry (own.buf (slotPrefix slot)) (Entry.only isWeight t.tensor) slot) (slotPrefix slot')) slot' =
        entryOf (own.buf (slotPrefix slot')) slot' := by
    intro slot' different
    by_cases together : slotPrefix slot' = slotPrefix slot
    · rw [together,Function.update_self]
      exact entry_put_other _ _ together different
    · rw [Function.update_of_ne together]
  constructor
  · intro slot' missing isWeight'
    rw [more]
    by_cases same : slot' = slot
    · subst same
      dsimp only
      rw [Function.update_self,entry_put]
      by_cases side : isWeight' = isWeight
      · subst side
        rw [half_only]
        exact iff_of_true (by simp) (Or.inr half)
      · have other := Bool.eq_not.mpr side
        rw [other,half_only_other,← waiting.waits slot' missing,alone]
        refine iff_of_false (by simp) ?_
        rintro (waits | half')
        · exact waits rfl
        · exact side (other.trans (own_half slot' _ half').2)
    · dsimp only
      rw [entries slot' same,waiting.waits slot' missing isWeight']
      exact ⟨Or.inl,fun found => found.resolve_right fun half' => same (own_half slot' isWeight' half').1⟩
  · intro slot' missing isWeight'
    dsimp only
    by_cases same : slot' = slot
    · subst same
      rw [Function.update_self,entry_put]
      intro present
      by_cases side : isWeight' = isWeight
      · rw [side,half_only_other]
      · rw [Bool.eq_not.mpr side,half_only_other] at present
        exact absurd rfl present
    · rw [entries slot' same]
      exact waiting.lone slot' missing isWeight'
  · intro slot' missing isWeight' v
    dsimp only
    by_cases same : slot' = slot
    · subst same
      rw [Function.update_self,entry_put]
      intro found
      by_cases side : isWeight' = isWeight
      · subst side
        rw [half_only] at found
        exact ⟨t,by simp,half,Option.some.inj found⟩
      · rw [Bool.eq_not.mpr side,half_only_other] at found
        cases found
    · rw [entries slot' same]
      intro found
      obtain ⟨t',member,half'⟩ := waiting.held slot' missing isWeight' v found
      exact ⟨t',List.mem_append_left _ member,half'⟩

-- A tensor of another rank's modules: it is passed over, it waits for the other
-- half, or the load fails.
theorem other_step (waiting : Waiting l st seen own) (missing : st.isPpMissingParameter t.name = true) :
    (∃ own', loadOne l st t own = .ok own' ∧ own'.calls = own.calls ∧ (∀ layerPrefix,
      st.isPpMissingParameter (fusedName layerPrefix) = false → own'.buf layerPrefix = own.buf layerPrefix) ∧
      Waiting l st (seen ++ [t]) own') ∨ ∃ error, loadOne l st t own = .error error ∧ Fails l st (seen ++ [t]) error := by
  by_cases used : skipped l t.name = false
  · rw [load_one_exact l st t own used]
    cases half : pairHalf st t with
    | some found =>
        obtain ⟨slot,isWeight⟩ := found
        have outside := (half_missing part half).trans missing
        have own_half : HalfOf l st slot isWeight t := ⟨used,half⟩
        dsimp only
        unfold takeHalf
        cases waits : (entryOf (own.buf (slotPrefix slot)) slot).half (!isWeight) with
        | none =>
            left
            rw [taken_waits waits]
            refine ⟨_,rfl,List.append_nil _,?_,?_⟩
            · intro layerPrefix held
              apply Function.update_of_ne
              rintro rfl
              rw [missing_target part,held] at outside
              cases outside
            · dsimp only
              rw [List.append_nil]
              exact half_waits waiting own_half waits
        | some other =>
            right
            obtain ⟨t',member,half',rfl⟩ := waiting.held slot outside (!isWeight) other waits
            rw [taken_fails waits (missing_absent part outside)]
            refine ⟨_,rfl,⟨slot,outside,fun isWeight' => ?_⟩,fun dequantizes => if_pos ?_⟩
            · by_cases side : isWeight' = isWeight
              · exact ⟨t,by simp,side ▸ own_half⟩
              · exact ⟨t',List.mem_append_left _ member,Bool.eq_not.mpr side ▸ half'⟩
            · cases isWeight with
              | true => exact dequantizes slot outside t (by simp) t' (by simp [member]) own_half half'
              | false => exact dequantizes slot outside t' (by simp [member]) t (by simp) half' own_half
    | none =>
        left
        rw [route_missing part documented t.name missing]
        refine ⟨own,rfl,rfl,fun _ _ => rfl,waiting_apart waiting (fun _ _ => rfl) ?_⟩
        intro slot _ isWeight found
        rw [found.2] at half
        cases half
  · have plain : skipped l t.name = true := by simpa using used
    left
    refine ⟨own,?_,rfl,fun _ _ => rfl,waiting_apart waiting (fun _ _ => rfl) ?_⟩
    · unfold loadOne
      rw [plain,if_pos rfl]
    · intro slot _ isWeight found
      exact used found.1

-- While the whole model loads a checkpoint, a rank follows it, up to a pair that
-- it has no parameter for.
theorem run_follows (stream : List (CheckpointTensor T)) (s : Loading T)
    (loaded : stream.foldlM (fun s t => loadOne l (model whole) t s) Loading.initial = .ok s) :
    (∃ own, stream.foldlM (fun s t => loadOne l st t s) Loading.initial = .ok own ∧ Follows st s own ∧
      Waiting l st stream own) ∨
    ∃ error, stream.foldlM (fun s t => loadOne l st t s) Loading.initial = .error error ∧ Fails l st stream error := by
  induction stream using List.reverseRecOn generalizing s with
  | nil =>
      cases loaded
      have empty (slot : Slot) : entryOf ((Loading.initial : Loading T).buf (slotPrefix slot)) slot = Entry.empty := by
        cases slot <;> rfl
      refine Or.inl ⟨_,rfl,⟨rfl,fun _ _ => rfl⟩,?_,?_,?_⟩
      · intro slot _ isWeight
        simp [empty]
      · intro slot _ isWeight present
        rw [empty,half_empty]
      · intro slot _ isWeight v found
        rw [empty,half_empty] at found
        cases found
  | append_singleton stream t ih =>
      rw [List.foldlM_append] at loaded ⊢
      obtain ⟨s',before,now⟩ := bind_ok.mp loaded
      rw [List.foldlM_cons] at now
      obtain ⟨s'',now,last⟩ := bind_ok.mp now
      cases last
      rcases ih s' before with ⟨own,ran,follows,waiting⟩ | ⟨error,failed,fails⟩
      · have single : ([t].foldlM (fun s t => loadOne l st t s) own) = loadOne l st t own := bind_pure _
        rw [ran,ok_then,single]
        cases missing : st.isPpMissingParameter t.name with
        | false =>
            obtain ⟨own',stepped,follows',waiting'⟩ := own_step part documented follows waiting missing now
            exact Or.inl ⟨own',stepped,follows',waiting'⟩
        | true =>
            have others := other_follows part documented follows missing now
            rcases other_step part documented waiting missing with ⟨own',stepped,calls,kept,waiting'⟩ | failed
            · refine Or.inl ⟨own',stepped,⟨calls.trans others.calls,?_⟩,waiting'⟩
              exact fun layerPrefix held => (kept layerPrefix held).trans (others.buf layerPrefix held)
            · exact Or.inr failed
      · rw [failed]
        exact Or.inr ⟨error,rfl,fails_more fails t⟩

-- What a rank loads of a checkpoint that the whole model loads: its own part,
-- unless both halves of a pair that belongs to another rank come by.
structure Loads (l : Loader T) (st : Stage) (stream : List (CheckpointTensor T)) (calls : List (Call T)) : Prop where
  raises : (∃ error, loadWeights l st stream = .error error) ↔ Completes l st stream
  key : Dequantizes l st stream → ∀ error, loadWeights l st stream = .error error → error = .keyError
  own : ∀ own, loadWeights l st stream = .ok own → own = ownCalls st calls

theorem stage_exact (loaded : loadWeights l (model whole) stream = .ok calls) : Loads l st stream calls := by
  obtain ⟨s,ran,rfl⟩ := map_ok.mp loaded
  rcases run_follows part documented stream s ran with ⟨own,stepped,follows,waiting⟩ | ⟨error,failed,fails⟩
  · have done : loadWeights l st stream = .ok own.calls := by
      unfold loadWeights
      rw [stepped]
      rfl
    refine ⟨iff_of_false ?_ (waiting_incomplete waiting),?_,?_⟩
    · rintro ⟨error,failed⟩
      cases done.symm.trans failed
    · intro _ error failed
      cases done.symm.trans failed
    · intro calls' same
      cases done.symm.trans same
      exact follows.calls
  · have done : loadWeights l st stream = .error error := by
      unfold loadWeights
      rw [failed]
      rfl
    refine ⟨iff_of_true ⟨error,done⟩ fails.completes,?_,?_⟩
    · intro dequantizes other same
      cases done.symm.trans same
      exact fails.key dequantizes
    · intro own same
      cases done.symm.trans same

end Runs

end Glm5Next.StageRuns
