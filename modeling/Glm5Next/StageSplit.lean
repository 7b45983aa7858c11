import Glm5Next.StageRuns

namespace Glm5Next.StageSplit
open TextSearch PairedHalves Fp8Projections StageLoading StageRuns
open MtpLoading (ExpertMapping Route loadInto fusedName)
open MtpOrder (Slot slotTarget slotShard)

-- The modules of a Glm5NextModel that have parameters.
inductive Module where
  | embedTokens
  | layer (idx : Nat)
  | norm
  deriving DecidableEq

def Module.name : Module → Name
  | .embedTokens => "embed_tokens.".toList
  | .layer idx => "layers.".toList ++ ((toString idx).toList ++ ['.'])
  | .norm => "norm.".toList

-- The layers of rank p are those from bounds p up to bounds (p + 1).
structure Split where
  numHiddenLayers : Nat
  numRanks : Nat
  bounds : Nat → Nat
  some_rank : 0 < numRanks
  first : bounds 0 = 0
  last : bounds numRanks = numHiddenLayers
  ordered : ∀ p < numRanks, bounds p ≤ bounds (p + 1)

def Split.modules (split : Split) : List Module :=
  .embedTokens :: (List.range split.numHiddenLayers).map Module.layer ++ [.norm]

def Split.has (split : Split) (p : Nat) : Module → Bool
  | .embedTokens => decide (p = 0)
  | .layer idx => decide (split.bounds p ≤ idx ∧ idx < split.bounds (p + 1))
  | .norm => decide (p + 1 = split.numRanks)

-- is_pp_missing_parameter, on the names of the modules that a model lacks.
abbrev PpMissing := List Name → Name → Bool

def PpMissing.Documented (isPpMissing : PpMissing) : Prop :=
  ∀ missing name, isPpMissing missing name = true ↔ ∃ layer ∈ missing, layer <+: name

-- What stands in for the modules of the other ranks has no parameters.
def Split.stage (split : Split) (isPpMissing : PpMissing) (whole : List Name) (p : Nat) : Stage :=
  let missing := (split.modules.filter fun m => !split.has p m).map Module.name
  ⟨whole.filter fun name => !missing.any fun layer => startsWith layer name,missing,isPpMissing missing⟩

def single (isPpMissing : PpMissing) (whole : List Name) : Stage := ⟨whole,[],isPpMissing []⟩

section Names

theorem digits_list (n : Nat) : (toString n).toList = Nat.toDigits 10 n := by simp

theorem digit_char (member : c ∈ Nat.toDigits 10 n) : c.isDigit = true :=
  Nat.isDigit_of_mem_toDigits (by decide) (by decide) member

theorem dot_last {digits tail : Name} (digit : ∀ c ∈ digits, c.isDigit = true) (plain : c.isDigit = false)
    (suffix : c :: tail <:+ digits ++ ['.']) : c = '.' ∧ tail = [] := by
  induction digits with
  | nil =>
      rcases List.suffix_cons_iff.mp suffix with whole | empty
      · exact List.cons.inj whole
      · exact absurd (List.suffix_nil.mp empty) (by simp)
  | cons d digits ih =>
      rcases List.suffix_cons_iff.mp suffix with whole | rest
      · obtain ⟨rfl,_⟩ := List.cons.inj whole
        rw [digit c List.mem_cons_self] at plain
        cases plain
      · exact ih (fun c member => digit c (List.mem_cons_of_mem _ member)) rest

theorem embed_name : Module.embedTokens.name = ['e','m','b','e','d','_','t','o','k','e','n','s','.'] := rfl

theorem norm_name : Module.norm.name = ['n','o','r','m','.'] := rfl

theorem layer_name (idx : Nat) :
    (Module.layer idx).name = 'l' :: 'a' :: 'y' :: 'e' :: 'r' :: 's' :: '.' :: (Nat.toDigits 10 idx ++ ['.']) := by
  show "layers.".toList ++ ((toString idx).toList ++ ['.']) = _
  rw [digits_list]
  rfl

theorem layer_module (idx : Nat) : ModuleName (Module.layer idx).name := by
  have digit : ∀ c ∈ Nat.toDigits 10 idx, c.isDigit = true := fun c member => digit_char member
  obtain ⟨d,digits,first⟩ := List.exists_cons_of_ne_nil (Nat.toDigits_ne_nil : Nat.toDigits 10 idx ≠ [])
  constructor
  · intro tail suffix
    rw [layer_name] at suffix
    simp only [List.suffix_cons_iff,List.cons.injEq,Char.reduceEq,false_and,false_or,true_and] at suffix
    rcases suffix with rfl | later
    · exact Or.inr ⟨d,digits ++ ['.'],by rw [first]; rfl,digit d (by simp [first])⟩
    · exact Or.inl (dot_last digit (by decide) later).2
  · intro tail suffix
    rw [layer_name] at suffix
    simp only [List.suffix_cons_iff,List.cons.injEq,Char.reduceEq,false_and,false_or,true_and] at suffix
    rcases suffix with rfl | later
    · exact ⟨'r',_,rfl,by decide⟩
    · exact absurd (dot_last digit (by decide) later).1 (by decide)

theorem name_module (m : Module) : ModuleName m.name := by
  cases m with
  | layer idx => exact layer_module idx
  | embedTokens =>
      constructor
      · intro tail suffix
        rw [embed_name] at suffix
        exact Or.inl (by simpa [List.suffix_cons_iff] using suffix)
      · intro tail suffix
        rw [embed_name] at suffix
        simp only [List.suffix_cons_iff,List.cons.injEq,Char.reduceEq,false_and,false_or,true_and,List.suffix_nil,
          reduceCtorEq,or_false] at suffix
        rcases suffix with rfl | rfl | rfl <;> exact ⟨_,_,rfl,by decide⟩
  | norm =>
      constructor
      · intro tail suffix
        rw [norm_name] at suffix
        exact Or.inl (by simpa [List.suffix_cons_iff] using suffix)
      · intro tail suffix
        rw [norm_name] at suffix
        simp [List.suffix_cons_iff] at suffix

theorem dotted_digits {digits digits' rest : Name} (digit : ∀ c ∈ digits, c.isDigit = true)
    (digit' : ∀ c ∈ digits', c.isDigit = true) (starts : digits ++ ['.'] <+: digits' ++ ('.' :: rest)) : digits = digits' := by
  induction digits generalizing digits' with
  | nil =>
      cases digits' with
      | nil => rfl
      | cons d digits' =>
          obtain ⟨rfl,_⟩ := List.cons_prefix_cons.mp starts
          exact absurd ( digit' '.' List.mem_cons_self) (by decide)
  | cons c digits ih =>
      cases digits' with
      | nil =>
          obtain ⟨rfl,_⟩ := List.cons_prefix_cons.mp starts
          exact absurd (digit '.' List.mem_cons_self) (by decide)
      | cons d digits' =>
          obtain ⟨rfl,rest⟩ := List.cons_prefix_cons.mp starts
          rw [ih (fun c member => digit c (List.mem_cons_of_mem _ member))
            (fun c member => digit' c (List.mem_cons_of_mem _ member)) rest]

theorem module_unique {m m' : Module} {name : Name} (starts : m.name <+: name) (starts' : m'.name <+: name) : m = m' := by
  have layers (idx idx' : Nat) (starts : (Module.layer idx).name <+: name) (starts' : (Module.layer idx').name <+: name) :
      idx = idx' := by
    obtain ⟨rest,rfl⟩ := starts'
    rw [layer_name,layer_name] at starts
    have inner : Nat.toDigits 10 idx ++ ['.'] <+: Nat.toDigits 10 idx' ++ ('.' :: rest) := by
      simpa [List.cons_prefix_cons] using starts
    have same := dotted_digits (fun c => digit_char) (fun c => digit_char) inner
    rw [← Nat.ofDigitChars_ten_toDigits (n := idx),same,Nat.ofDigitChars_ten_toDigits]
  cases m <;> cases m'
  case layer.layer idx idx' => exact congrArg Module.layer (layers idx idx' starts starts')
  all_goals first
    | rfl
    | exact absurd (prefixes_agree starts starts') (by simp [embed_name,norm_name,layer_name,agrees])

end Names

section Ranks
variable {T : Type} {l : Loader T} {split : Split} {isPpMissing : PpMissing} {whole : List Name}

section Missing
variable (documented : isPpMissing.Documented)
include documented

theorem stage_missing (p : Nat) (name : Name) : (split.stage isPpMissing whole p).isPpMissingParameter name = true ↔
    ∃ m ∈ split.modules, split.has p m = false ∧ m.name <+: name := by
  refine (documented _ name).trans ?_
  simp [and_assoc]

theorem stage_part (p : Nat) : Part whole (split.stage isPpMissing whole p) := by
  constructor
  · exact documented _
  · intro name
    have missing := documented ((split.modules.filter fun m => !split.has p m).map Module.name) name
    show name ∈ whole.filter _ ↔ _ ∧ isPpMissing _ name = false
    rw [List.mem_filter,Bool.not_eq_true',Bool.eq_false_iff,Bool.eq_false_iff,Ne,Ne,missing,List.any_eq_true]
    simp only [startsWith,decide_eq_true_eq]
  · intro layer listed
    obtain ⟨m,_,rfl⟩ := List.mem_map.mp listed
    exact name_module m

theorem stage_holds {m : Module} (listed : m ∈ split.modules) (starts : m.name <+: name) (p : Nat) :
    (split.stage isPpMissing whole p).isPpMissingParameter name = !split.has p m := by
  cases has : split.has p m with
  | true =>
      apply Bool.eq_false_iff.mpr
      intro missing
      obtain ⟨m',_,lacks,starts'⟩ := (stage_missing documented p name).mp missing
      rw [module_unique starts' starts,has] at lacks
      cases lacks
  | false => exact (stage_missing documented p name).mpr ⟨m,listed,has,starts⟩

theorem single_model (whole : List Name) : single isPpMissing whole = model whole := by
  have none_missing : isPpMissing [] = fun _ => false := by
    funext name
    simp [Bool.eq_false_iff,documented [] name]
  unfold single model
  rw [none_missing]

end Missing

theorem bounds_le (split : Split) {p q : Nat} (below : p ≤ q) (inside : q ≤ split.numRanks) : split.bounds p ≤ split.bounds q := by
  induction q, below using Nat.le_induction with
  | base => exact Nat.le_refl _
  | succ q _ ih => exact Nat.le_trans (ih (Nat.le_of_succ_le inside)) (split.ordered q inside)

theorem layer_somewhere (split : Split) {n : Nat} (inside : idx < split.bounds n) :
    ∃ p < n, split.bounds p ≤ idx ∧ idx < split.bounds (p + 1) := by
  induction n with
  | zero =>
      rw [split.first] at inside
      exact absurd inside (Nat.not_lt_zero _)
  | succ n ih =>
      by_cases before : idx < split.bounds n
      · obtain ⟨p,below,found⟩ := ih before
        exact ⟨p,Nat.lt_succ_of_lt below,found⟩
      · exact ⟨n,Nat.lt_succ_self n,Nat.le_of_not_lt before,inside⟩

theorem module_rank (split : Split) (listed : m ∈ split.modules) : ∃! p, p < split.numRanks ∧ split.has p m = true := by
  have some_rank := split.some_rank
  cases m with
  | embedTokens => exact ⟨0,⟨some_rank,rfl⟩,fun p ⟨_,has⟩ => of_decide_eq_true has⟩
  | norm =>
      refine ⟨split.numRanks - 1,⟨by omega,decide_eq_true (by omega)⟩,fun p ⟨_,has⟩ => ?_⟩
      have last : p + 1 = split.numRanks := of_decide_eq_true has
      omega
  | layer idx =>
      have inside : idx < split.bounds split.numRanks := by
        rw [split.last]
        simpa [Split.modules] using listed
      obtain ⟨p,below,found⟩ := layer_somewhere split inside
      refine ⟨p,⟨below,decide_eq_true found⟩,fun q ⟨below',has⟩ => ?_⟩
      have found' : split.bounds q ≤ idx ∧ idx < split.bounds (q + 1) := of_decide_eq_true has
      rcases Nat.lt_trichotomy p q with before | same | after
      · have later : split.bounds (p + 1) ≤ split.bounds q := bounds_le split before (Nat.le_of_lt below')
        exact absurd found.2 (Nat.not_lt_of_le (Nat.le_trans later found'.1))
      · exact same.symm
      · have later : split.bounds (q + 1) ≤ split.bounds p := bounds_le split after (Nat.le_of_lt below)
        exact absurd found'.2 (Nat.not_lt_of_le (Nat.le_trans later found.1))

theorem into_present (loaded : loadInto params name shard = .load param shard') : param ∈ params := by
  unfold loadInto at loaded
  split at loaded
  · cases loaded
    assumption
  · cases loaded

theorem stacked_present (st : Stage) (mappings : List (Name × Name × Nat)) (name : Name)
    (loaded : stackedRoute st mappings name = .inl (.load param shard)) : param ∈ st.params := by
  induction mappings generalizing name with
  | nil => cases loaded
  | cons entry mappings ih =>
      unfold stackedRoute at loaded
      dsimp only at loaded
      repeat' split at loaded
      all_goals first
        | exact ih _ loaded
        | exact into_present (Sum.inl.inj loaded)

theorem expert_present (st : Stage) (mappings : List ExpertMapping) (name : Name)
    (loaded : expertRoute st mappings name = .inl (.load param shard)) : param ∈ st.params := by
  induction mappings generalizing name with
  | nil => cases loaded
  | cons mapping mappings ih =>
      unfold expertRoute at loaded
      dsimp only at loaded
      repeat' split at loaded
      all_goals first
        | exact ih _ loaded
        | exact into_present (Sum.inl.inj loaded)

theorem route_present (l : Loader T) (st : Stage) (name : Name) (loaded : paramRoute l st name = .load param shard) :
    param ∈ st.params := by
  unfold paramRoute at loaded
  cases stacked : stackedRoute st stackedParamsMapping name with
  | inl route =>
      rw [stacked] at loaded
      exact stacked_present st _ name (stacked.trans (congrArg Sum.inl loaded))
  | inr name' =>
      rw [stacked] at loaded
      dsimp only at loaded
      cases expert : expertRoute st l.expertParamsMapping name' with
      | inl route =>
          rw [expert] at loaded
          exact expert_present st _ name' (expert.trans (congrArg Sum.inl loaded))
      | inr name'' =>
          rw [expert] at loaded
          dsimp only at loaded
          unfold directRoute at loaded
          split at loaded
          · cases loaded
          · split at loaded
            · cases loaded
            · split at loaded
              · cases loaded
              · exact into_present loaded

theorem one_present (st : Stage) (t : CheckpointTensor T) (known : ∀ call ∈ s.calls, call.param ∈ st.params)
    (loaded : loadOne l st t s = .ok s') : ∀ call ∈ s'.calls, call.param ∈ st.params := by
  by_cases used : skipped l t.name = false
  · rw [load_one_exact l st t s used] at loaded
    cases half : pairHalf st t with
    | some found =>
        rw [half] at loaded
        obtain ⟨⟨inner,calls⟩,done,rfl⟩ := map_ok.mp loaded
        refine List.forall_mem_append.mpr ⟨known,fun call member => ?_⟩
        obtain ⟨same,present⟩ := taken_calls done call member
        rwa [same]
    | none =>
        rw [half] at loaded
        dsimp only at loaded
        cases route : paramRoute l st t.name with
        | skip =>
            rw [route] at loaded
            cases loaded
            exact known
        | fail =>
            rw [route] at loaded
            cases loaded
        | load param shard =>
            rw [route] at loaded
            cases loaded
            exact List.forall_mem_append.mpr ⟨known,List.forall_mem_singleton.mpr (route_present l st t.name route)⟩
  · have plain : skipped l t.name = true := by simpa using used
    unfold loadOne at loaded
    rw [plain,if_pos rfl] at loaded
    cases loaded
    exact known

theorem calls_present (st : Stage) (stream : List (CheckpointTensor T)) (loaded : loadWeights l st stream = .ok calls) :
    ∀ call ∈ calls, call.param ∈ st.params := by
  obtain ⟨s,ran,rfl⟩ := map_ok.mp loaded
  have each : ∀ (stream : List (CheckpointTensor T)) (s : Loading T), (∀ call ∈ s.calls, call.param ∈ st.params) →
      ∀ s', stream.foldlM (fun s t => loadOne l st t s) s = .ok s' → ∀ call ∈ s'.calls, call.param ∈ st.params := by
    intro stream
    induction stream with
    | nil =>
        intro s known s' ran
        cases ran
        exact known
    | cons t stream ih =>
        intro s known s' ran
        rw [List.foldlM_cons] at ran
        obtain ⟨next,now,rest⟩ := bind_ok.mp ran
        exact ih next (one_present st t known now) s' rest
  exact each stream Loading.initial (fun call member => by cases member) s ran

-- However the layers are split over the ranks and in whatever order the
-- checkpoint comes: a rank makes the loader calls of the whole model that are for
-- its own modules, each call is for one rank, and a rank raises just where the FP8
-- halves of a pair that belongs to another rank both come by: KeyError, unless it
-- is the dequantization that raises.
theorem ranks_load (documented : isPpMissing.Documented) (inside : ∀ name ∈ whole, ∃ m ∈ split.modules, m.name <+: name)
    (remaps : ∀ p < split.numRanks, Documented l whole (split.stage isPpMissing whole p))
    (loaded : loadWeights l (single isPpMissing whole) stream = .ok calls) :
    (∀ p < split.numRanks, Loads l (split.stage isPpMissing whole p) stream calls) ∧
    ∀ call ∈ calls, ∃! p, p < split.numRanks ∧ call ∈ ownCalls (split.stage isPpMissing whole p) calls := by
  rw [single_model documented] at loaded
  constructor
  · exact fun p below => stage_exact (stage_part documented p) (remaps p below) loaded
  · intro call member
    obtain ⟨m,listed,starts⟩ := inside call.param (calls_present (model whole) stream loaded call member)
    have own (p : Nat) : call ∈ ownCalls (split.stage isPpMissing whole p) calls ↔ split.has p m = true := by
      rw [ownCalls,List.mem_filter,stage_holds documented listed starts,Bool.not_not]
      exact and_iff_right member
    simp only [own]
    exact module_rank split listed

end Ranks

def twoStages : Split where
  numHiddenLayers := 2
  numRanks := 2
  bounds := id
  some_rank := Nat.two_pos
  first := rfl
  last := rfl
  ordered p _ := Nat.le_succ p

def textParams : List Name :=
  ["embed_tokens.weight".toList,"layers.0.mlp.gate_up_proj.weight".toList,"layers.1.self_attn.o_proj.weight".toList]

def textLoader : Loader Nat where
  numHiddenLayers := 2
  numNextnPredictLayers := 1
  isLinearAttn := true
  expertParamsMapping := []
  remapKvScale _ name := some name
  dequantWk weightFp8 _ := some weightFp8
  dequantAttn _ weightFp8 scaleInv := some (weightFp8 * scaleInv)
  padKva := none

def fp8Tensors : List (CheckpointTensor Nat) :=
  [⟨"layers.1.self_attn.o_proj.weight_scale_inv".toList,false,2⟩,⟨"embed_tokens.weight".toList,false,3⟩,
    ⟨"layers.1.self_attn.o_proj.weight".toList,true,5⟩]

theorem text_inside : ∀ name ∈ textParams, ∃ m ∈ twoStages.modules, m.name <+: name := by decide

def anyPrefix : PpMissing := fun missing name => missing.any fun layer => startsWith layer name

theorem any_prefix_documented : anyPrefix.Documented := by
  intro missing name
  simp [anyPrefix,startsWith]

theorem text_remaps (p : Nat) : Documented textLoader textParams (twoStages.stage anyPrefix textParams p) where
  experts mapping listed := by cases listed
  stays params name name' same := by cases same; rfl
  same _ _ := rfl

deriving instance DecidableEq for Call

instance decideLoaded : DecidableEq (Except LoadError (List (Call Nat)))
  | .ok _,.ok _ => decidable_of_iff _ (by rw [Except.ok.injEq])
  | .error _,.error _ => decidable_of_iff _ (by rw [Except.error.injEq])
  | .ok _,.error _ => isFalse nofun
  | .error _,.ok _ => isFalse nofun

def fp8Calls : List (Call Nat) :=
  [⟨"embed_tokens.weight".toList,none,3⟩,⟨"layers.1.self_attn.o_proj.weight".toList,none,10⟩]

theorem fp8_loaded : loadWeights textLoader (single anyPrefix textParams) fp8Tensors = .ok fp8Calls := by decide +kernel

theorem fp8_fails : loadWeights textLoader (twoStages.stage anyPrefix textParams 0) fp8Tensors = .error .keyError := by
  decide +kernel

theorem ranks_load_twoStages :
    Completes textLoader (twoStages.stage anyPrefix textParams 0) fp8Tensors ∧
      loadWeights textLoader (twoStages.stage anyPrefix textParams 0) fp8Tensors = .error .keyError ∧
      ∀ own, loadWeights textLoader (twoStages.stage anyPrefix textParams 1) fp8Tensors = .ok own →
        own = ownCalls (twoStages.stage anyPrefix textParams 1) fp8Calls := by
  obtain ⟨ranks,_⟩ := ranks_load any_prefix_documented text_inside (fun p _ => text_remaps p) fp8_loaded
  exact ⟨(ranks 0 Nat.two_pos).raises.mp ⟨_,fp8_fails⟩,fp8_fails,(ranks 1 Nat.one_lt_two).own⟩

end Glm5Next.StageSplit
