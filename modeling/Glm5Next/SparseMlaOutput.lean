import Glm5Next.SparseMla

namespace Glm5Next.SparseMla
open StoreWrites TiledGrid OnlineSoftmax SentinelScores WrappedInts
variable {K : Type} [Field K] [LinearOrder K]

section Shares
variable (exps : Exponentials K) (args : MlaArgs K)

theorem share_nonneg [IsStrictOrderedRing K] (curQ curHead i : Nat) : 0 ≤ share exps args curQ curHead i := by
  unfold share
  split
  · exact le_of_lt (exps.exp_pos _)
  · exact le_refl 0

omit [LinearOrder K] in
theorem attended_sum (curQ : Nat) (f : Nat → K)
    (none : ∀ i < args.indexTopk, ¬ maskKv args (attended args curQ i) → f i = 0) :
    ∑ i ∈ attendedRows args curQ, f i = ∑ i ∈ Finset.range args.indexTopk, f i := by
  unfold attendedRows
  rw [Finset.sum_filter]
  apply Finset.sum_congr rfl
  intro i member
  by_cases valid : maskKv args (attended args curQ i)
  · exact if_pos valid
  · rw [if_neg valid,none i (Finset.mem_range.mp member) valid]

theorem share_attended (member : i ∈ attendedRows args curQ) (curHead : Nat) :
    share exps args curQ curHead i = exps.exp (logit args curQ curHead (attended args curQ i)) := by
  obtain ⟨listed,valid⟩ := Finset.mem_filter.mp member
  exact if_pos ⟨Finset.mem_range.mp listed,valid⟩

theorem share_absent (curHead : Nat) (masked : ¬ maskKv args (attended args curQ i)) :
    share exps args curQ curHead i = 0 := if_neg fun both => masked both.2

-- The reference as a quotient of sums over the whole top-k axis.
theorem attention_exact (curQ curHead dv : Nat) :
    attention exps args curQ curHead dv =
      (∑ i ∈ Finset.range args.indexTopk, weighted exps args curQ curHead dv i) /
        ∑ i ∈ Finset.range args.indexTopk, share exps args curQ curHead i := by
  have numerator : ∑ i ∈ attendedRows args curQ, exps.exp (logit args curQ curHead (attended args curQ i)) *
      args.kv (attended args curQ i).toNat 0 dv =
      ∑ i ∈ Finset.range args.indexTopk, weighted exps args curQ curHead dv i := by
    rw [← attended_sum args curQ]
    · apply Finset.sum_congr rfl
      intro i member
      rw [weighted,share_attended exps args member]
    · intro i _ masked
      rw [weighted,share_absent exps args curHead masked,zero_mul]
  have denominator : ∑ i ∈ attendedRows args curQ, exps.exp (logit args curQ curHead (attended args curQ i)) =
      ∑ i ∈ Finset.range args.indexTopk, share exps args curQ curHead i := by
    rw [← attended_sum args curQ]
    · apply Finset.sum_congr rfl
      intro i member
      rw [share_attended exps args member]
    · intro i _ masked
      exact share_absent exps args curHead masked
  unfold attention
  by_cases empty : attendedRows args curQ = ∅
  · rw [if_pos empty,← numerator,← denominator,empty,Finset.sum_empty,Finset.sum_empty,div_zero]
  · rw [if_neg empty,numerator,denominator]

end Shares

section Splits
variable {K' : Type} (args : MlaArgs K')

def splitStart (splits splitKvId : Nat) : Nat := splitKvId * splitTopk args splits

def splitEnd (splits splitKvId : Nat) : Nat :=
  min (splitStart args splits splitKvId + splitTopk args splits) args.indexTopk

theorem splits_cover (positive : 0 < splits) : args.indexTopk ≤ splits * splitTopk args splits := by
  rw [Nat.mul_comm]
  exact covered positive args.indexTopk

end Splits

section Merge
variable (exps : Exponentials K) (args : MlaArgs K)

def splitShare (splits curQ curHead splitKvId : Nat) : K :=
  ∑ i ∈ Finset.range (splitEnd args splits splitKvId - splitStart args splits splitKvId),
    share exps args curQ curHead (splitStart args splits splitKvId + i)

def splitWeighted (splits curQ curHead dv splitKvId : Nat) : K :=
  ∑ i ∈ Finset.range (splitEnd args splits splitKvId - splitStart args splits splitKvId),
    weighted exps args curQ curHead dv (splitStart args splits splitKvId + i)

theorem shares_total (positive : 0 < splits) (curQ curHead : Nat) :
    ∑ s ∈ Finset.range splits, splitShare exps args splits curQ curHead s =
      ∑ i ∈ Finset.range args.indexTopk, share exps args curQ curHead i :=
  slices_sum (share exps args curQ curHead) (splits_cover args positive)

theorem weighted_total (positive : 0 < splits) (curQ curHead dv : Nat) :
    ∑ s ∈ Finset.range splits, splitWeighted exps args splits curQ curHead dv s =
      ∑ i ∈ Finset.range args.indexTopk, weighted exps args curQ curHead dv i :=
  slices_sum (weighted exps args curQ curHead dv) (splits_cover args positive)

variable [IsStrictOrderedRing K]

theorem weightless_split (weightless : splitShare exps args splits curQ curHead s = 0) (dv : Nat) :
    splitWeighted exps args splits curQ curHead dv s = 0 := by
  unfold splitShare at weightless
  rw [Finset.sum_eq_zero_iff_of_nonneg fun i _ => share_nonneg exps args curQ curHead _] at weightless
  unfold splitWeighted
  apply Finset.sum_eq_zero
  intro i member
  rw [weighted,weightless i member,zero_mul]

section State
variable (positive : 0 < blockN)
include positive

theorem split_quotient (splits curQ curHead s dv : Nat) :
    guarded (splitState exps args blockN splits curQ curHead 0 true s) dv =
      splitWeighted exps args splits curQ curHead dv s / splitShare exps args splits curQ curHead s :=
  tile_exact exps args positive (Nat.min_le_right _ _) curQ curHead _ dv

theorem split_size (splits curQ curHead s : Nat) :
    power exps.exp (logSumExp exps (splitState exps args blockN splits curQ curHead 0 true s)) =
      splitShare exps args splits curQ curHead s := by
  have holds := tile_holds exps args blockN curQ curHead (splitStart args splits s) (splitEnd args splits s)
  refine (log_sum_exp_size exps holds ?_).trans ?_
  · intro item member
    exact lanes_proper exps args _ _ _ _ _ member
  · exact split_share exps args positive (Nat.min_le_right _ _) curQ curHead _

omit positive in
theorem split_proper (blockN splits curQ curHead s : Nat) :
    proper (logSumExp exps (splitState exps args blockN splits curQ curHead 0 true s)) := by
  have holds := tile_holds exps args blockN curQ curHead (splitStart args splits s) (splitEnd args splits s)
  apply log_sum_exp_proper exps holds
  intro item member
  exact lanes_proper exps args _ _ _ _ _ member

end State

def mergeWeighing : Weighing (Wide K) K := weighing exps.exp exps.exp_pos exps.exp_add

theorem merge_step_absorbs (state : Running (Wide K) K Nat) (item : Wide K × (Nat → K)) :
    mergeStep exps state item = absorb (mergeWeighing exps).rel state [item] := by
  unfold mergeStep absorb
  simp [tileMax,mergeWeighing,weighing]

structure HeadStored (blockN splits : Nat) (mid : Int → Wide K) (curQ curHead : Nat) : Prop where
  partials : ∀ s < splits, ∀ dv < blockDv, mid (midAddress args splits curQ curHead s dv) =
    real (guarded (splitState exps args blockN splits curQ curHead 0 true s) dv)
  lse : ∀ s < splits, mid (midAddress args splits curQ curHead s blockDv) =
    logSumExp exps (splitState exps args blockN splits curQ curHead 0 true s)

section Stored
variable {mid : Int → Wide K} (stored : HeadStored exps args blockN splits mid curQ curHead)
include stored

omit [IsStrictOrderedRing K] in
theorem item_score (inside : s < splits) : (mergeItem args splits mid curQ curHead true s).1 =
    logSumExp exps (splitState exps args blockN splits curQ curHead 0 true s) := stored.lse s inside

theorem item_proper (member : item ∈ (List.range splits).map (mergeItem args splits mid curQ curHead true)) :
    proper item.1 := by
  obtain ⟨s,listed,rfl⟩ := List.mem_map.mp member
  rw [item_score exps args stored (List.mem_range.mp listed)]
  exact split_proper exps args blockN splits curQ curHead s

theorem merge_holds : Holds (mergeWeighing exps) (mergeState exps args splits mid curQ curHead true)
    ((List.range splits).map (mergeItem args splits mid curQ curHead true)) := by
  have small : ∀ item ∈ (List.range splits).map (mergeItem args splits mid curQ curHead true), proper item.1 :=
    fun item member => item_proper exps args stored member
  generalize listed : (List.range splits).map (mergeItem args splits mid curQ curHead true) = items at small
  have folded : mergeState exps args splits mid curQ curHead true =
      (items.map fun item => [item]).foldl (absorb (mergeWeighing exps).rel) (start negLarge) := by
    rw [List.foldl_map,mergeState,listed]
    exact congrArg (fun step => items.foldl step (start negLarge))
      (funext fun state => funext fun item => merge_step_absorbs exps state item)
  have flat : (items.map fun item => [item]).flatten = items := by
    rw [← List.flatMap_def,List.flatMap_singleton']
  have run := run_holds (mergeWeighing exps) (items.map fun item => [item])
    (start_holds (mergeWeighing exps) : Holds _ (start _ : Running (Wide K) K Nat) [])
  rw [List.nil_append,flat] at run
  rw [folded]
  exact run fun item member => small item member

variable (tiled : 0 < blockN)
include tiled

theorem item_size (inside : s < splits) : power exps.exp (mergeItem args splits mid curQ curHead true s).1 =
    splitShare exps args splits curQ curHead s := by
  rw [item_score exps args stored inside,split_size exps args tiled]

theorem item_value (inside : s < splits) (column : dv < blockDv) :
    (mergeItem args splits mid curQ curHead true s).2 dv =
      splitWeighted exps args splits curQ curHead dv s / splitShare exps args splits curQ curHead s := by
  rw [← split_quotient exps args tiled]
  unfold mergeItem
  dsimp only
  rw [if_pos ⟨rfl,column⟩,stored.partials s inside dv column]
  rfl

theorem item_weighted (inside : s < splits) (column : dv < blockDv) :
    power exps.exp (mergeItem args splits mid curQ curHead true s).1 *
      (mergeItem args splits mid curQ curHead true s).2 dv = splitWeighted exps args splits curQ curHead dv s := by
  rw [item_size exps args stored tiled inside,item_value exps args stored tiled inside column]
  by_cases weightless : splitShare exps args splits curQ curHead s = 0
  · rw [weightless,zero_mul,weightless_split exps args weightless]
  · exact mul_div_cancel₀ _ weightless

theorem item_masked (column : dv < blockDv)
    (member : item ∈ (List.range splits).map (mergeItem args splits mid curQ curHead true))
    (weightless : power exps.exp item.1 = 0) : item.2 dv = 0 := by
  obtain ⟨s,listed,rfl⟩ := List.mem_map.mp member
  have inside := List.mem_range.mp listed
  rw [item_size exps args stored tiled inside] at weightless
  rw [item_value exps args stored tiled inside column,weightless,div_zero]

theorem merge_exact (divided : 0 < splits) (column : dv < blockDv) :
    guarded (mergeState exps args splits mid curQ curHead true) dv = attention exps args curQ curHead dv := by
  have quotient := quotient_exact (mergeWeighing exps) (merge_holds exps args stored)
    (fun item member => item_proper exps args stored member)
    fun item member => item_masked exps args stored tiled column member
  rw [List.map_map,list_sum,List.map_map,list_sum] at quotient
  rw [attention_exact,← shares_total exps args divided,← weighted_total exps args divided]
  refine quotient.trans ?_
  congr 1
  · apply Finset.sum_congr rfl
    intro s member
    exact item_weighted exps args stored tiled (Finset.mem_range.mp member) column
  · apply Finset.sum_congr rfl
    intro s member
    exact item_size exps args stored tiled (Finset.mem_range.mp member)

end Stored

end Merge

section Heads
variable {K' : Type} (args : MlaArgs K')

theorem valid_block_pos (positive : 0 < block) : 0 < validBlockH args block := by
  have some_head := args.someHead
  unfold validBlockH
  split <;> omega

theorem valid_block_le (block : Nat) : validBlockH args block ≤ block := by
  unfold validBlockH
  split <;> omega

theorem head_groups : numHeadGroups args = cdiv args.numHeadsQ (validBlockH args blockH) := by
  unfold numHeadGroups validBlockH
  split
  · rw [Nat.min_eq_left (by omega)]
  · rw [Nat.min_eq_right (by omega)]

theorem one_kv_head (counted : curHeadId < numHeadGroups args) : curHeadId / cdiv args.numHeadsQ blockH = 0 := by
  apply Nat.div_eq_of_lt
  rw [head_groups] at counted
  apply Nat.lt_of_lt_of_le counted
  unfold validBlockH
  split
  · exact Nat.le_refl _
  · have single : cdiv args.numHeadsQ args.numHeadsQ = 1 := by
      have some_head := args.someHead
      unfold cdiv
      exact Nat.div_eq_of_lt_le (by omega) (by omega)
    rw [single]
    have some_head := args.someHead
    unfold cdiv
    exact (Nat.one_le_div_iff (by decide)).mpr (by unfold blockH; omega)

theorem program_counted {order : List (Nat × Nat)}
    (launched : order.Perm (programs args.numTokens args.numHeadsQ (validBlockH args blockH)))
    (member : program ∈ order) : program.1 < args.numTokens ∧ program.2 < numHeadGroups args := by
  rw [head_groups]
  exact programs_exact.mp (launched.mem_iff.mp member)

theorem kept_flatMap (kept : β → Bool) (f : β → List γ) (items : List β) :
    (items.filter kept).flatMap f = items.flatMap fun item => if kept item then f item else [] := by
  induction items with
  | nil => rfl
  | cons item items ih =>
      by_cases keep : kept item
      · simp [keep,ih]
      · simp [keep,ih]

theorem head_lanes (block curHeadId : Nat) (f : Nat → Bool → List γ) :
    ((headLanes args block curHeadId).flatMap fun (curHead,maskH) => if maskH then f curHead maskH else []) =
      (lanes args.numHeadsQ (validBlockH args block) curHeadId).flatMap fun curHead => f curHead true := by
  obtain ⟨rest,whole⟩ := Nat.exists_eq_add_of_le (valid_block_le args block)
  unfold headLanes lanes
  generalize validBlockH args block = valid at whole
  subst whole
  have past : ((List.range rest).map (valid + ·)).flatMap (fun i =>
      if decide (curHeadId * valid + i < (curHeadId + 1) * valid ∧ curHeadId * valid + i < args.numHeadsQ) then
        f (curHeadId * valid + i) true else []) = [] := by
    rw [List.flatMap_eq_nil_iff]
    intro i member
    obtain ⟨j,_,rfl⟩ := List.mem_map.mp member
    rw [if_neg]
    rw [decide_eq_true_iff,Nat.add_mul]
    omega
  have masked : ∀ i, (if decide (curHeadId * valid + i < (curHeadId + 1) * valid ∧
      curHeadId * valid + i < args.numHeadsQ) = true then f (curHeadId * valid + i)
        (decide (curHeadId * valid + i < (curHeadId + 1) * valid ∧ curHeadId * valid + i < args.numHeadsQ)) else []) =
      if decide (curHeadId * valid + i < (curHeadId + 1) * valid ∧ curHeadId * valid + i < args.numHeadsQ) then
        f (curHeadId * valid + i) true else [] := by
    intro i
    split
    · rename_i inside
      rw [inside]
    · rfl
  rw [List.flatMap_map,kept_flatMap,List.flatMap_map]
  simp only [masked]
  rw [List.range_add,List.flatMap_append,past,List.append_nil]
  apply List.flatMap_congr
  intro i member
  have inside := List.mem_range.mp member
  have group : curHeadId * valid + i < (curHeadId + 1) * valid := by
    rw [Nat.add_mul]
    omega
  simp only [group,true_and]

end Heads

section Addresses
variable {K' : Type} (args : MlaArgs K')

def outCell (curQ curHead dv : Nat) : Nat := (curQ * args.numHeadsQ + curHead) * blockDv + dv

def midCell (splits curQ curHead s i : Nat) : Nat :=
  ((curQ * args.numHeadsQ + curHead) * splits + s) * (blockDv + 1) + i

-- The products of the store addresses fit their types.
structure OutFits : Prop where
  tokens : ∀ curQ < args.numTokens, Scales curQ (args.numHeadsQ * blockDv)
  heads : ∀ curHead < args.numHeadsQ, Scales curHead blockDv

structure MidFits (splits : Nat) : Prop where
  tokens : ∀ curQ < args.numTokens, Scales curQ (args.numHeadsQ * (splits * (blockDv + 1)))
  heads : ∀ curHead < args.numHeadsQ, Scales curHead (splits * (blockDv + 1))
  splits : ∀ s < splits, Scales s (blockDv + 1)

variable {args}

theorem out_address (fits : OutFits args) (row : curQ < args.numTokens) (head : curHead < args.numHeadsQ) (dv : Nat) :
    outAddress args curQ curHead dv = (outCell args curQ curHead dv : Nat) := by
  have token := (scaled_exact curQ _).mpr (fits.tokens curQ row)
  have lane := (scaled_exact curHead _).mpr (fits.heads curHead head)
  unfold outAddress outCell
  rw [token,lane]
  push_cast
  ring

theorem mid_address (fits : MidFits args splits) (row : curQ < args.numTokens) (head : curHead < args.numHeadsQ)
    (slice : s < splits) (i : Nat) :
    midAddress args splits curQ curHead s i = (midCell args splits curQ curHead s i : Nat) := by
  have token := (scaled_exact curQ _).mpr (fits.tokens curQ row)
  have lane := (scaled_exact curHead _).mpr (fits.heads curHead head)
  have part := (scaled_exact s _).mpr (fits.splits s slice)
  unfold midAddress midCell
  rw [token,lane,part]
  push_cast
  ring

theorem out_injective (row : curHead < args.numHeadsQ) (row' : curHead' < args.numHeadsQ) (lane : dv < blockDv)
    (lane' : dv' < blockDv) (same : outCell args curQ' curHead' dv' = outCell args curQ curHead dv) :
    curQ' = curQ ∧ curHead' = curHead ∧ dv' = dv := by
  obtain ⟨cells,lanes⟩ := Ragged.grid_unique lane' lane same
  obtain ⟨tokens,heads⟩ := Ragged.grid_unique row' row cells
  exact ⟨tokens,heads,lanes⟩

theorem mid_injective (row : curHead < args.numHeadsQ) (row' : curHead' < args.numHeadsQ) (split : s < splits)
    (split' : s' < splits) (lane : i < blockDv + 1) (lane' : i' < blockDv + 1)
    (same : midCell args splits curQ' curHead' s' i' = midCell args splits curQ curHead s i) :
    curQ' = curQ ∧ curHead' = curHead ∧ s' = s ∧ i' = i := by
  obtain ⟨outer,inner⟩ := Ragged.grid_unique lane' lane same
  obtain ⟨cells,slices⟩ := Ragged.grid_unique split' split outer
  obtain ⟨tokens,heads⟩ := Ragged.grid_unique row' row cells
  exact ⟨tokens,heads,slices,inner⟩

variable (args)

theorem grid3_exact : (i,j,k) ∈ grid3 a b c ↔ i < a ∧ j < b ∧ k < c := by
  simp [grid3]

def headRow (curQ curHead : Nat) : List Int :=
  (List.range blockDv).map fun dv => ((outCell args curQ curHead dv : Nat) : Int)

def outCells : List Int := (List.range (args.numTokens * args.numHeadsQ * blockDv)).map fun cell : Nat => (cell : Int)

theorem out_cell_listed (row : curQ < args.numTokens) (head : curHead < args.numHeadsQ) (column : dv < blockDv) :
    ((outCell args curQ curHead dv : Nat) : Int) ∈ outCells args :=
  List.mem_map.mpr ⟨_,List.mem_range.mpr (Ragged.grid_below (Ragged.grid_below row head) column),rfl⟩

theorem rows_once {cells : List (Nat × Nat)}
    (once : (cells.map fun cell => cell.1 * args.numHeadsQ + cell.2).Perm
      (List.range (args.numTokens * args.numHeadsQ))) :
    (cells.flatMap fun cell => headRow args cell.1 cell.2).Perm (outCells args) := by
  have rows : (cells.flatMap fun cell => headRow args cell.1 cell.2) =
      ((cells.map fun cell => cell.1 * args.numHeadsQ + cell.2).flatMap fun cell =>
        (List.range blockDv).map fun dv => cell * blockDv + dv).map fun cell : Nat => (cell : Int) := by
    rw [List.flatMap_map,List.map_flatMap]
    simp only [headRow,outCell,List.map_map,Function.comp_def]
  rw [rows]
  exact (nested_once blockDv once).map _

end Addresses

section Final
variable (exps : Exponentials K) (args : MlaArgs K)

theorem final_stores (blockN curQ : Nat) (counted : curHeadId < numHeadGroups args) :
    sparseMlaKernelFinal exps args blockN (curQ,curHeadId) =
      (lanes args.numHeadsQ (validBlockH args blockH) curHeadId).flatMap fun curHead =>
        (List.range blockDv).map fun dv => (outAddress args curQ curHead dv,
          guarded (sparseMlaComputeTile exps args blockN curQ curHead 0 true 0 args.indexTopk) dv) := by
  unfold sparseMlaKernelFinal
  dsimp only
  rw [one_kv_head args counted]
  exact head_lanes args blockH curHeadId fun curHead maskH => (List.range blockDv).map fun dv =>
    (outAddress args curQ curHead dv,
      guarded (sparseMlaComputeTile exps args blockN curQ curHead 0 maskH 0 args.indexTopk) dv)

variable {order : List (Nat × Nat)} (launched : order.Perm (programs args.numTokens args.numHeadsQ (validBlockH args blockH)))
  (fits : OutFits args)
include launched fits

theorem final_once (blockN : Nat) : ((order.flatMap (sparseMlaKernelFinal exps args blockN)).map Prod.fst).Perm
    (outCells args) := by
  have group : 0 < validBlockH args blockH := valid_block_pos args (by decide : 0 < 16)
  let cells := order.flatMap fun program =>
    (lanes args.numHeadsQ (validBlockH args blockH) program.2).map fun curHead => (program.1,curHead)
  have once : (cells.map fun cell => cell.1 * args.numHeadsQ + cell.2).Perm
      (List.range (args.numTokens * args.numHeadsQ)) := by
    have aimed : Aimed args.numHeadsQ (validBlockH args blockH) fun program : Nat × Nat =>
        (lanes args.numHeadsQ (validBlockH args blockH) program.2).map fun curHead =>
          (program.1 * args.numHeadsQ + curHead,()) := by
      intro row tile
      simp [Function.comp_def]
    have stored := cells_once group aimed launched
    simpa [cells,List.map_flatMap,Function.comp_def] using stored
  have addresses : (order.flatMap (sparseMlaKernelFinal exps args blockN)).map Prod.fst =
      cells.flatMap fun cell => headRow args cell.1 cell.2 := by
    rw [List.map_flatMap,List.flatMap_assoc]
    apply List.flatMap_congr
    intro program member
    obtain ⟨row,counted⟩ := program_counted args launched member
    rw [final_stores exps args blockN program.1 counted,List.map_flatMap,List.flatMap_map]
    apply List.flatMap_congr
    intro curHead lane
    rw [List.map_map,headRow]
    exact List.map_congr_left fun dv _ => out_address fits row (lane_tile lane).2 dv
  rw [addresses]
  exact rows_once args once

theorem final_stored (blockN : Nat) (before : Int → K) (row : curQ < args.numTokens) (head : curHead < args.numHeadsQ)
    (column : dv < blockDv) : singlePass exps args blockN order before (outCell args curQ curHead dv : Nat) =
      guarded (sparseMlaComputeTile exps args blockN curQ curHead 0 true 0 args.indexTopk) dv := by
  apply writes_stored
  · rw [(final_once exps args launched fits blockN).mem_iff]
    exact out_cell_listed args row head column
  · intro entry member same
    obtain ⟨program,listed,stored⟩ := List.mem_flatMap.mp member
    obtain ⟨row',counted⟩ := program_counted args launched listed
    rw [final_stores exps args blockN program.1 counted] at stored
    obtain ⟨curHead',group,stored⟩ := List.mem_flatMap.mp stored
    obtain ⟨dv',lane,rfl⟩ := List.mem_map.mp stored
    have head' := (lane_tile group).2
    rw [out_address fits row' head'] at same
    obtain ⟨rfl,rfl,rfl⟩ := out_injective head head' column (List.mem_range.mp lane) (Int.ofNat.inj same)
    rfl

theorem single_pass_exact [IsStrictOrderedRing K] (tiled : 0 < blockN) (before : Int → K) (row : curQ < args.numTokens)
    (head : curHead < args.numHeadsQ) (column : dv < blockDv) :
    singlePass exps args blockN order before (outCell args curQ curHead dv : Nat) =
      attention exps args curQ curHead dv := by
  rw [final_stored exps args launched fits blockN before row head column,
    tile_exact exps args tiled (Nat.le_refl _),attention_exact]
  simp only [Nat.sub_zero,Nat.zero_add]

end Final

section Split
variable (exps : Exponentials K) (args : MlaArgs K)

theorem split_stores (blockN splits curQ : Nat) (counted : curHeadId < numHeadGroups args) (s : Nat) :
    sparseMlaKernelSplit exps args blockN splits (curQ,curHeadId,s) =
      (lanes args.numHeadsQ (validBlockH args blockH) curHeadId).flatMap fun curHead =>
        ((List.range blockDv).map fun dv => (midAddress args splits curQ curHead s dv,
          real (guarded (splitState exps args blockN splits curQ curHead 0 true s) dv))) ++
        [(midAddress args splits curQ curHead s blockDv,
          logSumExp exps (splitState exps args blockN splits curQ curHead 0 true s))] := by
  unfold sparseMlaKernelSplit
  dsimp only
  rw [one_kv_head args counted]
  exact head_lanes args blockH curHeadId fun curHead maskH =>
    ((List.range blockDv).map fun dv => (midAddress args splits curQ curHead s dv,
      real (guarded (splitState exps args blockN splits curQ curHead 0 maskH s) dv))) ++
    [(midAddress args splits curQ curHead s blockDv,
      logSumExp exps (splitState exps args blockN splits curQ curHead 0 maskH s))]

def midValue (blockN splits curQ curHead s i : Nat) : Wide K :=
  if i < blockDv then real (guarded (splitState exps args blockN splits curQ curHead 0 true s) i)
  else logSumExp exps (splitState exps args blockN splits curQ curHead 0 true s)

theorem split_entry (counted : curHeadId < numHeadGroups args) :
    entry ∈ sparseMlaKernelSplit exps args blockN splits (curQ,curHeadId,s) ↔
      ∃ curHead ∈ lanes args.numHeadsQ (validBlockH args blockH) curHeadId, ∃ i < blockDv + 1,
        entry = (midAddress args splits curQ curHead s i,midValue exps args blockN splits curQ curHead s i) := by
  rw [split_stores exps args blockN splits curQ counted s,List.mem_flatMap]
  constructor
  · rintro ⟨curHead,group,stored⟩
    refine ⟨curHead,group,?_⟩
    rcases List.mem_append.mp stored with part | last
    · obtain ⟨dv,lane,rfl⟩ := List.mem_map.mp part
      have inside := List.mem_range.mp lane
      exact ⟨dv,Nat.lt_succ_of_lt inside,by rw [midValue,if_pos inside]⟩
    · rw [List.mem_singleton.mp last]
      exact ⟨blockDv,Nat.lt_succ_self _,by rw [midValue,if_neg (Nat.lt_irrefl _)]⟩
  · rintro ⟨curHead,group,i,inside,rfl⟩
    refine ⟨curHead,group,List.mem_append.mpr ?_⟩
    by_cases part : i < blockDv
    · left
      rw [midValue,if_pos part]
      exact List.mem_map.mpr ⟨i,List.mem_range.mpr part,rfl⟩
    · right
      have last : i = blockDv := Nat.le_antisymm (Nat.le_of_lt_succ inside) (Nat.le_of_not_lt part)
      subst last
      rw [midValue,if_neg part]
      exact List.mem_singleton.mpr rfl

variable {order : List (Nat × Nat × Nat)}
  (launched : order.Perm (grid3 args.numTokens (numHeadGroups args) splits)) (fits : MidFits args splits)
include launched fits

theorem mid_exact (blockN : Nat) (before : Int → Wide K) (row : curQ < args.numTokens) (head : curHead < args.numHeadsQ)
    (slice : s < splits) (inside : i < blockDv + 1) :
    splitMid exps args blockN splits order before (midAddress args splits curQ curHead s i) =
      midValue exps args blockN splits curQ curHead s i := by
  have group : 0 < validBlockH args blockH := valid_block_pos args (by decide : 0 < 16)
  have counted : curHead / validBlockH args blockH < numHeadGroups args := by
    rw [head_groups]
    have reach := covered group args.numHeadsQ
    exact Nat.div_lt_of_lt_mul (by rw [Nat.mul_comm]; omega)
  have lane : curHead ∈ lanes args.numHeadsQ (validBlockH args blockH) (curHead / validBlockH args blockH) := by
    have place := Nat.div_add_mod' curHead (validBlockH args blockH)
    have rest := Nat.mod_lt curHead group
    exact lanes_exact.mpr ⟨by omega,by omega,head⟩
  apply writes_exact
  · refine List.mem_flatMap.mpr ⟨(curQ,curHead / validBlockH args blockH,s),?_,?_⟩
    · exact launched.mem_iff.mpr (grid3_exact.mpr ⟨row,counted,slice⟩)
    · exact (split_entry exps args counted).mpr ⟨curHead,lane,i,inside,rfl⟩
  · intro entry member same
    obtain ⟨⟨curQ',curHeadId,s'⟩,listed,stored⟩ := List.mem_flatMap.mp member
    obtain ⟨row',counted',slice'⟩ := grid3_exact.mp (launched.mem_iff.mp listed)
    obtain ⟨curHead',group',i',inside',rfl⟩ := (split_entry exps args counted').mp stored
    have head' := (lane_tile group').2
    rw [mid_address fits row' head' slice',mid_address fits row head slice] at same
    obtain ⟨rfl,rfl,rfl,rfl⟩ := mid_injective head head' slice slice' inside inside' (Int.ofNat.inj same)
    rfl

theorem head_stored (blockN : Nat) (before : Int → Wide K) (row : curQ < args.numTokens)
    (head : curHead < args.numHeadsQ) :
    HeadStored exps args blockN splits (splitMid exps args blockN splits order before) curQ curHead := by
  constructor
  · intro s slice dv column
    rw [mid_exact exps args launched fits blockN before row head slice (Nat.lt_succ_of_lt column),midValue,if_pos column]
  · intro s slice
    rw [mid_exact exps args launched fits blockN before row head slice (Nat.lt_succ_self _),midValue,if_neg (Nat.lt_irrefl _)]

end Split

section MergeLaunch
variable (exps : Exponentials K) (args : MlaArgs K)

def numMergeDvTiles : Nat := blockDv / mergeBlockDvTile

theorem merge_stores (splits : Nat) (mid : Int → Wide K) (curQ : Nat) (head : curHead < args.numHeadsQ) (tile : Nat) :
    sparseMlaMergeKernel exps args splits mid (curQ,curHead,tile) =
      (lanes blockDv mergeBlockDvTile tile).map fun dv =>
        (outAddress args curQ curHead dv,guarded (mergeState exps args splits mid curQ curHead true) dv) := by
  have single : validBlockH args mergeBlockH = 1 := by
    have some_head := args.someHead
    unfold validBlockH mergeBlockH
    split <;> omega
  have own : lanes args.numHeadsQ 1 curHead = [curHead] := by
    have inside : min 1 (args.numHeadsQ - curHead * 1) = 1 := by omega
    rw [lanes_run,inside,Nat.mul_one,List.range'_one]
  unfold sparseMlaMergeKernel
  dsimp only
  refine (head_lanes args mergeBlockH curHead fun curHead maskH => (lanes blockDv mergeBlockDvTile tile).map fun dv =>
    (outAddress args curQ curHead dv,guarded (mergeState exps args splits mid curQ curHead maskH) dv)).trans ?_
  rw [single,own,List.flatMap_singleton]

variable {order : List (Nat × Nat × Nat)}
  (launched : order.Perm (grid3 args.numTokens args.numHeadsQ numMergeDvTiles)) (fits : OutFits args)
include launched fits

theorem merge_once (splits : Nat) (mid : Int → Wide K) :
    ((order.flatMap (sparseMlaMergeKernel exps args splits mid)).map Prod.fst).Perm (outCells args) := by
  have tiles : numMergeDvTiles = cdiv blockDv mergeBlockDvTile := by decide
  have tile : 0 < mergeBlockDvTile := by decide
  have row : ∀ curQ ∈ List.range args.numTokens, ∀ curHead ∈ List.range args.numHeadsQ,
      ((List.range numMergeDvTiles).flatMap fun tile =>
        (sparseMlaMergeKernel exps args splits mid (curQ,curHead,tile)).map Prod.fst) = headRow args curQ curHead := by
    intro curQ token curHead member
    have head := List.mem_range.mp member
    simp only [merge_stores exps args splits mid curQ head,List.map_map,Function.comp_def,
      out_address fits (List.mem_range.mp token) head]
    rw [← List.map_flatMap,tiles,tiles_cover tile]
    rfl
  have cells : (((List.range args.numTokens).flatMap fun curQ => (List.range args.numHeadsQ).map fun curHead =>
      (curQ,curHead)).map fun cell => cell.1 * args.numHeadsQ + cell.2).Perm
      (List.range (args.numTokens * args.numHeadsQ)) := by
    rw [List.map_flatMap,← rows_cover]
    simp only [List.map_map,Function.comp_def]
    exact List.Perm.refl _
  rw [List.map_flatMap]
  refine (launched.flatMap_right _).trans ?_
  refine List.Perm.trans (List.Perm.of_eq ?_) (rows_once args cells)
  unfold grid3
  simp only [List.flatMap_assoc,List.flatMap_map]
  apply List.flatMap_congr
  intro curQ token
  apply List.flatMap_congr
  intro curHead member
  exact row curQ token curHead member

theorem merge_stored (splits : Nat) (mid : Int → Wide K) (before : Int → K) (row : curQ < args.numTokens)
    (head : curHead < args.numHeadsQ) (column : dv < blockDv) :
    splitPass exps args splits mid order before (outCell args curQ curHead dv : Nat) =
      guarded (mergeState exps args splits mid curQ curHead true) dv := by
  apply writes_stored
  · rw [(merge_once exps args launched fits splits mid).mem_iff]
    exact out_cell_listed args row head column
  · intro entry member same
    obtain ⟨⟨curQ',curHead',tile⟩,listed,stored⟩ := List.mem_flatMap.mp member
    obtain ⟨row',head',_⟩ := grid3_exact.mp (launched.mem_iff.mp listed)
    rw [merge_stores exps args splits mid curQ' head' tile] at stored
    obtain ⟨dv',lane,rfl⟩ := List.mem_map.mp stored
    rw [out_address fits row' head'] at same
    obtain ⟨rfl,rfl,rfl⟩ := out_injective head head' column (lane_tile lane).2 (Int.ofNat.inj same)
    rfl

end MergeLaunch

section Attention
variable [IsStrictOrderedRing K] (exps : Exponentials K) (args : MlaArgs K)

-- Launches of both paths in any order, over buffers with any content: every
-- output cell is stored once and holds the attention of its token and head.
structure Correct (target : MlaArgs K) (blockN splits : Nat) (final : List (Nat × Nat))
    (stage merge : List (Nat × Nat × Nat)) (before : Int → K) (beforeMid : Int → Wide K) : Prop where
  single : ∀ curQ < target.numTokens, ∀ curHead < target.numHeadsQ, ∀ dv < blockDv,
    singlePass exps args blockN final before (outCell target curQ curHead dv : Nat) =
      attention exps target curQ curHead dv
  split : ∀ curQ < target.numTokens, ∀ curHead < target.numHeadsQ, ∀ dv < blockDv,
    splitPass exps args splits (splitMid exps args blockN splits stage beforeMid) merge before
      (outCell target curQ curHead dv : Nat) = attention exps target curQ curHead dv
  single_once : ((final.flatMap (sparseMlaKernelFinal exps args blockN)).map Prod.fst).Perm (outCells target)
  split_once : ((merge.flatMap (sparseMlaMergeKernel exps args splits
    (splitMid exps args blockN splits stage beforeMid))).map Prod.fst).Perm (outCells target)

variable {args}

theorem both_paths_exact (out : OutFits args) (mid : MidFits args splits) (tiled : 0 < blockN) (divided : 0 < splits)
    (before : Int → K) (beforeMid : Int → Wide K)
    (launched : final.Perm (programs args.numTokens args.numHeadsQ (validBlockH args blockH)))
    (staged : stage.Perm (grid3 args.numTokens (numHeadGroups args) splits))
    (merged : merge.Perm (grid3 args.numTokens args.numHeadsQ numMergeDvTiles)) :
    Correct exps args args blockN splits final stage merge before beforeMid where
  single curQ row curHead head dv column := single_pass_exact exps args launched out tiled before row head column
  split curQ row curHead head dv column := by
    rw [merge_stored exps args merged out splits _ before row head column]
    exact merge_exact exps args (head_stored exps args staged mid blockN beforeMid row head) tiled divided column
  single_once := final_once exps args launched out blockN
  split_once := merge_once exps args merged out splits _

end Attention

end Glm5Next.SparseMla
