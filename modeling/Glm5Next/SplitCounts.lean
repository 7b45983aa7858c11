import Glm5Next.SparseMlaCalls
import Mathlib.Data.Nat.Log

namespace Glm5Next.SplitCounts
open SparseMla SparseMlaCalls TiledGrid SentinelScores

def minTopkPerSplit : Nat := 128
def splitMaxOccupancy : Nat := 4
def kvSplitsCandidates : List Nat := [1,2,4,8,16]

def bitLength (n : Nat) : Nat := if n = 0 then 0 else Nat.log2 n + 1

def halveToDivide (indexTopk numKvSplits : Nat) : Nat :=
  if numKvSplits > 1 ∧ indexTopk % numKvSplits ≠ 0 then halveToDivide indexTopk (numKvSplits / 2) else numKvSplits
termination_by numKvSplits
decreasing_by omega

def chooseNumKvSplits (nextPowerOf2 : Nat → Nat) (numTokens numHeadGroups indexTopk smCount : Nat) : Nat :=
  let baseline := numTokens * numHeadGroups
  if baseline = 0 ∨ baseline * splitMaxOccupancy ≥ smCount then 1
  else
    let ideal := nextPowerOf2 (max 1 (indexTopk / minTopkPerSplit))
    let maxSplits := max 1 (smCount / baseline)
    let maxSplits := 1 <<< (bitLength maxSplits - 1)
    let numKvSplits := min ideal maxSplits
    max 1 (halveToDivide indexTopk numKvSplits)

-- What is asked of a split count.
structure Promised (numTokens numHeadGroups indexTopk smCount r : Nat) : Prop where
  one : 1 ≤ r
  power : 1 < r → ∃ k, r = 2 ^ k
  divides : 1 < r → r ∣ indexTopk
  fits : 1 < r → r * numTokens * numHeadGroups ≤ smCount
  work : 1 < r → minTopkPerSplit ≤ indexTopk / r

-- The heuristic splits, and a power of two between index_topk / 128 and twice
-- that divides index_topk and fits the device.
def Overshoots (numTokens numHeadGroups indexTopk smCount : Nat) : Prop :=
  0 < numTokens * numHeadGroups ∧ numTokens * numHeadGroups * splitMaxOccupancy < smCount ∧
    ∃ k, indexTopk / minTopkPerSplit < 2 ^ k ∧ 2 ^ k < 2 * (indexTopk / minTopkPerSplit) ∧ 2 ^ k ∣ indexTopk ∧
      2 ^ k * (numTokens * numHeadGroups) ≤ smCount

theorem floor_power (positive : 0 < n) : 2 ^ k ≤ 1 <<< (bitLength n - 1) ↔ 2 ^ k ≤ n := by
  have some : n ≠ 0 := Nat.pos_iff_ne_zero.mp positive
  rw [bitLength,if_neg some,Nat.add_sub_cancel,Nat.one_shiftLeft,Nat.pow_le_pow_iff_right (by decide),Nat.le_log2 some]

theorem halve_exact (indexTopk a : Nat) : ∃ b, halveToDivide indexTopk (2 ^ a) = 2 ^ b ∧ 2 ^ b ≤ 2 ^ a ∧
    2 ^ b ∣ indexTopk ∧ ∀ k, 2 ^ k ≤ 2 ^ a → 2 ^ k ∣ indexTopk → 2 ^ k ≤ 2 ^ b := by
  induction a with
  | zero =>
      refine ⟨0,?_,Nat.le_refl _,Nat.one_dvd _,fun _ below _ => below⟩
      rw [halveToDivide,if_neg (by simp)]
  | succ a ih =>
      rw [halveToDivide]
      split
      · rename_i odd
        obtain ⟨b,halved,below,divides,largest⟩ := ih
        rw [Nat.pow_succ,Nat.mul_div_cancel _ (by decide)]
        refine ⟨b,halved,Nat.le_trans below (Nat.le_mul_of_pos_right _ (by decide)),divides,?_⟩
        intro k under also
        apply largest k _ also
        rw [← Nat.pow_succ,Nat.pow_le_pow_iff_right (by decide)] at under
        apply Nat.pow_le_pow_right (by decide)
        rcases Nat.lt_or_eq_of_le under with smaller | same
        · exact Nat.le_of_lt_succ smaller
        · rw [same] at also
          exact absurd (Nat.mod_eq_zero_of_dvd also) odd.2
      · rename_i done
        refine ⟨a + 1,rfl,Nat.le_refl _,?_,fun _ below _ => below⟩
        apply Nat.dvd_of_mod_eq_zero
        have several : 2 ^ (a + 1) > 1 := Nat.one_lt_two_pow (Nat.succ_ne_zero a)
        by_contra odd
        exact done ⟨several,odd⟩

section Chosen
variable {nextPowerOf2 : Nat → Nat} {numTokens numHeadGroups indexTopk smCount : Nat}

-- Where the heuristic splits, its count is the largest power of two within
-- three bounds: it divides, it fits the device, and it is at most `ideal`.
theorem chosen_exact (documented : NextPower nextPowerOf2) (indexTopk : Nat) (busy : 0 < numTokens * numHeadGroups)
    (idle : numTokens * numHeadGroups * splitMaxOccupancy < smCount) :
    ∃ b, chooseNumKvSplits nextPowerOf2 numTokens numHeadGroups indexTopk smCount = 2 ^ b ∧
      2 ^ b ≤ nextPowerOf2 (max 1 (indexTopk / minTopkPerSplit)) ∧ 2 ^ b * (numTokens * numHeadGroups) ≤ smCount ∧
      2 ^ b ∣ indexTopk ∧ ∀ k, 2 ^ k ≤ nextPowerOf2 (max 1 (indexTopk / minTopkPerSplit)) →
        2 ^ k * (numTokens * numHeadGroups) ≤ smCount → 2 ^ k ∣ indexTopk → 2 ^ k ≤ 2 ^ b := by
  have fits (k : Nat) : 2 ^ k ≤ 1 <<< (bitLength (max 1 (smCount / (numTokens * numHeadGroups))) - 1) ↔
      2 ^ k * (numTokens * numHeadGroups) ≤ smCount := by
    have room : 1 ≤ smCount / (numTokens * numHeadGroups) := by
      rw [Nat.one_le_div_iff busy]
      exact Nat.le_trans (Nat.le_mul_of_pos_right _ (by decide)) (Nat.le_of_lt idle)
    rw [floor_power (Nat.lt_of_lt_of_le Nat.zero_lt_one (Nat.le_max_left _ _)),Nat.max_eq_right room,
      Nat.le_div_iff_mul_le busy]
  obtain ⟨i,ideal⟩ := documented.power _ (Nat.le_max_left 1 (indexTopk / minTopkPerSplit))
  obtain ⟨m,device⟩ : ∃ m, 1 <<< (bitLength (max 1 (smCount / (numTokens * numHeadGroups))) - 1) = 2 ^ m :=
    ⟨_,Nat.one_shiftLeft _⟩
  obtain ⟨a,both⟩ : ∃ a, min (2 ^ i) (2 ^ m) = 2 ^ a := by
    rcases Nat.le_total (2 ^ i) (2 ^ m) with below | below
    · exact ⟨i,Nat.min_eq_left below⟩
    · exact ⟨m,Nat.min_eq_right below⟩
  obtain ⟨b,halved,below,divides,largest⟩ := halve_exact indexTopk a
  have bounds (k : Nat) : 2 ^ k ≤ 2 ^ a ↔ 2 ^ k ≤ nextPowerOf2 (max 1 (indexTopk / minTopkPerSplit)) ∧
      2 ^ k * (numTokens * numHeadGroups) ≤ smCount := by
    rw [← both,Nat.le_min,← ideal,← device,fits]
  refine ⟨b,?_,((bounds b).mp below).1,((bounds b).mp below).2,divides,?_⟩
  · unfold chooseNumKvSplits
    dsimp only
    rw [if_neg (by omega),ideal,device,both,halved]
    exact Nat.max_eq_right (Nat.two_pow_pos b)
  · intro k small room also
    exact largest k ((bounds k).mpr ⟨small,room⟩) also

theorem ideal_below (documented : NextPower nextPowerOf2) (some : 1 ≤ n) : nextPowerOf2 n < 2 * n := by
  obtain ⟨k,power⟩ := documented.power n some
  cases k with
  | zero => rw [power]; omega
  | succ k =>
      by_contra far
      rw [power,Nat.pow_succ] at far
      have closer := documented.least n k some (by omega)
      have positive := Nat.two_pow_pos k
      rw [power,Nat.pow_succ] at closer
      omega

theorem unsplit_exact (saturated : ¬ (0 < numTokens * numHeadGroups ∧
    numTokens * numHeadGroups * splitMaxOccupancy < smCount)) :
    chooseNumKvSplits nextPowerOf2 numTokens numHeadGroups indexTopk smCount = 1 := by
  unfold chooseNumKvSplits
  dsimp only
  rw [if_pos (by omega)]

-- Of the promises only the least work of a split can fail, by less than half.
theorem split_bounds (documented : NextPower nextPowerOf2) (numTokens numHeadGroups indexTopk smCount : Nat) :
    let r := chooseNumKvSplits nextPowerOf2 numTokens numHeadGroups indexTopk smCount
    1 ≤ r ∧ (∃ k, r = 2 ^ k) ∧ r ∣ indexTopk ∧ (1 < r → r * numTokens * numHeadGroups ≤ smCount ∧
      r < 2 * (indexTopk / minTopkPerSplit) ∧ minTopkPerSplit < 2 * (indexTopk / r)) := by
  intro r
  by_cases splits : 0 < numTokens * numHeadGroups ∧ numTokens * numHeadGroups * splitMaxOccupancy < smCount
  · obtain ⟨b,chosen,small,fits,divides,_⟩ := chosen_exact documented indexTopk splits.1 splits.2
    have same : r = 2 ^ b := chosen
    rw [same]
    refine ⟨Nat.two_pow_pos b,⟨b,rfl⟩,divides,fun several => ?_⟩
    have below := Nat.lt_of_le_of_lt small (ideal_below documented (Nat.le_max_left 1 _))
    have twice : 2 ^ b < 2 * (indexTopk / minTopkPerSplit) := by omega
    refine ⟨by rwa [Nat.mul_assoc],twice,?_⟩
    obtain ⟨part,rfl⟩ := divides
    have cut := Nat.div_mul_le_self (2 ^ b * part) minTopkPerSplit
    rw [Nat.mul_div_cancel_left part (Nat.two_pow_pos b)]
    have work : 2 ^ b * minTopkPerSplit < 2 ^ b * (2 * part) := by
      have scaled := Nat.mul_lt_mul_of_pos_right twice (show 0 < minTopkPerSplit by decide)
      have double : 2 ^ b * (2 * part) = 2 * (2 ^ b * part) := Nat.mul_left_comm _ _ _
      rw [Nat.mul_assoc] at scaled
      omega
    exact Nat.lt_of_mul_lt_mul_left work
  · have same : r = 1 := unsplit_exact splits
    rw [same]
    exact ⟨Nat.le_refl 1,⟨0,rfl⟩,Nat.one_dvd _,fun several => absurd several (Nat.lt_irrefl 1)⟩

theorem work_iff (some : 0 < r) :
    minTopkPerSplit ≤ indexTopk / r ↔ r ≤ indexTopk / minTopkPerSplit := by
  rw [Nat.le_div_iff_mul_le some,Nat.le_div_iff_mul_le (by decide),Nat.mul_comm]

-- The promises are kept exactly where no such power of two is in reach.
theorem split_count_exact (documented : NextPower nextPowerOf2) (numTokens numHeadGroups indexTopk smCount : Nat) :
    Promised numTokens numHeadGroups indexTopk smCount
      (chooseNumKvSplits nextPowerOf2 numTokens numHeadGroups indexTopk smCount) ↔
    ¬ Overshoots numTokens numHeadGroups indexTopk smCount := by
  obtain ⟨one,power,divides,bounds⟩ := split_bounds documented numTokens numHeadGroups indexTopk smCount
  constructor
  · rintro promised ⟨busy,idle,k,above,below,also,fits⟩
    obtain ⟨b,chosen,_,_,_,largest⟩ := chosen_exact documented indexTopk busy idle
    rw [chosen] at promised divides
    have ideal : 2 ^ k ≤ nextPowerOf2 (max 1 (indexTopk / minTopkPerSplit)) := by
      obtain ⟨i,same⟩ := documented.power _ (Nat.le_max_left 1 (indexTopk / minTopkPerSplit))
      have reaches := documented.reaches _ (Nat.le_max_left 1 (indexTopk / minTopkPerSplit))
      rw [same] at reaches ⊢
      by_contra smaller
      rw [Nat.pow_le_pow_iff_right (by decide),Nat.not_le] at smaller
      have twice := Nat.pow_le_pow_right (show 0 < 2 by decide) smaller
      rw [Nat.succ_eq_add_one,Nat.pow_succ] at twice
      omega
    have reached := largest k ideal fits also
    have several : 1 < 2 ^ b := by omega
    have work := (work_iff (Nat.two_pow_pos b)).mp (promised.work several)
    omega
  · intro within
    refine ⟨one,fun _ => power,fun _ => divides,fun several => (bounds several).1,fun several => ?_⟩
    obtain ⟨fits,below,_⟩ := bounds several
    rw [work_iff one]
    by_contra above
    apply within
    obtain ⟨k,same⟩ := power
    have splits : 0 < numTokens * numHeadGroups ∧ numTokens * numHeadGroups * splitMaxOccupancy < smCount := by
      by_contra saturated
      rw [unsplit_exact saturated] at several
      exact Nat.lt_irrefl 1 several
    rw [Nat.mul_assoc] at fits
    rw [same] at above below divides fits
    exact ⟨splits.1,splits.2,k,Nat.lt_of_not_le above,below,divides,fits⟩

-- The counts that the warmup compiles are all there are below 17 * 128 positions.
theorem split_candidate (documented : NextPower nextPowerOf2) (numTokens numHeadGroups smCount : Nat)
    (short : indexTopk < 17 * minTopkPerSplit) :
    chooseNumKvSplits nextPowerOf2 numTokens numHeadGroups indexTopk smCount ∈ kvSplitsCandidates := by
  by_cases splits : 0 < numTokens * numHeadGroups ∧ numTokens * numHeadGroups * splitMaxOccupancy < smCount
  · obtain ⟨b,chosen,small,_⟩ := chosen_exact documented indexTopk splits.1 splits.2
    have pools : indexTopk / minTopkPerSplit < 17 := Nat.div_lt_of_lt_mul (by rwa [Nat.mul_comm])
    have ideal := documented.least _ 4 (Nat.le_max_left 1 (indexTopk / minTopkPerSplit)) (by omega)
    have few := (Nat.pow_le_pow_iff_right (by decide)).mp (Nat.le_trans small ideal)
    rw [chosen]
    obtain rfl | rfl | rfl | rfl | rfl : b = 0 ∨ b = 1 ∨ b = 2 ∨ b = 3 ∨ b = 4 := by omega
    all_goals decide
  · rw [unsplit_exact splits]
    decide

end Chosen

section Wrapper
variable {K : Type} [Field K] [LinearOrder K] [IsStrictOrderedRing K] (exps : Exponentials K) (call : MlaCall K)

-- num_kv_splits as the caller gives it: None or 0 leave it to the heuristic.
def resolveSplits (nextPowerOf2 : Nat → Nat) (numKvSplits : Option Nat) (smCount : Nat) : Nat :=
  if numKvSplits = none ∨ numKvSplits = some 0 then
    chooseNumKvSplits nextPowerOf2 call.numTokens (numHeadGroups call.tensors) call.indexTopk smCount
  else numKvSplits.getD 0

def tritonMlaSparseAttention (splits blockN : Nat) (final : List (Nat × Nat)) (stage merge : List (Nat × Nat × Nat))
    (before : Int → K) (beforeMid : Int → Wide K) : Int → K :=
  if splits = 1 then singlePass exps call.loaded blockN final before
  else splitPass exps call.loaded splits (splitMid exps call.loaded blockN splits stage beforeMid) merge before

omit [Field K] [LinearOrder K] [IsStrictOrderedRing K] in
theorem resolved_some (documented : NextPower nextPowerOf2) (numKvSplits : Option Nat) (smCount : Nat) :
    0 < resolveSplits call nextPowerOf2 numKvSplits smCount := by
  unfold resolveSplits
  split
  · exact (split_bounds documented _ _ _ _).1
  · rename_i given
    cases numKvSplits with
    | none => exact absurd (Or.inl rfl) given
    | some n =>
        apply Nat.pos_of_ne_zero
        rintro (rfl : n = 0)
        exact given (Or.inr rfl)

-- Whatever the count, chosen or given, the output is the attention.
theorem attention_any_split (documented : NextPower nextPowerOf2) (numKvSplits : Option Nat) (smCount : Nat)
    (fits : ProductsFit call (resolveSplits call nextPowerOf2 numKvSplits smCount)) (rows : RowsFit call)
    (tiled : 0 < blockN) (before : Int → K) (beforeMid : Int → Wide K)
    (launched : final.Perm (programs call.numTokens call.numHeadsQ (min blockH call.numHeadsQ)))
    (staged : stage.Perm (grid3 call.numTokens (numHeadGroups call.tensors)
      (resolveSplits call nextPowerOf2 numKvSplits smCount)))
    (merged : merge.Perm (grid3 call.numTokens call.numHeadsQ numMergeDvTiles))
    (row : curQ < call.numTokens) (head : curHead < call.numHeadsQ) (column : dv < blockDv) :
    tritonMlaSparseAttention exps call (resolveSplits call nextPowerOf2 numKvSplits smCount) blockN final stage merge before
      beforeMid (outCell call.tensors curQ curHead dv : Nat) = attention exps call.tensors curQ curHead dv := by
  have paths := paths_loaded exps call fits tiled (resolved_some call documented numKvSplits smCount) before beforeMid
    launched staged merged
  rw [← loaded_attention exps fits rows row head column]
  unfold tritonMlaSparseAttention
  split
  · exact paths.single curQ row curHead head dv column
  · exact paths.split curQ row curHead head dv column

end Wrapper

-- 2048 positions of one token over 132 SMs.
theorem split_count_exact_sixteen : Promised 1 1 2048 132 (chooseNumKvSplits leastPower 1 1 2048 132) := by
  apply (split_count_exact least_power_documented 1 1 2048 132).mpr
  rintro ⟨_,_,k,above,below,_⟩
  have high : 2 ^ 4 < 2 ^ k := above
  have low : 2 ^ k < 2 ^ 5 := below
  rw [Nat.pow_lt_pow_iff_right (by decide)] at high low
  omega

-- 384 positions are cut in four: 96 for each split.
theorem split_work_short : ¬ Promised 1 1 384 132 (chooseNumKvSplits leastPower 1 1 384 132) := by
  have ideal : leastPower 3 = 4 := by decide
  have chosen : chooseNumKvSplits leastPower 1 1 384 132 = 4 := by
    have done : halveToDivide 384 4 = 4 := by
      rw [halveToDivide]
      rfl
    show max 1 (halveToDivide 384 (min (leastPower 3) 128)) = 4
    rw [ideal]
    exact congrArg (max 1) done
  intro promised
  rw [chosen] at promised
  exact absurd (promised.work (by decide)) (by decide)

end Glm5Next.SplitCounts
