import Mathlib.Data.Nat.Count
import Mathlib.Data.Rat.Defs
import Mathlib.Algebra.Order.Field.Rat
import Mathlib.Tactic.Ring
import Mathlib.Tactic.Linarith
import Mathlib.Tactic.FieldSimp

-- Magnitudes of a small float format: `m` fraction bits below the exponent
-- bits, subnormals in the lowest binade, no reserved codes.
namespace Minifloat

def units (m code : ℕ) : ℕ :=
  (if code / 2 ^ m = 0 then code % 2 ^ m else 2 ^ m + code % 2 ^ m) * 2 ^ (code / 2 ^ m - 1)

def least (bias m : ℕ) : ℚ := 2 ^ (1 - bias - m : ℤ)

def value (bias m code : ℕ) : ℚ := units m code * least bias m

theorem units_succ (m code : ℕ) : units m (code + 1) = units m code + 2 ^ (code / 2 ^ m - 1) := by
  have positive : 0 < 2 ^ m := Nat.two_pow_pos m
  have split := Nat.div_add_mod code (2 ^ m)
  by_cases full : code % 2 ^ m + 1 < 2 ^ m
  · have quotient : (code + 1) / 2 ^ m = code / 2 ^ m := by
      apply Nat.div_eq_of_lt_le
      · rw [Nat.mul_comm]; omega
      · rw [Nat.add_mul,Nat.one_mul,Nat.mul_comm]; omega
    have rest : (code + 1) % 2 ^ m = code % 2 ^ m + 1 := by
      have other := Nat.div_add_mod (code + 1) (2 ^ m)
      rw [quotient] at other
      omega
    unfold units
    rw [quotient,rest]
    split <;> ring
  · have last : code % 2 ^ m + 1 = 2 ^ m := by
      have bound := Nat.mod_lt code positive
      omega
    have next : code + 1 = 2 ^ m * (code / 2 ^ m + 1) := by
      rw [Nat.mul_add,Nat.mul_one]; omega
    have quotient : (code + 1) / 2 ^ m = code / 2 ^ m + 1 := by
      rw [next,Nat.mul_div_cancel_left _ positive]
    have rest : (code + 1) % 2 ^ m = 0 := by rw [next,Nat.mul_mod_right]
    unfold units
    rw [quotient,rest]
    cases exponent : code / 2 ^ m with
    | zero => simp; omega
    | succ e =>
        have frac : code % 2 ^ m = 2 ^ m - 1 := by omega
        simp only [Nat.add_one_ne_zero,if_false,frac,Nat.add_sub_cancel]
        have whole : 2 ^ m + (2 ^ m - 1) + 1 = 2 * 2 ^ m := by omega
        calc (2 ^ m + 0) * 2 ^ (e + 1) = (2 ^ m + (2 ^ m - 1) + 1) * 2 ^ e := by rw [whole]; ring
          _ = (2 ^ m + (2 ^ m - 1)) * 2 ^ e + 2 ^ e := by ring

-- Consecutive magnitudes at most double, except at zero.
theorem units_double (m code : ℕ) (positive : 0 < code) : units m (code + 1) ≤ 2 * units m code := by
  rw [units_succ]
  have gap : 2 ^ (code / 2 ^ m - 1) ≤ units m code := by
    unfold units
    split
    · rename_i low
      rw [low]
      have small : code < 2 ^ m := by
        by_contra large
        have := Nat.div_pos (Nat.le_of_not_lt large) (Nat.two_pow_pos m)
        omega
      rw [Nat.mod_eq_of_lt small,Nat.zero_sub,pow_zero,Nat.mul_one]
      exact positive
    · exact Nat.le_mul_of_pos_left _ (Nat.add_pos_left (Nat.two_pow_pos m) _)
  omega

theorem least_pos (bias m : ℕ) : 0 < least bias m := zpow_pos (by norm_num) _

theorem value_zero (bias m : ℕ) : value bias m 0 = 0 := by simp [value,units]

theorem value_strictMono (bias m : ℕ) : StrictMono (value bias m) := by
  apply strictMono_nat_of_lt_succ
  intro code
  unfold value
  apply mul_lt_mul_of_pos_right _ (least_pos bias m)
  have step : units m code < units m (code + 1) := by
    rw [units_succ]; exact Nat.lt_add_of_pos_right (Nat.two_pow_pos _)
  exact_mod_cast step

theorem value_nonneg (bias m code : ℕ) : 0 ≤ value bias m code :=
  mul_nonneg (Nat.cast_nonneg _) (least_pos bias m).le

theorem value_double (bias m code : ℕ) (positive : 0 < code) :
    value bias m (code + 1) ≤ 2 * value bias m code := by
  unfold value
  rw [← mul_assoc]
  apply mul_le_mul_of_nonneg_right _ (least_pos bias m).le
  exact_mod_cast units_double m code positive

theorem value_rebias (bias extra m code : ℕ) :
    value bias m code = 2 ^ extra * value (bias + extra) m code := by
  unfold value least
  have exponent : (1 - bias - m : ℤ) = extra + (1 - (bias + extra : ℕ) - m : ℤ) := by push_cast; ring
  rw [exponent,zpow_add₀ (by norm_num),zpow_natCast]
  ring

theorem value_normal (bias j : ℕ) (low : 2 ^ m ≤ n) (high : n < 2 ^ (m + 1)) :
    value bias m ((j + 1) * 2 ^ m + (n - 2 ^ m)) = n * 2 ^ j * least bias m := by
  have fraction : n - 2 ^ m < 2 ^ m := by
    rw [Nat.pow_succ] at high
    omega
  have exponent : ((j + 1) * 2 ^ m + (n - 2 ^ m)) / 2 ^ m = j + 1 := by
    rw [Nat.mul_comm,Nat.mul_add_div (Nat.two_pow_pos m),Nat.div_eq_of_lt fraction,Nat.add_zero]
  have rest : ((j + 1) * 2 ^ m + (n - 2 ^ m)) % 2 ^ m = n - 2 ^ m := by
    rw [Nat.mul_add_mod_self_right,Nat.mod_eq_of_lt fraction]
  unfold value units
  rw [exponent,rest,if_neg (Nat.succ_ne_zero j),Nat.add_sub_cancel' low,Nat.add_sub_cancel]
  push_cast
  ring

theorem value_refine (bias m extra code : ℕ) : value bias (m + extra) (code * 2 ^ extra) = value bias m code := by
  have positive : 0 < 2 ^ extra := Nat.two_pow_pos extra
  have exponent : code * 2 ^ extra / 2 ^ (m + extra) = code / 2 ^ m := by
    rw [Nat.pow_add,Nat.mul_div_mul_right _ _ positive]
  have rest : code * 2 ^ extra % 2 ^ (m + extra) = code % 2 ^ m * 2 ^ extra := by
    rw [Nat.pow_add,Nat.mul_mod_mul_right]
  have finer : units (m + extra) (code * 2 ^ extra) = 2 ^ extra * units m code := by
    unfold units
    rw [exponent,rest]
    split
    · ring
    · rw [Nat.pow_add]
      ring
  have coarse : least bias m = 2 ^ extra * least bias (m + extra) := by
    unfold least
    have exponents : (1 - bias - m : ℤ) = extra + (1 - bias - (m + extra : ℕ)) := by push_cast; ring
    rw [exponents,zpow_add₀ (by norm_num),zpow_natCast]
  unfold value
  rw [finer,coarse]
  push_cast
  ring

section Rounding
variable (magnitude : ℕ → ℚ) (tieUp : ℕ → Bool)

def halfway (code : ℕ) : ℚ := (magnitude code + magnitude (code + 1)) / 2

def Passes (y : ℚ) (code : ℕ) : Prop :=
  halfway magnitude code < y ∨ halfway magnitude code = y ∧ tieUp (code + 1) = true

instance (y : ℚ) : DecidablePred (Passes magnitude tieUp y) := fun _ => inferInstanceAs (Decidable (_ ∨ _))

-- Round a nonnegative number to the nearest magnitude up to code `top`; `tieUp`
-- says which ties go to the upper neighbour.
def roundCode (top : ℕ) (y : ℚ) : ℕ := Nat.count (Passes magnitude tieUp y) top

variable {magnitude tieUp}

theorem halfway_strictMono (mono : StrictMono magnitude) : StrictMono (halfway magnitude) := by
  apply strictMono_nat_of_lt_succ
  intro code
  have low := mono (Nat.lt_succ_self code)
  have high := mono (Nat.lt_succ_self (code + 1))
  unfold halfway
  linarith

theorem passes_below (mono : StrictMono magnitude) (passes : Passes magnitude tieUp y high) (below : low < high) :
    Passes magnitude tieUp y low := by
  have apart := halfway_strictMono mono below
  rcases passes with past | ⟨tie,_⟩
  · exact Or.inl (apart.trans past)
  · exact Or.inl (tie ▸ apart)

theorem round_le (magnitude : ℕ → ℚ) (tieUp : ℕ → Bool) (top : ℕ) (y : ℚ) : roundCode magnitude tieUp top y ≤ top :=
  Nat.count_le _

theorem round_exact (mono : StrictMono magnitude) (top : ℕ) (y : ℚ) (inside : code < top) :
    code < roundCode magnitude tieUp top y ↔ Passes magnitude tieUp y code := by
  unfold roundCode
  constructor
  · intro below
    by_contra stops
    have none_above : Nat.count (fun k => Passes magnitude tieUp y (code + k)) (top - code) = 0 := by
      rw [Nat.count_iff_forall_not]
      intro k _ passes
      rcases Nat.eq_zero_or_pos k with rfl | positive
      · exact stops passes
      · exact stops (passes_below mono passes (by omega))
    have total := Nat.count_add (Passes magnitude tieUp y) code (top - code)
    rw [none_above,Nat.add_sub_cancel' inside.le] at total
    have bound : Nat.count (Passes magnitude tieUp y) code ≤ code := Nat.count_le _
    omega
  · intro passes
    have all_below : Nat.count (Passes magnitude tieUp y) (code + 1) = code + 1 := by
      rw [Nat.count_iff_forall]
      intro k below
      rcases Nat.lt_or_eq_of_le (Nat.le_of_lt_succ below) with less | rfl
      · exact passes_below mono passes less
      · exact passes
    have grows := Nat.count_monotone (Passes magnitude tieUp y) (Nat.succ_le_of_lt inside)
    rw [Nat.succ_eq_add_one] at grows
    omega

theorem round_upper (mono : StrictMono magnitude) (inside : roundCode magnitude tieUp top y < top) :
    y ≤ halfway magnitude (roundCode magnitude tieUp top y) := by
  have stops := (not_congr (round_exact mono top y inside)).mp (Nat.lt_irrefl _)
  exact not_lt.mp fun past => stops (Or.inl past)

theorem round_magnitude (mono : StrictMono magnitude) (inside : code ≤ top) :
    roundCode magnitude tieUp top (magnitude code) = code := by
  apply Nat.le_antisymm
  · by_contra past
    have passes := (round_exact mono top (magnitude code)
      (Nat.lt_of_lt_of_le (Nat.not_le.mp past) (round_le _ _ _ _))).mp (Nat.not_le.mp past)
    have above := mono (Nat.lt_succ_self code)
    unfold Passes halfway at passes
    rcases passes with beyond | ⟨tie,_⟩ <;> linarith
  · cases code with
    | zero => exact Nat.zero_le _
    | succ code =>
        apply (round_exact mono top _ (Nat.lt_of_succ_le inside)).mpr
        have above := mono (Nat.lt_succ_self code)
        left
        unfold halfway
        linarith

end Rounding
end Minifloat
