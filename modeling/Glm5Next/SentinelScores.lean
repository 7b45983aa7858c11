import Mathlib.Analysis.SpecialFunctions.Log.Base
import Mathlib.Data.Prod.Lex
import Mathlib.Order.WithBot
import Glm5Next.OnlineSoftmax

-- Scores in which a finite sentinel stands for "masked": a number is
-- `large * rank + rest` for a `large` past every real score, or -inf.
namespace SentinelScores
open OnlineSoftmax
variable {K : Type}

inductive Wide (K : Type) where
  | negInf
  | fin (rank rest : K)

def real [Zero K] (x : K) : Wide K := .fin 0 x

def negLarge [Zero K] [One K] [Neg K] : Wide K := .fin (-1) 0

def add [Add K] : Wide K → Wide K → Wide K
  | .fin a x, .fin b y => .fin (a + b) (x + y)
  | _, _ => .negInf

-- Nothing subtracts -inf.
def sub [Sub K] : Wide K → Wide K → Wide K
  | .fin a x, .fin b y => .fin (a - b) (x - y)
  | _, _ => .negInf

def scale [Mul K] (c : K) : Wide K → Wide K
  | .fin a x => .fin (a * c) (x * c)
  | .negInf => .negInf

-- A negative multiple of `large` has no weight.
def power [Zero K] [DecidableEq K] (e : K → K) : Wide K → K
  | .fin rank rest => if rank = 0 then e rest else 0
  | .negInf => 0

def Wide.key : Wide K → WithBot (K ×ₗ K)
  | .fin rank rest => ((toLex (rank,rest) : K ×ₗ K) : WithBot (K ×ₗ K))
  | .negInf => ⊥

theorem key_injective : Function.Injective (Wide.key : Wide K → WithBot (K ×ₗ K)) := by
  intro a b same
  cases a with
  | negInf =>
      cases b with
      | negInf => rfl
      | fin rank rest => exact absurd same.symm (WithBot.coe_ne_bot)
  | fin rank rest =>
      cases b with
      | negInf => exact absurd same (WithBot.coe_ne_bot)
      | fin rank' rest' =>
          have pair := Prod.mk.inj (toLex.injective (WithBot.coe_injective same))
          rw [pair.1,pair.2]

instance [LinearOrder K] : LinearOrder (Wide K) := LinearOrder.lift' Wide.key key_injective

section Order
variable [LinearOrder K]

theorem fin_le {a x b y : K} : (Wide.fin a x) ≤ Wide.fin b y ↔ a < b ∨ a = b ∧ x ≤ y := by
  show (Wide.fin a x).key ≤ (Wide.fin b y).key ↔ _
  rw [Wide.key,Wide.key,WithBot.coe_le_coe,Prod.Lex.toLex_le_toLex]

theorem fin_not_le {a x : K} : ¬ (Wide.fin a x) ≤ Wide.negInf := by
  show ¬ (Wide.fin a x).key ≤ (Wide.negInf : Wide K).key
  exact not_le.mpr (WithBot.bot_lt_coe _)

end Order

variable [Field K] [LinearOrder K]

def proper : Wide K → Prop
  | .fin rank _ => rank ≤ 0
  | .negInf => True

theorem power_real (e : K → K) (x : K) : power e (real x) = e x := if_pos rfl

theorem power_fin (e : K → K) (rank rest : K) : power e (.fin rank rest) = if rank = 0 then e rest else 0 := rfl

section Laws
variable {e : K → K}

theorem power_nonneg (positive : ∀ x, 0 < e x) (a : Wide K) : 0 ≤ power e a := by
  cases a with
  | negInf => exact le_refl 0
  | fin rank rest =>
      by_cases real : rank = 0
      · exact le_of_lt ((positive rest).trans_eq (if_pos real).symm)
      · exact le_of_eq (if_neg real).symm

theorem power_chain (additive : ∀ x y, e (x + y) = e x * e y) {floor a b c : Wide K} (finite : floor ≠ .negInf)
    (above : floor ≤ b) (low : a ≤ b) (high : b ≤ c) :
    power e (sub a b) * power e (sub b c) = power e (sub a c) := by
  cases floor with
  | negInf => exact absurd rfl finite
  | fin rank rest =>
      cases b with
      | negInf => exact absurd above fin_not_le
      | fin br bx =>
          cases c with
          | negInf => exact absurd high fin_not_le
          | fin cr cx =>
              cases a with
              | negInf => simp [sub,power]
              | fin ar ax =>
                  simp only [sub,power]
                  rcases fin_le.mp low with below | ⟨rfl,_⟩
                  · have total : ar ≠ cr := by
                      rcases fin_le.mp high with below' | ⟨same,_⟩
                      · exact ne_of_lt (lt_trans below below')
                      · exact ne_of_lt (by rwa [← same])
                    rw [if_neg (sub_ne_zero_of_ne (ne_of_lt below)),if_neg (sub_ne_zero_of_ne total),zero_mul]
                  · rw [if_pos (sub_self ar)]
                    by_cases same : ar = cr
                    · have level := sub_eq_zero_of_eq same
                      rw [if_pos level,if_pos level,← additive,sub_add_sub_cancel]
                    · have apart := sub_ne_zero_of_ne same
                      rw [if_neg apart,if_neg apart,mul_zero]

theorem power_scaled (additive : ∀ x y, e (x + y) = e x * e y) {floor a b : Wide K} (finite : floor ≠ .negInf)
    (small : proper b) (above : floor ≤ b) (low : a ≤ b) : power e (sub a b) * power e b = power e a := by
  cases floor with
  | negInf => exact absurd rfl finite
  | fin rank rest =>
      cases b with
      | negInf => exact absurd above fin_not_le
      | fin br bx =>
          cases a with
          | negInf => simp [sub,power]
          | fin ar ax =>
              simp only [sub,power]
              have nonpositive : br ≤ 0 := small
              rcases fin_le.mp low with below | ⟨rfl,_⟩
              · have gone : ar ≠ 0 := ne_of_lt (lt_of_lt_of_le below nonpositive)
                rw [if_neg (sub_ne_zero_of_ne (ne_of_lt below)),if_neg gone,zero_mul]
              · rw [if_pos (sub_self ar)]
                by_cases real : ar = 0
                · rw [if_pos real,← additive,sub_add_cancel,if_pos real]
                · rw [if_neg real,mul_zero,if_neg real]

end Laws

variable [IsStrictOrderedRing K]

def weighing (e : K → K) (positive : ∀ x, 0 < e x) (additive : ∀ x y, e (x + y) = e x * e y) :
    Weighing (Wide K) K where
  proper := proper
  floor := negLarge
  rel a b := power e (sub a b)
  size := power e
  proper_floor := by
    show (-1 : K) ≤ 0
    exact neg_nonpos_of_nonneg zero_le_one
  size_floor := if_neg (by simp)
  size_nonneg := power_nonneg positive
  chain _ _ _ _ above low high := power_chain additive (by simp [negLarge]) above low high
  scaled _ _ small above low := power_scaled additive (by simp [negLarge]) small above low

-- The functions and constants a kernel uses, with what it relies on.
structure Exponentials (K : Type) [Field K] [LinearOrder K] where
  exp : K → K
  exp2 : K → K
  log2 : K → K
  logE2 : K
  log2E : K
  exp_pos : ∀ x, 0 < exp x
  exp_add : ∀ x y, exp (x + y) = exp x * exp y
  exp2_exact : ∀ x, exp2 x = exp (x * logE2)
  exp2_log2 : ∀ x, 0 < x → exp2 (log2 x) = x
  logE2_pos : 0 < logE2
  inverse : logE2 * log2E = 1

section Exponentials
variable (exps : Exponentials K)

omit [IsStrictOrderedRing K] in
theorem exp2_pos (x : K) : 0 < exps.exp2 x := by
  rw [exps.exp2_exact]
  exact exps.exp_pos _

omit [IsStrictOrderedRing K] in
theorem exp2_add (x y : K) : exps.exp2 (x + y) = exps.exp2 x * exps.exp2 y := by
  rw [exps.exp2_exact,exps.exp2_exact,exps.exp2_exact,add_mul,exps.exp_add]

omit [IsStrictOrderedRing K] in
theorem exp2_log2E (x : K) : exps.exp2 (x * exps.log2E) = exps.exp x := by
  rw [exps.exp2_exact,mul_assoc,mul_comm exps.log2E,exps.inverse,mul_one]

-- log2, with -inf at 0.
def wideLog2 (x : K) : Wide K := if x = 0 then .negInf else real (exps.log2 x)

end Exponentials

noncomputable def realExponentials : Exponentials ℝ where
  exp := Real.exp
  exp2 x := 2 ^ x
  log2 := Real.logb 2
  logE2 := Real.log 2
  log2E := (Real.log 2)⁻¹
  exp_pos := Real.exp_pos
  exp_add := Real.exp_add
  exp2_exact x := by rw [Real.rpow_def_of_pos two_pos,mul_comm]
  exp2_log2 x positive := Real.rpow_logb two_pos (by norm_num) positive
  logE2_pos := Real.log_pos one_lt_two
  inverse := mul_inv_cancel₀ (ne_of_gt (Real.log_pos one_lt_two))

end SentinelScores
