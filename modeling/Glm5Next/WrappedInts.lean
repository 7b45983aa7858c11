import Mathlib.Algebra.Group.Int.Defs
import Mathlib.Algebra.Group.Nat.Defs
import Mathlib.Data.Int.Basic

-- Machine integers as the integers they wrap to.
namespace WrappedInts

def int32 (x : Int) : Int := Int.bmod x (2 ^ 32)
def int64 (x : Int) : Int := Int.bmod x (2 ^ 64)

inductive IntType where
  | int32
  | int64

def IntType.wrap (type : IntType) (x : Int) : Int :=
  match type with
  | .int32 => WrappedInts.int32 x
  | .int64 => WrappedInts.int64 x

-- Truncating to int32 forgets how the wider arithmetic wrapped.
theorem int32_wrap (type : IntType) (x o : Int) : int32 (type.wrap (type.wrap x + o)) = int32 (x + o) := by
  have narrow : (2 ^ 32 : Nat) ∣ 2 ^ 64 := ⟨2 ^ 32,by decide⟩
  cases type with
  | int32 => simp only [IntType.wrap,int32,Int.bmod_bmod,Int.bmod_add_bmod]
  | int64 =>
      simp only [IntType.wrap,int32,int64]
      rw [Int.bmod_add_bmod,Int.bmod_bmod_of_dvd narrow]

theorem int32_sum (x y z : Int) : int32 (int32 (int32 x + int32 y) + z) = int32 (x + y + z) := by
  simp only [int32,Int.bmod_add_bmod,Int.add_bmod_bmod]

theorem int32_lt (x : Int) : int32 x < 2 ^ 31 := by
  have bound := Int.bmod_lt (x := x) (m := 2 ^ 32) (by decide)
  unfold int32
  omega

theorem int32_exact (natural : 0 ≤ x) : int32 x = x ↔ x < 2 ^ 31 := by
  have bound := int32_lt x
  unfold int32 at bound ⊢
  constructor
  · intro same
    omega
  · intro below
    exact Int.bmod_eq_of_le (by omega) (by omega)

theorem int64_exact (natural : 0 ≤ x) : int64 x = x ↔ x < 2 ^ 63 := by
  unfold int64
  constructor
  · intro same
    have bound := Int.bmod_lt (x := x) (m := 2 ^ 64) (by decide)
    rw [same] at bound
    omega
  · intro below
    exact Int.bmod_eq_of_le (by omega) (by omega)

-- The type Triton gives an integer argument of a launch goes by its value.
def argumentType (n : Nat) : IntType := if n < 2 ^ 31 then .int32 else .int64

-- An int32 times a stride that is an argument.
def scaled (x stride : Nat) : Int := (argumentType stride).wrap (x * stride : Nat)

def Scales (x stride : Nat) : Prop := x * stride < if stride < 2 ^ 31 then 2 ^ 31 else 2 ^ 63

instance (x stride : Nat) : Decidable (Scales x stride) := inferInstanceAs (Decidable (_ < _))

theorem scaled_exact (x stride : Nat) : scaled x stride = (x * stride : Nat) ↔ Scales x stride := by
  have natural : (0 : Int) ≤ (x * stride : Nat) := Int.natCast_nonneg _
  unfold scaled argumentType Scales
  split
  · refine (int32_exact natural).trans ?_
    omega
  · refine (int64_exact natural).trans ?_
    omega

theorem Scales.zero (stride : Nat) : Scales 0 stride := by
  unfold Scales
  split <;> omega

theorem Scales.small (low : x ≤ 2 ^ 15) (narrow : stride < 2 ^ 16) : Scales x stride := by
  have product : x * stride ≤ 2 ^ 15 * (2 ^ 16 - 1) := Nat.mul_le_mul low (Nat.le_sub_one_of_lt narrow)
  unfold Scales
  rw [if_pos (by omega)]
  omega

end WrappedInts
