import Mathlib.Data.BitVec
import Mathlib.Data.Int.Log
import Mathlib.Data.Rat.Floor
import Mathlib.Data.Finset.Lattice.Fold
import Mathlib.Data.Fintype.Basic
import Glm5Next.Minifloat

namespace Glm5Next.Fp8Codec
open Minifloat

-- Triton's cast to float8e4b15: 1 sign, 4 exponent (bias 15) and 3 fraction
-- bits. What the cast does with ties, and whether it keeps 0x7F free, is left open.
structure Cast where
  tieUp : ℕ → Bool
  top : ℕ
  top_finite : top = 0x7E ∨ top = 0x7F

-- x.to(tl.float8e4b15).to(tl.uint8,bitcast=True)
def toFp8U8 (cast : Cast) (x : ℚ) : BitVec 8 :=
  BitVec.ofNat 8 ((if x < 0 then 0x80 else 0) + roundCode (value 15 3) cast.tieUp cast.top |x|)

def magnitudeBits (u : BitVec 8) : ℕ := u.toNat % 0x80

def signed (u : BitVec 8) (x : ℚ) : ℚ := if 0x80 ≤ u.toNat then -x else x

-- float8_e4m3fn (bias 7): the codes 0x7F and 0xFF are NaN. bfloat16 holds every
-- other value exactly.
def e4m3fn (u : BitVec 8) : Option ℚ :=
  if magnitudeBits u = 0x7F then none else some (signed u (value 7 3 (magnitudeBits u)))

def e4m3fnLut (u : BitVec 8) : Option ℚ :=
  if u = 0x7F#8 then some 480
  else if u = 0xFF#8 then some (-480)
  else e4m3fn u

def absmax (x : Fin 128 → ℚ) : ℚ := max (Finset.univ.sup' Finset.univ_nonempty fun i => |x i|) (1 / 10000)

def scale (roundScale : Bool) (x : Fin 128 → ℚ) : ℚ :=
  if roundScale then 2 ^ Int.clog 2 (absmax x * (1 / 448)) else absmax x * (1 / 448)

def clamp (y : ℚ) : ℚ := min (max y (-448)) 448

def quantized (roundScale : Bool) (x : Fin 128 → ℚ) (i : Fin 128) : ℚ := clamp (x i / scale roundScale x)

def storedByte (cast : Cast) (roundScale : Bool) (x : Fin 128 → ℚ) (i : Fin 128) : BitVec 8 :=
  toFp8U8 cast (quantized roundScale x i)

-- No e4m3fn number is closer to y than v.
def Nearest (v y : ℚ) : Prop :=
  (∃ u, e4m3fn u = some v) ∧ ∀ u w, e4m3fn u = some w → |v - y| ≤ |w - y|

def ReadsBack (u : BitVec 8) (y : ℚ) : Prop :=
  (∃ v, e4m3fn u = some v ∧ Nearest v y) ∧ ∃ v, e4m3fnLut u = some v ∧ Nearest v y

theorem scale_pos (roundScale : Bool) (x : Fin 128 → ℚ) : 0 < scale roundScale x := by
  have positive : 0 < absmax x := lt_of_lt_of_le (by norm_num) (le_max_right _ _)
  unfold scale
  split
  · exact zpow_pos (by norm_num) _
  · positivity

-- The scale is never below absmax / 448, rounded up to a power of two or not.
theorem absmax_le_scale (roundScale : Bool) (x : Fin 128 → ℚ) : absmax x ≤ 448 * scale roundScale x := by
  unfold scale
  split
  · have reach := Int.self_le_zpow_clog (by norm_num : 1 < 2) (absmax x * (1 / 448))
    push_cast at reach
    linarith
  · linarith

theorem quotient_bound (roundScale : Bool) (x : Fin 128 → ℚ) (i : Fin 128) :
    |x i / scale roundScale x| ≤ 448 := by
  have inside : |x i| ≤ absmax x :=
    le_max_of_le_left (Finset.le_sup' (fun i => |x i|) (Finset.mem_univ i))
  rw [abs_div,abs_of_pos (scale_pos roundScale x),div_le_iff₀ (scale_pos roundScale x)]
  exact inside.trans (absmax_le_scale roundScale x)

theorem clamp_exact (bound : |y| ≤ 448) : clamp y = y := by
  obtain ⟨low,high⟩ := abs_le.mp bound
  unfold clamp
  rw [max_eq_left low,min_eq_left high]

theorem stored_parts (cast : Cast) (y : ℚ) :
    magnitudeBits (toFp8U8 cast y) = roundCode (value 15 3) cast.tieUp cast.top |y| ∧
      (0x80 ≤ (toFp8U8 cast y).toNat ↔ y < 0) := by
  have bound := round_le (value 15 3) cast.tieUp cast.top |y|
  have top : cast.top ≤ 127 := by
    rcases cast.top_finite with same | same <;> omega
  unfold magnitudeBits toFp8U8
  rw [BitVec.toNat_ofNat]
  split
  · rename_i negative
    refine ⟨by omega,?_⟩
    simp only [negative,iff_true]
    omega
  · rename_i natural
    refine ⟨by omega,?_⟩
    simp only [natural,iff_false]
    omega

theorem lut_exact (apart : magnitudeBits u ≠ 0x7F) : e4m3fnLut u = e4m3fn u := by
  unfold e4m3fnLut
  rw [if_neg,if_neg]
  · rintro rfl; exact apart rfl
  · rintro rfl; exact apart rfl

def towards (y v : ℚ) : ℚ := if y < 0 then -v else v

theorem towards_distance (y v : ℚ) : abs (towards y v - y) = abs (v - |y|) := by
  unfold towards
  split
  · rename_i negative
    rw [abs_of_neg negative,← abs_neg]
    congr 1
    ring
  · rename_i natural
    rw [abs_of_nonneg (not_lt.mp natural)]

theorem code_decodes (y : ℚ) (code : ℕ) (finite : code < 0x7F) :
    e4m3fn (BitVec.ofNat 8 ((if y < 0 then 0x80 else 0) + code)) = some (towards y (value 7 3 code)) := by
  unfold e4m3fn magnitudeBits signed towards
  rw [BitVec.toNat_ofNat]
  split <;> split
  · omega
  · rename_i negative _
    rw [if_pos (by omega)]
    congr 3
    omega
  · omega
  · rename_i natural _
    rw [if_neg (by omega)]
    congr 2
    omega

theorem decoded_magnitude (decoded : e4m3fn u = some w) :
    ∃ code < 0x7F, |w| = value 7 3 code := by
  unfold e4m3fn at decoded
  split at decoded
  · cases decoded
  · rename_i finite
    cases decoded
    refine ⟨magnitudeBits u,?_,?_⟩
    · have bound : magnitudeBits u < 0x80 := Nat.mod_lt _ (by decide)
      omega
    · unfold signed
      split
      · rw [abs_neg,abs_of_nonneg (value_nonneg _ _ _)]
      · rw [abs_of_nonneg (value_nonneg _ _ _)]

theorem nearest_magnitude (y : ℚ) (code : ℕ) (finite : code < 0x7F) :
    Nearest (towards y (value 7 3 code)) y ↔
      ∀ other < 0x7F, abs (value 7 3 code - |y|) ≤ abs (value 7 3 other - |y|) := by
  unfold Nearest
  rw [towards_distance]
  constructor
  · intro ⟨_,nearest⟩ other bounded
    rw [← towards_distance y (value 7 3 other)]
    exact nearest _ _ (code_decodes y other bounded)
  · intro nearest
    refine ⟨⟨_,code_decodes y code finite⟩,?_⟩
    intro u w decoded
    obtain ⟨other,bounded,magnitude⟩ := decoded_magnitude decoded
    calc abs (value 7 3 code - |y|) ≤ abs (value 7 3 other - |y|) := nearest other bounded
      _ = abs (|w| - |y|) := by rw [magnitude]
      _ ≤ |w - y| := abs_abs_sub_abs_le w y

theorem reads_back_exact (cast : Cast) (y : ℚ) :
    ReadsBack (toFp8U8 cast y) y ↔
      roundCode (value 15 3) cast.tieUp cast.top |y| < 0x7F ∧ ∀ other < 0x7F,
        abs (value 7 3 (roundCode (value 15 3) cast.tieUp cast.top |y|) - |y|) ≤ abs (value 7 3 other - |y|) := by
  have bits := (stored_parts cast y).1
  by_cases finite : roundCode (value 15 3) cast.tieUp cast.top |y| < 0x7F
  · have decoded : e4m3fn (toFp8U8 cast y) = some _ := code_decodes y _ finite
    have table : e4m3fnLut (toFp8U8 cast y) = e4m3fn (toFp8U8 cast y) := lut_exact (by omega)
    unfold ReadsBack
    rw [table,decoded]
    simp only [Option.some.injEq,exists_eq_left',and_self,finite,true_and]
    exact nearest_magnitude y _ finite
  · constructor
    · intro ⟨⟨v,decoded,_⟩,_⟩
      have bound := round_le (value 15 3) cast.tieUp cast.top |y|
      have top : cast.top ≤ 0x7F := by rcases cast.top_finite with same | same <;> omega
      have reserved : magnitudeBits (toFp8U8 cast y) = 0x7F := by omega
      rw [e4m3fn,if_pos reserved] at decoded
      cases decoded
    · intro ⟨small,_⟩
      exact absurd small finite

-- The reader's format has bias 7, so what it decodes is 256 times the stored value.
theorem reader_scales (code : ℕ) : value 7 3 code = 256 * value 15 3 code := by
  have shifted := value_rebias 7 8 3 code
  norm_num at shifted
  exact shifted

def Flushed (cast : Cast) (y : ℚ) : Prop := ¬ Passes (value 15 3) cast.tieUp |y| 0

theorem first_halfway : halfway (value 15 3) 0 = 1 / 2 ^ 18 := by
  have first : value 15 3 1 = 1 / 2 ^ 17 := by
    norm_num [value,units,least]
  rw [halfway,value_zero,first]
  norm_num

theorem flushed_exact (cast : Cast) (y : ℚ) :
    Flushed cast y ↔ |y| < 1 / 2 ^ 18 ∨ |y| = 1 / 2 ^ 18 ∧ cast.tieUp 1 = false := by
  unfold Flushed Passes
  rw [first_halfway,not_or,not_lt,not_and,Bool.not_eq_true]
  constructor
  · intro ⟨below,tie⟩
    rcases below.lt_or_eq with less | same
    · exact Or.inl less
    · exact Or.inr ⟨same,tie same.symm⟩
  · rintro (less | ⟨same,tie⟩)
    · exact ⟨less.le,fun equal => absurd equal less.ne'⟩
    · exact ⟨same.le,fun _ => tie⟩

-- The largest code a cast that spares 0x7F writes means 448 to the readers.
theorem top_values : value 7 3 0x7E = 448 ∧ value 7 3 0x7D = 416 := by
  norm_num [value,units,least]

theorem flushed_reads_back (cast : Cast) (y : ℚ) (flushed : Flushed cast y) : ReadsBack (toFp8U8 cast y) y := by
  have inside : 0 < cast.top := by rcases cast.top_finite with same | same <;> omega
  have zero : roundCode (value 15 3) cast.tieUp cast.top |y| = 0 := by
    have stops := (not_congr (round_exact (value_strictMono 15 3) cast.top |y| inside)).mpr flushed
    omega
  have small : |y| ≤ 1 / 2 ^ 18 := by
    rcases (flushed_exact cast y).mp flushed with less | ⟨same,_⟩
    · exact less.le
    · exact same.le
  rw [reads_back_exact,zero,value_zero,zero_sub,abs_neg,abs_abs]
  refine ⟨by decide,?_⟩
  intro other _
  rcases Nat.eq_zero_or_pos other with rfl | positive
  · rw [value_zero,zero_sub,abs_neg,abs_abs]
  · have first : value 7 3 1 = 1 / 2 ^ 9 := by norm_num [value,units,least]
    have far := (value_strictMono 7 3).monotone (show 1 ≤ other from positive)
    rw [first] at far
    refine le_trans ?_ (le_abs_self _)
    norm_num at far small ⊢
    linarith

theorem saturated_reads_back (cast : Cast) (y : ℚ) (spares : cast.top = 0x7E) (high : 432 ≤ |y|)
    (bound : |y| ≤ 448) : ReadsBack (toFp8U8 cast y) y := by
  have mono := value_strictMono 15 3
  have below_top : halfway (value 15 3) 0x7D < |y| := by
    have top : value 15 3 0x7E = 7 / 4 := by norm_num [value,units,least]
    have gap := mono (show 0x7D < 0x7E by decide)
    unfold halfway
    linarith
  have saturates : roundCode (value 15 3) cast.tieUp cast.top |y| = 0x7E := by
    have reached : 0x7D < roundCode (value 15 3) cast.tieUp cast.top |y| :=
      (round_exact mono cast.top |y| (by omega)).mpr (Or.inl below_top)
    have limit := round_le (value 15 3) cast.tieUp cast.top |y|
    omega
  obtain ⟨last,before⟩ := top_values
  rw [reads_back_exact,saturates,last,abs_of_nonneg (by linarith)]
  refine ⟨by decide,?_⟩
  intro other bounded
  rcases Nat.lt_or_eq_of_le (Nat.le_of_lt_succ bounded) with less | rfl
  · have far := (value_strictMono 7 3).monotone (show other ≤ 0x7D by omega)
    rw [before] at far
    rw [abs_sub_comm]
    refine le_trans ?_ (le_abs_self _)
    linarith
  · rw [last]
    exact le_abs_self _

-- Any other quotient is read back as about 256 times itself, or saturates.
theorem others_fail (cast : Cast) (y : ℚ) (bound : |y| ≤ 448) (kept : ¬ Flushed cast y)
    (reads : ReadsBack (toFp8U8 cast y) y) : cast.top = 0x7E ∧ 432 ≤ |y| := by
  have mono := value_strictMono 15 3
  obtain ⟨finite,nearest⟩ := (reads_back_exact cast y).mp reads
  have inside : 0 < cast.top := by rcases cast.top_finite with same | same <;> omega
  have positive : 0 < roundCode (value 15 3) cast.tieUp cast.top |y| :=
    (round_exact mono cast.top |y| inside).mpr (not_not.mp kept)
  rcases Nat.lt_or_eq_of_le (round_le (value 15 3) cast.tieUp cast.top |y|) with less | saturates
  · have upper := round_upper mono less
    have doubled := value_double 15 3 _ positive
    have grows := mono positive
    have zero := nearest 0 (by decide)
    rw [value_zero,zero_sub,abs_neg,abs_abs,reader_scales] at zero
    have reach := (abs_le.mp zero).2
    rw [value_zero] at grows
    unfold halfway at upper
    linarith
  · obtain ⟨last,before⟩ := top_values
    have spares : cast.top = 0x7E := by rcases cast.top_finite with same | same <;> omega
    have closer := nearest 0x7D (by decide)
    rw [saturates,spares,last,before,abs_of_nonneg (by linarith)] at closer
    refine ⟨spares,?_⟩
    rcases le_abs.mp closer with above | below <;> linarith

theorem reads_back_iff (cast : Cast) (y : ℚ) (bound : |y| ≤ 448) :
    ReadsBack (toFp8U8 cast y) y ↔ Flushed cast y ∨ cast.top = 0x7E ∧ 432 ≤ |y| := by
  constructor
  · intro reads
    by_cases flushed : Flushed cast y
    · exact Or.inl flushed
    · exact Or.inr (others_fail cast y bound flushed reads)
  · intro cases
    rcases cases with flushed | ⟨spares,high⟩
    · exact flushed_reads_back cast y flushed
    · exact saturated_reads_back cast y spares high bound

-- The quotients that survive the round trip: those small enough to be cast to
-- zero, and, when the cast saturates at 0x7E, those nearest to 448.
def Survives (cast : Cast) (y : ℚ) : Prop :=
  |y| < 1 / 2 ^ 18 ∨ |y| = 1 / 2 ^ 18 ∧ cast.tieUp 1 = false ∨ cast.top = 0x7E ∧ 432 ≤ |y|

theorem quotient_exact (roundScale : Bool) (x : Fin 128 → ℚ) (i : Fin 128) :
    quantized roundScale x i = x i / scale roundScale x := clamp_exact (quotient_bound roundScale x i)

theorem stored_reads_iff (cast : Cast) (roundScale : Bool) (x : Fin 128 → ℚ) (i : Fin 128) :
    ReadsBack (storedByte cast roundScale x i) (x i / scale roundScale x) ↔
      Survives cast (x i / scale roundScale x) := by
  rw [storedByte,quotient_exact,reads_back_iff cast _ (quotient_bound roundScale x i),flushed_exact,or_assoc]
  rfl

theorem quantize_read_exact (cast : Cast) (roundScale : Bool) (x : Fin 128 → ℚ) :
    (∀ i, |x i / scale roundScale x| ≤ 448 ∧ quantized roundScale x i = x i / scale roundScale x) ∧
    ((∀ i, ReadsBack (storedByte cast roundScale x i) (x i / scale roundScale x)) ↔
      ∀ i, Survives cast (x i / scale roundScale x)) := by
  constructor
  · intro i
    exact ⟨quotient_bound roundScale x i,quotient_exact roundScale x i⟩
  · apply forall_congr'
    intro i
    exact stored_reads_iff cast roundScale x i

def ieeeCast : Cast := ⟨fun code => code % 2 = 0,0x7F,Or.inr rfl⟩

theorem ones_scale : scale true (fun _ => 1) = 1 / 256 := by
  have largest : absmax (fun _ => 1) = 1 := by
    unfold absmax
    simp only [abs_one,Finset.sup'_const]
    norm_num
  have exponent : Int.clog 2 ((1 : ℚ) * (1 / 448)) = -8 := by
    have inverse : ⌊((1 : ℚ) * (1 / 448))⁻¹⌋₊ = 448 := by norm_num
    have eight : Nat.log 2 448 = 8 := Nat.log_eq_of_pow_le_of_lt_pow (by decide) (by decide)
    rw [Int.clog_of_right_le_one _ (by norm_num),inverse,eight]
    rfl
  rw [scale,if_pos rfl,largest,exponent]
  norm_num

-- All ones: every quotient is 256, which the cast saturates.
theorem ones_misread :
    ¬ ∀ i, ReadsBack (storedByte ieeeCast true (fun _ => 1) i) (1 / scale true fun _ => 1) := by
  intro reads
  have survives := (stored_reads_iff ieeeCast true (fun _ => 1) 0).mp (reads 0)
  rw [ones_scale] at survives
  norm_num [Survives,ieeeCast] at survives

end Glm5Next.Fp8Codec
