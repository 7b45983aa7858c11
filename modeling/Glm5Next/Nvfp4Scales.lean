import Mathlib.Data.Int.Log
import Mathlib.Data.Rat.Floor
import Mathlib.Data.List.MinMax
import Mathlib.Tactic.IntervalCases
import Glm5Next.Minifloat

namespace Glm5Next.Nvfp4Scales
open Minifloat

-- Rounding to half, ties to even; 0x7C00 is infinity.
def toHalf (x : ℚ) : ℕ :=
  (if x < 0 then 0x8000 else 0) + roundCode (value 15 10) (fun code => decide (code % 2 = 0)) 0x7C00 |x|

def halfValue (bits : ℕ) : ℚ :=
  if 0x8000 ≤ bits then -value 15 10 (bits % 0x8000) else value 15 10 (bits % 0x8000)

def sliceMax (slice : List ℚ) : Option ℚ := ((slice.map (· * 2 ^ 7)).filter fun x => decide (0 < x)).max?

def maxStep (maxVal : Option ℚ) (slice : List ℚ) : Option ℚ :=
  match sliceMax slice, maxVal with
  | none, _ => maxVal
  | some m, none => some m
  | some m, some maxVal => some (max maxVal m)

-- `half` says whether the active dtype is half.
def nvfp4ComputeScaleFactor (half : Bool) (slices : List (List ℚ)) : ℚ :=
  if half then 1
  else
    match slices.foldl maxStep none with
    | some maxVal => if maxVal < 448 * 2 ^ 7 then 2 ^ Int.log 2 (448 * 2 ^ 7 / maxVal) else 1
    | none => 1

-- [:, [0, 2, 1, 3]] of groups of four.
def permute4 : List α → List α
  | a :: b :: c :: d :: rest => a :: c :: b :: d :: permute4 rest
  | rest => rest

-- [:, 1::2] of the bytes, low byte first.
def oddBytes : List ℕ → List ℕ
  | _ :: high :: rest => high :: oddBytes rest
  | _ => []

-- The tensor row by row; a view in groups of four fails on other lengths.
def nvfp4MarlinProcessScales (marlinScales : List ℚ) (scaleFactor : Option ℚ) (half : Bool) : Option (List ℕ × ℚ) :=
  if marlinScales.length % 4 = 0 then
    let halves := permute4 (marlinScales.map toHalf)
    let factor := scaleFactor.getD (nvfp4ComputeScaleFactor half [halves.map halfValue])
    let halves := if factor > 1 then halves.map fun h => toHalf (halfValue h * factor) else halves
    let halves := halves.map fun h => toHalf (halfValue h * 2 ^ 7)
    let halves := halves.map fun h => if halfValue h < 2 then 0 else h
    let shifted := halves.map fun h => h * 2 % 2 ^ 16
    some (oddBytes (shifted.flatMap fun h => [h % 2 ^ 8,h / 2 ^ 8]),factor)
  else none

-- S0E5M3 with the exponent bias of half; the 2^7 is taken back by the global scale.
def decodeS0E5M3 (byte : ℕ) : ℚ := value 15 3 byte / 2 ^ 7

def IsE4m3 (s : ℚ) : Prop := ∃ code < 0x7F, s = value 7 3 code

-- The scales of all experts of a layer, non-negative float8_e4m3fn numbers.
structure ScaleTensor where
  experts : List (List ℚ)
  entries : ∀ scales ∈ experts, ∀ s ∈ scales, IsE4m3 s
  grouped : ∀ scales ∈ experts, scales.length % 4 = 0

-- With the factor of the whole tensor in bfloat16: every non-zero scale keeps
-- the top bit, and any arrangement of an expert's scales decodes to itself.
def LosesNothing (tensor : ScaleTensor) : Prop :=
  let sf := nvfp4ComputeScaleFactor false tensor.experts
  (∀ scales ∈ tensor.experts, ∀ s ∈ scales, s ≠ 0 → 2 ≤ s * sf * 2 ^ 7) ∧
  ∀ scales ∈ tensor.experts, ∀ moved, moved.Perm scales →
    ∃ bytes, nvfp4MarlinProcessScales moved (some sf) false = some (bytes,sf) ∧
      permute4 (bytes.map fun byte => decodeS0E5M3 byte / sf) = moved

section Lists

theorem permute4_map (f : α → β) : ∀ l : List α, permute4 (l.map f) = (permute4 l).map f
  | a :: b :: c :: d :: rest => by
      simp only [List.map_cons,permute4,permute4_map f rest]
  | [] => rfl
  | [a] => rfl
  | [a,b] => rfl
  | [a,b,c] => rfl

theorem permute4_twice : ∀ l : List α, permute4 (permute4 l) = l
  | a :: b :: c :: d :: rest => by
      simp only [permute4,permute4_twice rest]
  | [] => rfl
  | [a] => rfl
  | [a,b] => rfl
  | [a,b,c] => rfl

theorem odd_bytes_high (l : List ℕ) : oddBytes (l.flatMap fun h => [h % 2 ^ 8,h / 2 ^ 8]) = l.map (· / 2 ^ 8) := by
  induction l with
  | nil => rfl
  | cons h l ih => simp only [List.flatMap_cons,List.cons_append,List.nil_append,oddBytes,ih,List.map_cons]

end Lists

def storedHalf (factor s : ℚ) : ℕ :=
  let h := toHalf s
  let h := if factor > 1 then toHalf (halfValue h * factor) else h
  let h := toHalf (halfValue h * 2 ^ 7)
  if halfValue h < 2 then 0 else h

theorem process_exact (marlinScales : List ℚ) (factor : ℚ) (half : Bool) (grouped : marlinScales.length % 4 = 0) :
    nvfp4MarlinProcessScales marlinScales (some factor) half =
      some (permute4 (marlinScales.map fun s => storedHalf factor s * 2 % 2 ^ 16 / 2 ^ 8),factor) := by
  unfold nvfp4MarlinProcessScales
  rw [if_pos grouped]
  dsimp only [Option.getD_some]
  rw [odd_bytes_high,permute4_map,permute4_map]
  by_cases scaled : factor > 1
  · simp only [if_pos scaled,List.map_map,Function.comp_def,storedHalf]
  · simp only [if_neg scaled,List.map_map,Function.comp_def,storedHalf]

section Maximum

def IsTop (top : Option ℚ) (entries : List ℚ) : Prop :=
  match top with
  | none => ∀ s ∈ entries, s ≤ 0
  | some m => (∃ s ∈ entries, 0 < s ∧ s * 2 ^ 7 = m) ∧ ∀ s ∈ entries, s * 2 ^ 7 ≤ m

theorem slice_top (slice : List ℚ) : IsTop (sliceMax slice) slice := by
  unfold sliceMax
  cases found : ((slice.map (· * 2 ^ 7)).filter fun x => decide (0 < x)).max? with
  | none =>
      rw [List.max?_eq_none_iff,List.filter_eq_nil_iff] at found
      intro s member
      have low := found _ (List.mem_map_of_mem member)
      rw [decide_eq_true_iff,not_lt] at low
      linarith
  | some m =>
      obtain ⟨member,bound⟩ := List.max?_eq_some_iff.mp found
      obtain ⟨listed,positive⟩ := List.mem_filter.mp member
      obtain ⟨s,inside,rfl⟩ := List.mem_map.mp listed
      have positive := of_decide_eq_true positive
      refine ⟨⟨s,inside,by linarith,rfl⟩,?_⟩
      intro other listed
      by_cases low : 0 < other * 2 ^ 7
      · exact bound _ (List.mem_filter.mpr ⟨List.mem_map_of_mem listed,decide_eq_true low⟩)
      · exact le_trans (not_lt.mp low) (le_of_lt positive)

theorem top_step (known : IsTop top entries) (slice : List ℚ) : IsTop (maxStep top slice) (entries ++ slice) := by
  have own := slice_top slice
  unfold maxStep
  cases here : sliceMax slice with
  | none =>
      rw [here] at own
      cases top with
      | none =>
          intro s member
          rcases List.mem_append.mp member with before | now
          · exact known s before
          · exact own s now
      | some m =>
          obtain ⟨⟨s,inside,positive,rfl⟩,bound⟩ := known
          refine ⟨⟨s,List.mem_append_left _ inside,positive,rfl⟩,?_⟩
          intro other member
          rcases List.mem_append.mp member with before | now
          · exact bound other before
          · have low := own other now
            linarith
  | some m =>
      rw [here] at own
      obtain ⟨⟨s,inside,positive,rfl⟩,bound⟩ := own
      cases top with
      | none =>
          refine ⟨⟨s,List.mem_append_right _ inside,positive,rfl⟩,?_⟩
          intro other member
          rcases List.mem_append.mp member with before | now
          · have low := known other before
            linarith
          · exact bound other now
      | some m' =>
          obtain ⟨⟨s',inside',positive',rfl⟩,bound'⟩ := known
          refine ⟨?_,?_⟩
          · rcases max_choice (s' * 2 ^ 7) (s * 2 ^ 7) with left | right
            · exact ⟨s',List.mem_append_left _ inside',positive',left.symm⟩
            · exact ⟨s,List.mem_append_right _ inside,positive,right.symm⟩
          · intro other member
            rcases List.mem_append.mp member with before | now
            · exact le_trans (bound' other before) (le_max_left _ _)
            · exact le_trans (bound other now) (le_max_right _ _)

theorem slices_top (slices : List (List ℚ)) (known : IsTop top entries) :
    IsTop (slices.foldl maxStep top) (entries ++ slices.flatten) := by
  induction slices generalizing top entries with
  | nil => simpa using known
  | cons slice slices ih =>
      rw [List.flatten_cons,← List.append_assoc]
      exact ih (top_step known slice)

-- What the logarithm gives for a maximum of m.
theorem log_exact {m : ℚ} (positive : 0 < m) (below : m ≤ 448) :
    ∃ K : ℕ, (2 : ℚ) ^ Int.log 2 (448 / m) = 2 ^ K ∧ ∀ k : ℕ, m * 2 ^ k ≤ 448 ↔ k ≤ K := by
  have quotient : 0 < 448 / m := div_pos (by norm_num) positive
  have power : ∀ k : ℕ, m * 2 ^ k ≤ 448 ↔ (k : ℤ) ≤ Int.log 2 (448 / m) := by
    intro k
    have step := Int.zpow_le_iff_le_log (by decide : 1 < 2) (x := k) quotient
    rw [zpow_natCast,le_div_iff₀ positive] at step
    rw [mul_comm]
    exact step
  have nonnegative := (power 0).mp (by simpa using below)
  obtain ⟨K,exponent⟩ := Int.eq_ofNat_of_zero_le nonnegative
  rw [exponent] at power ⊢
  exact ⟨K,zpow_natCast 2 K,fun k => (power k).trans Int.ofNat_le⟩

theorem full_unscaled {m : ℚ} (full : 448 ≤ m) (fits : m * 2 ^ k ≤ 448) : k = 0 := by
  by_contra more
  have grows : (2 : ℚ) ^ 1 ≤ 2 ^ k := pow_le_pow_right₀ (by norm_num) (by omega)
  have := mul_le_mul full grows (by norm_num) (by linarith)
  linarith

-- The factor is the largest power of two that keeps the entries below 448.
theorem factor_exact (slices : List (List ℚ)) (natural : ∀ s ∈ slices.flatten, 0 ≤ s ∧ s ≤ 448) :
    ∃ K : ℕ, nvfp4ComputeScaleFactor false slices = 2 ^ K ∧ (∀ s ∈ slices.flatten, s * 2 ^ K ≤ 448) ∧
      ∀ k : ℕ, (∃ s ∈ slices.flatten, s ≠ 0) → (∀ s ∈ slices.flatten, s * 2 ^ k ≤ 448) → k ≤ K := by
  have top : IsTop (slices.foldl maxStep none) slices.flatten := by
    have start : IsTop none [] := fun s member => by cases member
    exact slices_top slices start
  have unscaled : ∀ s ∈ slices.flatten, s * 2 ^ 0 ≤ 448 := by
    intro s member
    rw [pow_zero,mul_one]
    exact (natural s member).2
  unfold nvfp4ComputeScaleFactor
  rw [if_neg (by decide)]
  cases found : slices.foldl maxStep none with
  | none =>
      rw [found] at top
      refine ⟨0,rfl,unscaled,?_⟩
      rintro k ⟨s,member,apart⟩ _
      exact absurd (le_antisymm (top s member) (natural s member).1) apart
  | some m =>
      rw [found] at top
      obtain ⟨⟨largest,member,positive,rfl⟩,bound⟩ := top
      dsimp only
      by_cases below : largest * 2 ^ 7 < 448 * 2 ^ 7
      · obtain ⟨K,power,reach⟩ := log_exact positive (natural largest member).2
        rw [if_pos below,mul_div_mul_right _ _ (by norm_num : (2 : ℚ) ^ 7 ≠ 0)]
        refine ⟨K,power,?_,fun k _ fits => (reach k).mp (fits largest member)⟩
        intro s listed
        have lower := bound s listed
        have scaled := mul_le_mul_of_nonneg_right (show s ≤ largest by linarith) (pow_pos (by norm_num : (0 : ℚ) < 2) K).le
        exact le_trans scaled ((reach K).mpr le_rfl)
      · rw [if_neg below]
        refine ⟨0,rfl,unscaled,fun k _ fits => ?_⟩
        exact le_of_eq (full_unscaled (by linarith) (fits largest member))

end Maximum

theorem half_magnitude (inside : code ≤ 0x7C00) : toHalf (value 15 10 code) = code := by
  have natural := value_nonneg 15 10 code
  unfold toHalf
  rw [if_neg (not_lt.mpr natural),abs_of_nonneg natural,Nat.zero_add]
  exact round_magnitude (value_strictMono 15 10) inside

section Encoding
variable {n : ℕ}

def byteCode (n j : ℕ) : ℕ := (j + 1) * 2 ^ 3 + (n - 2 ^ 3)

variable (low : 2 ^ 3 ≤ n) (high : n < 2 ^ 4)
include low high

theorem byte_value (j : ℕ) : value 15 3 (byteCode n j) = n * 2 ^ j * least 15 3 := value_normal 15 j low high

-- Half holds such a number below its infinity, with zeros after the three bits.
theorem half_exact (bound : (n : ℚ) * 2 ^ j * least 15 3 < 2 ^ 16) :
    toHalf (n * 2 ^ j * least 15 3) = byteCode n j * 2 ^ 7 ∧
      halfValue (byteCode n j * 2 ^ 7) = n * 2 ^ j * least 15 3 ∧ byteCode n j < 0xF8 := by
  have finer : value 15 10 (byteCode n j * 2 ^ 7) = n * 2 ^ j * least 15 3 :=
    (value_refine 15 3 7 (byteCode n j)).trans (byte_value low high j)
  have infinite : value 15 10 (0xF8 * 2 ^ 7) = 2 ^ 16 := by norm_num [value,units,least]
  have below : byteCode n j * 2 ^ 7 < 0xF8 * 2 ^ 7 := by
    apply (value_strictMono 15 10).lt_iff_lt.mp
    rw [finer,infinite]
    exact bound
  refine ⟨?_,?_,by omega⟩
  · rw [← finer]
    exact half_magnitude (by omega)
  · unfold halfValue
    rw [if_neg (by omega),Nat.mod_eq_of_lt (by omega),finer]

-- Every step of the way through half is exact, up to the cut below 2.
theorem stored_scaled (j K : ℕ) (bound : (n : ℚ) * 2 ^ j * least 15 3 * 2 ^ K ≤ 448) :
    storedHalf (2 ^ K) (n * 2 ^ j * least 15 3) =
        (if (n : ℚ) * 2 ^ j * least 15 3 * 2 ^ K * 2 ^ 7 < 2 then 0 else byteCode n (j + K + 7) * 2 ^ 7) ∧
      value 15 3 (byteCode n (j + K + 7)) = n * 2 ^ j * least 15 3 * 2 ^ K * 2 ^ 7 ∧
      byteCode n (j + K + 7) < 0xF8 := by
  have shift : ∀ a b : ℕ, (n : ℚ) * 2 ^ a * least 15 3 * 2 ^ b = n * 2 ^ (a + b) * least 15 3 := by
    intro a b
    ring
  have positive : 0 < least 15 3 := least_pos 15 3
  have grows : (n : ℚ) * 2 ^ j * least 15 3 ≤ n * 2 ^ j * least 15 3 * 2 ^ K :=
    le_mul_of_one_le_right (by positivity) (one_le_pow₀ (by norm_num))
  rw [shift j K] at bound grows
  rw [shift j K,shift (j + K) 7]
  obtain ⟨stored,read,_⟩ := half_exact (j := j) low high (by linarith)
  obtain ⟨stored',read',_⟩ := half_exact (j := j + K) low high (by linarith)
  obtain ⟨stored'',read'',small⟩ := half_exact (j := j + K + 7) low high (by rw [← shift]; linarith)
  refine ⟨?_,byte_value low high _,small⟩
  have scaled : (if (2 : ℚ) ^ K > 1 then toHalf (halfValue (byteCode n j * 2 ^ 7) * 2 ^ K) else byteCode n j * 2 ^ 7) =
      byteCode n (j + K) * 2 ^ 7 := by
    cases K with
    | zero => rw [if_neg (by norm_num),Nat.add_zero]
    | succ K =>
        have more : (2 : ℚ) ^ (K + 1) > 1 := one_lt_pow₀ (by norm_num) (Nat.succ_ne_zero K)
        rw [if_pos more,read,shift,stored']
  unfold storedHalf
  dsimp only
  rw [stored,scaled,read',shift,stored'',read'']

end Encoding

theorem e4m3_significand (code : ℕ) (finite : code < 0x7F) (positive : 0 < code) :
    ∃ n j : ℕ, 2 ^ 3 ≤ n ∧ n < 2 ^ 4 ∧ value 7 3 code = n * 2 ^ j * least 15 3 := by
  by_cases normal : 8 ≤ code
  · refine ⟨2 ^ 3 + code % 2 ^ 3,code / 2 ^ 3 + 7,by omega,by omega,?_⟩
    have parts : code = (code / 2 ^ 3 - 1 + 1) * 2 ^ 3 + (2 ^ 3 + code % 2 ^ 3 - 2 ^ 3) := by omega
    have form := value_normal (m := 3) (n := 2 ^ 3 + code % 2 ^ 3) 7 (code / 2 ^ 3 - 1) (by omega) (by omega)
    rw [← parts] at form
    have exponent : code / 2 ^ 3 + 7 = code / 2 ^ 3 - 1 + 8 := by omega
    have coarse : least 7 3 = 2 ^ 8 * least 15 3 := by norm_num [least]
    rw [form,exponent,pow_add,coarse]
    ring
  · have subnormal : ∃ n j : ℕ, 2 ^ 3 ≤ n ∧ n < 2 ^ 4 ∧ code * 2 ^ 8 = n * 2 ^ j := by
      interval_cases code
      · exact ⟨8,5,by decide⟩
      · exact ⟨8,6,by decide⟩
      · exact ⟨12,6,by decide⟩
      · exact ⟨8,7,by decide⟩
      · exact ⟨10,7,by decide⟩
      · exact ⟨12,7,by decide⟩
      · exact ⟨14,7,by decide⟩
    obtain ⟨n,j,low,high,same⟩ := subnormal
    refine ⟨n,j,low,high,?_⟩
    have small : units 3 code = code := by
      have zero : code / 2 ^ 3 = 0 := Nat.div_eq_of_lt (by omega)
      unfold units
      rw [zero,if_pos rfl,Nat.mod_eq_of_lt (by omega),Nat.zero_sub,pow_zero,Nat.mul_one]
    have coarse : least 7 3 = 2 ^ 8 * least 15 3 := by norm_num [least]
    have same : (code : ℚ) * 2 ^ 8 = n * 2 ^ j := by exact_mod_cast same
    rw [value,small,coarse,← mul_assoc,same]

theorem e4m3_bounds (entry : IsE4m3 s) : 0 ≤ s ∧ s ≤ 448 := by
  obtain ⟨code,finite,rfl⟩ := entry
  refine ⟨value_nonneg _ _ _,?_⟩
  have last : value 7 3 0x7E = 448 := by norm_num [value,units,least]
  rw [← last]
  exact (value_strictMono 7 3).monotone (Nat.le_of_lt_succ finite)

theorem stored_zero (factor : ℚ) : storedHalf factor 0 = 0 := by
  have zero : toHalf 0 = 0 := by
    have kept := half_magnitude (Nat.zero_le 0x7C00)
    rwa [value_zero] at kept
  have read : halfValue 0 = 0 := by
    unfold halfValue
    rw [if_neg (by decide)]
    exact value_zero 15 10
  unfold storedHalf
  dsimp only
  rw [zero,read,zero_mul,zero,ite_self,read,zero_mul,zero,read,if_pos (by norm_num)]

theorem scale_decodes (entry : IsE4m3 s) (K : ℕ) (bound : s * 2 ^ K ≤ 448) (kept : s ≠ 0 → 2 ≤ s * 2 ^ K * 2 ^ 7) :
    decodeS0E5M3 (storedHalf (2 ^ K) s * 2 % 2 ^ 16 / 2 ^ 8) / 2 ^ K = s := by
  obtain ⟨code,finite,rfl⟩ := entry
  rcases Nat.eq_zero_or_pos code with rfl | positive
  · rw [value_zero,stored_zero]
    norm_num [decodeS0E5M3,value_zero]
  · obtain ⟨n,j,low,high,same⟩ := e4m3_significand code finite positive
    have apart : value 7 3 code ≠ 0 := by
      have grows := value_strictMono 7 3 positive
      rw [value_zero] at grows
      exact ne_of_gt grows
    have large := kept apart
    rw [same] at bound large ⊢
    obtain ⟨stored,read,small⟩ := stored_scaled low high j K bound
    rw [stored,if_neg (not_lt.mpr large)]
    have high_byte : byteCode n (j + K + 7) * 2 ^ 7 * 2 % 2 ^ 16 / 2 ^ 8 = byteCode n (j + K + 7) := by omega
    rw [high_byte,decodeS0E5M3,read,mul_div_cancel_right₀ _ (by norm_num),mul_div_cancel_right₀ _ (by positivity)]

-- Nothing is lost just where one power of two brings all non-zero scales
-- between 2^-6 and 448.
theorem loses_nothing_iff (tensor : ScaleTensor) : LosesNothing tensor ↔
    ∃ k : ℕ, ∀ scales ∈ tensor.experts, ∀ s ∈ scales, s ≠ 0 → 1 / 2 ^ 6 ≤ s * 2 ^ k ∧ s * 2 ^ k ≤ 448 := by
  have entry : ∀ s ∈ tensor.experts.flatten, IsE4m3 s := by
    intro s member
    obtain ⟨scales,listed,inside⟩ := List.mem_flatten.mp member
    exact tensor.entries scales listed s inside
  obtain ⟨K,factor,bound,largest⟩ := factor_exact tensor.experts fun s member => e4m3_bounds (entry s member)
  unfold LosesNothing
  rw [factor]
  constructor
  · intro ⟨kept,_⟩
    refine ⟨K,?_⟩
    intro scales listed s inside apart
    have large := kept scales listed s inside apart
    exact ⟨by norm_num at large ⊢; linarith,bound s (List.mem_flatten.mpr ⟨scales,listed,inside⟩)⟩
  · intro ⟨k,fits⟩
    have kept : ∀ scales ∈ tensor.experts, ∀ s ∈ scales, s ≠ 0 → 2 ≤ s * 2 ^ K * 2 ^ 7 := by
      intro scales listed s inside apart
      have member := List.mem_flatten.mpr ⟨scales,listed,inside⟩
      have below : k ≤ K := by
        apply largest k ⟨s,member,apart⟩
        intro other listed
        by_cases zero : other = 0
        · rw [zero,zero_mul]
          norm_num
        · obtain ⟨scales,listed,inside⟩ := List.mem_flatten.mp listed
          exact (fits scales listed other inside zero).2
      have small := (fits scales listed s inside apart).1
      have grows : s * 2 ^ k ≤ s * 2 ^ K := by
        apply mul_le_mul_of_nonneg_left _ (e4m3_bounds (entry s member)).1
        exact pow_le_pow_right₀ (by norm_num) below
      norm_num at small ⊢
      linarith
    refine ⟨kept,?_⟩
    intro scales listed moved arranged
    have grouped : moved.length % 4 = 0 := by
      rw [arranged.length_eq]
      exact tensor.grouped scales listed
    refine ⟨_,process_exact moved (2 ^ K) false grouped,?_⟩
    rw [← permute4_map,permute4_twice,List.map_map]
    refine (List.map_congr_left ?_).trans (List.map_id _)
    intro s member
    have inside := arranged.mem_iff.mp member
    exact scale_decodes (tensor.entries scales listed s inside) K
      (bound s (List.mem_flatten.mpr ⟨scales,listed,inside⟩)) (kept scales listed s inside)

def wideTensor : ScaleTensor where
  experts := [[448,1 / 2 ^ 9,0,0]]
  entries := by
    have large : IsE4m3 448 := ⟨0x7E,by decide,by norm_num [value,units,least]⟩
    have small : IsE4m3 (1 / 2 ^ 9) := ⟨1,by decide,by norm_num [value,units,least]⟩
    have zero : IsE4m3 0 := ⟨0,by decide,(value_zero 7 3).symm⟩
    intro scales listed s member
    rw [List.mem_singleton.mp listed] at member
    simp only [List.mem_cons,List.not_mem_nil,or_false] at member
    rcases member with rfl | rfl | rfl | rfl
    · exact large
    · exact small
    · exact zero
    · exact zero
  grouped := by simp

theorem wide_tensor_zeroed : ¬ LosesNothing wideTensor ∧
    storedHalf (nvfp4ComputeScaleFactor false wideTensor.experts) (1 / 2 ^ 9) = 0 := by
  have bounds : ∀ s ∈ wideTensor.experts.flatten, 0 ≤ s ∧ s ≤ 448 := by
    intro s member
    obtain ⟨scales,listed,inside⟩ := List.mem_flatten.mp member
    exact e4m3_bounds (wideTensor.entries scales listed s inside)
  obtain ⟨K,factor,bound,_⟩ := factor_exact wideTensor.experts bounds
  have one : K = 0 := by
    have full := bound 448 (by simp [wideTensor])
    by_contra more
    have grows : (2 : ℚ) ^ 1 ≤ 2 ^ K := pow_le_pow_right₀ (by norm_num) (by omega)
    linarith
  rw [one,pow_zero] at factor
  constructor
  · intro ⟨kept,_⟩
    have large := kept _ (List.mem_singleton.mpr rfl) (1 / 2 ^ 9) (by simp) (by norm_num)
    rw [factor] at large
    norm_num at large
  · have first : (1 : ℚ) / 2 ^ 9 = (8 : ℕ) * 2 ^ 5 * least 15 3 := by norm_num [least]
    have stored := stored_scaled (n := 8) (by decide) (by decide) 5 0 (by rw [← first]; norm_num)
    rw [factor,first]
    rw [pow_zero,mul_one,← first] at stored
    rw [← first]
    exact stored.1.trans (if_pos (by norm_num))

end Glm5Next.Nvfp4Scales
