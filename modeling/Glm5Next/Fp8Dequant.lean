import Mathlib.Algebra.GroupWithZero.Defs
import Glm5Next.TiledGrid

namespace Glm5Next.Fp8Dequant
open TiledGrid

structure Tensor (R : Type) where
  rows : Nat
  cols : Nat
  entry : Nat → Nat → R

section Operations
variable {R : Type}

def pad [Zero R] (right below : Nat) (t : Tensor R) : Tensor R :=
  ⟨t.rows + below,t.cols + right,fun i j => if i < t.rows ∧ j < t.cols then t.entry i j else 0⟩

def repeatInterleave (repeats : Nat) (t : Tensor R) : Tensor R :=
  ⟨t.rows * repeats,t.cols * repeats,fun i j => t.entry (i / repeats) (j / repeats)⟩

-- Two sizes go together when they are equal or one of them is 1.
def broadcast (a b : Nat) : Option Nat :=
  if a = b then some a else if a = 1 then some b else if b = 1 then some a else none

def place (size i : Nat) : Nat := if size = 1 then 0 else i

def times [Mul R] (w s : Tensor R) : Option (Tensor R) :=
  (broadcast w.rows s.rows).bind fun rows => (broadcast w.cols s.cols).map fun cols =>
    ⟨rows,cols,fun i j => w.entry (place w.rows i) (place w.cols j) * s.entry (place s.rows i) (place s.cols j)⟩

def crop (rows cols : Nat) (t : Tensor R) : Tensor R := ⟨min rows t.rows,min cols t.cols,t.entry⟩

def convert (f : R → R) (t : Tensor R) : Tensor R := ⟨t.rows,t.cols,fun i j => f (t.entry i j)⟩

def appendZeros [Zero R] (count : Nat) (t : Tensor R) : Tensor R :=
  ⟨t.rows + count,t.cols,fun i j => if i < t.rows then t.entry i j else 0⟩

variable [MulZeroOneClass R] (toBf16 : R → R)

def dequantFp8Block (weightFp8 scaleInv : Tensor R) (blockSize : Nat) : Option (Tensor R) :=
  if blockSize = 0 then none
  else
    let padOut := (blockSize - weightFp8.rows % blockSize) % blockSize
    let padIn := (blockSize - weightFp8.cols % blockSize) % blockSize
    let w := if padOut ≠ 0 ∨ padIn ≠ 0 then pad padIn padOut weightFp8 else weightFp8
    let sFull := repeatInterleave blockSize scaleInv
    (times w sFull).map fun out => crop weightFp8.rows weightFp8.cols (convert toBf16 out)

-- The block size of _try_load_fp8_attn_proj and the rope rows of kv_a.
def attnWeight (kvAPadSize : Nat) (isKva : Bool) (weightFp8 scaleInv : Tensor R) : Option (Tensor R) :=
  if scaleInv.cols = 0 then none
  else
    let blockSize := weightFp8.cols / scaleInv.cols
    (dequantFp8Block toBf16 weightFp8 scaleInv blockSize).map fun weightBf16 =>
      if isKva = true ∧ 0 < kvAPadSize then appendZeros kvAPadSize weightBf16 else weightBf16

end Operations
theorem place_inside (inside : i < size) : place size i = i := by
  unfold place
  split
  · omega
  · rfl

theorem padded_size (positive : 0 < b) (n : Nat) : n + (b - n % b) % b = cdiv n b * b := by
  have whole := Nat.div_add_mod n b
  have rest := Nat.mod_lt n positive
  unfold cdiv
  by_cases exact_multiple : n % b = 0
  · have quotient : (n + b - 1) / b = n / b := by
      apply Nat.div_eq_of_lt_le
      · rw [Nat.mul_comm]
        omega
      · rw [Nat.add_mul,Nat.mul_comm]
        omega
    rw [quotient,exact_multiple,Nat.sub_zero,Nat.mod_self,Nat.mul_comm]
    omega
  · have quotient : (n + b - 1) / b = n / b + 1 := by
      apply Nat.div_eq_of_lt_le
      · rw [Nat.add_mul,Nat.mul_comm]
        omega
      · rw [Nat.add_mul,Nat.add_mul,Nat.mul_comm]
        omega
    rw [quotient,Nat.mod_eq_of_lt (by omega),Nat.add_mul,Nat.mul_comm]
    omega

section Blocks
variable {R : Type} [MulZeroOneClass R] {toBf16 : R → R} {weight scale : Tensor R}

theorem padded_entry (right below : Nat) (needed : Prop) [Decidable needed] (row : i < weight.rows) (col : j < weight.cols) :
    (if needed then pad right below weight else weight).entry
      (place (if needed then pad right below weight else weight).rows i)
      (place (if needed then pad right below weight else weight).cols j) = weight.entry i j := by
  split
  · have row' : i < (pad right below weight).rows := Nat.lt_add_right _ row
    have col' : j < (pad right below weight).cols := Nat.lt_add_right _ col
    rw [place_inside row',place_inside col']
    exact if_pos ⟨row,col⟩
  · rw [place_inside row,place_inside col]

theorem dequant_entry (found : dequantFp8Block toBf16 weight scale b = some t) (row : i < weight.rows) (col : j < weight.cols) :
    t.entry i j = toBf16 (weight.entry i j *
      scale.entry (place (scale.rows * b) i / b) (place (scale.cols * b) j / b)) := by
  unfold dequantFp8Block at found
  split at found
  · cases found
  · obtain ⟨out,product,rfl⟩ := Option.map_eq_some_iff.mp found
    obtain ⟨rows,_,product⟩ := Option.bind_eq_some_iff.mp product
    obtain ⟨cols,_,rfl⟩ := Option.map_eq_some_iff.mp product
    exact congrArg (fun x => toBf16 (x * _)) (padded_entry _ _ _ row col)

theorem dequant_sizes (positive : 0 < b) (toBf16 : R → R) (weight scale : Tensor R) :
    (dequantFp8Block toBf16 weight scale b).map (fun t => (t.rows,t.cols)) =
      (broadcast (cdiv weight.rows b * b) (scale.rows * b)).bind fun rows =>
        (broadcast (cdiv weight.cols b * b) (scale.cols * b)).map fun cols => (min weight.rows rows,min weight.cols cols) := by
  have sizes : ∀ w : Tensor R, w = (if (b - weight.rows % b) % b ≠ 0 ∨ (b - weight.cols % b) % b ≠ 0
      then pad ((b - weight.cols % b) % b) ((b - weight.rows % b) % b) weight else weight) →
      w.rows = cdiv weight.rows b * b ∧ w.cols = cdiv weight.cols b * b := by
    intro w same
    rw [← padded_size positive,← padded_size positive,same]
    split
    · exact ⟨rfl,rfl⟩
    · omega
  obtain ⟨rows,cols⟩ := sizes _ rfl
  unfold dequantFp8Block
  rw [if_neg (by omega)]
  dsimp only
  unfold times
  have spread_rows : (repeatInterleave b scale).rows = scale.rows * b := rfl
  have spread_cols : (repeatInterleave b scale).cols = scale.cols * b := rfl
  rw [rows,cols,spread_rows,spread_cols]
  cases broadcast (cdiv weight.rows b * b) (scale.rows * b) with
  | none => rfl
  | some rows => cases broadcast (cdiv weight.cols b * b) (scale.cols * b) <;> rfl

-- The shapes whose blocks the inferred block size meets: whole blocks across,
-- or one partial block across and a single one down.
def Fits (b out inn : Nat) : Prop :=
  0 < inn ∧ (b ∣ inn ∨ inn < b ∧ out ≤ inn ∨ inn = 1 ∧ out ≤ b ∨ out = 0 ∧ cdiv inn b ∣ inn)

instance (b out inn : Nat) : Decidable (Fits b out inn) := by unfold Fits; infer_instance

def blockScale (b out inn : Nat) (s : Nat → Nat → R) : Tensor R := ⟨cdiv out b,cdiv inn b,s⟩

structure Dequantized (toBf16 : R → R) (b padRows : Nat) (weight : Tensor R) (s : Nat → Nat → R) (t : Tensor R) : Prop where
  rows : t.rows = weight.rows + padRows
  cols : t.cols = weight.cols
  entry : ∀ i < weight.rows, ∀ j < weight.cols, t.entry i j = toBf16 (weight.entry i j * s (i / b) (j / b))
  zeros : ∀ i, weight.rows ≤ i → i < t.rows → ∀ j < weight.cols, t.entry i j = 0

theorem blocks_inside (positive : 0 < b) (n : Nat) : cdiv n b ≤ n := by
  unfold cdiv
  rcases Nat.eq_zero_or_pos n with rfl | some_rows
  · rw [Nat.zero_add,Nat.div_eq_of_lt (by omega)]
  · apply Nat.le_of_lt_succ
    rw [Nat.div_lt_iff_lt_mul positive]
    have grows : n * 1 ≤ n * b := Nat.mul_le_mul_left n positive
    rw [Nat.succ_mul]
    omega

theorem single_block (some_rows : 0 < n) (inside : n ≤ b) : cdiv n b = 1 := by
  unfold cdiv
  apply Nat.div_eq_of_lt_le <;> omega

theorem no_block (positive : 0 < b) : cdiv 0 b = 0 := by
  unfold cdiv
  exact Nat.div_eq_of_lt (by omega)

theorem whole_blocks (positive : 0 < b) (k : Nat) : cdiv (k * b) b = k := by
  unfold cdiv
  apply Nat.div_eq_of_lt_le
  · omega
  · rw [Nat.add_mul]
    omega

def Aligned (b size n : Nat) : Prop := size = b ∨ n = 0 ∨ n ≤ size ∧ n ≤ b ∨ size = 1 ∧ n ≤ b

theorem aligned_iff (positive : 0 < b) (size_positive : 0 < size) (n : Nat) :
    (∀ i < n, place (cdiv n b * size) i / size = i / b) ↔ Aligned b size n := by
  constructor
  · intro same
    by_cases small : n ≤ size ∧ n ≤ b
    · exact Or.inr (Or.inr (Or.inl small))
    rcases Nat.lt_trichotomy size b with below | equal | above
    · have inside : size < n := by omega
      have read := same size inside
      rw [Nat.div_eq_of_lt below] at read
      have first : place (cdiv n b * size) size = 0 := by
        have less := (Nat.div_eq_zero_iff_lt size_positive).mp read
        unfold place at less ⊢
        split
        · rfl
        · rename_i several
          rw [if_neg several] at less
          omega
      have one : cdiv n b * size = 1 := by
        unfold place at first
        split at first
        · assumption
        · omega
      have one_block := Nat.eq_one_of_mul_eq_one_right one
      have size_one := Nat.eq_one_of_mul_eq_one_left one
      have inside := covered positive n
      rw [one_block] at inside
      exact Or.inr (Or.inr (Or.inr ⟨size_one,by omega⟩))
    · exact Or.inl equal
    · have inside : b < n := by omega
      have read := same b inside
      rw [Nat.div_self positive] at read
      have low : place (cdiv n b * size) b ≤ b := by
        unfold place
        split <;> omega
      rw [Nat.div_eq_of_lt (by omega)] at read
      omega
  · rintro (rfl | rfl | ⟨inside,inside'⟩ | ⟨rfl,inside⟩) i below
    · rw [place_inside (Nat.lt_of_lt_of_le below (covered positive n))]
    · omega
    · rw [single_block (by omega) inside',Nat.one_mul,place_inside (by omega),Nat.div_eq_of_lt (by omega),
        Nat.div_eq_of_lt (by omega)]
    · rw [single_block (by omega) inside,Nat.div_eq_of_lt (a := i) (by omega),Nat.div_one]
      exact if_pos (Nat.one_mul 1)

theorem aligned_broadcasts (positive : 0 < b) (size_positive : 0 < size)
    (aligned : Aligned b size n) :
    ∃ whole, broadcast (cdiv n size * size) (cdiv n b * size) = some whole ∧ n ≤ whole := by
  have inside := covered size_positive n
  have equal : cdiv n size = cdiv n b →
      ∃ whole, broadcast (cdiv n size * size) (cdiv n b * size) = some whole ∧ n ≤ whole := by
    intro same
    exact ⟨cdiv n size * size,by rw [same]; exact if_pos rfl,inside⟩
  rcases aligned with rfl | rfl | ⟨below,below'⟩ | ⟨rfl,below⟩
  · exact equal rfl
  · exact equal (by rw [no_block positive,no_block size_positive])
  · rcases Nat.eq_zero_or_pos n with rfl | some_rows
    · exact equal (by rw [no_block positive,no_block size_positive])
    · exact equal (by rw [single_block some_rows below,single_block some_rows below'])
  · rcases Nat.eq_zero_or_pos n with rfl | some_rows
    · exact equal (by rw [no_block positive,no_block size_positive])
    · refine ⟨cdiv n 1 * 1,?_,inside⟩
      rw [single_block some_rows below,Nat.one_mul]
      unfold broadcast
      split
      · rfl
      · split
        · rename_i one
          rw [one]
        · rename_i several
          exact absurd rfl several

-- A row of blocks of the inferred size goes together with the padded row only
-- where the blocks make up the row.
theorem broadcast_whole (some_blocks : 0 < count) (inside : count ≤ inn)
    (found : broadcast (cdiv inn (inn / count) * (inn / count)) (count * (inn / count)) = some whole) :
    count * (inn / count) = inn := by
  have size_positive : 0 < inn / count := Nat.div_pos inside some_blocks
  have padded := covered size_positive inn
  have proper : 0 < count * (inn / count) := Nat.mul_pos some_blocks size_positive
  have fits : count * (inn / count) ≤ inn := Nat.mul_div_le inn count
  unfold broadcast at found
  split at found
  · omega
  · split at found
    · omega
    · split at found
      · rename_i one
        rw [Nat.eq_one_of_mul_eq_one_right one,Nat.div_one,Nat.one_mul]
      · cases found

variable {w s : Nat → Nat → R}

theorem attn_sizes (padSize : Nat) (isKva : Bool) (found : attnWeight toBf16 padSize isKva weight scale = some t) :
    0 < scale.cols ∧ ∃ t', dequantFp8Block toBf16 weight scale (weight.cols / scale.cols) = some t' ∧
      t.rows = t'.rows + (if isKva then padSize else 0) ∧ t.cols = t'.cols ∧
      (∀ i < t'.rows, ∀ j, t.entry i j = t'.entry i j) ∧ ∀ i, t'.rows ≤ i → i < t.rows → ∀ j, t.entry i j = 0 := by
  unfold attnWeight at found
  split at found
  · cases found
  · obtain ⟨t',dequantized,rfl⟩ := Option.map_eq_some_iff.mp found
    refine ⟨by omega,t',dequantized,?_⟩
    split
    · rename_i padded
      rw [padded.1]
      exact ⟨rfl,rfl,fun i below j => if_pos below,fun i above _ j => if_neg (by omega)⟩
    · rename_i plain
      cases isKva with
      | true =>
          have no_rows : padSize = 0 := by
            by_contra some_rows
            exact plain ⟨rfl,by omega⟩
          rw [no_rows]
          exact ⟨rfl,rfl,fun i below j => rfl,fun i above below j => by omega⟩
      | false => exact ⟨rfl,rfl,fun i below j => rfl,fun i above below j => by omega⟩

theorem attn_found (toBf16 : R → R) (weight scale : Tensor R) (padSize : Nat) (isKva : Bool) (some_blocks : 0 < scale.cols)
    (found : dequantFp8Block toBf16 weight scale (weight.cols / scale.cols) = some t') :
    ∃ t, attnWeight toBf16 padSize isKva weight scale = some t := by
  unfold attnWeight
  rw [if_neg (by omega)]
  dsimp only
  rw [found]
  exact ⟨_,rfl⟩

-- Both axes go together, and every entry reads the scale of its own block.
structure Axes (b size out inn : Nat) : Prop where
  size_positive : 0 < size
  rows : ∃ rows, broadcast (cdiv out size * size) (cdiv out b * size) = some rows ∧ out ≤ rows
  cols : ∃ cols, broadcast (cdiv inn size * size) (cdiv inn b * size) = some cols ∧ inn ≤ cols
  reads : ∀ i < out, ∀ j < inn, place (cdiv out b * size) i / size = i / b ∧ place (cdiv inn b * size) j / size = j / b

theorem aligned_axes (positive : 0 < b) (size_positive : 0 < size) (rows : Aligned b size out) (cols : Aligned b size inn) :
    Axes b size out inn where
  size_positive := size_positive
  rows := aligned_broadcasts positive size_positive rows
  cols := aligned_broadcasts positive size_positive cols
  reads i row j col :=
    ⟨(aligned_iff positive size_positive out).mpr rows i row,(aligned_iff positive size_positive inn).mpr cols j col⟩

theorem some_block (positive : 0 < b) (some_cols : 0 < inn) : 0 < cdiv inn b := by
  by_contra none_there
  have inside := covered positive inn
  rw [Nat.eq_zero_of_not_pos none_there] at inside
  omega

theorem fits_axes (positive : 0 < b) (fits : Fits b out inn) : Axes b (inn / cdiv inn b) out inn := by
  obtain ⟨some_cols,shape⟩ := fits
  have size_positive := Nat.div_pos (blocks_inside positive inn) (some_block positive some_cols)
  rcases shape with ⟨count,rfl⟩ | ⟨narrow,few⟩ | ⟨rfl,few⟩ | ⟨rfl,divides⟩
  · have size : b * count / cdiv (b * count) b = b := by
      rw [Nat.mul_comm,whole_blocks positive,Nat.mul_div_cancel_left _ (Nat.pos_of_mul_pos_left some_cols)]
    exact aligned_axes positive size_positive (Or.inl size) (Or.inl size)
  · have size : inn / cdiv inn b = inn := by rw [single_block some_cols narrow.le,Nat.div_one]
    rw [size] at size_positive ⊢
    exact aligned_axes positive size_positive (Or.inr (Or.inr (Or.inl ⟨few,by omega⟩)))
      (Or.inr (Or.inr (Or.inl ⟨Nat.le_refl _,narrow.le⟩)))
  · have size : 1 / cdiv 1 b = 1 := by rw [single_block some_cols positive]
    rw [size] at size_positive ⊢
    exact aligned_axes positive size_positive (Or.inr (Or.inr (Or.inr ⟨rfl,few⟩)))
      (Or.inr (Or.inr (Or.inl ⟨Nat.le_refl _,positive⟩)))
  · refine ⟨size_positive,aligned_broadcasts positive size_positive (Or.inr (Or.inl rfl)),?_,
      fun i row => absurd row (Nat.not_lt_zero i)⟩
    have whole : cdiv inn b * (inn / cdiv inn b) = inn := Nat.mul_div_cancel' divides
    have blocks : cdiv inn (inn / cdiv inn b) = cdiv inn b := by
      conv_lhs => arg 1; rw [← whole]
      exact whole_blocks size_positive _
    rw [blocks,whole]
    exact ⟨inn,if_pos rfl,Nat.le_refl _⟩

theorem axes_fit (positive : 0 < b) (some_cols : 0 < inn)
    (cols : ∃ cols, broadcast (cdiv inn (inn / cdiv inn b) * (inn / cdiv inn b)) (cdiv inn b * (inn / cdiv inn b)) = some cols)
    (reads : ∀ i < out, ∀ j < inn, place (cdiv out b * (inn / cdiv inn b)) i / (inn / cdiv inn b) = i / b ∧
      place (cdiv inn b * (inn / cdiv inn b)) j / (inn / cdiv inn b) = j / b) : Fits b out inn := by
  refine ⟨some_cols,?_⟩
  have size_positive := Nat.div_pos (blocks_inside positive inn) (some_block positive some_cols)
  obtain ⟨_,found⟩ := cols
  have whole := broadcast_whole (some_block positive some_cols) (blocks_inside positive inn) found
  rcases Nat.eq_zero_or_pos out with none_there | some_rows
  · exact Or.inr (Or.inr (Or.inr ⟨none_there,Dvd.intro _ whole⟩))
  have rows_aligned := (aligned_iff positive size_positive out).mp fun i row => (reads i row 0 some_cols).1
  have cols_aligned := (aligned_iff positive size_positive inn).mp fun j col => (reads 0 some_rows j col).2
  have exact_size : inn / cdiv inn b = b → b ∣ inn := by
    intro size
    rw [size] at whole
    exact Dvd.intro_left _ whole
  -- A single block across has the size of the row.
  have single : inn ≤ b → inn / cdiv inn b = inn := by
    intro narrow
    rw [single_block some_cols narrow,Nat.div_one]
  have narrow_fits : inn ≤ b → b ∣ inn ∨ inn < b ∧ out ≤ inn ∨ inn = 1 ∧ out ≤ b ∨ out = 0 ∧ cdiv inn b ∣ inn := by
    intro narrow
    rw [single narrow] at rows_aligned
    rcases Nat.lt_or_eq_of_le narrow with less | rfl
    · rcases rows_aligned with same | none_there | ⟨few,_⟩ | few
      · omega
      · omega
      · exact Or.inr (Or.inl ⟨less,few⟩)
      · exact Or.inr (Or.inr (Or.inl few))
    · exact Or.inl (dvd_refl _)
  rcases cols_aligned with size | none_there | ⟨_,narrow⟩ | ⟨_,narrow⟩
  · exact Or.inl (exact_size size)
  · omega
  · exact narrow_fits narrow
  · exact narrow_fits narrow

theorem fits_dequantized (positive : 0 < b) (fits : Fits b out inn) (toBf16 : R → R) (padSize : Nat) (isKva : Bool)
    (w s : Nat → Nat → R) : ∃ t, attnWeight toBf16 padSize isKva ⟨out,inn,w⟩ (blockScale b out inn s) = some t ∧
      Dequantized toBf16 b (if isKva then padSize else 0) ⟨out,inn,w⟩ s t := by
  have axes := fits_axes positive fits
  obtain ⟨rows,rows_found,rows_whole⟩ := axes.rows
  obtain ⟨cols,cols_found,cols_whole⟩ := axes.cols
  have sizes := dequant_sizes axes.size_positive toBf16 ⟨out,inn,w⟩ (blockScale b out inn s)
  dsimp only [blockScale] at sizes
  rw [rows_found,cols_found,Option.bind_some,Option.map_some,Nat.min_eq_left rows_whole,Nat.min_eq_left cols_whole] at sizes
  obtain ⟨t',dequantized,sized⟩ := Option.map_eq_some_iff.mp sizes
  obtain ⟨rows_sized,cols_sized⟩ := Prod.mk.inj sized
  obtain ⟨t,found⟩ := attn_found toBf16 ⟨out,inn,w⟩ (blockScale b out inn s) padSize isKva
    (some_block positive fits.1) dequantized
  obtain ⟨_,t'',dequantized',rows_padded,cols_kept,same,zeros⟩ := attn_sizes padSize isKva found
  have same_tensor : t'' = t' := Option.some.inj (dequantized'.symm.trans dequantized)
  subst same_tensor
  refine ⟨t,found,⟨by rw [rows_padded,rows_sized],by rw [cols_kept,cols_sized],?_,?_⟩⟩
  · intro i row j col
    obtain ⟨block_row,block_col⟩ := axes.reads i row j col
    rw [same i (by rw [rows_sized]; exact row),dequant_entry dequantized row col]
    exact congrArg₂ (fun x y => toBf16 (w i j * s x y)) block_row block_col
  · intro i above below j _
    exact zeros i (by rw [rows_sized]; exact above) below j

-- Weights of ones and scales of zeros and ones tell a wrong block from the
-- right one.
theorem dequantized_fits (positive : 0 < b) (apart : toBf16 (0 : R) ≠ toBf16 1) (padSize : Nat) (isKva : Bool)
    (right : ∀ w s : Nat → Nat → R, ∃ t, attnWeight toBf16 padSize isKva ⟨out,inn,w⟩ (blockScale b out inn s) = some t ∧
      Dequantized toBf16 b (if isKva then padSize else 0) ⟨out,inn,w⟩ s t) : Fits b out inn := by
  have some_cols : 0 < inn := by
    obtain ⟨t,found,_⟩ := right (fun _ _ => 1) fun _ _ => 1
    have blocks := (attn_sizes padSize isKva found).1
    by_contra none_there
    rw [Nat.eq_zero_of_not_pos none_there] at blocks
    exact absurd blocks (by simp [blockScale,no_block positive])
  have size_positive := Nat.div_pos (blocks_inside positive inn) (some_block positive some_cols)
  apply axes_fit positive some_cols
  · obtain ⟨t,found,_⟩ := right (fun _ _ => 1) fun _ _ => 1
    obtain ⟨_,t',dequantized,_⟩ := attn_sizes padSize isKva found
    have sizes := dequant_sizes size_positive toBf16 ⟨out,inn,fun _ _ => 1⟩ (blockScale b out inn fun _ _ => 1)
    dsimp only [blockScale] at sizes dequantized
    rw [dequantized] at sizes
    obtain ⟨rows,_,sizes⟩ := Option.bind_eq_some_iff.mp sizes.symm
    obtain ⟨cols,found_cols,_⟩ := Option.map_eq_some_iff.mp sizes
    exact ⟨cols,found_cols⟩
  · intro i row j col
    have read : ∀ chosen : Nat → Nat → Bool, chosen (i / b) (j / b) = true →
        chosen (place (cdiv out b * (inn / cdiv inn b)) i / (inn / cdiv inn b))
          (place (cdiv inn b * (inn / cdiv inn b)) j / (inn / cdiv inn b)) = true := by
      intro chosen own
      by_contra other
      obtain ⟨t,found,exactly⟩ := right (fun _ _ => 1) fun x y => if chosen x y then 1 else 0
      obtain ⟨_,t',dequantized,padded,_,same,_⟩ := attn_sizes padSize isKva found
      have sized : t'.rows = out := Nat.add_right_cancel (padded.symm.trans exactly.rows)
      have got := exactly.entry i row j col
      rw [same i (by rw [sized]; exact row),dequant_entry dequantized row col,one_mul,one_mul,if_pos own] at got
      exact apart ((congrArg toBf16 (if_neg other)).symm.trans got)
    constructor
    · exact of_decide_eq_true (read (fun x _ => decide (x = i / b)) (decide_eq_true rfl))
    · exact of_decide_eq_true (read (fun _ y => decide (y = j / b)) (decide_eq_true rfl))

end Blocks

end Glm5Next.Fp8Dequant
