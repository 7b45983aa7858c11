import Glm5Next.Ragged
import Glm5Next.StoreWrites
import Mathlib.Algebra.BigOperators.Ring.Finset
import Mathlib.Data.List.Nodup

-- Operations on one-dimensional tensors, which are lists. `none` is a shape
-- error or an index out of range.
namespace TensorOps
open StoreWrites
variable {α : Type}

def arange (n : Nat) : List Int := (List.range n).map fun (i : Nat) => (i : Int)

def cumsum (xs : List Int) : List Int := (List.range xs.length).map fun i => (xs.take (i + 1)).sum

-- A single entry stands for as many as are wanted.
def expand (n : Nat) (xs : List α) : Option (List α) :=
  if xs.length = n then some xs
  else match xs with
    | [x] => some (List.replicate n x)
    | _ => none

def repeatInterleave (xs : List α) (repeats : List Nat) (outputSize : Nat) : Option (List α) :=
  match expand xs.length repeats with
  | none => none
  | some counts =>
      if counts.sum = outputSize then some ((xs.zip counts).flatMap fun (x,count) => List.replicate count x) else none

-- Indices below zero count from the end of their axis.
def inAxis (size : Nat) (i : Int) : Prop := -(size : Int) ≤ i ∧ i < size

instance (size : Nat) (i : Int) : Decidable (inAxis size i) := inferInstanceAs (Decidable (_ ∧ _))

def fromEnd (size : Nat) (i : Int) : Nat := if i < 0 then (i + size).toNat else i.toNat

-- out[rows,cols] = values, for a matrix.
def indexPut (numRows numCols : Nat) (out : Nat × Nat → α) (rows cols : List Int) (values : List α) :
    Option (Nat × Nat → α) :=
  match expand rows.length values with
  | none => none
  | some values =>
      if rows.length = cols.length ∧ (∀ r ∈ rows, inAxis numRows r) ∧ ∀ c ∈ cols, inAxis numCols c then
        some (writes out (((rows.map (fromEnd numRows)).zip (cols.map (fromEnd numCols))).zip values))
      else none

def flatten (numRows numCols : Nat) (grid : Nat × Nat → α) : List α :=
  (List.range (numRows * numCols)).map fun i => grid (i / numCols,i % numCols)

theorem arange_get (inside : i < n) : (arange n)[i]? = some (i : Int) := by
  rw [arange,List.getElem?_map,List.getElem?_range inside,Option.map_some]

theorem arange_length (n : Nat) : (arange n).length = n := by simp [arange]

theorem expand_same (xs : List α) : expand xs.length xs = some xs := if_pos rfl

theorem cumsum_starts (lens : List Nat) (inside : r < lens.length) :
    (cumsum (0 :: lens.dropLast.map fun (len : Nat) => (len : Int)))[r]? = some (Ragged.start lens r : Int) := by
  have counted : r < (0 :: lens.dropLast.map fun (len : Nat) => (len : Int)).length := by
    rw [List.length_cons,List.length_map,List.length_dropLast]
    omega
  rw [cumsum,List.getElem?_map,List.getElem?_range counted,Option.map_some,List.take_succ_cons,List.sum_cons,Int.zero_add,
    ← List.map_take,List.dropLast_eq_take,List.take_take,Nat.min_eq_left (by omega),Ragged.start]
  exact congrArg some (Nat.cast_list_sum _).symm

theorem cumsum_length (xs : List Int) : (cumsum xs).length = xs.length := by simp [cumsum]

theorem repeat_exact (xs : List α) (counts : List Nat) (sized : xs.length = counts.length) :
    ∃ out, repeatInterleave xs counts counts.sum = some out ∧ out.length = counts.sum ∧
      ∀ r len k x, counts[r]? = some len → k < len → xs[r]? = some x → out[Ragged.start counts r + k]? = some x := by
  have lens : (xs.zip counts).map (fun item : α × Nat => (List.replicate item.2 item.1).length) = counts := by
    simp only [List.length_replicate]
    exact List.map_snd_zip (Nat.le_of_eq sized.symm)
  refine ⟨(xs.zip counts).flatMap fun (x,count) => List.replicate count x,?_,?_,?_⟩
  · rw [repeatInterleave,sized,expand_same]
    exact if_pos rfl
  · rw [List.length_flatMap]
    exact congrArg List.sum lens
  · intro r len k x counted inside found
    have item : (xs.zip counts)[r]? = some (x,len) := List.getElem?_zip_eq_some.mpr ⟨found,counted⟩
    have joined := Ragged.joined_get (xs.zip counts) (fun item : α × Nat => List.replicate item.2 item.1) item
      (k := k) (by simpa using inside)
    rw [lens] at joined
    exact joined.trans (by simp [inside])

theorem from_end_natural (size n : Nat) : fromEnd size (n : Int) = n := by
  rw [fromEnd,if_neg (by omega),Int.toNat_natCast]

theorem put_exact (out : Nat × Nat → α) (cells : List (Nat × Nat)) (values : List α)
    (sized : values.length = cells.length) (inside : ∀ cell ∈ cells, cell.1 < numRows ∧ cell.2 < numCols)
    (distinct : cells.Nodup) :
    ∃ after, indexPut numRows numCols out (cells.map fun cell => (cell.1 : Int)) (cells.map fun cell => (cell.2 : Int))
        values = some after ∧
      (∀ (i : Nat) cell value, cells[i]? = some cell → values[i]? = some value → after cell = value) ∧
      ∀ cell ∉ cells, after cell = out cell := by
  have zipped : ((cells.map fun cell => (cell.1 : Int)).map (fromEnd numRows)).zip
      ((cells.map fun cell => (cell.2 : Int)).map (fromEnd numCols)) = cells := by
    simp only [List.map_map,Function.comp_def,from_end_natural]
    rw [List.zip_map',List.map_id'']
    exact fun _ => rfl
  refine ⟨writes out (cells.zip values),?_,?_,?_⟩
  · have rows : expand (cells.map fun cell => (cell.1 : Int)).length values = some values := by
      rw [List.length_map,← sized,expand_same]
    simp only [indexPut,rows,zipped]
    apply if_pos
    refine ⟨by simp only [List.length_map],?_,?_⟩
    · intro r listed
      obtain ⟨cell,member,rfl⟩ := List.mem_map.mp listed
      have bound := (inside cell member).1
      constructor <;> omega
    · intro c listed
      obtain ⟨cell,member,rfl⟩ := List.mem_map.mp listed
      have bound := (inside cell member).2
      constructor <;> omega
  · intro i cell value found held
    apply writes_exact
    · exact List.mem_of_getElem? (List.getElem?_zip_eq_some.mpr ⟨found,held⟩)
    · intro entry member same
      obtain ⟨j,listed⟩ := List.mem_iff_getElem?.mp member
      obtain ⟨found',held'⟩ := List.getElem?_zip_eq_some.mp listed
      rw [same] at found'
      obtain ⟨bound,at_i⟩ := List.getElem?_eq_some_iff.mp found
      obtain ⟨bound',at_j⟩ := List.getElem?_eq_some_iff.mp found'
      obtain rfl := (distinct.getElem_inj_iff).mp (at_i.trans at_j.symm)
      rw [held] at held'
      exact (Option.some.inj held').symm
  · intro cell unlisted
    apply writes_apart
    intro entry member same
    exact unlisted (same ▸ (List.of_mem_zip member).1)

theorem flatten_get (grid : Nat × Nat → α) (row : r < numRows) (col : c < numCols) :
    (flatten numRows numCols grid)[r * numCols + c]? = some (grid (r,c)) := by
  have bound := Ragged.grid_below row col
  rw [flatten,List.getElem?_map,List.getElem?_range bound,Option.map_some,Ragged.grid_row col,Ragged.grid_col col]

theorem flatten_length (numRows numCols : Nat) (grid : Nat × Nat → α) :
    (flatten numRows numCols grid).length = numRows * numCols := by simp [flatten]

end TensorOps
