import Mathlib.Algebra.BigOperators.Group.List.Basic
import Mathlib.Algebra.GroupWithZero.Nat

-- Rows of different lengths laid out one after the other: where a row starts,
-- and which row an index of the flat layout belongs to.
namespace Ragged

-- The cumulative sum of the lengths before row `r`.
def start (lens : List Nat) (r : Nat) : Nat := (lens.take r).sum

-- repeat_interleave: every row number as often as the row is long.
def owners (lens : List Nat) : List Nat := lens.zipIdx.flatMap fun row => List.replicate row.1 row.2

@[simp] theorem start_zero (lens : List Nat) : start lens 0 = 0 := by simp [start]

theorem start_succ {lens : List Nat} (found : lens[r]? = some len) : start lens (r + 1) = start lens r + len := by
  obtain ⟨inside,rfl⟩ := List.getElem?_eq_some_iff.mp found
  exact List.sum_take_succ lens r inside

theorem start_cons (len : Nat) (lens : List Nat) (r : Nat) : start (len :: lens) (r + 1) = len + start lens r := by
  simp [start]

theorem start_le (lens : List Nat) (ordered : r ≤ s) : start lens r ≤ start lens s := by
  unfold start
  obtain ⟨gap,rfl⟩ := Nat.exists_eq_add_of_le ordered
  rw [List.take_add,List.sum_append]
  exact Nat.le_add_right _ _

theorem start_length (lens : List Nat) : start lens lens.length = lens.sum := by simp [start]

theorem start_add (lens : List Nat) (r s : Nat) : start lens (r + s) = start lens r + start (lens.drop r) s := by
  rw [start,List.take_add,List.sum_append]
  rfl

theorem start_take (lens : List Nat) (n : Nat) (inside : r ≤ n) : start (lens.take n) r = start lens r := by
  rw [start,List.take_take,Nat.min_eq_left inside]
  rfl

theorem row_inside {lens : List Nat} (found : lens[r]? = some len) (inside : k < len) (bounded : r < s) :
    start lens r + k < start lens s := by
  have next := start_le lens (Nat.succ_le_of_lt bounded)
  rw [Nat.succ_eq_add_one,start_succ found] at next
  omega

theorem flat_from_get (lens : List Nat) (base : Nat) (rows : Nat → Nat → List α)
    (sized : ∀ len r, (rows len r).length = len) (found : lens[r]? = some len) (inside : k < len) :
    ((lens.zipIdx base).flatMap fun row => rows row.1 row.2)[start lens r + k]? = (rows len (base + r))[k]? := by
  induction lens generalizing base r with
  | nil => simp at found
  | cons head rest ih =>
      rw [List.zipIdx_cons,List.flatMap_cons]
      cases r with
      | zero =>
          obtain rfl : head = len := by simpa using found
          rw [start_zero,Nat.zero_add,List.getElem?_append_left (by simpa [sized] using inside)]
          rfl
      | succ r =>
          rw [start_cons,Nat.add_assoc,List.getElem?_append_right (by simp [sized])]
          simp only [sized,Nat.add_sub_cancel_left]
          rw [ih (base + 1) (by simpa using found)]
          congr 2
          omega

theorem flat_get {lens : List Nat} (rows : Nat → Nat → List α) (sized : ∀ len r, (rows len r).length = len)
    (found : lens[r]? = some len) (inside : k < len) :
    (lens.zipIdx.flatMap fun row => rows row.1 row.2)[start lens r + k]? = (rows len r)[k]? := by
  simpa only [Nat.zero_add] using flat_from_get lens 0 rows sized found inside

theorem owners_get {lens : List Nat} (found : lens[r]? = some len) (inside : k < len) :
    (owners lens)[start lens r + k]? = some r := by
  have flat := flat_get (fun len r => List.replicate len r) (fun _ _ => List.length_replicate) found inside
  simpa [owners,inside] using flat

theorem locate (lens : List Nat) (inside : j < lens.sum) :
    ∃ r len k, lens[r]? = some len ∧ k < len ∧ j = start lens r + k := by
  induction lens generalizing j with
  | nil => simp at inside
  | cons head rest ih =>
      by_cases first : j < head
      · exact ⟨0,head,j,rfl,first,by simp⟩
      · rw [List.sum_cons] at inside
        obtain ⟨r,len,k,found,bounded,split⟩ := ih (j := j - head) (by omega)
        exact ⟨r + 1,len,k,by simpa using found,bounded,by rw [start_cons]; omega⟩

theorem locate_unique {lens : List Nat} (found : lens[r]? = some len) (inside : k < len)
    (found' : lens[r']? = some len') (inside' : k' < len') (same : start lens r + k = start lens r' + k') :
    r = r' ∧ k = k' := by
  have owner := owners_get found inside
  rw [same,owners_get found' inside'] at owner
  cases owner
  exact ⟨rfl,by omega⟩

theorem owners_length (lens : List Nat) : (owners lens).length = lens.sum := by
  have flat : lens.zipIdx.map (fun row => (List.replicate row.1 row.2).length) = lens := by
    simp only [List.length_replicate]
    exact List.zipIdx_map_fst 0 lens
  rw [owners,List.length_flatMap,flat]

theorem owner_exact {lens : List Nat} :
    (owners lens)[j]? = some r ↔ ∃ len k, lens[r]? = some len ∧ k < len ∧ j = start lens r + k := by
  constructor
  · intro owner
    have inside := (List.getElem?_eq_some_iff.mp owner).1
    rw [owners_length] at inside
    obtain ⟨r',len,k,found,bounded,rfl⟩ := locate lens inside
    rw [owners_get found bounded] at owner
    cases owner
    exact ⟨len,k,found,bounded,rfl⟩
  · rintro ⟨len,k,found,bounded,rfl⟩
    exact owners_get found bounded

theorem owned_range {lens : List Nat} (found : lens[r]? = some len) (first : a ≤ start lens r)
    (last : start lens r + len ≤ a + n) :
    (List.range' a n).filter (fun j => decide ((owners lens)[j]? = some r)) = List.range' (start lens r) len := by
  obtain ⟨before,starts⟩ := Nat.exists_eq_add_of_le first
  obtain ⟨behind,ends⟩ := Nat.exists_eq_add_of_le last
  have split : List.range' a n = List.range' a before ++ (List.range' (start lens r) len ++
      List.range' (start lens r + len) behind) := by
    rw [List.range'_append_1,starts,List.range'_append_1]
    congr 1
    omega
  have apart : ∀ j, j < start lens r ∨ start lens r + len ≤ j → (owners lens)[j]? ≠ some r := by
    rintro j outside owner
    obtain ⟨len',k,found',bounded,rfl⟩ := owner_exact.mp owner
    rw [found] at found'
    cases found'
    omega
  have head : (List.range' a before).filter (fun j => decide ((owners lens)[j]? = some r)) = [] := by
    apply List.filter_eq_nil_iff.mpr
    intro j listed
    have bound := List.mem_range'_1.mp listed
    simpa using apart j (Or.inl (by omega))
  have own : (List.range' (start lens r) len).filter (fun j => decide ((owners lens)[j]? = some r)) =
      List.range' (start lens r) len := by
    apply List.filter_eq_self.mpr
    intro j listed
    have bound := List.mem_range'_1.mp listed
    obtain ⟨k,rfl⟩ := Nat.exists_eq_add_of_le bound.1
    simpa using owners_get found (show k < len by omega)
  have tail : (List.range' (start lens r + len) behind).filter (fun j => decide ((owners lens)[j]? = some r)) = [] := by
    apply List.filter_eq_nil_iff.mpr
    intro j listed
    have bound := List.mem_range'_1.mp listed
    simpa using apart j (Or.inr (by omega))
  rw [split,List.filter_append,List.filter_append,head,own,tail,List.nil_append,List.append_nil]

theorem joined_get (items : List α) (rows : α → List β) (found : items[r]? = some item) (inside : k < (rows item).length) :
    (items.flatMap rows)[start (items.map fun item => (rows item).length) r + k]? = (rows item)[k]? := by
  induction items generalizing r with
  | nil => simp at found
  | cons head rest ih =>
      rw [List.flatMap_cons]
      cases r with
      | zero =>
          obtain rfl : head = item := by simpa using found
          rw [start_zero,Nat.zero_add,List.getElem?_append_left inside]
      | succ r =>
          rw [List.map_cons,start_cons,Nat.add_assoc,List.getElem?_append_right (Nat.le_add_right _ _),
            Nat.add_sub_cancel_left]
          exact ih (by simpa using found)

theorem row_le_start {lens : List Nat} (positive : ∀ len ∈ lens, 0 < len) (inside : r ≤ lens.length) :
    r ≤ start lens r := by
  induction r with
  | zero => exact Nat.zero_le _
  | succ r ih =>
      rw [start_succ (List.getElem?_eq_getElem inside)]
      have before := ih (Nat.le_of_succ_le inside)
      have own := positive _ (List.getElem_mem inside)
      omega

theorem start_uniform {lens : List Nat} (uniform : ∀ len ∈ lens, len = n) (inside : r ≤ lens.length) :
    start lens r = r * n := by
  rw [List.eq_replicate_iff.mpr ⟨rfl,uniform⟩,start,List.take_replicate,List.sum_replicate_nat,
    Nat.min_eq_left inside]

theorem grid_row {k n : Nat} (inside : k < n) : (r * n + k) / n = r := by
  rw [Nat.mul_comm,Nat.mul_add_div (by omega),Nat.div_eq_of_lt inside,Nat.add_zero]

theorem grid_col {k n : Nat} (inside : k < n) : (r * n + k) % n = k := by
  rw [Nat.mul_add_mod_self_right,Nat.mod_eq_of_lt inside]

theorem grid_below {n k : Nat} (row : r < rows) (inside : k < n) : r * n + k < rows * n := by
  have next := Nat.mul_le_mul_right n (Nat.succ_le_of_lt row)
  rw [Nat.succ_mul] at next
  omega

theorem grid_unique {k k' n : Nat} (inside : k < n) (inside' : k' < n) (same : r * n + k = r' * n + k') :
    r = r' ∧ k = k' :=
  ⟨(grid_row inside).symm.trans ((congrArg (· / n) same).trans (grid_row inside')),
    (grid_col inside).symm.trans ((congrArg (· % n) same).trans (grid_col inside'))⟩

theorem grid_bound (rows n : Nat) : o < rows * n ↔ ∃ r < rows, ∃ k < n, o = r * n + k := by
  constructor
  · intro inside
    have wide : 0 < n := by
      apply Nat.pos_of_ne_zero
      rintro rfl
      exact Nat.not_lt_zero o inside
    exact ⟨o / n,(Nat.div_lt_iff_lt_mul wide).mpr inside,o % n,Nat.mod_lt o wide,(Nat.div_add_mod' o n).symm⟩
  · rintro ⟨r,inside,k,short,rfl⟩
    exact grid_below inside short

theorem block_start (positive : 0 < b) (counted : i < (n + b - 1) / b) : i * b < n := by
  have reached : (i + 1) * b ≤ n + b - 1 := (Nat.le_div_iff_mul_le positive).mp counted
  rw [Nat.add_mul,Nat.one_mul] at reached
  omega

theorem blocks_tile_from (b n count : Nat) :
    ((List.range count).flatMap fun i => List.range' (i * b) (min b (n - i * b))) =
      List.range' 0 (min (count * b) n) := by
  induction count with
  | zero => simp
  | succ count ih =>
      rw [List.range_succ,List.flatMap_append,ih,List.flatMap_singleton,Nat.add_mul,Nat.one_mul]
      by_cases inside : count * b ≤ n
      · have joined := List.range'_append_1 (s := 0) (m := count * b) (n := min b (n - count * b))
        rw [Nat.zero_add] at joined
        rw [Nat.min_eq_left inside,joined]
        congr 1
        omega
      · have past : min b (n - count * b) = 0 := by omega
        rw [past,List.range'_zero,List.append_nil]
        congr 1
        omega

theorem blocks_tile (positive : 0 < b) (n : Nat) :
    ((List.range ((n + b - 1) / b)).flatMap fun i => List.range' (i * b) (min b (n - i * b))) = List.range' 0 n := by
  rw [blocks_tile_from]
  congr 1
  have covered : n ≤ (n + b - 1) / b * b := by
    have split := Nat.div_add_mod (n + b - 1) b
    have rest := Nat.mod_lt (n + b - 1) positive
    rw [Nat.mul_comm] at split
    omega
  omega

end Ragged
