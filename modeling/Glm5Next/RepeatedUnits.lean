import Glm5Next.Ragged

-- Units of a text that stand one after the other.
namespace RepeatedUnits
variable {α : Type} {s unit : List α}

def slice (s : List α) (i size : Nat) : List α := (s.drop i).take size

-- `unit` stands r times in a row from offset i.
def Repeats (s unit : List α) (i r : Nat) : Prop := ∀ j < r, slice s (i + j * unit.length) unit.length = unit

theorem slice_get (s : List α) (i : Nat) (inside : k < size) : (slice s i size)[k]? = s[i + k]? := by
  rw [slice,List.getElem?_take_of_lt inside,List.getElem?_drop]

theorem slice_length (s : List α) (i size : Nat) : (slice s i size).length = min size (s.length - i) := by
  rw [slice,List.length_take,List.length_drop]

theorem slice_whole (inside : i + size ≤ s.length) : (slice s i size).length = size := by
  rw [slice_length]
  omega

theorem slice_starts (some_unit : slice s i size ≠ []) : i < s.length := by
  have long := List.length_pos_of_ne_nil some_unit
  rw [slice_length] at long
  omega

theorem repeats_zero (s unit : List α) (i : Nat) : Repeats s unit i 0 := fun _ none => absurd none (Nat.not_lt_zero _)

theorem Repeats.fewer (rep : Repeats s unit i r) (less : r' ≤ r) : Repeats s unit i r' :=
  fun j inside => rep j (Nat.lt_of_lt_of_le inside less)

theorem Repeats.first (rep : Repeats s unit i r) (some_rep : 0 < r) : slice s i unit.length = unit := by
  simpa using rep 0 some_rep

theorem Repeats.more (rep : Repeats s unit i r) (next : slice s (i + r * unit.length) unit.length = unit) :
    Repeats s unit i (r + 1) := by
  intro j inside
  rcases Nat.lt_or_eq_of_le (Nat.le_of_lt_succ inside) with before | rfl
  · exact rep j before
  · exact next

theorem Repeats.later (rep : Repeats s unit i (d + r)) : Repeats s unit (i + d * unit.length) r := by
  intro j inside
  have shifted := rep (d + j) (by omega)
  rwa [Nat.add_mul,← Nat.add_assoc] at shifted

theorem Repeats.earlier (rep : Repeats s unit i d) (rest : Repeats s unit (i + d * unit.length) r) :
    Repeats s unit i (d + r) := by
  intro j inside
  by_cases before : j < d
  · exact rep j before
  · obtain ⟨k,rfl⟩ := Nat.exists_eq_add_of_le (Nat.le_of_not_lt before)
    have shifted := rest k (by omega)
    rwa [Nat.add_assoc,← Nat.add_mul] at shifted

theorem Repeats.inside (rep : Repeats s unit i r) (some_unit : unit ≠ []) (some_rep : 0 < r) :
    i + r * unit.length ≤ s.length := by
  have last := congrArg List.length (rep (r - 1) (by omega))
  have long := List.length_pos_of_ne_nil some_unit
  obtain ⟨k,rfl⟩ := Nat.exists_eq_add_of_lt some_rep
  rw [Nat.zero_add,Nat.add_sub_cancel,slice_length] at last
  rw [Nat.zero_add,Nat.succ_mul]
  omega

theorem Repeats.get (rep : Repeats s unit i r) (inside : x < r * unit.length) :
    s[i + x]? = unit[x % unit.length]? := by
  have long : 0 < unit.length := Nat.pos_of_mul_pos_left (Nat.lt_of_le_of_lt (Nat.zero_le x) inside)
  have place := Nat.mod_lt x long
  have own := rep (x / unit.length) (Nat.div_lt_of_lt_mul (by rwa [Nat.mul_comm]))
  have entry := slice_get s (i + x / unit.length * unit.length) place
  rw [own,Nat.add_assoc,Nat.div_add_mod'] at entry
  exact entry.symm

section Rotation
variable (rep : Repeats s unit i (r + 1)) (inside : d < unit.length)
include rep

theorem rotated_get (short : d + x < (r + 1) * unit.length) : s[i + d + x]? = unit[(d + x) % unit.length]? := by
  rw [Nat.add_assoc]
  exact rep.get short

include inside

theorem rotated_length (some_rep : 0 < r) : (slice s (i + d) unit.length).length = unit.length := by
  have some_unit : unit ≠ [] := List.ne_nil_of_length_pos (Nat.zero_lt_of_lt inside)
  have whole := rep.inside some_unit (Nat.succ_pos r)
  have twice := Nat.mul_le_mul_right unit.length (show 2 ≤ r + 1 by omega)
  apply slice_whole
  omega

theorem Repeats.rotated : Repeats s (slice s (i + d) unit.length) (i + d) r := by
  intro j bound
  have long := rotated_length rep inside (Nat.zero_lt_of_lt bound)
  have next := Nat.mul_le_mul_right unit.length (Nat.succ_le_of_lt bound)
  rw [Nat.succ_mul] at next
  rw [long]
  refine List.ext_getElem? fun k => ?_
  by_cases lane : k < unit.length
  · rw [slice_get _ _ lane,slice_get _ _ lane,Nat.add_assoc (i + d),rotated_get rep (by rw [Nat.succ_mul]; omega),
      rotated_get rep (by rw [Nat.succ_mul]; omega)]
    congr 1
    rw [Nat.add_left_comm,Nat.mul_add_mod']
  · have past : (slice s (i + d + j * unit.length) unit.length).length ≤ k := by rw [slice_length]; omega
    have past' : (slice s (i + d) unit.length).length ≤ k := by omega
    rw [List.getElem?_eq_none past,List.getElem?_eq_none past']

theorem rotated_mem (some_rep : 0 < r) : c ∈ slice s (i + d) unit.length ↔ c ∈ unit := by
  have twice := Nat.mul_le_mul_right unit.length (show 2 ≤ r + 1 by omega)
  have long := rotated_length rep inside some_rep
  constructor
  · intro member
    obtain ⟨k,found⟩ := List.mem_iff_getElem?.mp member
    have lane : k < unit.length := by
      have := (List.getElem?_eq_some_iff.mp found).1
      omega
    rw [slice_get _ _ lane,rotated_get rep (by omega)] at found
    exact List.mem_of_getElem? found
  · intro member
    obtain ⟨k,found⟩ := List.mem_iff_getElem?.mp member
    have lane := (List.getElem?_eq_some_iff.mp found).1
    by_cases behind : d ≤ k
    · obtain ⟨e,rfl⟩ := Nat.exists_eq_add_of_le behind
      apply List.mem_of_getElem? (i := e)
      rw [slice_get _ _ (by omega),rotated_get rep (by omega),Nat.mod_eq_of_lt lane]
      exact found
    · apply List.mem_of_getElem? (i := k + unit.length - d)
      rw [slice_get _ _ (by omega),rotated_get rep (by omega),
        show d + (k + unit.length - d) = k + unit.length by omega,Nat.add_mod_right,Nat.mod_eq_of_lt lane]
      exact found

end Rotation

end RepeatedUnits
