import Mathlib.Logic.Basic

-- Assignments to a slice of a persistent buffer. What lies outside of the
-- slice keeps its value; a tensor has to have the slice's length, or one entry
-- that is repeated.
namespace BufferSlices
variable {Val : Type}

def assign (buf : Nat → Val) (first last : Nat) (values : Nat → Val) : Nat → Val :=
  fun i => if first ≤ i ∧ i < last then values (i - first) else buf i

-- `none` is a shape error.
def assignTensor (buf : Nat → Val) (first last size : Nat) (values : Nat → Val) : Option (Nat → Val) :=
  if size = last - first then some (assign buf first last values)
  else if size = 1 then some (assign buf first last fun _ => values 0)
  else none

-- buf[first:] = value
def fillFrom (buf : Nat → Val) (first : Nat) (value : Val) : Nat → Val :=
  fun i => if first ≤ i then value else buf i

theorem assign_inside (buf values : Nat → Val) (inside : i < last) : assign buf 0 last values i = values i :=
  if_pos ⟨Nat.zero_le i,inside⟩

theorem assign_before (buf values : Nat → Val) (before : i < first) : assign buf first last values i = buf i :=
  if_neg fun both => Nat.not_lt.mpr both.1 before

theorem fill_before (buf : Nat → Val) (value : Val) (before : i < first) : fillFrom buf first value i = buf i :=
  if_neg (Nat.not_le.mpr before)

theorem fill_from (buf : Nat → Val) (value : Val) (past : first ≤ i) : fillFrom buf first value i = value :=
  if_pos past

-- From the front, a tensor fits where its length does or it is a single entry.
theorem tensor_fits (buf values : Nat → Val) :
    (assignTensor buf 0 last size values).isSome = true ↔ size = last ∨ size = 1 := by
  unfold assignTensor
  rw [Nat.sub_zero]
  split
  · rename_i whole
    simp [whole]
  · rename_i partly
    split
    · rename_i single
      simp [single]
    · rename_i several
      simp [partly,several]

theorem tensor_entry {buf values after : Nat → Val} (assigned : assignTensor buf 0 last size values = some after)
    (inside : i < last) (own : i < size) : after i = values i := by
  unfold assignTensor at assigned
  split at assigned
  · cases assigned
    exact assign_inside _ _ inside
  · split at assigned
    · rename_i single
      cases assigned
      obtain rfl : i = 0 := by omega
      exact assign_inside _ _ inside
    · cases assigned

end BufferSlices
