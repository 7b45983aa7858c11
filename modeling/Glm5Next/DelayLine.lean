import Mathlib.Data.List.Basic
import Mathlib.Data.BitVec

-- A queue of fixed length: every turn pops the front and pushes a fresh entry,
-- so the entry pushed in one turn comes out `n` turns later.
namespace DelayLine

-- Contents after the entries `pushed`, oldest first, entered a line of length
-- `n` that was pre-seeded with `seed`.
def line (n : Nat) (seed : α) (pushed : List α) : List α :=
  (List.replicate n seed ++ pushed).drop pushed.length

@[simp] theorem line_nil (n : Nat) (seed : α) : line n seed [] = List.replicate n seed := by
  simp [line]

@[simp] theorem line_length (n : Nat) (seed : α) (pushed : List α) :
    (line n seed pushed).length = n := by
  simp [line]

theorem line_map (f : α → β) (n : Nat) (seed : α) (pushed : List α) :
    (line n seed pushed).map f = line n (f seed) (pushed.map f) := by
  simp [line]

theorem line_get (n : Nat) (seed : α) (pushed : List α) (i : Nat) :
    (line n seed pushed)[i]? = (List.replicate n seed ++ pushed)[pushed.length + i]? := by
  simp [line,List.getElem?_drop]

theorem line_turn (positive : 0 < n) (seed : α) (pushed : List α) (next : α) :
    (line n seed pushed).tail ++ [next] = line n seed (pushed ++ [next]) := by
  have room : pushed.length + 1 ≤ (List.replicate n seed ++ pushed).length := by
    simp; omega
  simp only [line,List.tail_drop,List.length_append,List.length_singleton,← List.append_assoc]
  rw [List.drop_append_of_le_length room]

-- What comes out in turn `t` went in `n` turns earlier; the first `n` turns
-- only see the seed.
theorem line_head (n : Nat) (seed : α) (pushed : List α) :
    (line n seed pushed).head? =
      if pushed.length < n then some seed else pushed[pushed.length - n]? := by
  rw [List.head?_eq_getElem?,line_get]
  by_cases young : pushed.length < n
  · rw [if_pos young,Nat.add_zero,List.getElem?_append_left (by simpa using young)]
    simp [young]
  · rw [if_neg young,Nat.add_zero,List.getElem?_append_right (by simpa using Nat.le_of_not_lt young)]
    simp

end DelayLine

-- A counter of `w` bits that is bumped once per event: a snapshot equals the
-- current value exactly when nothing happened since, as long as the counter
-- cannot have gone around in between.
namespace EventCounter

theorem bumped_same (start : BitVec w) (events : Nat) (short : events < 2 ^ w) :
    start + BitVec.ofNat w events = start ↔ events = 0 := by
  constructor
  · intro same
    have zero : BitVec.ofNat w events = 0#w := by
      have cancelled := congrArg (fun x => x - start) same
      simpa [BitVec.add_comm] using cancelled
    have value := congrArg BitVec.toNat zero
    simpa [Nat.mod_eq_of_lt short] using value
  · rintro rfl
    simp

end EventCounter
