import Mathlib.Logic.Basic
import Mathlib.Data.List.Basic

-- The stores a kernel makes into a buffer, in program order. Where every store
-- to an address has one value the order does not matter.
namespace StoreWrites
variable {Addr Val : Type} [DecidableEq Addr]

def write (store : Addr → Val) (entry : Addr × Val) : Addr → Val :=
  fun addr => if addr = entry.1 then entry.2 else store addr

def writes (store : Addr → Val) (entries : List (Addr × Val)) : Addr → Val := entries.foldl write store

@[simp] theorem writes_nil (store : Addr → Val) : writes store [] = store := rfl

theorem writes_cons (store : Addr → Val) (entry : Addr × Val) (entries : List (Addr × Val)) :
    writes store (entry :: entries) = writes (write store entry) entries := rfl

theorem writes_append (store : Addr → Val) (first second : List (Addr × Val)) :
    writes store (first ++ second) = writes (writes store first) second := List.foldl_append

theorem writes_apart (store : Addr → Val) (entries : List (Addr × Val)) (addr : Addr)
    (apart : ∀ entry ∈ entries, entry.1 ≠ addr) : writes store entries addr = store addr := by
  induction entries generalizing store with
  | nil => rfl
  | cons entry entries ih =>
      rw [writes_cons,ih _ fun other member => apart other (List.mem_cons_of_mem _ member)]
      exact if_neg (Ne.symm (apart entry (by simp)))

theorem writes_agree (store : Addr → Val) (entries : List (Addr × Val)) (addr : Addr) (val : Val)
    (agree : ∀ entry ∈ entries, entry.1 = addr → entry.2 = val) (start : store addr = val) :
    writes store entries addr = val := by
  induction entries generalizing store with
  | nil => exact start
  | cons entry entries ih =>
      rw [writes_cons]
      apply ih _ fun other member => agree other (List.mem_cons_of_mem _ member)
      unfold write
      split
      · rename_i same
        exact agree entry (by simp) same.symm
      · exact start

theorem writes_exact (store : Addr → Val) (entries : List (Addr × Val)) (addr : Addr) (val : Val)
    (member : (addr,val) ∈ entries) (agree : ∀ entry ∈ entries, entry.1 = addr → entry.2 = val) :
    writes store entries addr = val := by
  obtain ⟨first,second,rfl⟩ := List.append_of_mem member
  rw [writes_append,writes_cons]
  apply writes_agree _ _ _ _ fun other later => agree other (by simp [later])
  simp [write]

theorem writes_stored (store : Addr → Val) (entries : List (Addr × Val)) (addr : Addr) (val : Val)
    (listed : addr ∈ entries.map Prod.fst) (agree : ∀ entry ∈ entries, entry.1 = addr → entry.2 = val) :
    writes store entries addr = val := by
  obtain ⟨entry,member,same⟩ := List.mem_map.mp listed
  apply writes_exact _ _ _ _ _ agree
  rw [← same,← agree entry member same]
  exact member

end StoreWrites
