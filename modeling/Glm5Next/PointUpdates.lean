import Mathlib.Logic.Basic
import Mathlib.Data.List.Nodup

-- A kernel with one program per row, each of which changes one entry of a
-- buffer. Where the rows name distinct entries, every entry changes once.
namespace PointUpdates
variable {Key Val Arg : Type} [DecidableEq Key]

def modify (store : Key → Val) (key : Key) (change : Val → Val) : Key → Val :=
  fun k => if k = key then change (store k) else store k

def modifies (change : Key → Arg → Val → Val) (store : Key → Val) (entries : List (Key × Arg)) : Key → Val :=
  entries.foldl (fun store entry => modify store entry.1 (change entry.1 entry.2)) store

theorem modifies_cons (change : Key → Arg → Val → Val) (store : Key → Val) (entry : Key × Arg) (rest : List (Key × Arg)) :
    modifies change store (entry :: rest) = modifies change (modify store entry.1 (change entry.1 entry.2)) rest := rfl

theorem modifies_apart (change : Key → Arg → Val → Val) (store : Key → Val) (entries : List (Key × Arg)) (key : Key)
    (apart : key ∉ entries.map Prod.fst) : modifies change store entries key = store key := by
  induction entries generalizing store with
  | nil => rfl
  | cons entry rest ih =>
      rw [List.map_cons,List.mem_cons,not_or] at apart
      rw [modifies_cons,ih _ apart.2]
      exact if_neg apart.1

theorem modifies_exact (change : Key → Arg → Val → Val) (store : Key → Val) (entries : List (Key × Arg))
    (distinct : (entries.map Prod.fst).Nodup) (member : (key,arg) ∈ entries) :
    modifies change store entries key = change key arg (store key) := by
  induction entries generalizing store with
  | nil => cases member
  | cons entry rest ih =>
      obtain ⟨unlisted,distinct⟩ := List.nodup_cons.mp distinct
      rw [modifies_cons]
      rcases List.mem_cons.mp member with rfl | member
      · rw [modifies_apart change _ rest key unlisted]
        exact if_pos rfl
      · have different : key ≠ entry.1 := fun same => unlisted (same ▸ List.mem_map_of_mem member)
        rw [ih _ distinct member]
        exact congrArg (change key arg) (if_neg different)

theorem modifies_map (change : Key → Arg → Val → Val) (f : Key → Val → Val)
    (commute : ∀ key arg val, change key arg (f key val) = f key (change key arg val)) (store : Key → Val)
    (entries : List (Key × Arg)) :
    modifies change (fun key => f key (store key)) entries = fun key => f key (modifies change store entries key) := by
  induction entries generalizing store with
  | nil => rfl
  | cons entry rest ih =>
      have head : modify (fun key => f key (store key)) entry.1 (change entry.1 entry.2) =
          fun key => f key (modify store entry.1 (change entry.1 entry.2) key) := by
        funext key
        unfold modify
        split
        · rename_i same
          rw [same,commute]
        · rfl
      rw [modifies_cons,modifies_cons,head,ih]

def sweep {Out : Type} (visit : Arg → Val → Val × Out) : List (Key × Arg) → (Key → Val) → (Key → Val) × List Out
  | [],store => (store,[])
  | (key,arg) :: rest,store =>
    let (after,reports) := sweep visit rest (modify store key fun val => (visit arg val).1)
    (after,(visit arg (store key)).2 :: reports)

-- Over distinct entries every turn sees what was there before the loop.
theorem sweep_exact {Out : Type} (visit : Arg → Val → Val × Out) (entries : List (Key × Arg)) (store : Key → Val)
    (distinct : (entries.map Prod.fst).Nodup) :
    sweep visit entries store = (modifies (fun _ arg val => (visit arg val).1) store entries,
      entries.map fun entry => (visit entry.2 (store entry.1)).2) := by
  induction entries generalizing store with
  | nil => rfl
  | cons entry rest ih =>
      obtain ⟨unlisted,distinct⟩ := List.nodup_cons.mp distinct
      simp only [sweep,ih _ distinct,modifies_cons,List.map_cons]
      refine congrArg (fun reports => (_,_ :: reports)) (List.map_congr_left fun later member => ?_)
      have different : later.1 ≠ entry.1 := fun same => unlisted (same ▸ List.mem_map_of_mem member)
      rw [modify,if_neg different]

-- Entries given by the rows of a batch.
section Rows
variable {Row : Type} {key : Row → Key} {arg : Row → Arg} {rows : List Row}

theorem row_exact (change : Key → Arg → Val → Val) (store : Key → Val) (distinct : (rows.map key).Nodup)
    (member : row ∈ rows) :
    modifies change store (rows.map fun row => (key row,arg row)) (key row) =
      change (key row) (arg row) (store (key row)) := by
  apply modifies_exact
  · rw [List.map_map]
    exact distinct
  · exact List.mem_map.mpr ⟨row,member,rfl⟩

theorem row_apart (change : Key → Arg → Val → Val) (store : Key → Val) (unlisted : k ∉ rows.map key) :
    modifies change store (rows.map fun row => (key row,arg row)) k = store k := by
  apply modifies_apart
  rw [List.map_map]
  exact unlisted

theorem rows_sweep {Out : Type} (visit : Arg → Val → Val × Out) (store : Key → Val) (distinct : (rows.map key).Nodup) :
    sweep visit (rows.map fun row => (key row,arg row)) store =
      (modifies (fun _ arg val => (visit arg val).1) store (rows.map fun row => (key row,arg row)),
        rows.map fun row => (visit (arg row) (store (key row))).2) := by
  rw [sweep_exact]
  · rw [List.map_map]
    rfl
  · rw [List.map_map]
    exact distinct

end Rows

end PointUpdates
