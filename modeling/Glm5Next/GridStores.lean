import Glm5Next.Ragged
import Mathlib.Logic.Function.Basic
import Mathlib.Data.List.Nodup
import Mathlib.Data.List.Perm.Basic

-- A launch as the statements of its programs, each of which stores one cell.
-- Where no cell is stored twice and a statement reads no cell that another one
-- stores, the statements may run in any order.
namespace GridStores
variable {Cell : Type} {Val : Cell → Type}

structure Statement (Val : Cell → Type) where
  cell : Cell
  value : (∀ c, Val c) → Val cell

def cells (sts : List (Statement Val)) : List Cell := sts.map Statement.cell

structure RaceFree (sts : List (Statement Val)) : Prop where
  once : (cells sts).Nodup
  reads : ∀ st ∈ sts, ∀ mem mem', mem st.cell = mem' st.cell → (∀ c, c ∉ cells sts → mem c = mem' c) →
    st.value mem = st.value mem'

def constant (cell : Cell) (val : Val cell) : Statement Val := ⟨cell,fun _ => val⟩

theorem RaceFree.perm {sts sts' : List (Statement Val)} (free : RaceFree sts) (perm : sts'.Perm sts) :
    RaceFree sts' := by
  have moved : (cells sts').Perm (cells sts) := perm.map _
  refine ⟨moved.nodup_iff.mpr free.once,?_⟩
  intro st member mem mem' own apart
  exact free.reads st (perm.mem_iff.mp member) mem mem' own fun c unlisted =>
    apart c fun listed => unlisted (moved.mem_iff.mp listed)

section Run
variable [DecidableEq Cell]

def Statement.run (st : Statement Val) (mem : ∀ c, Val c) : ∀ c, Val c :=
  Function.update mem st.cell (st.value mem)

def run (sts : List (Statement Val)) (mem : ∀ c, Val c) : ∀ c, Val c := sts.foldl (fun mem st => st.run mem) mem

theorem run_append (first second : List (Statement Val)) (mem : ∀ c, Val c) :
    run (first ++ second) mem = run second (run first mem) := List.foldl_append

theorem run_apart (sts : List (Statement Val)) (mem : ∀ c, Val c) (apart : c ∉ cells sts) : run sts mem c = mem c := by
  induction sts generalizing mem with
  | nil => rfl
  | cons st sts ih =>
      simp only [cells,List.map_cons,List.mem_cons,not_or] at apart
      show run sts (st.run mem) c = mem c
      rw [ih _ apart.2,Statement.run,Function.update_of_ne apart.1]

theorem run_exact {sts : List (Statement Val)} (free : RaceFree sts) (mem : ∀ c, Val c) (member : st ∈ sts) :
    run sts mem st.cell = st.value mem := by
  obtain ⟨first,second,rfl⟩ := List.append_of_mem member
  have once := free.once
  simp only [cells,List.map_append,List.map_cons] at once
  have unlisted := List.nodup_middle.mp once
  have fresh := (List.nodup_cons.mp unlisted).1
  rw [List.mem_append,not_or] at fresh
  rw [run_append]
  show run second (st.run (run first mem)) st.cell = st.value mem
  rw [run_apart second _ fresh.2,Statement.run,Function.update_self]
  apply free.reads st member
  · exact run_apart first mem fresh.1
  · intro c unstored
    apply run_apart first mem
    intro listed
    apply unstored
    simp only [cells,List.map_append,List.mem_append]
    exact Or.inl listed

-- The memory after a launch does not depend on the order of its statements.
theorem run_perm {sts sts' : List (Statement Val)} (free : RaceFree sts) (perm : sts'.Perm sts) (mem : ∀ c, Val c) :
    run sts' mem = run sts mem := by
  have moved : (cells sts').Perm (cells sts) := perm.map _
  funext c
  by_cases listed : c ∈ cells sts
  · obtain ⟨st,member,rfl⟩ := List.mem_map.mp listed
    rw [run_exact free mem member,run_exact (free.perm perm) mem (perm.mem_iff.mpr member)]
  · rw [run_apart sts mem listed,run_apart sts' mem fun stored => listed (moved.mem_iff.mp stored)]

theorem run_spec {sts order : List (Statement Val)} (free : RaceFree sts) (all : order.Perm sts) (mem spec : ∀ c, Val c)
    (stored : ∀ st ∈ sts, st.value mem = spec st.cell) (apart : ∀ c, c ∉ cells sts → spec c = mem c) :
    run order mem = spec := by
  rw [run_perm free all]
  funext c
  by_cases listed : c ∈ cells sts
  · obtain ⟨st,member,rfl⟩ := List.mem_map.mp listed
    rw [run_exact free mem member,stored st member]
  · rw [run_apart sts mem listed,apart c listed]

end Run

theorem nodup_owned {Index : Type} (programs : Index → List (Statement Val)) (indices : List Index)
    (distinct : indices.Nodup) (owner : Cell → Index) (own : ∀ i ∈ indices, ∀ c ∈ cells (programs i), owner c = i)
    (once : ∀ i ∈ indices, (cells (programs i)).Nodup) : (cells (indices.flatMap programs)).Nodup := by
  unfold cells at *
  rw [List.map_flatMap,List.nodup_flatMap]
  refine ⟨once,?_⟩
  apply List.Pairwise.imp_of_mem _ distinct
  intro i j listed listed' different c member member'
  exact different ((own i listed c member).symm.trans (own j listed' c member'))

-- The lanes of `for i in range(lo,hi,block)` under the mask `lane < hi`.
def lanes (lo hi block : Nat) : List Nat :=
  (List.range ((hi - lo + block - 1) / block)).flatMap fun i =>
    ((List.range block).map fun lane => lo + i * block + lane).filter fun lane => decide (lane < hi)

theorem lanes_exact (positive : 0 < block) : j ∈ lanes lo hi block ↔ lo ≤ j ∧ j < hi := by
  unfold lanes
  simp only [List.mem_flatMap,List.mem_range,List.mem_filter,List.mem_map,decide_eq_true_eq]
  constructor
  · rintro ⟨i,_,⟨lane,_,rfl⟩,inside⟩
    exact ⟨by omega,inside⟩
  · rintro ⟨low,high⟩
    have split := Nat.div_add_mod (j - lo) block
    have short := Nat.mod_lt (j - lo) positive
    refine ⟨(j - lo) / block,?_,⟨(j - lo) % block,short,?_⟩,high⟩
    · rw [Nat.div_lt_iff_lt_mul positive]
      have rounded := Nat.div_add_mod (hi - lo + block - 1) block
      have rest := Nat.mod_lt (hi - lo + block - 1) positive
      rw [Nat.mul_comm]
      omega
    · rw [Nat.mul_comm,Nat.add_assoc,split]
      omega

theorem lanes_nodup (lo hi block : Nat) : (lanes lo hi block).Nodup := by
  unfold lanes
  rw [List.nodup_flatMap]
  constructor
  · intro i _
    apply List.Nodup.filter
    exact List.nodup_range.map fun a b same => by simpa using same
  · apply List.Pairwise.imp_of_mem _ List.nodup_range
    intro i i' _ _ different j member member'
    simp only [List.mem_filter,List.mem_map,List.mem_range] at member member'
    obtain ⟨⟨lane,inside,rfl⟩,_⟩ := member
    obtain ⟨⟨lane',inside',same⟩,_⟩ := member'
    apply different
    have row := congrArg (fun n => (n - lo) / block) same
    simp only [Nat.add_assoc,Nat.add_sub_cancel_left] at row
    rw [Ragged.grid_row inside,Ragged.grid_row inside'] at row
    exact row.symm

end GridStores
