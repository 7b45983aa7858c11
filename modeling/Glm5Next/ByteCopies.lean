import Glm5Next.StoreWrites
import Mathlib.Algebra.Group.Nat.Defs

-- Copies in a memory of bytes. A step loads elements of some width at several
-- lanes, then stores what it loaded at the same offsets of the destination.
namespace ByteCopies
open StoreWrites

-- Little endian.
def loadElem (mem : Nat → UInt8) (addr : Nat) : Nat → Nat
  | 0 => 0
  | width + 1 => (mem addr).toNat + 256 * loadElem mem (addr + 1) width

def elemStores (addr width value : Nat) : List (Nat × UInt8) :=
  (List.range width).map fun j => (addr + j,UInt8.ofNat (value / 256 ^ j))

structure CopyStep where
  base : Nat
  width : Nat
  lanes : List Nat

def CopyStep.run (step : CopyStep) (src dst : Nat) (mem : Nat → UInt8) : Nat → UInt8 :=
  let data := step.lanes.map fun lane => (lane,loadElem mem (src + step.base + lane * step.width) step.width)
  writes mem (data.flatMap fun (lane,value) => elemStores (dst + step.base + lane * step.width) step.width value)

def runSteps (src dst : Nat) (steps : List CopyStep) (mem : Nat → UInt8) : Nat → UInt8 :=
  steps.foldl (fun mem step => step.run src dst mem) mem

def CopyStep.offsets (step : CopyStep) : List Nat :=
  step.lanes.flatMap fun lane => (List.range step.width).map fun j => step.base + lane * step.width + j

-- The bytes at some offsets were copied, and no other byte changed.
structure Copied (src dst : Nat) (offs : Nat → Prop) (before after : Nat → UInt8) : Prop where
  copied : ∀ o, offs o → after (dst + o) = before (src + o)
  kept : ∀ addr, (∀ o, offs o → addr ≠ dst + o) → after addr = before addr

def Unread (src dst : Nat) (early late : CopyStep) : Prop :=
  ∀ o ∈ early.offsets, ∀ o' ∈ late.offsets, dst + o ≠ src + o'

theorem loaded_byte (mem : Nat → UInt8) (addr : Nat) (inside : j < width) :
    UInt8.ofNat (loadElem mem addr width / 256 ^ j) = mem (addr + j) := by
  induction width generalizing addr j with
  | zero => exact absurd inside (Nat.not_lt_zero j)
  | succ width ih =>
      have low := (mem addr).toNat_lt
      cases j with
      | zero =>
          apply UInt8.toNat_inj.mp
          rw [Nat.pow_zero,Nat.div_one,UInt8.toNat_ofNat',loadElem,Nat.add_mul_mod_self_left,Nat.add_zero]
          exact Nat.mod_eq_of_lt low
      | succ j =>
          have rest : loadElem mem addr (width + 1) / 256 = loadElem mem (addr + 1) width := by
            rw [loadElem]
            omega
          rw [Nat.pow_succ,Nat.mul_comm,← Nat.div_div_eq_div_mul,rest,ih (addr + 1) (Nat.lt_of_succ_lt_succ inside)]
          congr 1
          omega

theorem step_entry (step : CopyStep) (src dst : Nat) (mem : Nat → UInt8) {entry : Nat × UInt8} :
    (entry ∈ (step.lanes.map fun lane => (lane,loadElem mem (src + step.base + lane * step.width) step.width)).flatMap
      fun (lane,value) => elemStores (dst + step.base + lane * step.width) step.width value) ↔
    ∃ o ∈ step.offsets, entry = (dst + o,mem (src + o)) := by
  constructor
  · intro member
    obtain ⟨_,loaded,stored⟩ := List.mem_flatMap.mp member
    obtain ⟨lane,listed,rfl⟩ := List.mem_map.mp loaded
    obtain ⟨j,inside,rfl⟩ := List.mem_map.mp stored
    refine ⟨step.base + lane * step.width + j,List.mem_flatMap.mpr ⟨lane,listed,List.mem_map.mpr ⟨j,inside,rfl⟩⟩,?_⟩
    rw [loaded_byte mem _ (List.mem_range.mp inside)]
    simp only [Nat.add_assoc]
  · rintro ⟨o,member,rfl⟩
    obtain ⟨lane,listed,placed⟩ := List.mem_flatMap.mp member
    obtain ⟨j,inside,rfl⟩ := List.mem_map.mp placed
    refine List.mem_flatMap.mpr ⟨_,List.mem_map.mpr ⟨lane,listed,rfl⟩,List.mem_map.mpr ⟨j,inside,?_⟩⟩
    rw [loaded_byte mem _ (List.mem_range.mp inside)]
    simp only [Nat.add_assoc]

theorem step_exact (step : CopyStep) (src dst : Nat) (mem : Nat → UInt8) :
    Copied src dst (· ∈ step.offsets) mem (step.run src dst mem) := by
  constructor
  · intro o member
    apply writes_exact
    · exact (step_entry step src dst mem).mpr ⟨o,member,rfl⟩
    · intro entry listed same
      obtain ⟨o',_,rfl⟩ := (step_entry step src dst mem).mp listed
      have equal : o' = o := Nat.add_left_cancel same
      rw [equal]
  · intro addr apart
    apply writes_apart
    intro entry listed same
    obtain ⟨o,member,rfl⟩ := (step_entry step src dst mem).mp listed
    exact apart o member same.symm

-- Steps none of which loads what an earlier one stored.
theorem run_exact (src dst : Nat) (steps : List CopyStep) (unread : steps.Pairwise (Unread src dst)) (mem : Nat → UInt8) :
    Copied src dst (fun o => ∃ step ∈ steps, o ∈ step.offsets) mem (runSteps src dst steps mem) := by
  induction steps generalizing mem with
  | nil => exact ⟨fun o ⟨_,absent,_⟩ => absurd absent List.not_mem_nil,fun _ _ => rfl⟩
  | cons step rest ih =>
      obtain ⟨first,unread⟩ := List.pairwise_cons.mp unread
      have one := step_exact step src dst mem
      have more := ih unread (step.run src dst mem)
      show Copied src dst _ mem (runSteps src dst rest (step.run src dst mem))
      constructor
      · rintro o ⟨other,listed,member⟩
        by_cases again : ∃ late ∈ rest, o ∈ late.offsets
        · rw [more.copied o again]
          obtain ⟨late,in_rest,held⟩ := again
          exact one.kept _ fun o' stored same => first late in_rest o' stored o held same.symm
        · have here : o ∈ step.offsets := by
            rcases List.mem_cons.mp listed with rfl | later
            · exact member
            · exact absurd ⟨other,later,member⟩ again
          have outside : ∀ o', (∃ late ∈ rest, o' ∈ late.offsets) → dst + o ≠ dst + o' := by
            intro o' late same
            rw [← Nat.add_left_cancel same] at late
            exact again late
          rw [more.kept _ outside,one.copied o here]
      · intro addr apart
        rw [more.kept addr fun o ⟨late,listed,held⟩ => apart o ⟨late,List.mem_cons_of_mem _ listed,held⟩]
        exact one.kept addr fun o held => apart o ⟨step,List.mem_cons_self,held⟩

theorem Copied.congr (done : Copied src dst offs before after) (same : ∀ o, offs o ↔ offs' o) :
    Copied src dst offs' before after :=
  ⟨fun o member => done.copied o ((same o).mpr member),
    fun addr apart => done.kept addr fun o member => apart o ((same o).mp member)⟩

theorem members_unread {steps : List CopyStep}
    (apart : ∀ early ∈ steps, ∀ late ∈ steps, Unread src dst early late) : steps.Pairwise (Unread src dst) :=
  List.Pairwise.imp_of_mem (R := fun _ _ => True) (fun first second _ => apart _ first _ second)
    (List.pairwise_of_forall fun _ _ => trivial)

theorem apart_unread {steps : List CopyStep} (within : ∀ step ∈ steps, ∀ o ∈ step.offsets, o < size)
    (apart : ∀ i < size, ∀ j < size, src + i ≠ dst + j) : steps.Pairwise (Unread src dst) := by
  apply members_unread
  intro early first late second o member o' member' same
  exact apart o' (within late second o' member') o (within early first o member) same.symm

-- A destination that does not lie behind its source: from the front.
theorem forward_unread {steps : List CopyStep} (behind : dst ≤ src)
    (ascending : steps.Pairwise fun early late => ∀ o ∈ early.offsets, ∀ o' ∈ late.offsets, o < o') :
    steps.Pairwise (Unread src dst) := by
  refine ascending.imp fun {early late} ordered o member o' member' same => ?_
  have := ordered o member o' member'
  omega

end ByteCopies
