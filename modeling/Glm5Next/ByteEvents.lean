import Mathlib.Data.List.Induction
import Mathlib.Logic.Function.Basic
import Glm5Next.ByteCopies
import Glm5Next.OwnedRegions

-- Copy steps of several programs, the load and the store of every byte an event
-- of its own. A program keeps what it loaded in its registers.
namespace ByteEvents
open ByteCopies OwnedRegions

inductive Event where
  | load (o : Nat)
  | store (o : Nat)

def Event.offset : Event → Nat
  | .load o => o
  | .store o => o

structure Machine (Index : Type) where
  mem : Nat → UInt8
  regs : Index → Nat → UInt8

-- The lanes of a step go in any order, its loads before its stores.
inductive Performed : List CopyStep → List Event → Prop where
  | done : Performed [] []
  | step {step : CopyStep} {loads stores : List Nat} {events : List Event} : loads.Perm step.offsets →
      stores.Perm step.offsets → Performed steps events →
      Performed (step :: steps) (loads.map .load ++ stores.map .store ++ events)

def programEvents (steps : List CopyStep) : List Event :=
  steps.flatMap fun step => step.offsets.map .load ++ step.offsets.map .store

theorem program_performed (steps : List CopyStep) : Performed steps (programEvents steps) := by
  induction steps with
  | nil => exact .done
  | cons step steps ih => exact .step (List.Perm.refl _) (List.Perm.refl _) ih

theorem Performed.event (performed : Performed steps events) (event : Event) :
    event ∈ events ↔ ∃ step ∈ steps, event.offset ∈ step.offsets := by
  induction performed with
  | done => simp
  | step loaded stored _ ih => cases event <;> simp [ih,loaded.mem_iff,stored.mem_iff,Event.offset]

section Events
variable {Index : Type} [DecidableEq Index]

def Event.run (src dst : Nat) (i : Index) (s : Machine Index) : Event → Machine Index
  | .load o => {s with regs := Function.update s.regs i (Function.update (s.regs i) o (s.mem (src + o)))}
  | .store o => {s with mem := Function.update s.mem (dst + o) (s.regs i o)}

def runEvents (src dst : Nat) (mixed : List (Index × Event)) (s : Machine Index) : Machine Index :=
  run (fun entry s => entry.2.run src dst entry.1 s) mixed s

-- A byte that is stored before another is loaded is not that other byte, or it is
-- copied onto itself.
def Harmless (src dst : Nat) : Event → Event → Prop
  | .store o,.load o' => dst + o = src + o' → o = o'
  | _,_ => True

def Armed (mixed : List (Index × Event)) : Prop :=
  ∀ before i o after, mixed = before ++ (i,.store o) :: after → (i,.load o) ∈ before

structure Done (src dst : Nat) (mem : Nat → UInt8) (past : List (Index × Event)) (s : Machine Index) : Prop where
  loaded : ∀ i o, (i,.load o) ∈ past → s.regs i o = mem (src + o)
  copied : Copied src dst (fun o => ∃ i, (i,.store o) ∈ past) mem s.mem

variable {src dst : Nat} {mem : Nat → UInt8} {past mixed : List (Index × Event)} {s : Machine Index}

omit [DecidableEq Index] in
theorem Armed.before (armed : Armed (past ++ [entry])) : Armed past := by
  rintro before i o after rfl
  exact armed before i o (after ++ [entry]) (by simp)

theorem load_done (done : Done src dst mem past s) (harmless : ∀ early ∈ past, Harmless src dst early.2 (.load o)) :
    Done src dst mem (past ++ [(i,.load o)]) ((Event.load o).run src dst i s) := by
  have fresh : s.mem (src + o) = mem (src + o) := by
    by_cases stored : ∃ o', (∃ j, (j,.store o') ∈ past) ∧ src + o = dst + o'
    · obtain ⟨o',⟨j,member⟩,same⟩ := stored
      obtain rfl : o' = o := harmless _ member same.symm
      rw [same,done.copied.copied o' ⟨j,member⟩,← same]
    · exact done.copied.kept _ fun o' member same => stored ⟨o',member,same⟩
  constructor
  · intro i' o' member
    simp only [List.mem_append,List.mem_singleton,Prod.mk.injEq,Event.load.injEq] at member
    by_cases here : i' = i
    · subst here
      by_cases same : o' = o
      · subst same
        simp [Event.run,fresh]
      · simpa [Event.run,same] using done.loaded i' o' (member.resolve_right fun both => same both.2)
    · simpa [Event.run,here] using done.loaded i' o' (member.resolve_right fun both => here both.1)
  · refine done.copied.congr fun o' => ?_
    simp

theorem store_done (done : Done src dst mem past s) (loaded : (i,.load o) ∈ past) :
    Done src dst mem (past ++ [(i,.store o)]) ((Event.store o).run src dst i s) := by
  constructor
  · intro i' o' member
    exact done.loaded i' o' (by simpa using member)
  · constructor
    · rintro o' ⟨j,member⟩
      by_cases same : o' = o
      · subst same
        simp [Event.run,done.loaded i o' loaded]
      · have apart : dst + o' ≠ dst + o := fun equal => same (Nat.add_left_cancel equal)
        have before : (j,.store o') ∈ past := by simpa [same] using member
        simpa [Event.run,Function.update_of_ne apart] using done.copied.copied o' ⟨j,before⟩
    · intro addr apart
      have other : addr ≠ dst + o := apart o ⟨i,by simp⟩
      simp only [Event.run,Function.update_of_ne other]
      exact done.copied.kept addr fun o' ⟨j,member⟩ => apart o' ⟨j,List.mem_append_left _ member⟩

theorem events_done (armed : Armed mixed)
    (harmless : mixed.Pairwise fun early late => Harmless src dst early.2 late.2) (s : Machine Index) :
    Done src dst s.mem mixed (runEvents src dst mixed s) := by
  induction mixed using List.reverseRecOn with
  | nil =>
      have none (entry : Index × Event) : entry ∉ ([] : List (Index × Event)) := List.not_mem_nil
      exact ⟨fun _ _ member => absurd member (none _),fun _ ⟨_,member⟩ => absurd member (none _),fun _ _ => rfl⟩
  | append_singleton past entry ih =>
      obtain ⟨before,_,last⟩ := List.pairwise_append.mp harmless
      have done := ih armed.before before
      obtain ⟨i,event⟩ := entry
      unfold runEvents at done ⊢
      rw [run_append]
      cases event with
      | load o => exact load_done done fun early member => last early member _ List.mem_cons_self
      | store o => exact store_done done (armed past i o [] rfl)

omit [DecidableEq Index] in
theorem armed_append {first second : List Event} (armed : ∀ before o after, first = before ++ .store o :: after → .load o ∈ before)
    (armed' : ∀ before o after, second = before ++ .store o :: after → .load o ∈ before) :
    ∀ before o after, first ++ second = before ++ .store o :: after → .load o ∈ before := by
  intro before o after same
  rcases List.append_eq_append_iff.mp same with ⟨rest,rfl,split⟩ | ⟨rest,rfl,split⟩
  · exact List.mem_append_right _ (armed' rest o after split)
  · cases rest with
    | nil => simpa using armed' [] o after split.symm
    | cons event rest =>
        obtain ⟨rfl,_⟩ := List.cons.inj split
        exact armed before o rest rfl

omit [DecidableEq Index] in
theorem step_armed {loads stores : List Nat} (loaded : ∀ o ∈ stores, o ∈ loads) (before : List Event) (o : Nat)
    (after : List Event) (same : loads.map .load ++ stores.map .store = before ++ .store o :: after) : .load o ∈ before := by
  have listed : .store o ∈ loads.map Event.load ++ stores.map Event.store := by simp [same]
  have early : .load o ∈ loads.map Event.load := by simpa using loaded o (by simpa using listed)
  rcases List.append_eq_append_iff.mp same with ⟨rest,rfl,_⟩ | ⟨rest,split,later⟩
  · exact List.mem_append_left _ early
  · cases rest with
    | nil => simpa [split] using early
    | cons event rest =>
        obtain ⟨rfl,_⟩ := List.cons.inj later
        have wrong : .store o ∈ loads.map Event.load := by simp [split]
        simp at wrong

omit [DecidableEq Index] in
theorem performed_armed (performed : Performed steps events) :
    ∀ before o after, events = before ++ .store o :: after → .load o ∈ before := by
  induction performed with
  | done => simp
  | step loaded stored _ ih =>
      exact armed_append (step_armed fun o member => loaded.mem_iff.mpr (stored.mem_iff.mp member)) ih

theorem interleaved_armed {program : Index → List CopyStep} {own : Index → List Event}
    (performed : ∀ i, Performed (program i) (own i)) (interleaved : Interleaved own mixed) : Armed mixed := by
  rintro before i o after rfl
  have events := interleaved i
  simp only [List.filter_append,List.map_append,List.filter_cons,decide_true,if_true,List.map_cons] at events
  have loaded := performed_armed (performed i) _ o _ events.symm
  simpa using loaded

def Ahead (src dst : Nat) (early late : CopyStep) : Prop :=
  ∀ o ∈ early.offsets, ∀ o' ∈ late.offsets, dst + o = src + o' → o = o'

theorem Unread.ahead (unread : Unread src dst early late) : Ahead src dst early late :=
  fun o held o' held' same => absurd same (unread o held o' held')

theorem performed_harmless (performed : Performed steps events) (ahead : steps.Pairwise (Ahead src dst)) :
    events.Pairwise (Harmless src dst) := by
  induction performed with
  | done => exact List.Pairwise.nil
  | step loaded stored rest ih =>
      obtain ⟨first,ahead⟩ := List.pairwise_cons.mp ahead
      refine List.pairwise_append.mpr ⟨List.pairwise_append.mpr ⟨?_,?_,?_⟩,ih ahead,?_⟩
      · exact List.pairwise_map.mpr (List.pairwise_of_forall fun _ _ => trivial)
      · exact List.pairwise_map.mpr (List.pairwise_of_forall fun _ _ => trivial)
      · intro event member event' _
        obtain ⟨o,_,rfl⟩ := List.mem_map.mp member
        trivial
      · intro event member event' later
        cases event with
        | load o => trivial
        | store o =>
            cases event' with
            | store o' => trivial
            | load o' =>
                obtain ⟨late,listed,held⟩ := (rest.event _).mp later
                exact first late listed o (stored.mem_iff.mp (by simpa using member)) o' held

theorem interleaved_copied {program : Index → List CopyStep} {own : Index → List Event}
    (performed : ∀ i, Performed (program i) (own i)) (interleaved : Interleaved own mixed)
    (within : ∀ i, (program i).Pairwise (Ahead src dst))
    (across : ∀ i j, i ≠ j → ∀ early ∈ program i, ∀ late ∈ program j, Ahead src dst early late) (s : Machine Index) :
    Copied src dst (fun o => ∃ i, ∃ step ∈ program i, o ∈ step.offsets) s.mem (runEvents src dst mixed s).mem := by
  have harmless : mixed.Pairwise fun early late => Harmless src dst early.2 late.2 := by
    refine interleaved_pairwise interleaved (fun i => performed_harmless (performed i) (within i))
      fun i j other early first late second => ?_
    cases early with
    | load o => trivial
    | store o =>
        cases late with
        | store o' => trivial
        | load o' =>
            obtain ⟨step,listed,held⟩ := ((performed i).event _).mp first
            obtain ⟨step',listed',held'⟩ := ((performed j).event _).mp second
            exact across i j other step listed step' listed' o held o' held'
  refine (events_done (interleaved_armed performed interleaved) harmless s).copied.congr fun o => exists_congr fun i => ?_
  rw [interleaved_member interleaved,(performed i).event]
  rfl

end Events

end ByteEvents
