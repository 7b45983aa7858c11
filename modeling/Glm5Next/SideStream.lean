import Glm5Next.OwnedRegions

-- A host feeds two in-order streams. Operations of the main stream change a
-- memory, those of the side stream read it. What is posted on the side stream
-- waits for the operations launched before the last wait; nothing on the main
-- stream waits for the side stream.
namespace SideStream
open OwnedRegions
variable {Mem Op Send Payload : Type}

inductive Command (Op Send : Type) where
  | launch (op : Op)
  | waitStream
  | post (send : Send)

structure Streams (Mem Op Send Payload : Type) where
  -- Not yet issued by the host.
  program : List (Command Op Send)
  main : List Op
  -- With the number of launches each one waits for.
  side : List (Nat × Send)
  issued : Nat
  executed : Nat
  waited : Nat
  mem : Mem
  delivered : List (Send × Payload)

def start (program : List (Command Op Send)) (mem : Mem) : Streams Mem Op Send Payload :=
  ⟨program,[],[],0,0,0,mem,[]⟩

inductive Tick where
  | issue
  | main
  | side
  deriving DecidableEq, Repr

def issueNext (s : Streams Mem Op Send Payload) : Option (Streams Mem Op Send Payload) :=
  match s.program with
  | [] => none
  | .launch op :: rest => some { s with program := rest, main := s.main ++ [op], issued := s.issued + 1 }
  | .waitStream :: rest => some { s with program := rest, waited := s.issued }
  | .post send :: rest => some { s with program := rest, side := s.side ++ [(s.waited,send)] }

def advance (apply : Op → Mem → Mem) (read : Send → Mem → Payload) (s : Streams Mem Op Send Payload) :
    Tick → Option (Streams Mem Op Send Payload)
  | .issue => issueNext s
  | .main =>
    match s.main with
    | [] => none
    | op :: rest => some { s with main := rest, executed := s.executed + 1, mem := apply op s.mem }
  | .side =>
    match s.side with
    | [] => none
    | (after,send) :: rest =>
      if after ≤ s.executed then
        some { s with side := rest, delivered := s.delivered ++ [(send,read send s.mem)] }
      else none

-- Plays the ticks as long as each is allowed in the state it is taken in.
def play (apply : Op → Mem → Mem) (read : Send → Mem → Payload)
    (allowed : Streams Mem Op Send Payload → Tick → Bool) (s : Streams Mem Op Send Payload) :
    List Tick → Option (Streams Mem Op Send Payload)
  | [] => some s
  | tick :: ticks =>
    if allowed s tick then do
      let next ← advance apply read s tick
      play apply read allowed next ticks
    else none

-- A run in which every tick was legal in the state it was taken in.
inductive Runs (apply : Op → Mem → Mem) (read : Send → Mem → Payload)
    (legal : Streams Mem Op Send Payload → Tick → Prop) :
    Streams Mem Op Send Payload → List Tick → Streams Mem Op Send Payload → Prop where
  | nil : Runs apply read legal s [] s
  | cons : legal s tick → advance apply read s tick = some middle → Runs apply read legal middle ticks s' →
      Runs apply read legal s (tick :: ticks) s'

-- Every way a tick can go.
inductive Step (apply : Op → Mem → Mem) (read : Send → Mem → Payload) :
    Streams Mem Op Send Payload → Tick → Streams Mem Op Send Payload → Prop where
  | launch : s.program = .launch op :: rest →
      Step apply read s .issue { s with program := rest, main := s.main ++ [op], issued := s.issued + 1 }
  | waitStream : s.program = .waitStream :: rest →
      Step apply read s .issue { s with program := rest, waited := s.issued }
  | post : s.program = .post send :: rest →
      Step apply read s .issue { s with program := rest, side := s.side ++ [(s.waited,send)] }
  | main : s.main = op :: rest →
      Step apply read s .main { s with main := rest, executed := s.executed + 1, mem := apply op s.mem }
  | side : s.side = (after,send) :: rest → after ≤ s.executed →
      Step apply read s .side { s with side := rest, delivered := s.delivered ++ [(send,read send s.mem)] }

variable {apply : Op → Mem → Mem} {read : Send → Mem → Payload}
  {legal : Streams Mem Op Send Payload → Tick → Prop} {s s' : Streams Mem Op Send Payload}

theorem play_exact {allowed : Streams Mem Op Send Payload → Tick → Bool} :
    play apply read allowed s ticks = some s' ↔ Runs apply read (fun s tick => allowed s tick = true) s ticks s' := by
  induction ticks generalizing s with
  | nil =>
      simp only [play,Option.some.injEq]
      exact ⟨fun same => same ▸ Runs.nil,fun path => by cases path; rfl⟩
  | cons tick ticks ih =>
      constructor
      · intro played
        simp only [play] at played
        split at played
        · rename_i legal
          obtain ⟨middle,first,later⟩ := Option.bind_eq_some_iff.mp played
          exact .cons legal first (ih.mp later)
        · cases played
      · intro path
        cases path with
        | cons legal first later => simp [play,legal,first,ih.mpr later]

theorem advance_step (advanced : advance apply read s tick = some s') : Step apply read s tick s' := by
  cases tick with
  | issue =>
      cases pending : s.program with
      | nil => simp [advance,issueNext,pending] at advanced
      | cons command rest =>
          cases command with
          | launch op =>
              simp only [advance,issueNext,pending,Option.some.injEq] at advanced
              exact advanced ▸ .launch pending
          | waitStream =>
              simp only [advance,issueNext,pending,Option.some.injEq] at advanced
              exact advanced ▸ .waitStream pending
          | post send =>
              simp only [advance,issueNext,pending,Option.some.injEq] at advanced
              exact advanced ▸ .post pending
  | main =>
      cases pending : s.main with
      | nil => simp [advance,pending] at advanced
      | cons op rest =>
          simp only [advance,pending,Option.some.injEq] at advanced
          exact advanced ▸ .main pending
  | side =>
      cases pending : s.side with
      | nil => simp [advance,pending] at advanced
      | cons front rest =>
          obtain ⟨after,send⟩ := front
          simp only [advance,pending] at advanced
          split at advanced
          · rename_i ready
            cases Option.some.inj advanced
            exact .side pending ready
          · cases advanced

-- `good send mem`: the memory holds what the send was posted for. A program
-- is sound when that is so, with a wait in between, at every post.
def Sound (apply : Op → Mem → Mem) (good : Send → Mem → Prop) : Mem → Prop → List (Command Op Send) → Prop
  | _,_,[] => True
  | mem,_,.launch op :: rest => Sound apply good (apply op mem) False rest
  | mem,_,.waitStream :: rest => Sound apply good mem True rest
  | mem,fresh,.post send :: rest => fresh ∧ good send mem ∧ Sound apply good mem fresh rest

variable {good : Send → Mem → Prop}

theorem sound_mono (sound : Sound apply good mem fresh program) (implies : fresh → fresh') :
    Sound apply good mem fresh' program := by
  induction program with
  | nil => trivial
  | cons command rest ih =>
      cases command with
      | launch op => exact sound
      | waitStream => exact sound
      | post send => exact ⟨implies sound.1,sound.2.1,ih sound.2.2⟩

theorem sound_launches (ops : List Op) (fresh : Prop)
    (sound : ∀ fresh, Sound apply good (run apply ops mem) fresh rest) :
    Sound apply good mem fresh (ops.map .launch ++ rest) := by
  induction ops generalizing mem fresh with
  | nil => exact sound fresh
  | cons op ops ih => exact ih False sound

-- A tick disturbs no send that is free to go: what it reads stays as it is.
def Undisturbed (apply : Op → Mem → Mem) (agree : Send → Mem → Mem → Prop)
    (s : Streams Mem Op Send Payload) (tick : Tick) : Prop :=
  tick = .main → ∀ op rest, s.main = op :: rest → ∀ after send, (after,send) ∈ s.side → after ≤ s.executed →
    agree send s.mem (apply op s.mem)

structure Kept (apply : Op → Mem → Mem) (read : Send → Mem → Payload) (good : Send → Mem → Prop)
    (s : Streams Mem Op Send Payload) : Prop where
  counted : s.issued = s.executed + s.main.length
  early : s.waited ≤ s.issued
  bounded : ∀ after send, (after,send) ∈ s.side → after ≤ s.issued
  -- A waiting send finds its memory once the operations it waits for have run.
  promised : ∀ after send, (after,send) ∈ s.side → good send (run apply (s.main.take (after - s.executed)) s.mem)
  sound : Sound apply good (run apply s.main s.mem) (s.waited = s.issued) s.program
  exact : ∀ send payload, (send,payload) ∈ s.delivered → ∃ mem, good send mem ∧ payload = read send mem

theorem start_kept (sound : Sound apply good mem False program) :
    Kept apply read good (start program mem) where
  counted := rfl
  early := Nat.le_refl 0
  bounded := by simp [start]
  promised := by simp [start]
  sound := sound_mono sound False.elim
  exact := by simp [start]

theorem launch_kept (kept : Kept apply read good s) (pending : s.program = .launch op :: rest) :
    Kept apply read good { s with program := rest, main := s.main ++ [op], issued := s.issued + 1 } where
  counted := by
    have counted := kept.counted
    simp only [List.length_append,List.length_singleton]
    omega
  early := Nat.le_succ_of_le kept.early
  bounded := fun after send member => Nat.le_succ_of_le (kept.bounded after send member)
  promised := by
    intro after send member
    have bounded := kept.bounded after send member
    have counted := kept.counted
    have within : after - s.executed ≤ s.main.length := by omega
    show good send (run apply ((s.main ++ [op]).take (after - s.executed)) s.mem)
    rw [List.take_append_of_le_length within]
    exact kept.promised after send member
  sound := by
    have sound := kept.sound
    rw [pending] at sound
    show Sound apply good (run apply (s.main ++ [op]) s.mem) (s.waited = s.issued + 1) rest
    rw [run_append]
    exact sound_mono sound False.elim
  exact := kept.exact

theorem wait_kept (kept : Kept apply read good s) (pending : s.program = .waitStream :: rest) :
    Kept apply read good { s with program := rest, waited := s.issued } where
  counted := kept.counted
  early := Nat.le_refl _
  bounded := kept.bounded
  promised := kept.promised
  sound := by
    have sound := kept.sound
    rw [pending] at sound
    exact sound_mono sound fun _ => rfl
  exact := kept.exact

theorem post_kept (kept : Kept apply read good s) (pending : s.program = .post send :: rest) :
    Kept apply read good { s with program := rest, side := s.side ++ [(s.waited,send)] } := by
  have sound := kept.sound
  rw [pending] at sound
  obtain ⟨fresh,found,sound⟩ := sound
  refine ⟨kept.counted,kept.early,?_,?_,sound,kept.exact⟩
  · intro after other member
    rcases List.mem_append.mp member with member | member
    · exact kept.bounded after other member
    · cases List.mem_singleton.mp member
      exact kept.early
  · intro after other member
    rcases List.mem_append.mp member with member | member
    · exact kept.promised after other member
    · cases List.mem_singleton.mp member
      have counted := kept.counted
      have all : s.main.length ≤ s.waited - s.executed := by omega
      show good send (run apply (s.main.take (s.waited - s.executed)) s.mem)
      rw [List.take_of_length_le all]
      exact found

-- Only a send that is free to go can see the operation executed now; for the
-- others it is the first of those they still wait for.
theorem main_kept {agree : Send → Mem → Mem → Prop} (kept : Kept apply read good s)
    (keeps : ∀ send mem mem', good send mem → agree send mem mem' → good send mem')
    (undisturbed : Undisturbed apply agree s .main) (pending : s.main = op :: rest) :
    Kept apply read good { s with main := rest, executed := s.executed + 1, mem := apply op s.mem } where
  counted := by
    have counted := kept.counted
    rw [pending,List.length_cons] at counted
    show s.issued = s.executed + 1 + rest.length
    omega
  early := kept.early
  bounded := kept.bounded
  promised := by
    intro after send member
    have promised := kept.promised after send member
    show good send (run apply (rest.take (after - (s.executed + 1))) (apply op s.mem))
    rw [pending] at promised
    by_cases ready : after ≤ s.executed
    · have now : after - s.executed = 0 := by omega
      have later : after - (s.executed + 1) = 0 := by omega
      rw [now] at promised
      rw [later]
      exact keeps send _ _ promised (undisturbed rfl op rest pending after send member ready)
    · have front : after - s.executed = after - (s.executed + 1) + 1 := by omega
      rw [front] at promised
      exact promised
  sound := by
    have sound := kept.sound
    rw [pending] at sound
    exact sound
  exact := kept.exact

theorem side_kept (kept : Kept apply read good s) (pending : s.side = (after,send) :: rest)
    (ready : after ≤ s.executed) :
    Kept apply read good { s with side := rest, delivered := s.delivered ++ [(send,read send s.mem)] } where
  counted := kept.counted
  early := kept.early
  bounded := fun after' send' member => kept.bounded after' send' (by rw [pending]; exact .tail _ member)
  promised := fun after' send' member => kept.promised after' send' (by rw [pending]; exact .tail _ member)
  sound := kept.sound
  exact := by
    intro other payload member
    rcases List.mem_append.mp member with member | member
    · exact kept.exact other payload member
    · cases List.mem_singleton.mp member
      have promised := kept.promised after send (by rw [pending]; exact .head _)
      rw [Nat.sub_eq_zero_of_le ready] at promised
      exact ⟨s.mem,promised,rfl⟩

theorem step_kept {agree : Send → Mem → Mem → Prop} (kept : Kept apply read good s)
    (keeps : ∀ send mem mem', good send mem → agree send mem mem' → good send mem')
    (undisturbed : Undisturbed apply agree s tick) (step : Step apply read s tick s') :
    Kept apply read good s' := by
  cases step with
  | launch pending => exact launch_kept kept pending
  | waitStream pending => exact wait_kept kept pending
  | post pending => exact post_kept kept pending
  | main pending => exact main_kept kept keeps undisturbed pending
  | side pending ready => exact side_kept kept pending ready

theorem runs_kept {agree : Send → Mem → Mem → Prop} (kept : Kept apply read good s)
    (keeps : ∀ send mem mem', good send mem → agree send mem mem' → good send mem')
    (undisturbed : ∀ s tick, legal s tick → Undisturbed apply agree s tick)
    (path : Runs apply read legal s ticks s') : Kept apply read good s' := by
  induction path with
  | nil => exact kept
  | cons allowed advanced _ ih =>
      exact ih (step_kept kept keeps (undisturbed _ _ allowed) (advance_step advanced))

end SideStream
