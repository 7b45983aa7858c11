import Mathlib.Logic.Function.Basic
import Mathlib.Data.List.Nodup
import Mathlib.Data.List.Induction
import Mathlib.Data.List.Perm.Lattice

-- Values that belong together arrive in two halves, in any order and between
-- other events. A half waits under its key until the other one comes; then the
-- pair is taken and nothing waits under the key.
namespace PairedHalves
variable {K V C : Type}

structure Entry (V : Type) where
  left : Option V
  right : Option V

def Entry.empty : Entry V := ⟨none,none⟩

def Entry.half (entry : Entry V) (isLeft : Bool) : Option V := if isLeft then entry.left else entry.right

def Entry.put (entry : Entry V) (isLeft : Bool) (v : V) : Entry V :=
  if isLeft then {entry with left := some v} else {entry with right := some v}

def Entry.both (entry : Entry V) : Option (V × V) :=
  match entry.left,entry.right with
  | some l,some r => some (l,r)
  | _,_ => none

def Entry.only (isLeft : Bool) (v : V) : Entry V := Entry.empty.put isLeft v

def ordered (isLeft : Bool) (v other : V) : V × V := if isLeft then (v,other) else (other,v)

@[simp] theorem half_empty (isLeft : Bool) : (Entry.empty : Entry V).half isLeft = none := by
  cases isLeft <;> rfl

@[simp] theorem half_only (isLeft : Bool) (v : V) : (Entry.only isLeft v).half isLeft = some v := by
  cases isLeft <;> rfl

@[simp] theorem half_only_other (isLeft : Bool) (v : V) : (Entry.only isLeft v).half (!isLeft) = none := by
  cases isLeft <;> rfl

theorem put_waits {entry : Entry V} (missing : entry.half (!isLeft) = none) (v : V) :
    entry.put isLeft v = Entry.only isLeft v ∧ (entry.put isLeft v).both = none := by
  obtain ⟨left,right⟩ := entry
  cases isLeft with
  | true =>
      have none_right : right = none := missing
      subst none_right
      exact ⟨rfl,rfl⟩
  | false =>
      have none_left : left = none := missing
      subst none_left
      exact ⟨rfl,rfl⟩

theorem put_meets {entry : Entry V} (there : entry.half (!isLeft) = some other) (v : V) :
    (entry.put isLeft v).both = some (ordered isLeft v other) := by
  obtain ⟨left,right⟩ := entry
  cases isLeft with
  | true =>
      have right_there : right = some other := there
      subst right_there
      rfl
  | false =>
      have left_there : left = some other := there
      subst left_there
      rfl

inductive Event (K V C : Type) where
  | half (key : K) (isLeft : Bool) (v : V)
  | direct (call : C)

structure State (K V C : Type) where
  pending : K → Entry V
  log : List C

def start : State K V C := ⟨fun _ => Entry.empty,[]⟩

variable [DecidableEq K]

def step (pair : K → V → V → C) (s : State K V C) : Event K V C → State K V C
  | .direct call => ⟨s.pending,s.log ++ [call]⟩
  | .half key isLeft v =>
      let entry := (s.pending key).put isLeft v
      match entry.both with
      | none => ⟨Function.update s.pending key entry,s.log⟩
      | some (l,r) => ⟨Function.update s.pending key Entry.empty,s.log ++ [pair key l r]⟩

def run (pair : K → V → V → C) (s : State K V C) (events : List (Event K V C)) : State K V C :=
  events.foldl (step pair) s

variable {pair : K → V → V → C} {s : State K V C}

theorem step_waits (missing : (s.pending key).half (!isLeft) = none) (v : V) :
    step pair s (.half key isLeft v) = ⟨Function.update s.pending key (Entry.only isLeft v),s.log⟩ := by
  obtain ⟨alone,waits⟩ := put_waits missing v
  unfold step
  dsimp only
  rw [waits,alone]

theorem step_meets (there : (s.pending key).half (!isLeft) = some other) (v : V) :
    step pair s (.half key isLeft v) = ⟨Function.update s.pending key Entry.empty,
      s.log ++ [pair key (ordered isLeft v other).1 (ordered isLeft v other).2]⟩ := by
  unfold step
  dsimp only
  rw [put_meets there v]

theorem step_apart (different : key ≠ other) (isLeft : Bool) (v : V) :
    (step pair s (.half other isLeft v)).pending key = s.pending key := by
  cases met : (s.pending other).half (!isLeft) with
  | none =>
      rw [step_waits met]
      exact Function.update_of_ne different _ _
  | some found =>
      rw [step_meets met]
      exact Function.update_of_ne different _ _

theorem run_append (pair : K → V → V → C) (s : State K V C) (first second : List (Event K V C)) :
    run pair s (first ++ second) = run pair (run pair s first) second := List.foldl_append

structure Tracks (pair : K → V → V → C) (seen : List (Event K V C)) (s : State K V C) : Prop where
  waits : ∀ key isLeft v, (s.pending key).half isLeft = some v → Event.half key isLeft v ∈ seen
  lone : ∀ key isLeft v, (s.pending key).half isLeft = some v → (s.pending key).half (!isLeft) = none
  known : ∀ c ∈ s.log, Event.direct c ∈ seen ∨
    ∃ key l r, Event.half key true l ∈ seen ∧ Event.half key false r ∈ seen ∧ c = pair key l r
  calls : ∀ c, Event.direct c ∈ seen → c ∈ s.log
  kept : ∀ key isLeft v, Event.half key isLeft v ∈ seen → (∃ v', (s.pending key).half isLeft = some v') ∨
    ∃ l r, Event.half key true l ∈ seen ∧ Event.half key false r ∈ seen ∧ pair key l r ∈ s.log

omit [DecidableEq K] in
theorem tracks_start (pair : K → V → V → C) : Tracks pair [] start := by
  constructor
  · intro key isLeft v waiting
    cases isLeft <;> cases waiting
  · intro key isLeft v waiting
    cases isLeft <;> cases waiting
  · intro c logged
    cases logged
  · intro c member
    cases member
  · intro key isLeft v member
    cases member

theorem tracks_direct (tracks : Tracks pair seen s) (c : C) :
    Tracks pair (seen ++ [.direct c]) (step pair s (.direct c)) := by
  constructor
  · intro key isLeft v waiting
    exact List.mem_append_left _ (tracks.waits key isLeft v waiting)
  · exact tracks.lone
  · intro c' logged
    rcases List.mem_append.mp logged with before | now
    · rcases tracks.known c' before with called | ⟨key,l,r,left,right,same⟩
      · exact Or.inl (List.mem_append_left _ called)
      · exact Or.inr ⟨key,l,r,List.mem_append_left _ left,List.mem_append_left _ right,same⟩
    · rw [List.mem_singleton.mp now]
      exact Or.inl (by simp)
  · intro c' member
    rcases List.mem_append.mp member with before | now
    · exact List.mem_append_left _ (tracks.calls c' before)
    · cases List.mem_singleton.mp now
      exact List.mem_append_right _ (by simp)
  · intro key isLeft v member
    have before : Event.half key isLeft v ∈ seen := by simpa using member
    rcases tracks.kept key isLeft v before with waiting | ⟨l,r,left,right,logged⟩
    · exact Or.inl waiting
    · exact Or.inr ⟨l,r,List.mem_append_left _ left,List.mem_append_left _ right,List.mem_append_left _ logged⟩

omit [DecidableEq K] in
theorem seen_half {seen : List (Event K V C)} (member : Event.half key isLeft v ∈ seen ++ [.half key' isLeft' v']) :
    Event.half key isLeft v ∈ seen ∨ key = key' ∧ isLeft = isLeft' ∧ v = v' := by
  rcases List.mem_append.mp member with before | now
  · exact Or.inl before
  · cases List.mem_singleton.mp now
    exact Or.inr ⟨rfl,rfl,rfl⟩

theorem only_half (waiting : (Entry.only isLeft v).half isLeft' = some v') : isLeft' = isLeft ∧ v' = v := by
  cases isLeft <;> cases isLeft' <;> cases waiting <;> exact ⟨rfl,rfl⟩

theorem tracks_waits (tracks : Tracks pair seen s) (missing : (s.pending key).half (!isLeft) = none) (v : V) :
    Tracks pair (seen ++ [.half key isLeft v]) ⟨Function.update s.pending key (Entry.only isLeft v),s.log⟩ := by
  have grows : ∀ {e : Event K V C}, e ∈ seen → e ∈ seen ++ [.half key isLeft v] := List.mem_append_left _
  constructor
  · intro key' isLeft' v' waiting
    dsimp only at waiting
    by_cases same : key' = key
    · subst same
      rw [Function.update_self] at waiting
      obtain ⟨rfl,rfl⟩ := only_half waiting
      simp
    · rw [Function.update_of_ne same] at waiting
      exact grows (tracks.waits key' isLeft' v' waiting)
  · intro key' isLeft' v' waiting
    dsimp only at waiting ⊢
    by_cases same : key' = key
    · subst same
      rw [Function.update_self] at waiting ⊢
      obtain ⟨rfl,rfl⟩ := only_half waiting
      exact half_only_other _ _
    · rw [Function.update_of_ne same] at waiting ⊢
      exact tracks.lone key' isLeft' v' waiting
  · intro c logged
    rcases tracks.known c logged with before | ⟨key',l,r,left,right,same⟩
    · exact Or.inl (grows before)
    · exact Or.inr ⟨key',l,r,grows left,grows right,same⟩
  · intro c member
    exact tracks.calls c (by simpa using member)
  · intro key' isLeft' v' member
    dsimp only
    by_cases same : key' = key
    · subst same
      by_cases side : isLeft' = isLeft
      · rw [side,Function.update_self,half_only]
        exact Or.inl ⟨v,rfl⟩
      · rcases seen_half member with before | ⟨_,same_side,_⟩
        · rcases tracks.kept key' isLeft' v' before with ⟨v'',waiting⟩ | ⟨l,r,left,right,logged⟩
          · rw [← Bool.eq_not.mpr side,waiting] at missing
            cases missing
          · exact Or.inr ⟨l,r,grows left,grows right,logged⟩
        · exact absurd same_side side
    · rw [Function.update_of_ne same]
      rcases seen_half member with before | ⟨same_key,_,_⟩
      · rcases tracks.kept key' isLeft' v' before with waiting | ⟨l,r,left,right,logged⟩
        · exact Or.inl waiting
        · exact Or.inr ⟨l,r,grows left,grows right,logged⟩
      · exact absurd same_key same

theorem tracks_meets (tracks : Tracks pair seen s) (there : (s.pending key).half (!isLeft) = some other) (v : V) :
    Tracks pair (seen ++ [.half key isLeft v]) ⟨Function.update s.pending key Entry.empty,
      s.log ++ [pair key (ordered isLeft v other).1 (ordered isLeft v other).2]⟩ := by
  have grows : ∀ {e : Event K V C}, e ∈ seen → e ∈ seen ++ [.half key isLeft v] := List.mem_append_left _
  have arrived : Event.half key isLeft v ∈ seen ++ [.half key isLeft v] := by simp
  have waited := grows (tracks.waits key (!isLeft) other there)
  have halves : Event.half key true (ordered isLeft v other).1 ∈ seen ++ [.half key isLeft v] ∧
      Event.half key false (ordered isLeft v other).2 ∈ seen ++ [.half key isLeft v] := by
    cases isLeft with
    | true => exact ⟨arrived,waited⟩
    | false => exact ⟨waited,arrived⟩
  have still : ∀ key' isLeft' v', (Function.update s.pending key Entry.empty key').half isLeft' = some v' →
      key' ≠ key ∧ (s.pending key').half isLeft' = some v' := by
    intro key' isLeft' v' waiting
    by_cases same : key' = key
    · rw [same,Function.update_self,half_empty] at waiting
      cases waiting
    · rw [Function.update_of_ne same] at waiting
      exact ⟨same,waiting⟩
  constructor
  · intro key' isLeft' v' waiting
    exact grows (tracks.waits key' isLeft' v' (still key' isLeft' v' waiting).2)
  · intro key' isLeft' v' waiting
    obtain ⟨different,waiting⟩ := still key' isLeft' v' waiting
    dsimp only
    rw [Function.update_of_ne different]
    exact tracks.lone key' isLeft' v' waiting
  · intro c logged
    rcases List.mem_append.mp logged with before | now
    · rcases tracks.known c before with direct | ⟨key',l,r,left,right,same⟩
      · exact Or.inl (grows direct)
      · exact Or.inr ⟨key',l,r,grows left,grows right,same⟩
    · exact Or.inr ⟨key,_,_,halves.1,halves.2,List.mem_singleton.mp now⟩
  · intro c member
    exact List.mem_append_left _ (tracks.calls c (by simpa using member))
  · intro key' isLeft' v' member
    dsimp only
    by_cases same : key' = key
    · subst same
      exact Or.inr ⟨_,_,halves.1,halves.2,by simp⟩
    · rw [Function.update_of_ne same]
      rcases seen_half member with before | ⟨same_key,_,_⟩
      · rcases tracks.kept key' isLeft' v' before with waiting | ⟨l,r,left,right,logged⟩
        · exact Or.inl waiting
        · exact Or.inr ⟨l,r,grows left,grows right,List.mem_append_left _ logged⟩
      · exact absurd same_key same

theorem tracks_half (tracks : Tracks pair seen s) (key : K) (isLeft : Bool) (v : V) :
    Tracks pair (seen ++ [.half key isLeft v]) (step pair s (.half key isLeft v)) := by
  cases met : (s.pending key).half (!isLeft) with
  | none =>
      rw [step_waits met]
      exact tracks_waits tracks met v
  | some other =>
      rw [step_meets met]
      exact tracks_meets tracks met v

theorem tracks_run (pair : K → V → V → C) (events : List (Event K V C)) :
    Tracks pair events (run pair start events) := by
  induction events using List.reverseRecOn with
  | nil => exact tracks_start pair
  | append_singleton events e ih =>
      rw [run_append]
      cases e with
      | direct c => exact tracks_direct ih c
      | half key isLeft v => exact tracks_half ih key isLeft v

theorem pair_taken (pair : K → V → V → C) {events : List (Event K V C)} (left : Event.half key true l ∈ events)
    (right : Event.half key false r ∈ events) : ∃ l' r', Event.half key true l' ∈ events ∧
      Event.half key false r' ∈ events ∧ pair key l' r' ∈ (run pair start events).log := by
  have tracks := tracks_run pair events
  rcases tracks.kept key true l left with ⟨v,waiting⟩ | taken
  · rcases tracks.kept key false r right with ⟨v',waiting'⟩ | taken
    · have alone := tracks.lone key true v waiting
      rw [Bool.not_true,waiting'] at alone
      cases alone
    · exact taken
  · exact taken

section Once

def halfEvent (half : K × Bool × V) : Event K V C := .half half.1 half.2.1 half.2.2

def taken (halves : List (K × Bool × V)) : State K V (K × V × V) :=
  run (fun key l r => (key,l,r)) start (halves.map halfEvent)

def bothHalves (slot : K × V × V) : List (K × Bool × V) := [(slot.1,true,slot.2.1),(slot.1,false,slot.2.2)]

theorem taken_known (halves : List (K × Bool × V)) (logged : (key,l,r) ∈ (taken halves).log) :
    (key,true,l) ∈ halves ∧ (key,false,r) ∈ halves := by
  have came : ∀ isLeft v, (Event.half key isLeft v : Event K V (K × V × V)) ∈ halves.map halfEvent →
      (key,isLeft,v) ∈ halves := by
    intro isLeft v member
    obtain ⟨half,listed,same⟩ := List.mem_map.mp member
    obtain ⟨key',isLeft',v'⟩ := half
    cases same
    exact listed
  rcases (tracks_run _ (halves.map halfEvent)).known _ logged with direct | ⟨key',l',r',left,right,same⟩
  · obtain ⟨half,_,same⟩ := List.mem_map.mp direct
    cases same
  · cases same
    exact ⟨came true l left,came false r right⟩

-- When no half comes twice, no pair is taken twice, and nothing waits under a
-- key that was taken.
theorem taken_once (halves : List (K × Bool × V)) (distinct : (halves.map fun half => (half.1,half.2.1)).Nodup) :
    ((taken halves).log.map Prod.fst).Nodup ∧
      ∀ key ∈ (taken halves).log.map Prod.fst, (taken halves).pending key = Entry.empty := by
  induction halves using List.reverseRecOn with
  | nil => exact ⟨List.nodup_nil,fun _ member => by cases member⟩
  | append_singleton halves half ih =>
      obtain ⟨key,isLeft,v⟩ := half
      rw [List.map_append,List.nodup_append] at distinct
      obtain ⟨once,cleared⟩ := ih distinct.1
      have fresh : key ∉ (taken halves).log.map Prod.fst := by
        intro logged
        obtain ⟨⟨key',l,r⟩,member,rfl⟩ := List.mem_map.mp logged
        obtain ⟨left,right⟩ := taken_known halves member
        have again : (key',isLeft) ∈ halves.map fun half => (half.1,half.2.1) := by
          cases isLeft with
          | true => exact List.mem_map_of_mem (f := fun half => (half.1,half.2.1)) left
          | false => exact List.mem_map_of_mem (f := fun half => (half.1,half.2.1)) right
        exact distinct.2.2 _ again _ (List.mem_singleton.mpr rfl) rfl
      have next : taken (halves ++ [(key,isLeft,v)]) = step (fun key l r => (key,l,r)) (taken halves) (.half key isLeft v) := by
        unfold taken
        rw [List.map_append,run_append]
        rfl
      rw [next]
      cases met : ((taken halves).pending key).half (!isLeft) with
      | none =>
          rw [step_waits met]
          refine ⟨once,?_⟩
          intro other logged
          dsimp only
          have different : other ≠ key := fun same => fresh (same ▸ logged)
          rw [Function.update_of_ne different]
          exact cleared other logged
      | some other =>
          rw [step_meets met]
          dsimp only
          rw [List.map_append]
          constructor
          · exact once.append (List.nodup_singleton _) (by simpa using fresh)
          · intro other' logged
            by_cases same : other' = key
            · rw [same,Function.update_self]
            · rw [Function.update_of_ne same]
              exact cleared other' (by simpa [same] using logged)

omit [DecidableEq K] in
theorem half_of_slot {slot : K × V × V} (member : (key,isLeft,v) ∈ bothHalves slot) :
    slot.1 = key ∧ (if isLeft then slot.2.1 else slot.2.2) = v := by
  rcases List.mem_cons.mp member with first | second
  · cases first
    exact ⟨rfl,rfl⟩
  · cases List.mem_singleton.mp second
    exact ⟨rfl,rfl⟩

variable {slots : List (K × V × V)} {halves : List (K × Bool × V)}
  (distinct : (slots.map Prod.fst).Nodup) (order : halves.Perm (slots.flatMap bothHalves))
include distinct order

omit [DecidableEq K] in
theorem whole_slot (left : (key,true,l) ∈ halves) (right : (key,false,r) ∈ halves) : (key,l,r) ∈ slots := by
  obtain ⟨slot,listed,member⟩ := List.mem_flatMap.mp (order.mem_iff.mp left)
  obtain ⟨slot',listed',member'⟩ := List.mem_flatMap.mp (order.mem_iff.mp right)
  obtain ⟨same_key,same_left⟩ := half_of_slot member
  obtain ⟨same_key',same_right⟩ := half_of_slot member'
  have single : slot = slot' := List.inj_on_of_nodup_map distinct listed listed' (same_key.trans same_key'.symm)
  subst single
  obtain ⟨key',l',r'⟩ := slot
  cases same_key
  cases same_left
  cases same_right
  exact listed

omit [DecidableEq K] in
theorem halves_distinct : (halves.map fun half => (half.1,half.2.1)).Nodup := by
  rw [(order.map _).nodup_iff,List.map_flatMap]
  apply List.nodup_flatMap.mpr
  constructor
  · intro slot _
    simp [bothHalves]
  · apply (List.pairwise_map.mp distinct).imp
    intro slot slot' different
    simp [bothHalves,Ne.symm different]

theorem slot_taken (listed : slot ∈ slots) : slot ∈ (taken halves).log := by
  have comes : ∀ half ∈ bothHalves slot, (halfEvent half : Event K V (K × V × V)) ∈ halves.map halfEvent :=
    fun half member => List.mem_map_of_mem (order.mem_iff.mpr (List.mem_flatMap.mpr ⟨slot,listed,member⟩))
  obtain ⟨l,r,_,_,logged⟩ := pair_taken (fun key l r => (key,l,r)) (comes _ List.mem_cons_self)
    (comes _ (List.mem_cons_of_mem _ List.mem_cons_self))
  obtain ⟨left,right⟩ := taken_known halves logged
  have single : slot = (slot.1,l,r) :=
    List.inj_on_of_nodup_map distinct listed (whole_slot distinct order left right) rfl
  rw [single]
  exact logged

-- Every slot is taken once, with its own two halves, and nothing is left.
theorem slots_taken : (taken halves).log.Perm slots ∧ ∀ key, (taken halves).pending key = Entry.empty := by
  obtain ⟨once,cleared⟩ := taken_once halves (halves_distinct distinct order)
  constructor
  · apply (List.perm_ext_iff_of_nodup once.of_map distinct.of_map).mpr
    intro slot
    constructor
    · intro logged
      obtain ⟨left,right⟩ := taken_known halves logged
      exact whole_slot distinct order left right
    · exact slot_taken distinct order
  · intro key
    by_cases listed : key ∈ slots.map Prod.fst
    · obtain ⟨slot,member,rfl⟩ := List.mem_map.mp listed
      exact cleared slot.1 (List.mem_map_of_mem (slot_taken distinct order member))
    · have none_waits : ∀ isLeft, ((taken halves).pending key).half isLeft = none := by
        intro isLeft
        cases waiting : ((taken halves).pending key).half isLeft with
        | none => rfl
        | some v =>
            exfalso
            obtain ⟨half,member,same⟩ := List.mem_map.mp ((tracks_run _ (halves.map halfEvent)).waits key isLeft v waiting)
            obtain ⟨key',isLeft',v'⟩ := half
            cases same
            obtain ⟨slot,inside,held⟩ := List.mem_flatMap.mp (order.mem_iff.mp member)
            exact listed (List.mem_map.mpr ⟨slot,inside,(half_of_slot held).1⟩)
      exact congrArg₂ Entry.mk (none_waits true) (none_waits false)

end Once

section Last

theorem run_apart (events : List (Event K V C)) (s : State K V C)
    (free : ∀ e ∈ events, ∀ isLeft v, e ≠ .half key isLeft v) : (run pair s events).pending key = s.pending key := by
  induction events generalizing s with
  | nil => rfl
  | cons e events ih =>
      have rest := ih (step pair s e) fun e' member => free e' (List.mem_cons_of_mem _ member)
      refine rest.trans ?_
      cases e with
      | direct c => rfl
      | half other isLeft v =>
          apply step_apart
          rintro rfl
          exact free _ List.mem_cons_self isLeft v rfl

theorem run_side (pair : K → V → V → C) (key : K) (isLeft : Bool) (vs : List V) (s : State K V C)
    (missing : (s.pending key).half (!isLeft) = none) :
    (run pair s (vs.map fun v => .half key isLeft v)).log = s.log ∧
      ((run pair s (vs.map fun v => .half key isLeft v)).pending key).half (!isLeft) = none := by
  induction vs generalizing s with
  | nil => exact ⟨rfl,missing⟩
  | cons v vs ih =>
      rw [List.map_cons]
      unfold run at ih ⊢
      rw [List.foldl_cons,step_waits missing]
      apply ih
      dsimp only
      rw [Function.update_self]
      exact half_only_other _ _

-- An order in which a given pair is the last to be taken.
theorem last_pair (others : List (Event K V C)) (free : ∀ e ∈ others, ∀ isLeft v, e ≠ .half key isLeft v)
    (lefts rights : List V) (l r : V) :
    (run pair start (others ++ (lefts ++ [l]).map (fun v => .half key true v) ++ (r :: rights).map fun v => .half key false v)).log =
      (run pair start others).log ++ [pair key l r] := by
  have empty : ∀ isLeft, ((run pair start others).pending key).half isLeft = none := by
    intro isLeft
    rw [run_apart others start free]
    exact half_empty isLeft
  obtain ⟨lefts_log,lefts_pending⟩ := run_side pair key true lefts (run pair start others) (empty (!true))
  rw [List.map_append,List.map_cons,List.map_cons,List.map_nil,run_append,run_append,run_append]
  generalize run pair (run pair start others) (lefts.map fun v => .half key true v) = s at lefts_log lefts_pending
  have waits : run pair s [.half key true l] = ⟨Function.update s.pending key (Entry.only true l),s.log⟩ :=
    step_waits lefts_pending l
  rw [waits]
  unfold run
  rw [List.foldl_cons]
  have there : ((⟨Function.update s.pending key (Entry.only true l),s.log⟩ : State K V C).pending key).half (!false) = some l := by
    dsimp only
    rw [Function.update_self]
    exact half_only true l
  rw [step_meets there]
  have after := (run_side pair key false rights
    ⟨Function.update (Function.update s.pending key (Entry.only true l)) key Entry.empty,s.log ++ [pair key l r]⟩ (by
      dsimp only
      rw [Function.update_self]
      exact half_empty _)).1
  unfold run at after
  refine after.trans ?_
  dsimp only
  rw [lefts_log]
  rfl

end Last

section Resolving
variable {D : Type} (resolve : C → Option D) (pair : K → V → V → C)

-- The calls are carried out as they come; the first one that fails ends the run.
def stepNow (s : State K V D) (e : Event K V C) : Option (State K V D) :=
  let next := step pair ⟨s.pending,[]⟩ e
  (next.log.mapM resolve).map fun calls => ⟨next.pending,s.log ++ calls⟩

def runNow (s : State K V D) (events : List (Event K V C)) : Option (State K V D) :=
  events.foldlM (stepNow resolve pair) s

theorem step_now_direct (s : State K V D) (c : C) :
    stepNow resolve pair s (.direct c) = (resolve c).map fun call => ⟨s.pending,s.log ++ [call]⟩ := by
  unfold stepNow step
  dsimp only
  rw [List.nil_append,List.mapM_cons,List.mapM_nil]
  cases resolve c <;> rfl

theorem step_now_half (s : State K V D) (key : K) (isLeft : Bool) (v : V) :
    stepNow resolve pair s (.half key isLeft v) = match ((s.pending key).put isLeft v).both with
      | none => some ⟨Function.update s.pending key ((s.pending key).put isLeft v),s.log⟩
      | some (l,r) => (resolve (pair key l r)).map fun call => ⟨Function.update s.pending key Entry.empty,s.log ++ [call]⟩ := by
  unfold stepNow step
  dsimp only
  cases ((s.pending key).put isLeft v).both with
  | none => exact congrArg (fun log => some (State.mk _ log)) (List.append_nil _)
  | some both =>
      dsimp only
      rw [List.nil_append,List.mapM_cons,List.mapM_nil]
      cases resolve (pair key both.1 both.2) <;> rfl

theorem step_log (s : State K V C) (e : Event K V C) :
    (step pair s e).pending = (step pair ⟨s.pending,[]⟩ e).pending ∧
      (step pair s e).log = s.log ++ (step pair ⟨s.pending,[]⟩ e).log := by
  cases e with
  | direct c => exact ⟨rfl,rfl⟩
  | half key isLeft v =>
      cases met : (s.pending key).half (!isLeft) with
      | none =>
          have met' : ((⟨s.pending,[]⟩ : State K V C).pending key).half (!isLeft) = none := met
          rw [step_waits met,step_waits met']
          exact ⟨rfl,(List.append_nil _).symm⟩
      | some other =>
          have met' : ((⟨s.pending,[]⟩ : State K V C).pending key).half (!isLeft) = some other := met
          rw [step_meets met,step_meets met']
          exact ⟨rfl,rfl⟩

theorem run_now_exact (events : List (Event K V C)) : runNow resolve pair start events =
    ((run pair start events).log.mapM resolve).map fun calls => ⟨(run pair start events).pending,calls⟩ := by
  induction events using List.reverseRecOn with
  | nil => rfl
  | append_singleton events e ih =>
      obtain ⟨pending,log⟩ := step_log pair (run pair start events) e
      unfold runNow at ih ⊢
      rw [List.foldlM_append,ih,run_append]
      unfold run at pending log ⊢
      rw [List.foldl_cons,List.foldl_nil,pending,log,List.mapM_append]
      cases done : (events.foldl (step pair) start).log.mapM resolve with
      | none => rfl
      | some calls =>
          simp only [Option.map_some,Option.bind_eq_bind,Option.bind_some,List.foldlM_cons,List.foldlM_nil,
            Option.pure_def,Option.bind_fun_some]
          unfold stepNow
          dsimp only
          cases (step pair ⟨(events.foldl (step pair) start).pending,[]⟩ e).log.mapM resolve <;> rfl

theorem mapM_some {A B : Type} {f : A → Option B} (xs : List A) (ys : List B) :
    xs.mapM f = some ys ↔ List.Forall₂ (fun x y => f x = some y) xs ys := by
  induction xs generalizing ys with
  | nil => cases ys <;> simp
  | cons x xs ih =>
      rw [List.mapM_cons,List.forall₂_cons_left_iff]
      constructor
      · intro mapped
        obtain ⟨y,first,mapped⟩ := Option.bind_eq_some_iff.mp mapped
        obtain ⟨rest,mapped,same⟩ := Option.bind_eq_some_iff.mp mapped
        exact ⟨y,rest,first,(ih rest).mp mapped,(Option.some.inj same).symm⟩
      · rintro ⟨y,rest,first,related,rfl⟩
        rw [first,(ih rest).mpr related]
        rfl

theorem related_left {A B : Type} {R : A → B → Prop} {x : A} {xs : List A} {ys : List B} (related : List.Forall₂ R xs ys)
    (member : x ∈ xs) : ∃ y ∈ ys, R x y := by
  induction related with
  | nil => cases member
  | cons first rest ih =>
      rcases List.mem_cons.mp member with rfl | member
      · exact ⟨_,List.mem_cons_self,first⟩
      · obtain ⟨y,inside,relates⟩ := ih member
        exact ⟨y,List.mem_cons_of_mem _ inside,relates⟩

theorem all_related {A B : Type} {R : A → B → Prop} (xs : List A) (each : ∀ x ∈ xs, ∃ y, R x y) :
    ∃ ys, List.Forall₂ R xs ys := by
  induction xs with
  | nil => exact ⟨[],.nil⟩
  | cons x xs ih =>
      obtain ⟨y,first⟩ := each x List.mem_cons_self
      obtain ⟨ys,rest⟩ := ih fun x member => each x (List.mem_cons_of_mem _ member)
      exact ⟨y :: ys,.cons first rest⟩

end Resolving

end PairedHalves
