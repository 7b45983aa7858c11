import Glm5Next.MambaAlign
import Glm5Next.StoreWrites

namespace Glm5Next.MambaColumns
open MambaAlign StoreWrites

section Columns
variable {S Tok : Type} (blockSize : Nat) (advance : S → Tok → S) (initial : S)

-- One request: its align entries, its computed count and the recurrent state
-- at each of its block columns.
structure Row (S : Type) where
  align : AlignState
  numComputed : Nat
  cols : Int → S

-- A forward whose tokens are not accepted or rejected yet.
structure Pending (Tok : Type) where
  verify : Bool
  tokens : List Tok
  deferred : Bool

-- A prefill keeps all its tokens, a verify step the sampled number of them.
def Pending.accepted (p : Pending Tok) (numSampled : Nat) : Nat :=
  if p.verify then numSampled else p.tokens.length

structure State (S Tok : Type) where
  row : Row S
  committed : List Tok
  pending : Option (Pending Tok)

def stateAfter (tokens : List Tok) : S := tokens.foldl advance initial

def copyState (cols : Int → S) : Option Copy → Int → S
  | none => cols
  | some copy => write cols (copy.dstCol,cols (copy.srcCol + copy.tokenBias))

def ready (row : Row S) (queryLen : Nat) : Row S :=
  let align := preprocessMambaAlign blockSize (row.numComputed + queryLen) row.align
  { row with align := align,cols := copyState row.cols (precopyMambaAlign align) }

def readColumn (row : Row S) : Int := row.align.stateIdx + row.align.numAccepted - 1

-- A prefill leaves its last state in the running column, a verify step the
-- state after each token in the columns from there on.
def forwardColumns (row : Row S) (verify : Bool) (tokens : List Tok) : Int → S :=
  let start := if row.numComputed = 0 then initial else row.cols (readColumn row)
  if verify then
    writes row.cols ((List.range tokens.length).map fun (i : Nat) =>
      (row.align.stateIdx + i,(tokens.take (i + 1)).foldl advance start))
  else write row.cols (row.align.stateIdx,tokens.foldl advance start)

-- The events of a request. A deferred forward counts all its tokens at once,
-- and its rejected ones are taken back by the postprocess.
inductive Event (Tok : Type) where
  | forward (verify : Bool) (tokens : List Tok) (deferred : Bool)
  | fill (finished : Bool)
  | postprocess (numSampled : Nat)

def Sampled (p : Pending Tok) (numSampled : Nat) : Prop :=
  if p.verify then 1 ≤ numSampled ∧ numSampled ≤ p.tokens.length else numSampled ≤ 1

def Allowed (s : State S Tok) : Event Tok → Prop
  | .forward _ tokens _ => s.pending = none ∧ tokens ≠ []
  | .fill finished => ∃ p, s.pending = some p ∧ p.deferred = true ∧ (finished = true → p.verify = false)
  | .postprocess numSampled => ∃ p, s.pending = some p ∧ Sampled p numSampled

def forwardStep (s : State S Tok) (verify : Bool) (tokens : List Tok) (deferred : Bool) : State S Tok :=
  let row := ready blockSize s.row tokens.length
  { s with
    row :=
      { row with
        cols := forwardColumns advance initial row verify tokens
        numComputed := if deferred then row.numComputed + tokens.length else row.numComputed }
    pending := some ⟨verify,tokens,deferred⟩ }

-- The count set by a deferred forward stands when a prefill chunk is done.
def fillStep (s : State S Tok) (p : Pending Tok) (finished : Bool) : State S Tok :=
  { row := { s.row with align := scatterNumAccepted 0 s.row.align }
    committed := if finished then s.committed ++ p.tokens else s.committed
    pending := if finished then none else some p }

def postprocessStep (s : State S Tok) (p : Pending Tok) (numSampled : Nat) : State S Tok :=
  let accepted := p.accepted numSampled
  let rejected := p.tokens.length - accepted
  let numComputed :=
    if p.deferred then s.row.numComputed - rejected else s.row.numComputed + p.tokens.length - rejected
  let decided := postprocessMamba blockSize numComputed (scatterNumAccepted numSampled s.row.align)
  { row := ⟨decided.1,numComputed,copyState s.row.cols decided.2⟩
    committed := s.committed ++ p.tokens.take accepted
    pending := none }

def step (s : State S Tok) : Event Tok → State S Tok
  | .forward verify tokens deferred => forwardStep blockSize advance initial s verify tokens deferred
  | .fill finished => match s.pending with
    | none => s
    | some p => fillStep s p finished
  | .postprocess numSampled => match s.pending with
    | none => s
    | some p => postprocessStep blockSize s p numSampled

inductive Run (start : State S Tok) : State S Tok → Prop
  | start : Run start start
  | step (event : Event Tok) (run : Run start s) (allowed : Allowed s event) :
      Run start (step blockSize advance initial s event)

-- A new request, or one resumed at a cached length that ends a block.
inductive Started : State S Tok → Prop
  | fresh (align : AlignState) (cols : Int → S) :
      Started ⟨⟨addRequest blockSize 0 align,0,cols⟩,[],none⟩
  | resumed (align : AlignState) (cols : Int → S) (cached : List Tok) (j : Nat)
      (aligned : blockSize * (j + 1) = cached.length) (held : cols j = stateAfter advance initial cached) :
      Started ⟨⟨addRequest blockSize cached.length align,cached.length,cols⟩,cached,none⟩

def Running (row : Row S) (committed : List Tok) : Prop :=
  committed ≠ [] → row.cols (readColumn row) = stateAfter advance initial committed

structure Settled (row : Row S) (committed : List Tok) : Prop where
  computed : row.numComputed = committed.length
  accepted : 1 ≤ row.align.numAccepted
  column : committed ≠ [] → 0 ≤ row.align.stateIdx
  running : Running advance initial row committed

structure InFlight (row : Row S) (committed : List Tok) (p : Pending Tok) : Prop where
  computed : row.numComputed = if p.deferred then committed.length + p.tokens.length else committed.length
  scheduled : p.tokens ≠ []
  column : row.align.stateIdx = newStateIdx blockSize (committed.length + p.tokens.length)
  verified : p.verify = true → ∀ i : Nat, i < p.tokens.length →
    row.cols (row.align.stateIdx + i) = stateAfter advance initial (committed ++ p.tokens.take (i + 1))
  prefilled : p.verify = false → row.cols row.align.stateIdx = stateAfter advance initial (committed ++ p.tokens)

def Invariant (s : State S Tok) : Prop :=
  match s.pending with
  | none => Settled advance initial s.row s.committed
  | some p => InFlight blockSize advance initial s.row s.committed p

theorem after_append (committed tokens : List Tok) :
    stateAfter advance initial (committed ++ tokens) = tokens.foldl advance (stateAfter advance initial committed) :=
  List.foldl_append

theorem started_holds (positive : 0 < blockSize) (started : Started blockSize advance initial s) :
    Invariant blockSize advance initial s := by
  cases started with
  | fresh align cols => exact ⟨rfl,Nat.le_refl 1,fun some_token => absurd rfl some_token,fun some_token => absurd rfl some_token⟩
  | resumed align cols cached j aligned held =>
      have column := start_column aligned positive align
      refine ⟨rfl,Nat.le_refl 1,fun _ => ?_,fun _ => ?_⟩
      · show 0 ≤ (addRequest blockSize cached.length align).stateIdx
        rw [column]
        exact Int.natCast_nonneg j
      · show cols ((addRequest blockSize cached.length align).stateIdx + (1 : Nat) - 1) = _
        rw [column,← held]
        congr 1
        omega

theorem ready_running (queryLen : Nat) (settled : Settled advance initial row committed) :
    Running advance initial (ready blockSize row queryLen) committed ∧
    1 ≤ (ready blockSize row queryLen).align.numAccepted ∧
    (ready blockSize row queryLen).align.stateIdx = newStateIdx blockSize (committed.length + queryLen) := by
  have some_after : row.numComputed + queryLen = committed.length + queryLen := by rw [settled.computed]
  have advanced : (ready blockSize row queryLen).align =
      preprocessMambaAlign blockSize (committed.length + queryLen) row.align := by
    rw [← some_after]
    rfl
  refine ⟨?_,?_,by rw [advanced]; rfl⟩
  · intro some_token
    have held := settled.running some_token
    have column := settled.column some_token
    unfold readColumn at held ⊢
    rw [advanced]
    show copyState row.cols (precopyMambaAlign (preprocessMambaAlign blockSize (row.numComputed + queryLen)
      row.align)) _ = _
    rw [some_after]
    unfold precopyMambaAlign preprocessMambaAlign
    dsimp only
    have counted := settled.accepted
    by_cases moved : row.align.stateIdx = newStateIdx blockSize (committed.length + queryLen)
    · rw [if_pos (Or.inr moved),if_neg (by omega),← moved]
      exact held
    · rw [if_neg (by omega),if_pos ⟨column,moved⟩]
      have source : row.align.stateIdx + ((row.align.numAccepted - 1 : Nat) : Int) =
          row.align.stateIdx + row.align.numAccepted - 1 := by omega
      have dest (column : Int) : column + ((1 : Nat) : Int) - 1 = column := by omega
      show write row.cols (_,row.cols (row.align.stateIdx + ((row.align.numAccepted - 1 : Nat) : Int))) _ = _
      rw [source,dest,held]
      exact if_pos rfl
  · rw [advanced]
    unfold preprocessMambaAlign
    dsimp only
    split
    · exact Nat.le_refl 1
    · exact settled.accepted

theorem forward_start (running : Running advance initial row committed) (computed : row.numComputed = committed.length) :
    (if row.numComputed = 0 then initial else row.cols (readColumn row)) = stateAfter advance initial committed := by
  cases committed with
  | nil => exact if_pos computed
  | cons token rest =>
      rw [if_neg (by rw [computed]; exact Nat.succ_ne_zero _)]
      exact running (by simp)

theorem verified_columns (cols : Int → S) (base : Int) (states : Nat → S) (count i : Nat) (inside : i < count) :
    writes cols ((List.range count).map fun (i : Nat) => (base + i,states i)) (base + i) = states i := by
  apply writes_exact
  · exact List.mem_map.mpr ⟨i,List.mem_range.mpr inside,rfl⟩
  · intro entry member same
    obtain ⟨j,_,rfl⟩ := List.mem_map.mp member
    have place : base + (j : Int) = base + i := same
    obtain rfl : j = i := by omega
    rfl

theorem forward_holds (s : State S Tok) (verify : Bool) (tokens : List Tok)
    (deferred : Bool) (settled : Settled advance initial s.row s.committed) (scheduled : tokens ≠ []) :
    InFlight blockSize advance initial (forwardStep blockSize advance initial s verify tokens deferred).row
      s.committed ⟨verify,tokens,deferred⟩ := by
  obtain ⟨running,_,column⟩ := ready_running blockSize advance initial tokens.length settled
  have computed : (ready blockSize s.row tokens.length).numComputed = s.committed.length := settled.computed
  have start := forward_start advance initial running computed
  refine ⟨?_,scheduled,column,?_,?_⟩
  · show (if deferred then _ + _ else _) = _
    rw [computed]
  · intro verifies i inside
    show forwardColumns advance initial _ verify tokens _ = _
    unfold forwardColumns
    rw [start,if_pos verifies,after_append]
    exact verified_columns _ _ (fun i => (tokens.take (i + 1)).foldl advance _) _ i inside
  · intro prefills
    show forwardColumns advance initial _ verify tokens _ = _
    unfold forwardColumns
    rw [start,if_neg (by simp [show verify = false from prefills]),after_append]
    exact if_pos rfl

theorem fill_holds (s : State S Tok) (flight : InFlight blockSize advance initial s.row s.committed p)
    (positive : 0 < blockSize) (deferred : p.deferred = true) (finished : Bool)
    (prefills : finished = true → p.verify = false) :
    Invariant blockSize advance initial (fillStep s p finished) := by
  cases finished with
  | false => exact ⟨flight.computed,flight.scheduled,flight.column,flight.verified,flight.prefilled⟩
  | true =>
      have counted := flight.computed
      rw [if_pos deferred] at counted
      refine ⟨?_,Nat.le_refl 1,?_,?_⟩
      · show s.row.numComputed = (s.committed ++ p.tokens).length
        rw [List.length_append,counted]
      · intro _
        show 0 ≤ s.row.align.stateIdx
        have some_token := List.length_pos_of_ne_nil flight.scheduled
        have reached := boundary_before (j := 0) positive
          (show 0 * blockSize < s.committed.length + p.tokens.length by omega)
        rw [flight.column]
        exact reached
      · intro _
        have held := flight.prefilled (prefills rfl)
        have same : s.row.align.stateIdx + ((1 : Nat) : Int) - 1 = s.row.align.stateIdx := by omega
        show s.row.cols (s.row.align.stateIdx + (1 : Nat) - 1) = _
        rw [same]
        exact held

end Columns

end Glm5Next.MambaColumns
