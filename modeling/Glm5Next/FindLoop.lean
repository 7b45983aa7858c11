import Glm5Next.RepeatedUnits

namespace Glm5Next.FindLoop
open RepeatedUnits

-- What the detector asks of a character.
structure Alphabet (α : Type) where
  newline : α
  isalnum : α → Bool

section Detector
variable {α : Type} [DecidableEq α] (a : Alphabet α)

def benign (unit : List α) : Bool := decide (a.newline ∈ unit) || !unit.any a.isalnum

def countReps (s unit : List α) (i size reps : Nat) (positive : 0 < size) (someUnit : unit ≠ []) : Nat :=
  if again : slice s (i + reps * size) size = unit then countReps s unit i size (reps + 1) positive someUnit else reps
termination_by s.length - (i + reps * size)
decreasing_by
  have inside := slice_starts (again ▸ someUnit)
  rw [Nat.succ_mul]
  omega

omit [DecidableEq α] in
theorem unit_some {s : List α} (positive : 0 < size) (inside : i + size < s.length) : slice s i size ≠ [] := by
  apply List.ne_nil_of_length_pos
  rwa [slice_whole (Nat.le_of_lt inside)]

def noteRun (minReps : Nat) (best : Nat × List α) (reps : Nat) (unit : List α) : Nat × List α :=
  if reps ≥ minReps ∧ reps > best.1 then (reps,unit) else best

def scan (s : List α) (minReps size : Nat) (positive : 0 < size) (i : Nat) (best : Nat × List α) : Nat × List α :=
  if inside : i + size < s.length then
    let unit := slice s i size
    if benign a unit then scan s minReps size positive (i + 1) best
    else
      let reps := countReps s unit i size 1 positive (unit_some positive inside)
      scan s minReps size positive (i + max 1 (reps * size)) (noteRun minReps best reps unit)
  else best
termination_by s.length - i

def scanSizes (s : List α) (minReps sizes : Nat) : Nat × List α :=
  (List.range sizes).foldl (fun best k => scan a s minReps (k + 2) (Nat.succ_pos _) 0 best) (0,[])

-- for size in range(2, max_unit + 1)
def findLoop (s : List α) (minReps maxUnit : Nat) : Nat × List α := scanSizes a s minReps (maxUnit - 1)

structure Run (s : List α) (maxUnit r : Nat) (unit : List α) (i : Nat) : Prop where
  short : 2 ≤ unit.length
  fits : unit.length ≤ maxUnit
  suspect : benign a unit = false
  repeats : Repeats s unit i r

-- The worst run, or none where there is no run of min_reps.
structure Worst (s : List α) (minReps maxUnit : Nat) (out : Nat × List α) : Prop where
  enough : (∃ r unit i, minReps ≤ r ∧ Run a s maxUnit r unit i) → minReps ≤ out.1
  found : (∃ r unit i, minReps ≤ r ∧ Run a s maxUnit r unit i) → ∃ i, Run a s maxUnit out.1 out.2 i
  largest : (∃ r unit i, minReps ≤ r ∧ Run a s maxUnit r unit i) → ∀ r unit i, Run a s maxUnit r unit i → r ≤ out.1
  clean : out = (0,[]) ↔ ¬ ∃ r unit i, minReps ≤ r ∧ Run a s maxUnit r unit i

-- From offset i to offset p: one forward from a benign unit, a whole unit
-- forward from any other.
inductive Path (s : List α) (size : Nat) : Nat → Nat → Prop
  | here : Path s size p p
  | skip (passed : benign a (slice s i size) = true) (rest : Path s size (i + 1) p) : Path s size i p
  | jump (suspect : benign a (slice s i size) = false) (rest : Path s size (i + size) p) : Path s size i p

-- Some longest run starts on the path of its unit size from the beginning.
def Reached (s : List α) (minReps maxUnit : Nat) : Prop :=
  ∃ r unit i, minReps ≤ r ∧ Run a s maxUnit r unit i ∧ (∀ r' unit' i', Run a s maxUnit r' unit' i' → r' ≤ r) ∧
    Path a s unit.length 0 i

omit [DecidableEq α] in
theorem note_grows (minReps : Nat) (best : Nat × List α) (reps : Nat) (unit : List α) :
    best.1 ≤ (noteRun minReps best reps unit).1 := by
  unfold noteRun
  split
  · rename_i better
    exact Nat.le_of_lt better.2
  · exact Nat.le_refl _

omit [DecidableEq α] in
theorem note_counts (best : Nat × List α) (unit : List α) (enough : minReps ≤ reps) :
    reps ≤ (noteRun minReps best reps unit).1 := by
  unfold noteRun
  split
  · exact Nat.le_refl _
  · omega

omit [DecidableEq α] in
theorem note_cases (minReps : Nat) (best : Nat × List α) (reps : Nat) (unit : List α) :
    noteRun minReps best reps unit = best ∨ minReps ≤ reps ∧ noteRun minReps best reps unit = (reps,unit) := by
  unfold noteRun
  split
  · rename_i better
    exact Or.inr ⟨better.1,rfl⟩
  · exact Or.inl rfl

section Count
variable {a} {s unit : List α} {i reps size : Nat}

theorem count_exact (positive : 0 < size) (someUnit : unit ≠ []) (sized : unit.length = size) (rep : Repeats s unit i reps) :
    Repeats s unit i (countReps s unit i size reps positive someUnit) ∧
    reps ≤ countReps s unit i size reps positive someUnit ∧
    ∀ r, Repeats s unit i r → r ≤ countReps s unit i size reps positive someUnit := by
  subst sized
  fun_induction countReps s unit i unit.length reps positive someUnit with
  | case1 reps again ih =>
      obtain ⟨repeats,more,largest⟩ := ih (rep.more again)
      exact ⟨repeats,Nat.le_of_succ_le more,largest⟩
  | case2 reps done =>
      refine ⟨rep,Nat.le_refl _,fun r longer => ?_⟩
      by_contra past
      exact done (longer reps (Nat.lt_of_not_le past))

end Count

section Walk
variable {a} {s unit : List α} {size i p c : Nat}

theorem Path.le (path : Path a s size i p) : i ≤ p := by
  induction path with
  | here => exact Nat.le_refl _
  | skip _ _ ih => exact Nat.le_of_succ_le ih
  | jump _ _ ih => exact Nat.le_trans (Nat.le_add_right _ _) ih

theorem Path.skipped (path : Path a s size i p) (passed : benign a (slice s i size) = true) :
    p = i ∨ Path a s size (i + 1) p := by
  cases path with
  | here => exact Or.inl rfl
  | skip _ rest => exact Or.inr rest
  | jump suspect _ => rw [passed] at suspect; cases suspect

theorem Path.jumped (path : Path a s size i p) (suspect : benign a (slice s i size) = false) :
    p = i ∨ Path a s size (i + size) p := by
  cases path with
  | here => exact Or.inl rfl
  | skip passed _ => rw [suspect] at passed; cases passed
  | jump _ rest => exact Or.inr rest

theorem run_suspect (rep : Repeats s unit i (c + 1)) (suspect : benign a unit = false) :
    benign a (slice s (i + c * unit.length) unit.length) = false := by
  rw [rep c (Nat.lt_succ_self c)]
  exact suspect

theorem walk_run (sized : unit.length = size) (rep : Repeats s unit i c) (suspect : benign a unit = false)
    (rest : Path a s size (i + c * size) p) : Path a s size i p := by
  subst sized
  induction c with
  | zero => simpa using rest
  | succ c ih =>
      apply ih (rep.fewer (Nat.le_succ c))
      apply Path.jump (run_suspect rep suspect)
      rwa [Nat.add_assoc,← Nat.succ_mul]

theorem run_split (sized : unit.length = size) (rep : Repeats s unit i c) (suspect : benign a unit = false)
    (path : Path a s size i p) : (∃ j < c, p = i + j * size) ∨ Path a s size (i + c * size) p := by
  subst sized
  induction c with
  | zero => exact Or.inr (by simpa using path)
  | succ c ih =>
      rcases ih (rep.fewer (Nat.le_succ c)) with ⟨j,inside,place⟩ | rest
      · exact Or.inl ⟨j,Nat.lt_succ_of_lt inside,place⟩
      · rcases rest.jumped (run_suspect rep suspect) with place | rest
        · exact Or.inl ⟨c,Nat.lt_succ_self c,place⟩
        · rw [Nat.add_assoc,← Nat.succ_mul] at rest
          exact Or.inr rest

end Walk

section Scan
variable {a} {s : List α} {minReps size i : Nat} {best : Nat × List α}

theorem scan_grows (a : Alphabet α) (s : List α) (minReps : Nat) (positive : 0 < size) (i : Nat) (best : Nat × List α) :
    best.1 ≤ (scan a s minReps size positive i best).1 := by
  fun_induction scan a s minReps size positive i best with
  | case1 i best inside unit passed ih => exact ih
  | case2 i best inside unit suspect reps ih => exact Nat.le_trans (note_grows minReps best reps unit) ih
  | case3 i best outside => exact Nat.le_refl _

theorem tried_exact (positive : 0 < size) (inside : i + size < s.length) :
    ∃ reps, reps = countReps s (slice s i size) i size 1 positive (unit_some positive inside) ∧
      max 1 (reps * size) = reps * size ∧ Repeats s (slice s i size) i reps ∧
      ∀ r, Repeats s (slice s i size) i r → r ≤ reps := by
  have sized : (slice s i size).length = size := slice_whole (Nat.le_of_lt inside)
  have first : Repeats s (slice s i size) i 1 :=
    (repeats_zero s _ i).more (by rw [Nat.zero_mul,Nat.add_zero,sized])
  obtain ⟨repeats,some_rep,largest⟩ := count_exact positive (unit_some positive inside) sized first
  exact ⟨_,rfl,Nat.max_eq_right (Nat.mul_pos some_rep positive),repeats,largest⟩

-- What the scan returns is what it was given, or a run that its path meets.
theorem scan_sound (a : Alphabet α) (s : List α) (minReps : Nat) (positive : 0 < size) (i : Nat) (best : Nat × List α) :
    scan a s minReps size positive i best = best ∨
    ∃ r unit p, scan a s minReps size positive i best = (r,unit) ∧ minReps ≤ r ∧ unit.length = size ∧
      benign a unit = false ∧ Repeats s unit p r ∧ Path a s size i p := by
  fun_induction scan a s minReps size positive i best with
  | case1 i best inside unit passed ih =>
      rcases ih with
        same | ⟨r,unit,p,result,enough,sized,suspect,repeats,path⟩
      · exact Or.inl same
      · exact Or.inr ⟨r,unit,p,result,enough,sized,suspect,repeats,.skip passed path⟩
  | case2 i best inside unit suspect reps ih =>
      have sized : unit.length = size := slice_whole (Nat.le_of_lt inside)
      have suspect : benign a unit = false := by simpa using suspect
      obtain ⟨counted,same,step,repeats,_⟩ := tried_exact positive inside
      obtain rfl : counted = reps := same
      rw [step] at ih ⊢
      rcases ih with same | ⟨r,other,p,result,enough,sized',suspect',repeats',path⟩
      · rw [same]
        rcases note_cases minReps best reps unit with kept | ⟨enough,noted⟩
        · exact Or.inl kept
        · exact Or.inr ⟨reps,unit,i,noted,enough,sized,suspect,repeats,.here⟩
      · exact Or.inr ⟨r,other,p,result,enough,sized',suspect',repeats',walk_run sized repeats suspect path⟩
  | case3 i best outside => exact Or.inl rfl

-- No run that starts on the path is longer than what the scan returns.
theorem scan_complete (positive : 0 < size) (several : 2 ≤ minReps) {unit : List α} (sized : unit.length = size)
    (suspect : benign a unit = false) (rep : Repeats s unit p r) (enough : minReps ≤ r) (path : Path a s size i p) :
    r ≤ (scan a s minReps size positive i best).1 := by
  have starts : slice s p size = unit := by
    rw [← sized]
    exact rep.first (by omega)
  fun_induction scan a s minReps size positive i best with
  | case1 i best inside own passed ih =>
      rcases path.skipped passed with rfl | rest
      · have passed : benign a (slice s p size) = true := passed
        rw [starts,suspect] at passed
        cases passed
      · exact ih rest
  | case2 i best inside own suspect' reps ih =>
      have sized' : own.length = size := slice_whole (Nat.le_of_lt inside)
      have suspect' : benign a own = false := by simpa using suspect'
      obtain ⟨counted,same,step,repeats,largest⟩ := tried_exact positive inside
      obtain rfl : counted = reps := same
      rw [step] at ih ⊢
      rcases run_split sized' repeats suspect' path with ⟨j,within,rfl⟩ | rest
      · -- the run at the path's offset is the end of the one just counted
        have here := repeats j within
        rw [slice_whole (Nat.le_of_lt inside),starts] at here
        subst here
        have place : Repeats s (slice s i size) (i + j * (slice s i size).length) r := by rwa [sized]
        have joined := largest _ ((repeats.fewer (Nat.le_of_lt within)).earlier place)
        have noted := note_counts best own (show minReps ≤ reps by omega)
        have kept := scan_grows a s minReps positive (i + reps * size) (noteRun minReps best reps own)
        omega
      · exact ih rest
  | case3 i best outside =>
      have long := rep.inside (List.ne_nil_of_length_pos (by omega)) (by omega)
      have twice := Nat.mul_le_mul_right unit.length (Nat.le_trans several enough)
      have ahead := path.le
      omega

end Scan

section Sizes
variable {a} {s : List α} {minReps maxUnit : Nat}

theorem sizes_succ (s : List α) (minReps sizes : Nat) : scanSizes a s minReps (sizes + 1) =
    scan a s minReps (sizes + 2) (Nat.succ_pos _) 0 (scanSizes a s minReps sizes) := by
  unfold scanSizes
  rw [List.range_succ,List.foldl_append]
  rfl

theorem sizes_sound (s : List α) (minReps sizes : Nat) : scanSizes a s minReps sizes = (0,[]) ∨
    ∃ r unit p, scanSizes a s minReps sizes = (r,unit) ∧ minReps ≤ r ∧ 2 ≤ unit.length ∧ unit.length < sizes + 2 ∧
      benign a unit = false ∧ Repeats s unit p r ∧ Path a s unit.length 0 p := by
  induction sizes with
  | zero => exact Or.inl rfl
  | succ sizes ih =>
      rw [sizes_succ]
      rcases scan_sound a s minReps (Nat.succ_pos (sizes + 1)) 0 (scanSizes a s minReps sizes) with
        same | ⟨r,unit,p,result,enough,sized,suspect,repeats,path⟩
      · rw [same]
        rcases ih with none_found | ⟨r,unit,p,result,enough,short,fits,found⟩
        · exact Or.inl none_found
        · exact Or.inr ⟨r,unit,p,result,enough,short,Nat.lt_succ_of_lt fits,found⟩
      · rw [← sized] at path
        exact Or.inr ⟨r,unit,p,result,enough,by omega,by omega,suspect,repeats,path⟩

theorem sizes_grow (s : List α) (minReps : Nat) (more : sizes ≤ sizes') :
    (scanSizes a s minReps sizes).1 ≤ (scanSizes a s minReps sizes').1 := by
  induction more with
  | refl => exact Nat.le_refl _
  | step _ ih =>
      rw [sizes_succ]
      exact Nat.le_trans ih (scan_grows _ _ _ _ _ _)

theorem find_sound (s : List α) (minReps maxUnit : Nat) : findLoop a s minReps maxUnit = (0,[]) ∨
    ∃ r unit p, findLoop a s minReps maxUnit = (r,unit) ∧ minReps ≤ r ∧ Run a s maxUnit r unit p ∧
      Path a s unit.length 0 p := by
  rcases sizes_sound (a := a) s minReps (maxUnit - 1) with none_found | ⟨r,unit,p,result,enough,short,fits,suspect,repeats,path⟩
  · exact Or.inl none_found
  · exact Or.inr ⟨r,unit,p,result,enough,⟨short,by omega,suspect,repeats⟩,path⟩

theorem find_complete (several : 2 ≤ minReps) (run : Run a s maxUnit r unit p) (enough : minReps ≤ r)
    (path : Path a s unit.length 0 p) : r ≤ (findLoop a s minReps maxUnit).1 := by
  have short := run.short
  have fits := run.fits
  obtain ⟨k,long⟩ := Nat.exists_eq_add_of_le' short
  refine Nat.le_trans ?_ (sizes_grow s minReps (show k + 1 ≤ maxUnit - 1 by omega))
  rw [sizes_succ]
  rw [long] at path
  exact scan_complete (Nat.succ_pos _) several long run.suspect run.repeats enough path

-- The detector finds the worst run exactly where there is none, or where a
-- longest one starts on its path.
theorem find_loop_exact_iff (several : 2 ≤ minReps) (s : List α) (maxUnit : Nat) :
    Worst a s minReps maxUnit (findLoop a s minReps maxUnit) ↔
      (¬ ∃ r unit i, minReps ≤ r ∧ Run a s maxUnit r unit i) ∨ Reached a s minReps maxUnit := by
  constructor
  · intro worst
    by_cases some_run : ∃ r unit i, minReps ≤ r ∧ Run a s maxUnit r unit i
    · right
      rcases find_sound (a := a) s minReps maxUnit with none_found | ⟨r,unit,p,result,enough,run,path⟩
      · exact absurd some_run (worst.clean.mp none_found)
      · have largest := worst.largest some_run
        rw [result] at largest
        exact ⟨r,unit,p,enough,run,largest,path⟩
    · exact Or.inl some_run
  · rintro (clean | ⟨r,unit,i,enough,run,largest,path⟩)
    · rcases find_sound (a := a) s minReps maxUnit with none_found | ⟨r,unit,p,_,enough,run,_⟩
      · exact ⟨fun some_run => absurd some_run clean,fun some_run => absurd some_run clean,
          fun some_run => absurd some_run clean,iff_of_true none_found clean⟩
      · exact absurd ⟨r,unit,p,enough,run⟩ clean
    · have reached := find_complete several run enough path
      rcases find_sound (a := a) s minReps maxUnit with none_found | ⟨r',unit',p,result,enough',run',_⟩
      · rw [none_found] at reached
        omega
      · rw [result] at reached ⊢
        have nonzero : (r',unit') ≠ (0,[]) := by
          intro same
          have := congrArg Prod.fst same
          omega
        exact ⟨fun _ => enough',fun _ => ⟨p,run'⟩,fun _ other others at_other long =>
          Nat.le_trans (largest other others at_other long) reached,
          iff_of_false nonzero fun absent => absent ⟨r,unit,i,enough,run⟩⟩

end Sizes

-- How far from the worst run the detector can be.
section Slack
variable {a} {s unit : List α} {minReps maxUnit size i p q : Nat}

theorem Path.trans (first : Path a s size i p) (second : Path a s size p q) : Path a s size i q := by
  induction first with
  | here => exact second
  | skip passed _ ih => exact .skip passed (ih second)
  | jump suspect _ ih => exact .jump suspect (ih second)

-- A path steps over at most one unit.
theorem path_lands (positive : 0 < size) (ahead : i ≤ p) : ∃ x, Path a s size i x ∧ p ≤ x ∧ x < p + size := by
  generalize gap : p - i = n
  induction n using Nat.strongRecOn generalizing i with
  | ind n ih =>
      by_cases there : i = p
      · exact ⟨i,.here,Nat.le_of_eq there.symm,by omega⟩
      · cases passed : benign a (slice s i size) with
        | true =>
            obtain ⟨x,path,low,high⟩ := ih (p - (i + 1)) (by omega) (i := i + 1) (by omega) rfl
            exact ⟨x,.skip passed path,low,high⟩
        | false =>
            by_cases past : p < i + size
            · exact ⟨i + size,.jump passed .here,Nat.le_of_lt past,by omega⟩
            · obtain ⟨x,path,low,high⟩ := ih (p - (i + size)) (by omega) (i := i + size) (by omega) rfl
              exact ⟨x,.jump passed path,low,high⟩

-- Every path goes on from the start of a line.
theorem line_start_reached (positive : 0 < size) (found : s[q]? = some a.newline) : Path a s size 0 (q + 1) := by
  have through (n : Nat) : ∀ x, x ≤ q + 1 → q < x + size → q + 1 - x = n → Path a s size x (q + 1) := by
    induction n with
    | zero =>
        intro x before _ none_left
        obtain rfl : x = q + 1 := by omega
        exact .here
    | succ n ih =>
        intro x before near left
        obtain ⟨k,rfl⟩ := Nat.exists_eq_add_of_le (show x ≤ q by omega)
        have held : a.newline ∈ slice s x size := by
          apply List.mem_of_getElem? (i := k)
          rw [slice_get _ _ (by omega)]
          exact found
        apply Path.skip
        · simp [benign,held]
        · exact ih (x + 1) (by omega) (by omega) (by omega)
  obtain ⟨x,path,low,high⟩ := path_lands (a := a) (s := s) (i := 0) (p := q + 1 - size) positive (Nat.zero_le _)
  by_cases past : q + 1 ≤ size
  · exact through (q + 1) 0 (Nat.zero_le _) (by omega) rfl
  · exact path.trans (through (q + 1 - x) x (by omega) (by omega) rfl)

theorem benign_same (same : ∀ c, c ∈ other ↔ c ∈ unit) : benign a other = benign a unit := by
  have alnum : other.any a.isalnum = unit.any a.isalnum := by
    rw [Bool.eq_iff_iff,List.any_eq_true,List.any_eq_true]
    simp only [same]
  simp only [benign,alnum,same]

-- The detector counts at most one repetition too few.
theorem one_repetition_lost (several : 2 ≤ minReps) (run : Run a s maxUnit (r + 1) unit i) (enough : minReps ≤ r) :
    r ≤ (findLoop a s minReps maxUnit).1 := by
  have positive : 0 < unit.length := Nat.lt_of_lt_of_le Nat.zero_lt_two run.short
  obtain ⟨x,path,low,high⟩ := path_lands (a := a) (s := s) (i := 0) (p := i) positive (Nat.zero_le _)
  obtain ⟨d,rfl⟩ := Nat.exists_eq_add_of_le low
  have inside : d < unit.length := by omega
  have some_rep : 0 < r := by omega
  have long := rotated_length run.repeats inside some_rep
  have turned : Run a s maxUnit r (slice s (i + d) unit.length) (i + d) := by
    refine ⟨?_,?_,?_,run.repeats.rotated inside⟩
    · rw [long]
      exact run.short
    · rw [long]
      exact run.fits
    · rw [benign_same fun c => rotated_mem run.repeats inside some_rep]
      exact run.suspect
  rw [← long] at path
  exact find_complete several turned enough path

-- A longest run at the start of a line is always found.
theorem line_run_reached (enough : minReps ≤ r) (run : Run a s maxUnit r unit i)
    (largest : ∀ r' unit' i', Run a s maxUnit r' unit' i' → r' ≤ r)
    (starts : i = 0 ∨ ∃ q, i = q + 1 ∧ s[q]? = some a.newline) : Reached a s minReps maxUnit := by
  refine ⟨r,unit,i,enough,run,largest,?_⟩
  rcases starts with rfl | ⟨q,rfl,found⟩
  · exact .here
  · exact line_start_reached (Nat.lt_of_lt_of_le Nat.zero_lt_two run.short) found

end Slack

end Detector

def ascii : Alphabet Char := ⟨Char.ofNat 10,Char.isAlphanum⟩

-- A run of two from the first character on.
theorem find_loop_exact_abab :
    2 ≤ 2 ∧ Worst ascii ['a','b','a','b'] 2 2 (findLoop ascii ['a','b','a','b'] 2 2) := by
  refine ⟨Nat.le_refl 2,(find_loop_exact_iff (Nat.le_refl 2) ['a','b','a','b'] 2).mpr (Or.inr ?_)⟩
  refine ⟨2,['a','b'],0,Nat.le_refl 2,⟨Nat.le_refl 2,Nat.le_refl 2,by decide,by unfold Repeats; decide⟩,?_,.here⟩
  intro r unit i run
  by_contra longer
  have room := run.repeats.inside (List.ne_nil_of_length_pos (Nat.lt_of_lt_of_le Nat.zero_lt_two run.short)) (by omega)
  have three := Nat.mul_le_mul (Nat.lt_of_not_le longer) run.short
  have text : i + r * unit.length ≤ 4 := room
  omega

-- One character before the run puts it out of phase.
theorem out_of_phase_missed : findLoop ascii ['x','a','b','a','b'] 2 2 = (0,[]) ∧
    ¬ Worst ascii ['x','a','b','a','b'] 2 2 (findLoop ascii ['x','a','b','a','b'] 2 2) := by
  have missed : findLoop ascii ['x','a','b','a','b'] 2 2 = (0,[]) := by decide +kernel
  refine ⟨missed,fun worst => worst.clean.mp missed ⟨2,['a','b'],1,Nat.le_refl 2,?_⟩⟩
  exact ⟨Nat.le_refl 2,Nat.le_refl 2,by decide,by unfold Repeats; decide⟩

end Glm5Next.FindLoop
