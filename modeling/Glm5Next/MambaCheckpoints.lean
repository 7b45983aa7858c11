import Glm5Next.MambaColumns

namespace Glm5Next.MambaCheckpoints
open MambaAlign StoreWrites MambaColumns

section Runs
variable {S Tok : Type} (blockSize : Nat) (advance : S → Tok → S) (initial : S)

theorem sampled_bounds (scheduled : p.tokens ≠ []) (sampled : Sampled p numSampled) :
    max numSampled 1 ≤ p.accepted numSampled ∧ p.accepted numSampled ≤ p.tokens.length := by
  have some_token := List.length_pos_of_ne_nil scheduled
  unfold Sampled at sampled
  unfold Pending.accepted
  cases verify : p.verify with
  | true =>
      rw [if_pos verify] at sampled
      rw [if_pos rfl]
      omega
  | false =>
      rw [if_neg (by simp [verify])] at sampled
      rw [if_neg (by simp)]
      omega

-- Before the postprocess the state after the accepted tokens sits at the
-- accepted offset of the running column.
theorem sampled_held (flight : InFlight blockSize advance initial row committed p) (sampled : Sampled p numSampled) :
    row.cols (row.align.stateIdx + ((max numSampled 1 : Nat) : Int) - 1) =
      stateAfter advance initial (committed ++ p.tokens.take (p.accepted numSampled)) := by
  unfold Sampled at sampled
  unfold Pending.accepted
  cases verify : p.verify with
  | true =>
      rw [if_pos verify] at sampled
      rw [if_pos rfl]
      have held := flight.verified verify (numSampled - 1) (by omega)
      have column : row.align.stateIdx + ((max numSampled 1 : Nat) : Int) - 1 =
          row.align.stateIdx + ((numSampled - 1 : Nat) : Int) := by omega
      rw [column,held,Nat.sub_add_cancel sampled.1]
  | false =>
      rw [if_neg (by simp [verify])] at sampled
      rw [if_neg (by simp),List.take_length]
      have column : row.align.stateIdx + ((max numSampled 1 : Nat) : Int) - 1 = row.align.stateIdx := by omega
      rw [column]
      exact flight.prefilled verify

theorem postprocess_step (flight : InFlight blockSize advance initial s.row s.committed p)
    (sampled : Sampled p numSampled) :
    postprocessStep blockSize s p numSampled =
      let decided := postprocessMamba blockSize (s.committed.length + p.accepted numSampled)
        (scatterNumAccepted numSampled s.row.align)
      ⟨⟨decided.1,s.committed.length + p.accepted numSampled,copyState s.row.cols decided.2⟩,
        s.committed ++ p.tokens.take (p.accepted numSampled),none⟩ := by
  have computed := flight.computed
  have most := (sampled_bounds flight.scheduled sampled).2
  have settled : (if p.deferred then s.row.numComputed - (p.tokens.length - p.accepted numSampled)
      else s.row.numComputed + p.tokens.length - (p.tokens.length - p.accepted numSampled)) =
      s.committed.length + p.accepted numSampled := by
    rw [computed]
    split
    · omega
    · omega
  unfold postprocessStep
  dsimp only
  rw [settled]

-- The accepted tokens that the count covers lie on top of `before`.
theorem postprocess_decision (positive : 0 < blockSize)
    (flight : InFlight blockSize advance initial row committed p) (sampled : Sampled p numSampled) :
    ∃ before, committed.length ≤ before ∧
      before + max numSampled 1 = committed.length + p.accepted numSampled ∧
      (p.verify = true → before = committed.length) ∧
      Decision blockSize before (max numSampled 1) (scatterNumAccepted numSampled row.align)
        (postprocessMamba blockSize (committed.length + p.accepted numSampled)
          (scatterNumAccepted numSampled row.align)) := by
  have least := (sampled_bounds flight.scheduled sampled).1
  have total : committed.length + p.accepted numSampled - max numSampled 1 + max numSampled 1 =
      committed.length + p.accepted numSampled := by omega
  refine ⟨committed.length + p.accepted numSampled - max numSampled 1,by omega,total,?_,?_⟩
  · intro verify
    unfold Sampled at sampled
    rw [if_pos verify] at sampled
    unfold Pending.accepted
    rw [if_pos verify]
    omega
  · have decided : Decision blockSize (committed.length + p.accepted numSampled - max numSampled 1)
        (max numSampled 1) (scatterNumAccepted numSampled row.align)
        (postprocessMamba blockSize
          (committed.length + p.accepted numSampled - max numSampled 1 + max numSampled 1)
          (scatterNumAccepted numSampled row.align)) := postprocess_exact positive rfl
    rw [total] at decided
    exact decided

theorem postprocess_settled (positive : 0 < blockSize)
    (flight : InFlight blockSize advance initial row committed p) (sampled : Sampled p numSampled)
    (decided : Decision blockSize before (max numSampled 1) (scatterNumAccepted numSampled row.align) out)
    (total : before + max numSampled 1 = committed.length + p.accepted numSampled) :
    Settled advance initial ⟨out.1,committed.length + p.accepted numSampled,copyState row.cols out.2⟩
      (committed ++ p.tokens.take (p.accepted numSampled)) := by
  have held := sampled_held blockSize advance initial flight sampled
  have most := (sampled_bounds flight.scheduled sampled).2
  have count : committed.length + p.accepted numSampled =
      (committed ++ p.tokens.take (p.accepted numSampled)).length := by
    rw [List.length_append,List.length_take,Nat.min_eq_left most]
  have some_token := List.length_pos_of_ne_nil flight.scheduled
  obtain ⟨k,column,_,last⟩ := new_column_bounds positive
    (show 0 < committed.length + p.tokens.length by omega)
  rw [← flight.column] at column
  have first : 0 ≤ row.align.stateIdx := by
    rw [column]
    exact Int.natCast_nonneg k
  -- a boundary in the running block can only be its last token
  have at_end (j : Nat) (boundary : (before + max numSampled 1) / blockSize = j + 1)
      (here : row.align.stateIdx = j) : before + max numSampled 1 = (j + 1) * blockSize := by
    have reached := Nat.div_mul_le_self (before + max numSampled 1) blockSize
    obtain rfl : j = k := by omega
    rw [boundary] at reached
    omega
  cases decided with
  | uncrossed inside => exact ⟨count,Nat.le_max_right _ _,fun _ => first,fun _ => held⟩
  | moved j boundary crossed apart =>
      refine ⟨count,Nat.le_max_right _ _,fun _ => first,fun _ => ?_⟩
      have reached := Nat.div_mul_le_self (before + max numSampled 1) blockSize
      rw [boundary,Nat.succ_mul] at reached
      have below := boundary_before (j := j) positive
        (show j * blockSize < committed.length + p.tokens.length by omega)
      rw [← flight.column] at below
      have apart : row.align.stateIdx ≠ j := apart
      have read_apart : row.align.stateIdx + ((max numSampled 1 : Nat) : Int) - 1 ≠ j := by omega
      rw [← held]
      exact if_neg read_apart
  | settled j boundary crossed here =>
      have ends := at_end j boundary here
      have one : max numSampled 1 = 1 := by omega
      rw [one] at held
      exact ⟨count,Nat.le_refl 1,fun _ => first,fun _ => held⟩
  | folded j boundary crossed here =>
      have ends := at_end j boundary here
      refine ⟨count,Nat.le_refl 1,fun _ => first,fun _ => ?_⟩
      have dest : row.align.stateIdx + ((1 : Nat) : Int) - 1 = j := by
        rw [show row.align.stateIdx = j from here]
        omega
      have source : row.align.stateIdx + ((((j + 1) * blockSize : Nat) : Int) - before - 1) =
          row.align.stateIdx + ((max numSampled 1 : Nat) : Int) - 1 := by omega
      show write row.cols (_,row.cols (row.align.stateIdx + ((((j + 1) * blockSize : Nat) : Int) - before - 1)))
        (row.align.stateIdx + ((1 : Nat) : Int) - 1) = _
      rw [dest,source,held]
      exact if_pos rfl

theorem postprocess_checkpoint (flight : InFlight blockSize advance initial row committed p) (verify : p.verify = true)
    (sampled : Sampled p numSampled) (boundary : (committed.length + p.accepted numSampled) / blockSize = j + 1)
    (crossed : committed.length < (j + 1) * blockSize)
    (decided : Decision blockSize committed.length (max numSampled 1) (scatterNumAccepted numSampled row.align) out)
    (total : committed.length + max numSampled 1 = committed.length + p.accepted numSampled) :
    copyState row.cols out.2 j = stateAfter advance initial ((committed ++ p.tokens).take ((j + 1) * blockSize)) := by
  have most := (sampled_bounds flight.scheduled sampled).2
  have reached := Nat.div_mul_le_self (committed.length + p.accepted numSampled) blockSize
  rw [boundary] at reached
  have crossing : ((j + 1) * blockSize - committed.length - 1 : Nat) < p.tokens.length := by omega
  have held := flight.verified verify ((j + 1) * blockSize - committed.length - 1) crossing
  have tokens : (j + 1) * blockSize - committed.length - 1 + 1 = (j + 1) * blockSize - committed.length := by omega
  rw [tokens] at held
  rw [List.take_append,List.take_of_length_le (Nat.le_of_lt crossed),← held]
  have bias : ((((j + 1) * blockSize : Nat) : Int) - committed.length - 1) =
      (((j + 1) * blockSize - committed.length - 1 : Nat) : Int) := by omega
  have same (i : Nat) (other : (committed.length + max numSampled 1) / blockSize = i + 1) : i = j := by
    rw [total,boundary] at other
    omega
  cases decided with
  | uncrossed inside =>
      rw [total,boundary] at inside
      omega
  | moved i other crossed apart =>
      obtain rfl := same i other
      rw [← bias]
      exact if_pos rfl
  | settled i other ends here =>
      obtain rfl := same i other
      have column : row.align.stateIdx = i := here
      rw [← bias,← ends]
      show row.cols i = row.cols _
      rw [column]
      congr 1
      omega
  | folded i other crossed here =>
      obtain rfl := same i other
      rw [← bias]
      exact if_pos rfl

theorem step_holds (positive : 0 < blockSize) (s : State S Tok) (held : Invariant blockSize advance initial s)
    (event : Event Tok) (allowed : Allowed s event) :
    Invariant blockSize advance initial (step blockSize advance initial s event) := by
  cases event with
  | forward verify tokens deferred =>
      obtain ⟨idle,scheduled⟩ := allowed
      unfold Invariant at held
      rw [idle] at held
      exact forward_holds blockSize advance initial s verify tokens deferred held scheduled
  | fill finished =>
      obtain ⟨p,pending,deferred,prefills⟩ := allowed
      unfold Invariant at held
      rw [pending] at held
      unfold step
      rw [pending]
      exact fill_holds blockSize advance initial s held positive deferred finished prefills
  | postprocess numSampled =>
      obtain ⟨p,pending,sampled⟩ := allowed
      unfold Invariant at held
      rw [pending] at held
      obtain ⟨before,_,total,_,decided⟩ := postprocess_decision blockSize advance initial positive held sampled
      unfold step
      rw [pending]
      show Invariant blockSize advance initial (postprocessStep blockSize s p numSampled)
      rw [postprocess_step blockSize advance initial held sampled]
      exact postprocess_settled blockSize advance initial positive held sampled decided total

theorem run_holds (positive : 0 < blockSize) (started : Invariant blockSize advance initial start)
    (run : Run blockSize advance initial start s) : Invariant blockSize advance initial s := by
  induction run with
  | start => exact started
  | step event run allowed ih => exact step_holds blockSize advance initial positive _ ih _ allowed

-- Nothing writes a column before the running one, except a postprocess that
-- saves a later boundary.
theorem precopy_keeps (cols : Int → S) (a : AlignState) (below : column < a.stateIdx) :
    copyState cols (precopyMambaAlign a) column = cols column := by
  unfold precopyMambaAlign
  split
  · rfl
  · exact if_neg (Int.ne_of_lt below)

theorem forward_columns_keep (row : Row S) (verify : Bool) (tokens : List Tok) (below : column < row.align.stateIdx) :
    forwardColumns advance initial row verify tokens column = row.cols column := by
  unfold forwardColumns
  split
  · apply writes_apart
    intro entry member same
    obtain ⟨i,_,rfl⟩ := List.mem_map.mp member
    have place : row.align.stateIdx + (i : Int) = column := same
    omega
  · exact if_neg (Int.ne_of_lt below)

theorem forward_keeps (positive : 0 < blockSize) (s : State S Tok) (verify : Bool) (tokens : List Tok)
    (deferred : Bool) (settled : Settled advance initial s.row s.committed) (scheduled : tokens ≠ [])
    (reached : (j + 1) * blockSize ≤ s.committed.length) :
    (forwardStep blockSize advance initial s verify tokens deferred).row.cols j = s.row.cols j := by
  have some_token := List.length_pos_of_ne_nil scheduled
  obtain ⟨_,_,column⟩ := ready_running blockSize advance initial tokens.length settled
  have beyond := boundary_before (j := j + 1) positive
    (show (j + 1) * blockSize < s.committed.length + tokens.length by omega)
  rw [← column] at beyond
  have below : (j : Int) < (ready blockSize s.row tokens.length).align.stateIdx := by omega
  have copied : (ready blockSize s.row tokens.length).cols j = s.row.cols j := precopy_keeps s.row.cols _ below
  show forwardColumns advance initial (ready blockSize s.row tokens.length) verify tokens j = _
  rw [forward_columns_keep advance initial _ verify tokens below]
  exact copied

theorem postprocess_keeps (cols : Int → S) (reached : (j + 1) * blockSize ≤ before)
    (decided : Decision blockSize before accepted a out) : copyState cols out.2 j = cols j := by
  have later (i : Nat) (crossed : before < (i + 1) * blockSize) : (j : Int) ≠ i := by
    have order := Nat.lt_of_mul_lt_mul_right (Nat.lt_of_le_of_lt reached crossed)
    omega
  cases decided with
  | uncrossed inside => rfl
  | moved i boundary crossed apart => exact if_neg (later i crossed)
  | settled i boundary crossed here => rfl
  | folded i boundary crossed here => exact if_neg (later i (by omega))

theorem step_keeps (positive : 0 < blockSize) (s : State S Tok) (held : Invariant blockSize advance initial s)
    (event : Event Tok) (allowed : Allowed s event) (reached : (j + 1) * blockSize ≤ s.committed.length) :
    (step blockSize advance initial s event).row.cols j = s.row.cols j ∧
    s.committed <+: (step blockSize advance initial s event).committed := by
  cases event with
  | forward verify tokens deferred =>
      obtain ⟨idle,scheduled⟩ := allowed
      unfold Invariant at held
      rw [idle] at held
      exact ⟨forward_keeps blockSize advance initial positive s verify tokens deferred held scheduled reached,
        List.prefix_refl _⟩
  | fill finished =>
      obtain ⟨p,pending,_,_⟩ := allowed
      unfold step
      rw [pending]
      refine ⟨rfl,?_⟩
      show s.committed <+: if finished then s.committed ++ p.tokens else s.committed
      split
      · exact List.prefix_append _ _
      · exact List.prefix_refl _
  | postprocess numSampled =>
      obtain ⟨p,pending,sampled⟩ := allowed
      unfold Invariant at held
      rw [pending] at held
      obtain ⟨before,least,_,_,decided⟩ := postprocess_decision blockSize advance initial positive held sampled
      unfold step
      rw [pending]
      show (postprocessStep blockSize s p numSampled).row.cols j = _ ∧ _ <+: (postprocessStep blockSize s p numSampled).committed
      rw [postprocess_step blockSize advance initial held sampled]
      exact ⟨postprocess_keeps blockSize s.row.cols (Nat.le_trans reached least) decided,List.prefix_append _ _⟩

theorem run_keeps (positive : 0 < blockSize) (held : Invariant blockSize advance initial start)
    (reached : (j + 1) * blockSize ≤ start.committed.length) (run : Run blockSize advance initial start s) :
    s.row.cols j = start.row.cols j ∧ start.committed <+: s.committed := by
  induction run with
  | start => exact ⟨rfl,List.prefix_refl _⟩
  | step event run allowed ih =>
      obtain ⟨kept,grown⟩ := ih
      have current := run_holds blockSize advance initial positive held run
      obtain ⟨step_kept,step_grown⟩ := step_keeps blockSize advance initial positive _ current _ allowed
        (Nat.le_trans reached grown.length_le)
      exact ⟨step_kept.trans kept,grown.trans step_grown⟩

theorem moved_column (row : Row S) (queryLen : Nat) (column : 0 ≤ row.align.stateIdx)
    (moved : (ready blockSize row queryLen).align.stateIdx ≠ row.align.stateIdx) :
    readColumn (ready blockSize row queryLen) = (ready blockSize row queryLen).align.stateIdx := by
  have neutral : (ready blockSize row queryLen).align.numAccepted = 1 := if_pos ⟨column,Ne.symm moved⟩
  unfold readColumn
  omega

theorem prefix_take {short long : List Tok} (grown : short <+: long) (inside : m ≤ short.length) :
    long.take m = short.take m := by
  obtain ⟨rest,rfl⟩ := grown
  exact List.take_append_of_le_length inside

theorem checkpoint_exact (positive : 0 < blockSize) (s : State S Tok) (held : Invariant blockSize advance initial s)
    (pending : s.pending = some p) (verify : p.verify = true) (sampled : Sampled p numSampled)
    (boundary : (s.committed.length + numSampled) / blockSize = j + 1)
    (crossed : s.committed.length < (j + 1) * blockSize)
    (rest : Run blockSize advance initial (step blockSize advance initial s (.postprocess numSampled)) after) :
    after.committed.take ((j + 1) * blockSize) = (s.committed ++ p.tokens).take ((j + 1) * blockSize) ∧
    after.row.cols j = stateAfter advance initial (after.committed.take ((j + 1) * blockSize)) := by
  have settled := step_holds blockSize advance initial positive s held (.postprocess numSampled) ⟨p,pending,sampled⟩
  unfold Invariant at held
  rw [pending] at held
  have accepted : p.accepted numSampled = numSampled := if_pos verify
  have most := (sampled_bounds held.scheduled sampled).2
  obtain ⟨before,_,total,same,decided⟩ := postprocess_decision blockSize advance initial positive held sampled
  obtain rfl := same verify
  rw [← accepted] at boundary
  have checkpoint := postprocess_checkpoint blockSize advance initial held verify sampled boundary crossed decided total
  have stepped : step blockSize advance initial s (.postprocess numSampled) = postprocessStep blockSize s p numSampled := by
    unfold step
    rw [pending]
  rw [stepped,postprocess_step blockSize advance initial held sampled] at rest settled
  have reached : (j + 1) * blockSize ≤ (s.committed ++ p.tokens.take (p.accepted numSampled)).length := by
    rw [List.length_append,List.length_take,Nat.min_eq_left most,← boundary]
    exact Nat.div_mul_le_self _ _
  obtain ⟨kept,grown⟩ := run_keeps blockSize advance initial positive settled reached rest
  have scheduled : s.committed ++ p.tokens.take (p.accepted numSampled) <+: s.committed ++ p.tokens :=
    (List.prefix_append_right_inj _).mpr (List.take_prefix _ _)
  have tokens : after.committed.take ((j + 1) * blockSize) = (s.committed ++ p.tokens).take ((j + 1) * blockSize) :=
    (prefix_take grown reached).trans (prefix_take scheduled reached).symm
  refine ⟨tokens,?_⟩
  rw [tokens,kept]
  exact checkpoint

theorem running_state_exact (positive : 0 < blockSize) (started : Started blockSize advance initial start)
    (run : Run blockSize advance initial start s) :
    (s.pending = none → ∀ queryLen : Nat,
      let row := ready blockSize s.row queryLen
      row.numComputed = s.committed.length ∧
      (0 < row.numComputed → row.cols (readColumn row) = stateAfter advance initial s.committed ∧
        (row.align.stateIdx ≠ s.row.align.stateIdx → readColumn row = row.align.stateIdx))) ∧
    (∀ (p : Pending Tok) (numSampled : Nat), s.pending = some p → p.verify = true → 1 ≤ numSampled →
      numSampled ≤ p.tokens.length →
      let m := (s.committed.length + numSampled) / blockSize * blockSize
      s.committed.length < m → ∀ after,
        Run blockSize advance initial (step blockSize advance initial s (.postprocess numSampled)) after →
        after.committed.take m = (s.committed ++ p.tokens).take m ∧
        after.row.cols ((m / blockSize - 1 : Nat) : Int) = stateAfter advance initial (after.committed.take m)) := by
  have held := run_holds blockSize advance initial positive (started_holds blockSize advance initial positive started) run
  constructor
  · intro idle queryLen
    unfold Invariant at held
    rw [idle] at held
    have settled : Settled advance initial s.row s.committed := held
    refine ⟨settled.computed,fun some_computed => ?_⟩
    have some_computed : 0 < s.row.numComputed := some_computed
    rw [settled.computed] at some_computed
    have some_token : s.committed ≠ [] := List.ne_nil_of_length_pos some_computed
    obtain ⟨running,_,_⟩ := ready_running blockSize advance initial queryLen settled
    exact ⟨running some_token,moved_column blockSize s.row queryLen (settled.column some_token)⟩
  · intro p numSampled pending verify least most m crossed after rest
    have sampled : Sampled p numSampled := by
      unfold Sampled
      rw [if_pos verify]
      exact ⟨least,most⟩
    cases boundary : (s.committed.length + numSampled) / blockSize with
    | zero =>
        have none_reached : m = 0 * blockSize := congrArg (· * blockSize) boundary
        omega
    | succ j =>
        have aligned : m = (j + 1) * blockSize := congrArg (· * blockSize) boundary
        have column : m / blockSize - 1 = j := by
          rw [aligned,Nat.mul_div_cancel _ positive]
          rfl
        rw [column,aligned]
        exact checkpoint_exact blockSize advance initial positive s held pending verify sampled boundary
          (by omega) rest

end Runs

section Sample

def sampleStart : State (List Nat) Nat := ⟨⟨addRequest 2 0 ⟨0,0,0,0⟩,0,fun _ => []⟩,[],none⟩

def sampleStep : State (List Nat) Nat → Event Nat → State (List Nat) Nat :=
  step 2 (fun tokens token => tokens ++ [token]) []

def samplePrefilled : State (List Nat) Nat :=
  sampleStep (sampleStep sampleStart (.forward false [1,2,3] true)) (.fill true)

def sampleVerifying : State (List Nat) Nat := sampleStep samplePrefilled (.forward true [4,5] true)

-- A deferred prefill of three tokens, then a verify step that ends a block.
theorem running_state_exact_sample :
    ((ready 2 samplePrefilled.row 2).cols (readColumn (ready 2 samplePrefilled.row 2)) = [1,2,3]) ∧
    (sampleStep sampleVerifying (.postprocess 2)).row.cols 1 = [1,2,3,4] := by
  have started : Started 2 (fun tokens token => tokens ++ [token]) ([] : List Nat) sampleStart := .fresh _ _
  have scheduled : Run 2 (fun tokens token => tokens ++ [token]) [] sampleStart _ :=
    .step (.forward false [1,2,3] true) .start ⟨rfl,by simp⟩
  have prefilled : Run 2 (fun tokens token => tokens ++ [token]) [] sampleStart samplePrefilled :=
    .step (.fill true) scheduled ⟨_,rfl,rfl,fun _ => rfl⟩
  have verifying : Run 2 (fun tokens token => tokens ++ [token]) [] sampleStart sampleVerifying :=
    .step (.forward true [4,5] true) prefilled ⟨rfl,by simp⟩
  have read := ((running_state_exact 2 _ [] (by decide) started prefilled).1 rfl 2).2 (by decide)
  have saved := (running_state_exact 2 _ [] (by decide) started verifying).2 _ 2 rfl rfl (by decide) (by decide)
    (by decide) _ .start
  exact ⟨read.1,saved.2⟩

end Sample

end Glm5Next.MambaCheckpoints
