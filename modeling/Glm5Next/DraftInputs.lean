import Glm5Next.GridStores

namespace Glm5Next.DraftInputs
open GridStores

-- The speculator's device buffers, entry by entry.
inductive Cell where
  | inputIds (i : Nat)
  | positions (i : Nat)
  | queryStartLoc (i : Nat)
  | seqLens (i : Nat)
  | lastTokenIndices (i : Nat)
  | currentDraftStep
  | draftTokens (i : Nat)
  | hiddenStates (i : Nat)
  deriving DecidableEq

abbrev Val (V : Type) : Cell → Type
  | .hiddenStates _ => V
  | _ => Int

abbrev Buffers (V : Type) := ∀ c, Val V c

-- The target's InputBatch and the results of its sampling, as the kernels load them.
structure Target where
  inputIds : Nat → Int
  positions : Nat → Int
  idxMapping : Nat → Nat
  queryStartLoc : Nat → Nat
  seqLens : Nat → Int
  numSampled : Nat → Int
  numRejected : Nat → Nat
  lastSampled : Nat → Int
  nextPrefillTokens : Nat → Int

structure Sizes where
  numReqs : Nat
  maxNumReqs : Nat
  maxModelLen : Nat
  numSpeculativeSteps : Nat
  hiddenSize : Nat
  blockSize : Nat
  advanceDraftPositions : Bool
  started : 0 < numReqs
  fits : numReqs ≤ maxNumReqs
  drafts : 0 < numSpeculativeSteps
  wide : 0 < hiddenSize
  tiled : 0 < blockSize

section Kernels
variable {V : Type} (t : Target) (z : Sizes)

def Target.queryLen (r : Nat) : Nat := t.queryStartLoc (r + 1) - t.queryStartLoc r - t.numRejected r

def Target.nextToken (r : Nat) : Int :=
  if t.numSampled r > 0 then t.lastSampled (t.idxMapping r)
  else t.nextPrefillTokens (t.idxMapping r)

-- Every value comes from a buffer of the target, which the launch leaves alone.
def preparePrefillInputsKernel (r : Nat) : List (Statement (Val V)) :=
  let queryStart := t.queryStartLoc r
  let queryEnd := t.queryStartLoc (r + 1)
  let queryLen := t.queryLen r
  let lastTokenIndex := queryStart + queryLen - 1
  ((lanes 1 queryLen z.blockSize).map fun j => constant (.inputIds (queryStart + j - 1)) (t.inputIds (queryStart + j))) ++
  [constant (.lastTokenIndices r) (lastTokenIndex : Int),constant (.inputIds lastTokenIndex) (t.nextToken r)] ++
  ((lanes 0 queryLen z.blockSize).map fun j => constant (.positions (queryStart + j)) (t.positions (queryStart + j))) ++
  [constant (.queryStartLoc r) (queryStart : Int),constant (.seqLens r) (t.seqLens r)] ++
  if r = z.numReqs - 1 then
    [constant .currentDraftStep (0 : Int)] ++
    ((lanes z.numReqs (z.maxNumReqs + 1) z.blockSize).map fun i => constant (.queryStartLoc i) (queryEnd : Int)) ++
    ((lanes z.numReqs z.maxNumReqs z.blockSize).map fun i => constant (.seqLens i) (0 : Int)) ++
    ((lanes z.numReqs z.maxNumReqs z.blockSize).map fun i => constant (.lastTokenIndices i) (0 : Int))
  else []

def preparePrefillInputs : List (Statement (Val V)) :=
  (List.range z.numReqs).flatMap (preparePrefillInputsKernel t z)

-- draft_tokens is the column draft_tokens[:num_reqs, 0] of the table.
def prepareDecodeInputsKernel (r : Nat) : List (Statement (Val V)) :=
  if r = z.numReqs then
    ((lanes 0 (z.maxNumReqs + 1) z.blockSize).map fun i =>
      constant (.queryStartLoc i) ((if i < z.numReqs then i else z.numReqs : Nat) : Int)) ++
    ((lanes r z.maxNumReqs z.blockSize).map fun i => constant (.seqLens i) (0 : Int))
  else
    let seqLen := t.seqLens r - t.numRejected r
    [⟨.inputIds r,fun mem => mem (.draftTokens (r * z.numSpeculativeSteps))⟩] ++
    (if z.advanceDraftPositions then [⟨.positions r,fun mem => min ((mem (.positions r) : Int) + 1) ((z.maxModelLen : Int) - 1)⟩]
      else []) ++
    [constant (.seqLens r) (if z.advanceDraftPositions then min (seqLen + 1) (z.maxModelLen : Int) else seqLen)]

def prepareDecodeInputs : List (Statement (Val V)) :=
  (List.range (z.numReqs + 1)).flatMap (prepareDecodeInputsKernel t z)

-- `step` is what every program loads from current_draft_step.
def updateDraftInputsKernel (step : Nat) (draftTokens : Nat → Int) (hiddenStates : Nat → Nat → V) (r : Nat) :
    List (Statement (Val V)) :=
  [constant (.draftTokens (r * z.numSpeculativeSteps + step)) (draftTokens r)] ++
  if step ≥ z.numSpeculativeSteps - 1 then []
  else
    [constant (.inputIds r) (draftTokens r)] ++
    ((lanes 0 z.hiddenSize z.blockSize).map fun j => constant (.hiddenStates (r * z.hiddenSize + j)) (hiddenStates r j)) ++
    if z.advanceDraftPositions then
      [⟨.positions r,fun mem => min ((mem (.positions r) : Int) + 1) ((z.maxModelLen : Int) - 1)⟩,
        ⟨.seqLens r,fun mem => min ((mem (.seqLens r) : Int) + 1) (z.maxModelLen : Int)⟩]
    else []

-- A captured graph also updates the rows it pads the requests to.
def updateDraftInputs (rows step : Nat) (draftTokens : Nat → Int) (hiddenStates : Nat → Nat → V) :
    List (Statement (Val V)) :=
  (List.range rows).flatMap (updateDraftInputsKernel z step draftTokens hiddenStates)

end Kernels

section Update
variable {V : Type} (z : Sizes) (rows step : Nat) (draftTokens : Nat → Int) (hiddenStates : Nat → Nat → V)

def updated (mem : Buffers V) : Buffers V
  | .draftTokens i =>
    if i / z.numSpeculativeSteps < rows ∧ i % z.numSpeculativeSteps = step then draftTokens (i / z.numSpeculativeSteps)
    else mem (.draftTokens i)
  | .inputIds r => if step < z.numSpeculativeSteps - 1 ∧ r < rows then draftTokens r else mem (.inputIds r)
  | .hiddenStates i =>
    if step < z.numSpeculativeSteps - 1 ∧ i / z.hiddenSize < rows then hiddenStates (i / z.hiddenSize) (i % z.hiddenSize)
    else mem (.hiddenStates i)
  | .positions r =>
    if (step < z.numSpeculativeSteps - 1 ∧ z.advanceDraftPositions = true) ∧ r < rows then
      min ((mem (.positions r) : Int) + 1) ((z.maxModelLen : Int) - 1)
    else mem (.positions r)
  | .seqLens r =>
    if (step < z.numSpeculativeSteps - 1 ∧ z.advanceDraftPositions = true) ∧ r < rows then
      min ((mem (.seqLens r) : Int) + 1) (z.maxModelLen : Int)
    else mem (.seqLens r)
  | c => mem c

def rowOf : Cell → Nat
  | .draftTokens i => i / z.numSpeculativeSteps
  | .hiddenStates i => i / z.hiddenSize
  | .inputIds r | .positions r | .seqLens r | .queryStartLoc r | .lastTokenIndices r => r
  | .currentDraftStep => 0

variable {z rows step}

theorem update_owned (inside : step < z.numSpeculativeSteps) (member : st ∈ updateDraftInputsKernel z step draftTokens
    hiddenStates r) : rowOf z st.cell = r := by
  unfold updateDraftInputsKernel at member
  rcases List.mem_append.mp member with first | rest
  · obtain rfl := List.mem_singleton.mp first
    exact Ragged.grid_row inside
  · split at rest
    · cases rest
    · simp only [List.mem_append,List.mem_map,lanes_exact z.tiled,List.mem_singleton] at rest
      rcases rest with (rfl | ⟨j,⟨_,short⟩,rfl⟩) | rest
      · rfl
      · exact Ragged.grid_row short
      · split at rest
        · simp only [List.mem_cons,List.not_mem_nil,or_false] at rest
          rcases rest with rfl | rfl <;> rfl
        · cases rest

theorem update_value (inside : step < z.numSpeculativeSteps) (row : r < rows) (mem : Buffers V)
    (member : st ∈ updateDraftInputsKernel z step draftTokens hiddenStates r) :
    st.value mem = updated z rows step draftTokens hiddenStates mem st.cell := by
  unfold updateDraftInputsKernel at member
  rcases List.mem_append.mp member with first | rest
  · obtain rfl := List.mem_singleton.mp first
    simp [constant,updated,Ragged.grid_row inside,Ragged.grid_col inside,row]
  · split at rest
    · cases rest
    · rename_i more
      have more : step < z.numSpeculativeSteps - 1 := Nat.lt_of_not_le more
      simp only [List.mem_append,List.mem_map,lanes_exact z.tiled,List.mem_singleton] at rest
      rcases rest with (rfl | ⟨j,⟨_,short⟩,rfl⟩) | rest
      · simp [constant,updated,more,row]
      · simp [constant,updated,more,row,Ragged.grid_row short,Ragged.grid_col short]
      · split at rest
        · rename_i advancing
          simp only [List.mem_cons,List.not_mem_nil,or_false] at rest
          rcases rest with rfl | rfl <;> simp [updated,more,row,advancing]
        · cases rest

theorem update_once :
    (cells (updateDraftInputsKernel z step draftTokens hiddenStates r)).Nodup := by
  have row : ((lanes 0 z.hiddenSize z.blockSize).map fun j => Cell.hiddenStates (r * z.hiddenSize + j)).Nodup :=
    (lanes_nodup 0 z.hiddenSize z.blockSize).map fun a b same => by simpa using same
  unfold updateDraftInputsKernel cells
  split
  · simp
  · split <;> simp [constant,List.nodup_append,Function.comp_def,row]

theorem updated_own (mem mem' : Buffers V) (own : mem c = mem' c) :
    updated z rows step draftTokens hiddenStates mem c = updated z rows step draftTokens hiddenStates mem' c := by
  cases c <;> simp only [updated,own]

theorem update_free (inside : step < z.numSpeculativeSteps) :
    RaceFree (updateDraftInputs z rows step draftTokens hiddenStates) := by
  constructor
  · apply nodup_owned _ _ List.nodup_range (rowOf z)
    · intro r _ c listed
      obtain ⟨st,member,rfl⟩ := List.mem_map.mp listed
      exact update_owned _ _ inside member
    · intro r _
      exact update_once _ _
  · intro st member mem mem' own _
    obtain ⟨r,row,member⟩ := List.mem_flatMap.mp member
    have row := List.mem_range.mp row
    rw [update_value _ _ inside row mem member,update_value _ _ inside row mem' member]
    exact updated_own _ _ _ _ own

theorem update_stored (mem : Buffers V)
    (apart : c ∉ cells (updateDraftInputs z rows step draftTokens hiddenStates)) :
    updated z rows step draftTokens hiddenStates mem c = mem c := by
  have unlisted : ∀ r < rows, ∀ st ∈ updateDraftInputsKernel z step draftTokens hiddenStates r, st.cell ≠ c :=
    fun r row st member same => apart (List.mem_map.mpr ⟨st,List.mem_flatMap.mpr ⟨r,List.mem_range.mpr row,member⟩,same⟩)
  unfold updateDraftInputsKernel at unlisted
  cases c with
  | draftTokens i =>
      apply if_neg
      rintro ⟨row,rfl⟩
      exact unlisted _ row _ (List.mem_append_left _ (List.mem_singleton_self _))
        (congrArg Cell.draftTokens (Nat.div_add_mod' i z.numSpeculativeSteps))
  | inputIds r =>
      apply if_neg
      rintro ⟨more,row⟩
      exact unlisted r row (constant (.inputIds r) (draftTokens r)) (by simp [Nat.not_le.mpr more]) rfl
  | hiddenStates i =>
      apply if_neg
      rintro ⟨more,row⟩
      have short := Nat.mod_lt i z.wide
      have column : i % z.hiddenSize ∈ lanes 0 z.hiddenSize z.blockSize := (lanes_exact z.tiled).mpr ⟨Nat.zero_le _,short⟩
      refine unlisted _ row (constant (.hiddenStates (i / z.hiddenSize * z.hiddenSize + i % z.hiddenSize))
        (hiddenStates (i / z.hiddenSize) (i % z.hiddenSize))) ?_ (congrArg Cell.hiddenStates (Nat.div_add_mod' i z.hiddenSize))
      rw [if_neg (Nat.not_le.mpr more)]
      exact List.mem_append_right _ (List.mem_append_left _ (List.mem_append_right _ (List.mem_map.mpr ⟨_,column,rfl⟩)))
  | positions r =>
      apply if_neg
      rintro ⟨⟨more,advancing⟩,row⟩
      exact unlisted r row ⟨.positions r,fun mem => min ((mem (.positions r) : Int) + 1) ((z.maxModelLen : Int) - 1)⟩
        (by simp [Nat.not_le.mpr more,advancing]) rfl
  | seqLens r =>
      apply if_neg
      rintro ⟨⟨more,advancing⟩,row⟩
      exact unlisted r row ⟨.seqLens r,fun mem => min ((mem (.seqLens r) : Int) + 1) (z.maxModelLen : Int)⟩
        (by simp [Nat.not_le.mpr more,advancing]) rfl
  | queryStartLoc | lastTokenIndices | currentDraftStep => rfl

theorem update_exact (inside : step < z.numSpeculativeSteps) (mem : Buffers V)
    (order : List (Statement (Val V))) (all : order.Perm (updateDraftInputs z rows step draftTokens hiddenStates)) :
    run order mem = updated z rows step draftTokens hiddenStates mem := by
  apply run_spec (update_free _ _ inside) all mem
  · intro st member
    obtain ⟨r,row,own⟩ := List.mem_flatMap.mp member
    exact update_value _ _ inside (List.mem_range.mp row) mem own
  · intro c apart
    exact update_stored _ _ mem apart

end Update

section Decode
variable {V : Type} (t : Target) (z : Sizes)

def Target.seqLenLeft (r : Nat) : Int := t.seqLens r - t.numRejected r

def decodePrepared (mem : Buffers V) : Buffers V
  | .inputIds r => if r < z.numReqs then mem (.draftTokens (r * z.numSpeculativeSteps)) else mem (.inputIds r)
  | .positions r =>
    if z.advanceDraftPositions = true ∧ r < z.numReqs then
      min ((mem (.positions r) : Int) + 1) ((z.maxModelLen : Int) - 1)
    else mem (.positions r)
  | .queryStartLoc i =>
    if i ≤ z.maxNumReqs then ((if i < z.numReqs then i else z.numReqs : Nat) : Int) else mem (.queryStartLoc i)
  | .seqLens r =>
    if r < z.numReqs then
      (if z.advanceDraftPositions then min (t.seqLenLeft r + 1) (z.maxModelLen : Int) else t.seqLenLeft r)
    else if r < z.maxNumReqs then (0 : Int) else mem (.seqLens r)
  | c => mem c

def programOf : Cell → Nat
  | .inputIds r | .positions r | .seqLens r => min r z.numReqs
  | _ => z.numReqs

variable {t z}

theorem decode_owned (row : r ≤ z.numReqs) (member : st ∈ prepareDecodeInputsKernel (V := V) t z r) :
    programOf z st.cell = r := by
  unfold prepareDecodeInputsKernel at member
  split at member
  · simp only [List.mem_append,List.mem_map,lanes_exact z.tiled] at member
    rcases member with ⟨i,_,rfl⟩ | ⟨i,bound,rfl⟩
    · exact Eq.symm ‹_›
    · simp only [constant,programOf]
      omega
  · simp only [List.mem_append,List.mem_singleton] at member
    rcases member with (rfl | advanced) | rfl
    · exact Nat.min_eq_left row
    · split at advanced
      · obtain rfl := List.mem_singleton.mp advanced
        exact Nat.min_eq_left row
      · cases advanced
    · exact Nat.min_eq_left row

theorem decode_value (row : r ≤ z.numReqs) (mem : Buffers V) (member : st ∈ prepareDecodeInputsKernel t z r) :
    st.value mem = decodePrepared t z mem st.cell := by
  unfold prepareDecodeInputsKernel at member
  split at member
  · rename_i last
    simp only [List.mem_append,List.mem_map,lanes_exact z.tiled] at member
    rcases member with ⟨i,bound,rfl⟩ | ⟨i,bound,rfl⟩
    · simp [constant,decodePrepared,Nat.lt_succ_iff.mp bound.2]
    · have past : ¬ i < z.numReqs := by omega
      simp [constant,decodePrepared,past,bound.2]
  · rename_i own
    have own : r < z.numReqs := Nat.lt_of_le_of_ne row own
    simp only [List.mem_append,List.mem_singleton] at member
    rcases member with (rfl | advanced) | rfl
    · simp [decodePrepared,own]
    · split at advanced
      · rename_i advancing
        obtain rfl := List.mem_singleton.mp advanced
        simp [decodePrepared,own,advancing]
      · cases advanced
    · simp [constant,decodePrepared,own,Target.seqLenLeft]

theorem decode_once : (cells (prepareDecodeInputsKernel (V := V) t z r)).Nodup := by
  have starts : ((lanes 0 (z.maxNumReqs + 1) z.blockSize).map Cell.queryStartLoc).Nodup :=
    (lanes_nodup _ _ _).map fun a b same => by simpa using same
  have lens : ((lanes r z.maxNumReqs z.blockSize).map Cell.seqLens).Nodup :=
    (lanes_nodup _ _ _).map fun a b same => by simpa using same
  unfold prepareDecodeInputsKernel cells
  split
  · simp only [List.map_append,List.map_map,constant,Function.comp_def,List.nodup_append]
    exact ⟨starts,lens,by simp⟩
  · split <;> simp [constant]

theorem prepared_own (mem mem' : Buffers V) (own : mem c = mem' c)
    (drafts : ∀ i, mem (.draftTokens i) = mem' (.draftTokens i)) : decodePrepared t z mem c = decodePrepared t z mem' c := by
  cases c <;> simp only [decodePrepared,own,drafts]

theorem decode_free : RaceFree (prepareDecodeInputs (V := V) t z) := by
  constructor
  · apply nodup_owned _ _ List.nodup_range (programOf z)
    · intro r row c listed
      obtain ⟨st,member,rfl⟩ := List.mem_map.mp listed
      exact decode_owned (Nat.lt_succ_iff.mp (List.mem_range.mp row)) member
    · intro r _
      exact decode_once
  · intro st member mem mem' own apart
    have unstored : ∀ i, Cell.draftTokens i ∉ cells (prepareDecodeInputs (V := V) t z) := by
      intro i listed
      obtain ⟨st,member,same⟩ := List.mem_map.mp listed
      obtain ⟨r,_,member⟩ := List.mem_flatMap.mp member
      unfold prepareDecodeInputsKernel at member
      split at member
      · simp only [List.mem_append,List.mem_map] at member
        rcases member with ⟨_,_,rfl⟩ | ⟨_,_,rfl⟩ <;> cases same
      · split at member <;> simp only [List.mem_append,List.mem_singleton,List.not_mem_nil,or_false] at member
        · rcases member with (rfl | rfl) | rfl <;> cases same
        · rcases member with rfl | rfl <;> cases same
    obtain ⟨r,row,member⟩ := List.mem_flatMap.mp member
    have row := Nat.lt_succ_iff.mp (List.mem_range.mp row)
    rw [decode_value row mem member,decode_value row mem' member]
    exact prepared_own mem mem' own fun i => apart _ (unstored i)

theorem decode_stored (mem : Buffers V) (apart : c ∉ cells (prepareDecodeInputs (V := V) t z)) :
    decodePrepared t z mem c = mem c := by
  have unlisted : ∀ r ≤ z.numReqs, ∀ st ∈ prepareDecodeInputsKernel t z r, st.cell ≠ c :=
    fun r row st member same => apart (List.mem_map.mpr
      ⟨st,List.mem_flatMap.mpr ⟨r,List.mem_range.mpr (Nat.lt_succ_of_le row),member⟩,same⟩)
  unfold prepareDecodeInputsKernel at unlisted
  cases c with
  | inputIds r =>
      apply if_neg
      intro row
      exact unlisted r (Nat.le_of_lt row) ⟨.inputIds r,fun mem => mem (.draftTokens (r * z.numSpeculativeSteps))⟩
        (by simp [Nat.ne_of_lt row]) rfl
  | positions r =>
      apply if_neg
      rintro ⟨advancing,row⟩
      exact unlisted r (Nat.le_of_lt row)
        ⟨.positions r,fun mem => min ((mem (.positions r) : Int) + 1) ((z.maxModelLen : Int) - 1)⟩
        (by simp [Nat.ne_of_lt row,advancing]) rfl
  | queryStartLoc i =>
      apply if_neg
      intro inside
      refine unlisted z.numReqs (Nat.le_refl _) (constant (.queryStartLoc i)
        ((if i < z.numReqs then i else z.numReqs : Nat) : Int)) ?_ rfl
      rw [if_pos rfl]
      exact List.mem_append_left _ (List.mem_map.mpr
        ⟨i,(lanes_exact z.tiled).mpr ⟨Nat.zero_le i,Nat.lt_succ_of_le inside⟩,rfl⟩)
  | seqLens r =>
      have own : ¬ r < z.numReqs := by
        intro row
        refine unlisted r (Nat.le_of_lt row) (constant (.seqLens r)
          (if z.advanceDraftPositions then min (t.seqLenLeft r + 1) (z.maxModelLen : Int) else t.seqLenLeft r)) ?_ rfl
        rw [if_neg (Nat.ne_of_lt row)]
        exact List.mem_append_right _ (List.mem_singleton_self _)
      have padded : ¬ r < z.maxNumReqs := by
        intro inside
        refine unlisted z.numReqs (Nat.le_refl _) (constant (.seqLens r) (0 : Int)) ?_ rfl
        rw [if_pos rfl]
        exact List.mem_append_right _ (List.mem_map.mpr
          ⟨r,(lanes_exact z.tiled).mpr ⟨Nat.le_of_not_lt own,inside⟩,rfl⟩)
      simp only [decodePrepared,own,padded,if_false]
  | lastTokenIndices | draftTokens | hiddenStates | currentDraftStep => rfl

theorem decode_exact (mem : Buffers V) (order : List (Statement (Val V))) (all : order.Perm (prepareDecodeInputs t z)) :
    run order mem = decodePrepared t z mem := by
  apply run_spec decode_free all mem
  · intro st member
    obtain ⟨r,row,own⟩ := List.mem_flatMap.mp member
    exact decode_value (Nat.lt_succ_iff.mp (List.mem_range.mp row)) mem own
  · intro c apart
    exact decode_stored mem apart

end Decode

-- A scheduled request as the target ran it; the last `numRejected` of its tokens
-- are drafts that the target refused.
structure Request where
  numComputed : Nat
  queryLen : Nat
  numRejected : Nat
  accepted : numRejected < queryLen

def Request.kept (q : Request) : Nat := q.queryLen - q.numRejected

def queryLens (reqs : List Request) : List Nat := reqs.map Request.queryLen

def queryStart (reqs : List Request) (r : Nat) : Nat := Ragged.start (queryLens reqs) r

structure Describes (reqs : List Request) (t : Target) (z : Sizes) : Prop where
  counted : z.numReqs = reqs.length
  starts : ∀ r ≤ reqs.length, t.queryStartLoc r = queryStart reqs r
  rejected : ∀ r q, reqs[r]? = some q → t.numRejected r = q.numRejected
  positions : ∀ r q k, reqs[r]? = some q → k < q.queryLen → t.positions (queryStart reqs r + k) = (q.numComputed + k : Nat)
  seqLens : ∀ r q, reqs[r]? = some q → t.seqLens r = (q.numComputed + q.queryLen : Nat)

section Prefill
variable {V : Type} (reqs : List Request) (t : Target) (z : Sizes)

def ownerOf (i : Nat) : Nat := ((Ragged.owners (queryLens reqs))[i]?).getD 0

def keptOf (r : Nat) : Nat := (reqs[r]?.map Request.kept).getD 0

def prefillPrepared (mem : Buffers V) : Buffers V
  | .inputIds i =>
    if i < (queryLens reqs).sum ∧ i + 1 < queryStart reqs (ownerOf reqs i) + keptOf reqs (ownerOf reqs i) then
      t.inputIds (i + 1)
    else if i < (queryLens reqs).sum ∧ i + 1 = queryStart reqs (ownerOf reqs i) + keptOf reqs (ownerOf reqs i) then
      t.nextToken (ownerOf reqs i)
    else mem (.inputIds i)
  | .positions i =>
    if i < (queryLens reqs).sum ∧ i < queryStart reqs (ownerOf reqs i) + keptOf reqs (ownerOf reqs i) then t.positions i
    else mem (.positions i)
  | .queryStartLoc i => if i ≤ z.maxNumReqs then (queryStart reqs (min i z.numReqs) : Int) else mem (.queryStartLoc i)
  | .seqLens r => if r < z.numReqs then t.seqLens r else if r < z.maxNumReqs then (0 : Int) else mem (.seqLens r)
  | .lastTokenIndices r =>
    if r < z.numReqs then ((queryStart reqs r + keptOf reqs r - 1 : Nat) : Int)
    else if r < z.maxNumReqs then (0 : Int) else mem (.lastTokenIndices r)
  | .currentDraftStep => (0 : Int)
  | c => mem c

def prefillProgram : Cell → Nat
  | .inputIds i | .positions i => ownerOf reqs i
  | .queryStartLoc i | .seqLens i | .lastTokenIndices i => min i (z.numReqs - 1)
  | _ => z.numReqs - 1

variable {reqs t z} {r k : Nat}

theorem lens_found {q : Request} (found : reqs[r]? = some q) : (queryLens reqs)[r]? = some q.queryLen := by
  simp [queryLens,found]

theorem kept_found {q : Request} (found : reqs[r]? = some q) : keptOf reqs r = q.kept := by simp [keptOf,found]

theorem kept_pos (q : Request) : 0 < q.kept := Nat.sub_pos_of_lt q.accepted

theorem owner_row {q : Request} (found : reqs[r]? = some q) (inside : k < q.queryLen) :
    ownerOf reqs (queryStart reqs r + k) = r ∧ queryStart reqs r + k < (queryLens reqs).sum := by
  have listed := lens_found found
  constructor
  · simp [ownerOf,queryStart,Ragged.owners_get listed inside]
  · have before := Ragged.row_inside listed inside (List.getElem?_eq_some_iff.mp listed).1
    rwa [Ragged.start_length] at before

theorem request_found (described : Describes reqs t z) (row : r < z.numReqs) : ∃ q, reqs[r]? = some q := by
  rw [described.counted] at row
  exact ⟨_,List.getElem?_eq_getElem row⟩

theorem query_exact {q : Request} (described : Describes reqs t z) (found : reqs[r]? = some q) :
    t.queryStartLoc r = queryStart reqs r ∧ t.queryLen r = q.kept := by
  have row := (List.getElem?_eq_some_iff.mp found).1
  have first := described.starts r (Nat.le_of_lt row)
  have next := described.starts (r + 1) row
  rw [queryStart,Ragged.start_succ (lens_found found)] at next
  refine ⟨first,?_⟩
  rw [Target.queryLen,first,next,described.rejected r q found,queryStart,Nat.add_sub_cancel_left]
  rfl

theorem prefill_value {q : Request} (described : Describes reqs t z) (found : reqs[r]? = some q) (mem : Buffers V)
    (member : st ∈ preparePrefillInputsKernel t z r) : st.value mem = prefillPrepared reqs t z mem st.cell := by
  have row : r < z.numReqs := described.counted ▸ (List.getElem?_eq_some_iff.mp found).1
  obtain ⟨first,length⟩ := query_exact described found
  have positive := kept_pos q
  have bounded : q.kept ≤ q.queryLen := Nat.sub_le _ _
  have kept := kept_found found
  unfold preparePrefillInputsKernel at member
  simp only [first,length,List.mem_append,List.mem_map,lanes_exact z.tiled,List.mem_cons,List.not_mem_nil,
    or_false] at member
  rcases member with ((((⟨j,bound,rfl⟩ | (rfl | rfl)) | ⟨j,bound,rfl⟩) | (rfl | rfl)) | padding)
  · have place : queryStart reqs r + j - 1 = queryStart reqs r + (j - 1) := by omega
    obtain ⟨owner,inside⟩ := owner_row found (show j - 1 < q.queryLen by omega)
    have next : queryStart reqs r + (j - 1) + 1 = queryStart reqs r + j := by omega
    simp [constant,prefillPrepared,first,place,owner,inside,kept,next,bound.2]
  · simp [constant,prefillPrepared,row,kept]
  · have place : queryStart reqs r + q.kept - 1 = queryStart reqs r + (q.kept - 1) := by omega
    obtain ⟨owner,inside⟩ := owner_row found (show q.kept - 1 < q.queryLen by omega)
    have next : queryStart reqs r + (q.kept - 1) + 1 = queryStart reqs r + q.kept := by omega
    simp [constant,prefillPrepared,first,length,place,owner,inside,kept,next]
  · obtain ⟨owner,inside⟩ := owner_row found (show j < q.queryLen by omega)
    simp [constant,prefillPrepared,first,owner,inside,kept,bound.2]
  · have inside : r ≤ z.maxNumReqs := Nat.le_trans (Nat.le_of_lt row) z.fits
    simp [constant,prefillPrepared,inside,Nat.min_eq_left (Nat.le_of_lt row)]
  · simp [constant,prefillPrepared,row]
  · split at padding
    · rename_i last
      have stop : r + 1 = z.numReqs := by have := z.started; omega
      have next := described.starts (r + 1) (List.getElem?_eq_some_iff.mp found).1
      rw [stop] at next
      simp only [List.mem_append,List.mem_map,lanes_exact z.tiled,List.mem_singleton] at padding
      rcases padding with ((rfl | ⟨i,bound,rfl⟩) | ⟨i,bound,rfl⟩) | ⟨i,bound,rfl⟩
      · rfl
      · simp [constant,prefillPrepared,Nat.lt_succ_iff.mp bound.2,Nat.min_eq_right bound.1,next,stop]
      · simp [constant,prefillPrepared,Nat.not_lt.mpr bound.1,bound.2]
      · simp [constant,prefillPrepared,Nat.not_lt.mpr bound.1,bound.2]
    · cases padding

theorem prefill_owned {q : Request} (described : Describes reqs t z) (found : reqs[r]? = some q)
    (member : st ∈ preparePrefillInputsKernel (V := V) t z r) : prefillProgram reqs z st.cell = r := by
  have row : r < z.numReqs := described.counted ▸ (List.getElem?_eq_some_iff.mp found).1
  obtain ⟨first,length⟩ := query_exact described found
  have positive := kept_pos q
  have bounded : q.kept ≤ q.queryLen := Nat.sub_le _ _
  have own : min r (z.numReqs - 1) = r := by omega
  unfold preparePrefillInputsKernel at member
  simp only [first,length,List.mem_append,List.mem_map,lanes_exact z.tiled,List.mem_cons,List.not_mem_nil,
    or_false] at member
  rcases member with ((((⟨j,bound,rfl⟩ | (rfl | rfl)) | ⟨j,bound,rfl⟩) | (rfl | rfl)) | padding)
  · have place : queryStart reqs r + j - 1 = queryStart reqs r + (j - 1) := by omega
    simp [constant,prefillProgram,first,place,owner_row found (show j - 1 < q.queryLen by omega)]
  · exact own
  · have place : queryStart reqs r + q.kept - 1 = queryStart reqs r + (q.kept - 1) := by omega
    simp [constant,prefillProgram,first,length,place,owner_row found (show q.kept - 1 < q.queryLen by omega)]
  · simp [constant,prefillProgram,first,owner_row found (show j < q.queryLen by omega)]
  · exact own
  · exact own
  · split at padding
    · rename_i last
      simp only [List.mem_append,List.mem_map,lanes_exact z.tiled,List.mem_singleton] at padding
      rcases padding with ((rfl | ⟨i,bound,rfl⟩) | ⟨i,bound,rfl⟩) | ⟨i,bound,rfl⟩
      · exact last.symm
      all_goals
        simp only [constant,prefillProgram]
        omega
    · cases padding

theorem prefill_once {q : Request} (described : Describes reqs t z) (found : reqs[r]? = some q) :
    (cells (preparePrefillInputsKernel (V := V) t z r)).Nodup := by
  obtain ⟨first,length⟩ := query_exact described found
  have positive := kept_pos q
  have shifted : ((lanes 1 q.kept z.blockSize).map fun j => Cell.inputIds (queryStart reqs r + j - 1)).Nodup := by
    apply List.Nodup.map_on _ (lanes_nodup 1 q.kept z.blockSize)
    intro a listed b listed' same
    have low := ((lanes_exact z.tiled).mp listed).1
    have low' := ((lanes_exact z.tiled).mp listed').1
    have same := Cell.inputIds.inj same
    omega
  have copied : ((lanes 0 q.kept z.blockSize).map fun j => Cell.positions (queryStart reqs r + j)).Nodup :=
    (lanes_nodup 0 q.kept z.blockSize).map fun a b same => by simpa using same
  have padded (build : Nat → Cell) (injective : Function.Injective build) (hi : Nat) :
      ((lanes z.numReqs hi z.blockSize).map build).Nodup := (lanes_nodup _ _ _).map injective
  have starts := padded Cell.queryStartLoc (fun a b same => by simpa using same) (z.maxNumReqs + 1)
  have lens := padded Cell.seqLens (fun a b same => by simpa using same) z.maxNumReqs
  have lasts := padded Cell.lastTokenIndices (fun a b same => by simpa using same) z.maxNumReqs
  have unshifted : ∀ j ∈ lanes 1 q.kept z.blockSize, queryStart reqs r + j - 1 ≠ queryStart reqs r + q.kept - 1 := by
    intro j listed
    have bound := (lanes_exact z.tiled).mp listed
    omega
  have outside : ∀ hi, ∀ i ∈ lanes z.numReqs hi z.blockSize, z.numReqs ≤ i :=
    fun hi i listed => ((lanes_exact z.tiled).mp listed).1
  have row : r < z.numReqs := described.counted ▸ (List.getElem?_eq_some_iff.mp found).1
  have apart : ∀ hi, r ∉ lanes z.numReqs hi z.blockSize := fun hi listed => Nat.not_le.mpr row (outside hi r listed)
  unfold preparePrefillInputsKernel cells
  rw [first,length]
  split
  · simp only [List.map_append,List.map_map,List.map_cons,List.map_nil,constant,Function.comp_def]
    simp +contextual [List.nodup_append,or_imp,forall_and,shifted,copied,starts,lens,lasts,unshifted,apart]
  · simp only [List.map_append,List.map_map,List.map_cons,List.map_nil,constant,Function.comp_def]
    simp +contextual [List.nodup_append,or_imp,forall_and,shifted,copied,unshifted]

theorem prefilled_own (mem mem' : Buffers V) (own : mem c = mem' c) :
    prefillPrepared reqs t z mem c = prefillPrepared reqs t z mem' c := by
  cases c <;> simp only [prefillPrepared,own]

theorem prefill_free (described : Describes reqs t z) : RaceFree (preparePrefillInputs (V := V) t z) := by
  have found : ∀ r ∈ List.range z.numReqs, ∃ q, reqs[r]? = some q :=
    fun r row => request_found described (List.mem_range.mp row)
  constructor
  · apply nodup_owned _ _ List.nodup_range (prefillProgram reqs z)
    · intro r row c listed
      obtain ⟨q,own⟩ := found r row
      obtain ⟨st,member,rfl⟩ := List.mem_map.mp listed
      exact prefill_owned described own member
    · intro r row
      obtain ⟨q,own⟩ := found r row
      exact prefill_once described own
  · intro st member mem mem' own _
    obtain ⟨r,row,member⟩ := List.mem_flatMap.mp member
    obtain ⟨q,listed⟩ := found r row
    rw [prefill_value described listed mem member,prefill_value described listed mem' member]
    exact prefilled_own mem mem' own

theorem owner_inside (inside : i < (queryLens reqs).sum) :
    ∃ r q k, reqs[r]? = some q ∧ k < q.queryLen ∧ i = queryStart reqs r + k ∧ ownerOf reqs i = r := by
  obtain ⟨r,len,k,found,bounded,rfl⟩ := Ragged.locate (queryLens reqs) inside
  rw [queryLens,List.getElem?_map,Option.map_eq_some_iff] at found
  obtain ⟨q,listed,rfl⟩ := found
  exact ⟨r,q,k,listed,bounded,rfl,(owner_row listed bounded).1⟩

theorem input_listed {q : Request} (described : Describes reqs t z) (found : reqs[r]? = some q) (inside : k < q.kept) :
    Cell.inputIds (queryStart reqs r + k) ∈ cells (preparePrefillInputsKernel (V := V) t z r) := by
  obtain ⟨first,length⟩ := query_exact described found
  unfold preparePrefillInputsKernel cells
  rw [first,length]
  by_cases before : k + 1 < q.kept
  · have lane : k + 1 ∈ lanes 1 q.kept z.blockSize := (lanes_exact z.tiled).mpr ⟨Nat.succ_le_succ (Nat.zero_le k),before⟩
    simp only [List.append_assoc,List.map_append,List.mem_append,List.map_map]
    exact Or.inl (List.mem_map.mpr ⟨k + 1,lane,rfl⟩)
  · have ends : queryStart reqs r + k = queryStart reqs r + q.kept - 1 := by omega
    simp [constant,ends]

theorem position_listed {q : Request} (described : Describes reqs t z) (found : reqs[r]? = some q) (inside : k < q.kept) :
    Cell.positions (queryStart reqs r + k) ∈ cells (preparePrefillInputsKernel (V := V) t z r) := by
  obtain ⟨first,length⟩ := query_exact described found
  have lane : k ∈ lanes 0 q.kept z.blockSize := (lanes_exact z.tiled).mpr ⟨Nat.zero_le k,inside⟩
  unfold preparePrefillInputsKernel cells
  rw [first,length]
  simp only [List.map_append,List.mem_append,List.map_map]
  exact Or.inl (Or.inl (Or.inr (List.mem_map.mpr ⟨k,lane,rfl⟩)))

theorem row_listed (c : Cell) (own : c = .queryStartLoc r ∨ c = .seqLens r ∨ c = .lastTokenIndices r) :
    c ∈ cells (preparePrefillInputsKernel (V := V) t z r) := by
  rcases own with rfl | rfl | rfl <;> simp [cells,preparePrefillInputsKernel,constant]

theorem padding_listed (c : Cell) (past : z.numReqs ≤ i)
    (padded : (c = .queryStartLoc i ∧ i ≤ z.maxNumReqs) ∨ (c = .seqLens i ∧ i < z.maxNumReqs) ∨
      (c = .lastTokenIndices i ∧ i < z.maxNumReqs) ∨ c = .currentDraftStep) :
    c ∈ cells (preparePrefillInputsKernel (V := V) t z (z.numReqs - 1)) := by
  rcases padded with ⟨rfl,inside⟩ | ⟨rfl,inside⟩ | ⟨rfl,inside⟩ | rfl
  · simp [cells,preparePrefillInputsKernel,constant,lanes_exact z.tiled,past]
    omega
  · simp [cells,preparePrefillInputsKernel,constant,lanes_exact z.tiled,past,inside]
  · simp [cells,preparePrefillInputsKernel,constant,lanes_exact z.tiled,past,inside]
  · simp [cells,preparePrefillInputsKernel,constant]

theorem prefill_stored (described : Describes reqs t z) (mem : Buffers V)
    (apart : c ∉ cells (preparePrefillInputs (V := V) t z)) : prefillPrepared reqs t z mem c = mem c := by
  have unlisted : ∀ r < z.numReqs, c ∉ cells (preparePrefillInputsKernel (V := V) t z r) := by
    intro r row listed
    obtain ⟨st,member,same⟩ := List.mem_map.mp listed
    exact apart (List.mem_map.mpr ⟨st,List.mem_flatMap.mpr ⟨r,List.mem_range.mpr row,member⟩,same⟩)
  have last : z.numReqs - 1 < z.numReqs := Nat.sub_lt z.started Nat.one_pos
  have bound : ∀ r q, reqs[r]? = some q → r < z.numReqs :=
    fun r q found => described.counted ▸ (List.getElem?_eq_some_iff.mp found).1
  cases c with
  | inputIds i =>
      have free : i < (queryLens reqs).sum → queryStart reqs (ownerOf reqs i) + keptOf reqs (ownerOf reqs i) ≤ i := by
        intro inside
        obtain ⟨r,q,k,found,_,rfl,owner⟩ := owner_inside inside
        rw [owner,kept_found found]
        by_contra short
        exact unlisted r (bound r q found) (input_listed described found (by omega))
      have early : ¬ (i < (queryLens reqs).sum ∧ i + 1 < queryStart reqs (ownerOf reqs i) + keptOf reqs (ownerOf reqs i)) := by
        rintro ⟨inside,short⟩
        have := free inside
        omega
      have ends : ¬ (i < (queryLens reqs).sum ∧ i + 1 = queryStart reqs (ownerOf reqs i) + keptOf reqs (ownerOf reqs i)) := by
        rintro ⟨inside,short⟩
        have := free inside
        omega
      simp only [prefillPrepared,early,ends,if_false]
  | positions i =>
      apply if_neg
      rintro ⟨inside,short⟩
      obtain ⟨r,q,k,found,_,rfl,owner⟩ := owner_inside inside
      rw [owner,kept_found found] at short
      exact unlisted r (bound r q found) (position_listed described found (Nat.lt_of_add_lt_add_left short))
  | queryStartLoc i =>
      apply if_neg
      intro inside
      by_cases row : i < z.numReqs
      · exact unlisted i row (row_listed _ (Or.inl rfl))
      · exact unlisted _ last (padding_listed _ (Nat.le_of_not_lt row) (Or.inl ⟨rfl,inside⟩))
  | seqLens r =>
      have own : ¬ r < z.numReqs := fun row => unlisted r row (row_listed _ (Or.inr (Or.inl rfl)))
      have padded : ¬ r < z.maxNumReqs := fun inside =>
        unlisted _ last (padding_listed _ (Nat.le_of_not_lt own) (Or.inr (Or.inl ⟨rfl,inside⟩)))
      simp only [prefillPrepared,own,padded,if_false]
  | lastTokenIndices r =>
      have own : ¬ r < z.numReqs := fun row => unlisted r row (row_listed _ (Or.inr (Or.inr rfl)))
      have padded : ¬ r < z.maxNumReqs := fun inside =>
        unlisted _ last (padding_listed _ (Nat.le_of_not_lt own) (Or.inr (Or.inr (Or.inl ⟨rfl,inside⟩))))
      simp only [prefillPrepared,own,padded,if_false]
  | currentDraftStep =>
      exact absurd (padding_listed _ (Nat.le_refl _) (Or.inr (Or.inr (Or.inr rfl)))) (unlisted _ last)
  | draftTokens | hiddenStates => rfl

theorem prefill_exact (described : Describes reqs t z) (mem : Buffers V) (order : List (Statement (Val V)))
    (all : order.Perm (preparePrefillInputs t z)) : run order mem = prefillPrepared reqs t z mem := by
  apply run_spec (prefill_free described) all mem
  · intro st member
    obtain ⟨r,row,own⟩ := List.mem_flatMap.mp member
    obtain ⟨q,found⟩ := request_found described (List.mem_range.mp row)
    exact prefill_value described found mem own
  · intro c apart
    exact prefill_stored described mem apart

end Prefill

end Glm5Next.DraftInputs
