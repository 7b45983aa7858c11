import Glm5Next.AlignKernels

namespace Glm5Next.AlignColumns
open PpUtils AppliedRows MambaAlign PointUpdates AlignKernels
variable {T V : Type} {ac : AlignConfig} {up : Upstream T}

-- A column of a slot's row that holds a block of the slot, in every group.
structure OwnColumn (ac : AlignConfig) (up : Upstream T) (tables : T) (slot : Nat) (column : Int) : Prop where
  first : 0 ≤ column
  wide : column < ac.maxBlocks
  held : ∀ state ∈ ac.states, column < up.numBlocks tables state.group slot

structure OwnCopy (ac : AlignConfig) (up : Upstream T) (tables : T) (slot : Nat) (copy : Copy) : Prop where
  src : OwnColumn ac up tables slot copy.srcCol
  shifted : OwnColumn ac up tables slot (copy.srcCol + copy.tokenBias)
  dst : OwnColumn ac up tables slot copy.dstCol

theorem OwnColumn.lower (own : OwnColumn ac up tables slot column) (first : 0 ≤ other) (below : other ≤ column) :
    OwnColumn ac up tables slot other :=
  ⟨first,Int.lt_of_le_of_lt below own.wide,fun state member => Int.lt_of_le_of_lt below (own.held state member)⟩

def blocksNeeded (ac : AlignConfig) (tokens : Nat) : Nat :=
  (tokens + ac.blockSize - 1) / ac.blockSize + ac.numSpeculativeBlocks

structure Allocated (ac : AlignConfig) (up : Upstream T) (tables : T) (slot tokens : Nat) : Prop where
  wide : blocksNeeded ac tokens ≤ ac.maxBlocks
  held : ∀ state ∈ ac.states, blocksNeeded ac tokens ≤ up.numBlocks tables state.group slot

theorem new_column_own (allocated : Allocated ac up tables slot tokens) (scheduled : 0 < computedAfter)
    (covered : computedAfter ≤ tokens) :
    OwnColumn ac up tables slot (newStateIdx ac.blockSize computedAfter + ac.numSpeculativeBlocks) := by
  obtain ⟨k,column,_,_⟩ := new_column_bounds ac.block_pos scheduled
  have fewer : (computedAfter + ac.blockSize - 1) / ac.blockSize ≤ (tokens + ac.blockSize - 1) / ac.blockSize :=
    Nat.div_le_div_right (by omega)
  have last : newStateIdx ac.blockSize computedAfter + ac.numSpeculativeBlocks < blocksNeeded ac tokens := by
    unfold newStateIdx blocksNeeded
    omega
  exact ⟨by omega,Int.lt_of_lt_of_le last (Int.ofNat_le.mpr allocated.wide),fun state member =>
    Int.lt_of_lt_of_le last (Int.ofNat_le.mpr (allocated.held state member))⟩

-- A row that ran: its running block holds the last scheduled token, and the
-- speculative blocks behind it are there.
structure Placed (ac : AlignConfig) (up : Upstream T) (tables : T) (slot computed : Nat) (a : AlignState) : Prop where
  column : 0 ≤ a.stateIdx
  covered : (computed : Int) ≤ (a.stateIdx + 1) * ac.blockSize
  room : OwnColumn ac up tables slot (a.stateIdx + ac.numSpeculativeBlocks)

-- A row that did not run since it was added.
structure Fresh (ac : AlignConfig) (computed : Nat) (a : AlignState) : Prop where
  column : -1 ≤ a.stateIdx
  covered : a.stateIdx * ac.blockSize < computed
  neutral : a.numAccepted = 1

def Counted (ac : AlignConfig) (a : AlignState) : Prop :=
  1 ≤ a.numAccepted ∧ a.numAccepted ≤ ac.numSpeculativeBlocks + 1

theorem add_fresh (ac : AlignConfig) (computed : Nat) (a : AlignState) :
    Fresh ac computed (addRequest ac.cacheBlockSize computed a) := by
  rw [ac.block_same]
  have size : (0 : Int) < ac.blockSize := Int.ofNat_lt.mpr ac.block_pos
  have below : ((computed : Int) - 1) / ac.blockSize * ac.blockSize ≤ computed - 1 :=
    Int.ediv_mul_le _ (Int.ne_of_gt size)
  refine ⟨?_,?_,rfl⟩
  · show -1 ≤ ((computed : Int) - 1) / ac.blockSize
    rw [Int.le_ediv_iff_mul_le size]
    omega
  · show ((computed : Int) - 1) / ac.blockSize * ac.blockSize < computed
    omega

theorem Placed.fewer (placed : Placed ac up tables slot computed a) {fewer : Nat} (less : fewer ≤ computed) :
    Placed ac up tables slot fewer a :=
  ⟨placed.column,Int.le_trans (Int.ofNat_le.mpr less) placed.covered,placed.room⟩

theorem Placed.moved (placed : Placed ac up tables slot computed a) {b : AlignState} (column : b.stateIdx = a.stateIdx) :
    Placed ac up tables slot computed b := by
  refine ⟨?_,?_,?_⟩
  · rw [column]
    exact placed.column
  · rw [column]
    exact placed.covered
  · rw [column]
    exact placed.room

section Rows
variable {tables : T} {slot computed queryLen tokens : Nat} {a : AlignState}

theorem advance_placed (allocated : Allocated ac up tables slot tokens) (scheduled : 0 < queryLen)
    (covered : computed + queryLen ≤ tokens) :
    Placed ac up tables slot (computed + queryLen) (preprocessMambaAlign ac.blockSize (computed + queryLen) a) := by
  obtain ⟨k,column,_,last⟩ := new_column_bounds ac.block_pos (show 0 < computed + queryLen by omega)
  have same : (preprocessMambaAlign ac.blockSize (computed + queryLen) a).stateIdx = k := column
  refine ⟨?_,?_,?_⟩
  · rw [same]
    exact Int.natCast_nonneg k
  · rw [same]
    exact_mod_cast last
  · exact new_column_own allocated (by omega) covered

theorem advance_counted (counted : Counted ac a) : Counted ac (preprocessMambaAlign ac.blockSize computed a) := by
  unfold Counted preprocessMambaAlign
  dsimp only
  split
  · exact ⟨Nat.le_refl 1,Nat.le_add_left 1 _⟩
  · exact counted

-- The source of the pre-copy: the running block of the step before, or the
-- block the request was added with.
theorem precopy_own (counted : Counted ac a) (standing : Placed ac up tables slot computed a ∨ Fresh ac computed a)
    (allocated : Allocated ac up tables slot tokens) (scheduled : 0 < queryLen) (covered : computed + queryLen ≤ tokens)
    (copied : precopyMambaAlign (preprocessMambaAlign ac.blockSize (computed + queryLen) a) = some copy) :
    OwnCopy ac up tables slot copy := by
  have placed := advance_placed (a := a) allocated scheduled covered
  have dest := placed.room.lower placed.column (Int.le_add_of_nonneg_right (Int.natCast_nonneg _))
  unfold precopyMambaAlign at copied
  split at copied
  · cases copied
  · rename_i running
    cases copied
    have first : 0 ≤ a.stateIdx := Int.not_lt.mp fun negative => running (Or.inl negative)
    have bias : ((a.numAccepted - 1 : Nat) : Int) ≤ ac.numSpeculativeBlocks := Int.ofNat_le.mpr (by
      have most := counted.2
      omega)
    have shift : (0 : Int) ≤ ((a.numAccepted - 1 : Nat) : Int) := Int.natCast_nonneg _
    cases standing with
    | inl before =>
        refine ⟨?_,?_,dest⟩
        · exact before.room.lower first (Int.le_add_of_nonneg_right (Int.natCast_nonneg _))
        · exact before.room.lower (Int.add_nonneg first shift) (Int.add_le_add_left bias _)
    | inr fresh =>
        have none : ((a.numAccepted - 1 : Nat) : Int) = 0 := by
          rw [fresh.neutral]
          rfl
        have reached : a.stateIdx.toNat * ac.blockSize < computed + queryLen := by
          have low := fresh.covered
          rw [← Int.toNat_of_nonneg first] at low
          have low : a.stateIdx.toNat * ac.blockSize < computed := by exact_mod_cast low
          omega
        have before := boundary_before ac.block_pos reached
        rw [Int.toNat_of_nonneg first] at before
        have own : OwnColumn ac up tables slot a.stateIdx := dest.lower first before
        refine ⟨own,?_,dest⟩
        show OwnColumn ac up tables slot (a.stateIdx + ((a.numAccepted - 1 : Nat) : Int))
        rw [none,Int.add_zero]
        exact own

theorem postcopy_exact (counted : Counted ac a) (placed : Placed ac up tables slot computed a)
    (accepted : a.numAccepted ≤ computed) :
    (postprocessMamba ac.blockSize computed a).1.stateIdx = a.stateIdx ∧
    Counted ac (postprocessMamba ac.blockSize computed a).1 ∧
    ∀ copy, (postprocessMamba ac.blockSize computed a).2 = some copy → OwnCopy ac up tables slot copy := by
  have decided : Decision ac.blockSize (computed - a.numAccepted) a.numAccepted a
      (postprocessMamba ac.blockSize (computed - a.numAccepted + a.numAccepted) a) :=
    postprocess_exact ac.block_pos rfl
  rw [Nat.sub_add_cancel accepted] at decided
  have total : computed - a.numAccepted + a.numAccepted = computed := Nat.sub_add_cancel accepted
  have neutral : Counted ac { a with numAccepted := 1 } := ⟨Nat.le_refl 1,Nat.le_add_left 1 _⟩
  -- the copies of both kinds: a source within the speculative blocks and an
  -- earlier boundary
  have own (j : Nat) (boundary : (computed - a.numAccepted + a.numAccepted) / ac.blockSize = j + 1)
      (crossed : computed - a.numAccepted < (j + 1) * ac.blockSize) :
      OwnCopy ac up tables slot
        ⟨a.stateIdx,((j + 1) * ac.blockSize : Nat) - (computed - a.numAccepted : Nat) - 1,j⟩ := by
    have reached := Nat.div_mul_le_self computed ac.blockSize
    rw [total] at boundary
    rw [boundary] at reached
    have most := counted.2
    have block : ((j : Int) + 1) * ac.blockSize ≤ (a.stateIdx + 1) * ac.blockSize := by
      have inside := placed.covered
      have reached : ((j : Int) + 1) * ac.blockSize ≤ computed := by exact_mod_cast reached
      exact Int.le_trans reached inside
    have before := Int.le_of_mul_le_mul_right block (Int.ofNat_lt.mpr ac.block_pos)
    have column := placed.column
    refine ⟨?_,?_,?_⟩
    · exact placed.room.lower column (Int.le_add_of_nonneg_right (Int.natCast_nonneg _))
    · show OwnColumn ac up tables slot
        (a.stateIdx + (((j + 1) * ac.blockSize : Nat) - (computed - a.numAccepted : Nat) - 1))
      exact placed.room.lower (by omega) (by omega)
    · show OwnColumn ac up tables slot j
      exact placed.room.lower (Int.natCast_nonneg j) (by omega)
  generalize postprocessMamba ac.blockSize computed a = out at decided
  cases decided with
  | uncrossed inside => exact ⟨rfl,counted,fun copy copied => by cases copied⟩
  | moved j boundary crossed apart =>
      refine ⟨rfl,counted,fun copy copied => ?_⟩
      cases copied
      exact own j boundary crossed
  | settled j boundary crossed here => exact ⟨rfl,neutral,fun copy copied => by cases copied⟩
  | folded j boundary crossed here =>
      refine ⟨rfl,neutral,fun copy copied => ?_⟩
      cases copied
      exact own j boundary (by omega)

end Rows

-- What a copy kernel did: every address it dereferenced for a row is an entry
-- of the row of the slot, -1 rows copied and wrote nothing, and a block that
-- is in none of these rows is as before.
structure OwnLaunch (ac : AlignConfig) (up : Upstream T) (launch : Launch T V) : Prop where
  rows : ∀ copy ∈ launch.copies, launch.idxMapping[copy.row]? = some (copy.slot : Int)
  own : ∀ copy ∈ launch.copies, ∀ state ∈ ac.states, ∀ address ∈ addresses ac state copy,
    ∃ column : Nat, address = (copy.slot : Int) * ac.maxBlocks + column ∧ column < ac.maxBlocks ∧
      column < up.numBlocks launch.before.tables state.group copy.slot
  still : ∀ slot : Nat, (slot : Int) ∉ launch.idxMapping → launch.after.align slot = launch.before.align slot
  others : ∀ state info id, ac.states[state]? = some info →
    (∀ copy ∈ launch.copies, ∀ column : Nat, column < up.numBlocks launch.before.tables info.group copy.slot →
      up.entry launch.before.tables info.group ((copy.slot : Int) * ac.maxBlocks + column) ≠ id) →
    launch.after.blocks state id = launch.before.blocks state id

def Launched (ac : AlignConfig) (up : Upstream T) (before after : AlignDevice T V) (idxMapping : List Int) : Prop :=
  ∃ launches, after.launches = before.launches ++ launches ∧
    ∀ launch ∈ launches, launch.idxMapping = idxMapping ∧ OwnLaunch ac up launch

section Launches
variable {tables : T}

theorem OwnColumn.entry (own : OwnColumn ac up tables slot column) (member : state ∈ ac.states) :
    ∃ n : Nat, blockTableBase ac slot + column = (slot : Int) * ac.maxBlocks + n ∧ n < ac.maxBlocks ∧
      n < up.numBlocks tables state.group slot := by
  obtain ⟨n,rfl⟩ := Int.eq_ofNat_of_zero_le own.first
  exact ⟨n,rfl,Int.ofNat_lt.mp own.wide,Int.ofNat_lt.mp (own.held state member)⟩

theorem source_own (own : OwnCopy ac up tables slot copy) (state : StateInfo) :
    OwnColumn ac up tables slot (sourceColumn state copy) := by
  unfold sourceColumn
  split
  · exact own.src
  · exact own.shifted

theorem copy_row_keeps (tables : T) (copy : RowCopy) (states : List (StateInfo × Nat)) (blocks : Nat → Nat → Nat → V)
    (apart : ∀ state ∈ states, state.2 = s →
      up.entry tables state.1.group (blockTableBase ac copy.slot + copy.columns.dstCol) ≠ block) :
    states.foldl (copyMambaStateBlock ac up tables copy) blocks s block = blocks s block := by
  induction states generalizing blocks with
  | nil => rfl
  | cons state rest ih =>
      rw [List.foldl_cons,ih _ fun other member => apart other (List.mem_cons_of_mem _ member)]
      exact if_neg fun both => apart state List.mem_cons_self both.1.symm both.2.symm

theorem copy_rows_keep (tables : T) (copies : List RowCopy) (blocks : Nat → Nat → Nat → V)
    (apart : ∀ copy ∈ copies, ∀ info, ac.states[s]? = some info →
      up.entry tables info.group (blockTableBase ac copy.slot + copy.columns.dstCol) ≠ block) :
    copies.foldl (copyRow ac up tables) blocks s block = blocks s block := by
  induction copies generalizing blocks with
  | nil => rfl
  | cons copy rest ih =>
      rw [List.foldl_cons,ih _ fun other member => apart other (List.mem_cons_of_mem _ member)]
      apply copy_row_keeps
      rintro ⟨info,i⟩ member rfl
      exact apart copy List.mem_cons_self info (List.mem_zipIdx_iff_getElem?.mp member)

theorem copy_row_exact {s : Nat} (copy : RowCopy) (blocks : Nat → Nat → Nat → V) (found : ac.states[s]? = some info) :
    copyRow ac up tables blocks copy s = copyMambaStateBlock ac up tables copy blocks (info,s) s := by
  have others (states : List (StateInfo × Nat)) (apart : s ∉ states.map Prod.snd) (blocks : Nat → Nat → Nat → V) :
      states.foldl (copyMambaStateBlock ac up tables copy) blocks s = blocks s := by
    funext block
    apply copy_row_keeps
    intro state member same
    exact absurd (List.mem_map.mpr ⟨state,member,same⟩) apart
  have once : (ac.states.zipIdx.map Prod.snd).Nodup := by
    rw [List.zipIdx_map_snd]
    exact List.nodup_range'
  obtain ⟨first,rest,split⟩ := List.append_of_mem (List.mk_mem_zipIdx_iff_getElem?.mpr found)
  rw [split,List.map_append,List.map_cons,List.nodup_middle,List.nodup_cons,List.mem_append,not_or] at once
  obtain ⟨⟨before,after⟩,_⟩ := once
  rw [copyRow,split,List.foldl_append,List.foldl_cons,others rest after]
  have start := others first before blocks
  generalize first.foldl (copyMambaStateBlock ac up tables copy) blocks = reached at start ⊢
  funext id
  simp only [copyMambaStateBlock,start]

theorem copy_rows_exact {rows first rest : List RowCopy} {copy : RowCopy} {s : Nat} (blocks : Nat → Nat → Nat → V)
    (found : ac.states[s]? = some info) (split : rows = first ++ copy :: rest)
    (apart : ∀ other ∈ first ++ rest, ∀ column ∈ [copy.columns.dstCol,sourceColumn info copy.columns],
      up.entry tables info.group (blockTableBase ac other.slot + other.columns.dstCol) ≠
        up.entry tables info.group (blockTableBase ac copy.slot + column)) :
    let target := up.entry tables info.group (blockTableBase ac copy.slot + copy.columns.dstCol)
    rows.foldl (copyRow ac up tables) blocks s target = copyBlock info copy.columns.tokenBias
      (blocks s (up.entry tables info.group (blockTableBase ac copy.slot + sourceColumn info copy.columns)))
      (blocks s target) := by
  intro target
  have others {part : List RowCopy} {column : Int} (inside : ∀ other ∈ part, other ∈ first ++ rest)
      (listed : column ∈ [copy.columns.dstCol,sourceColumn info copy.columns]) (blocks : Nat → Nat → Nat → V) :
      part.foldl (copyRow ac up tables) blocks s (up.entry tables info.group (blockTableBase ac copy.slot + column)) =
        blocks s (up.entry tables info.group (blockTableBase ac copy.slot + column)) := by
    apply copy_rows_keep
    intro other member info' found'
    obtain rfl : info = info' := Option.some.inj (found.symm.trans found')
    exact apart other (inside other member) column listed
  have before : ∀ other ∈ first, other ∈ first ++ rest := fun _ member => List.mem_append_left rest member
  have after : ∀ other ∈ rest, other ∈ first ++ rest := fun _ member => List.mem_append_right first member
  rw [split,List.foldl_append,List.foldl_cons,others after List.mem_cons_self,copy_row_exact copy _ found]
  simp only [copyMambaStateBlock,and_self,if_true]
  rw [others before List.mem_cons_self,others before (List.mem_cons_of_mem _ List.mem_cons_self)]

theorem row_copies_member (copies : Nat → Option Copy) (idxMapping : List Int) (member : copy ∈ rowCopies copies idxMapping) :
    (copy.slot,copy.row) ∈ validRows idxMapping ∧ copies copy.slot = some copy.columns := by
  obtain ⟨⟨slot,row⟩,listed,chosen⟩ := List.mem_filterMap.mp member
  obtain ⟨columns,decided,rfl⟩ := Option.map_eq_some_iff.mp chosen
  exact ⟨listed,decided⟩

theorem launch_own (d : AlignDevice T V) (idxMapping : List Int) (copies : Nat → Option Copy)
    (align : Nat → AlignState)
    (own : ∀ slot row, (slot,row) ∈ validRows idxMapping → ∀ copy, copies slot = some copy →
      OwnCopy ac up d.mem.tables slot copy)
    (still : ∀ slot : Nat, (slot : Int) ∉ idxMapping → align slot = d.mem.align slot) :
    Launched ac up d (launch ac up d idxMapping copies align) idxMapping := by
  refine ⟨_,rfl,fun launched listed => ?_⟩
  obtain rfl := List.mem_singleton.mp listed
  refine ⟨rfl,?_,?_,still,?_⟩
  · intro copy member
    exact (valid_row idxMapping copy.slot copy.row).mp (row_copies_member copies idxMapping member).1
  · intro copy member state listed address dereferenced
    obtain ⟨valid,decided⟩ := row_copies_member copies idxMapping member
    have columns := own copy.slot copy.row valid copy.columns decided
    rcases List.mem_pair.mp dereferenced with rfl | rfl
    · exact columns.dst.entry listed
    · exact (source_own columns state).entry listed
  · intro state info id found apart
    apply copy_rows_keep
    intro copy member other at_state
    rw [found] at at_state
    cases at_state
    obtain ⟨valid,decided⟩ := row_copies_member copies idxMapping member
    have columns := own copy.slot copy.row valid copy.columns decided
    obtain ⟨column,address,_,held⟩ := columns.dst.entry (List.mem_of_getElem? found)
    rw [address]
    exact apart copy member column held

theorem valid_slot (idxMapping : List Int) (slot : Nat) :
    slot ∈ (validRows idxMapping).map Prod.fst ↔ (slot : Int) ∈ idxMapping := by
  constructor
  · intro member
    obtain ⟨⟨other,row⟩,valid,rfl⟩ := List.mem_map.mp member
    exact List.mem_of_getElem? ((valid_row idxMapping other row).mp valid)
  · intro member
    obtain ⟨row,found⟩ := List.mem_iff_getElem?.mp member
    exact List.mem_map.mpr ⟨(slot,row),(valid_row _ _ _).mpr found,rfl⟩

theorem batch_valid {batch : InputBatch ReqId} (valid : (slot,row) ∈ validRows (batchMapping batch)) :
    ∃ entry, batch[row]? = some entry ∧ entry.idxMapping = slot := by
  rw [valid_row,batchMapping,List.getElem?_map] at valid
  cases found : batch[row]? with
  | none => rw [found] at valid; cases valid
  | some entry =>
      rw [found] at valid
      exact ⟨entry,rfl,Int.ofNat_inj.mp (Option.some.inj valid)⟩

theorem advance_row (mem : Memory T V) (batch : InputBatch ReqId) (distinct : (batch.map BatchRow.idxMapping).Nodup)
    (member : entry ∈ batch) :
    advanceAlign ac mem batch entry.idxMapping =
      preprocessMambaAlign ac.blockSize (mem.numComputed entry.idxMapping + entry.numScheduledTokens)
        (mem.align entry.idxMapping) := row_exact _ mem.align distinct member

-- A scheduled row of the batch, before the pre-copy.
structure Scheduled (ac : AlignConfig) (up : Upstream T) (mem : Memory T V) (entry : BatchRow ReqId) : Prop where
  counted : Counted ac (mem.align entry.idxMapping)
  standing : Placed ac up mem.tables entry.idxMapping (mem.numComputed entry.idxMapping) (mem.align entry.idxMapping) ∨
    Fresh ac (mem.numComputed entry.idxMapping) (mem.align entry.idxMapping)
  positive : 0 < entry.numScheduledTokens
  allocated : ∃ tokens, Allocated ac up mem.tables entry.idxMapping tokens ∧
    mem.numComputed entry.idxMapping + entry.numScheduledTokens ≤ tokens

structure Advanced (ac : AlignConfig) (up : Upstream T) (before after : Memory T V) (batch : InputBatch ReqId) : Prop where
  computed : after.numComputed = before.numComputed
  tables : after.tables = before.tables
  placed : ∀ entry ∈ batch, Placed ac up after.tables entry.idxMapping
    (after.numComputed entry.idxMapping + entry.numScheduledTokens) (after.align entry.idxMapping)
  counted : ∀ entry ∈ batch, Counted ac (after.align entry.idxMapping)
  apart : ∀ slot, slot ∉ batch.map BatchRow.idxMapping → after.align slot = before.align slot

theorem preprocess_state_exact (d : AlignDevice T V) (batch : InputBatch ReqId)
    (distinct : (batch.map BatchRow.idxMapping).Nodup) (scheduled : ∀ entry ∈ batch, Scheduled ac up d.mem entry) :
    Launched ac up d (preprocessState ac up d batch) (batchMapping batch) ∧
    Advanced ac up d.mem (preprocessState ac up d batch).mem batch := by
  unfold preprocessState
  split
  · rename_i empty
    obtain rfl := List.isEmpty_iff.mp empty
    exact ⟨⟨[],by simp,by simp⟩,rfl,rfl,by simp,by simp,fun _ _ => rfl⟩
  · refine ⟨launch_own _ _ _ _ ?_ fun _ _ => rfl,rfl,rfl,?_,?_,?_⟩
    · intro slot row valid copy copied
      obtain ⟨entry,found,rfl⟩ := batch_valid valid
      have member := List.mem_of_getElem? found
      have row := scheduled entry member
      obtain ⟨tokens,allocated,covered⟩ := row.allocated
      rw [advance_row d.mem batch distinct member] at copied
      exact precopy_own row.counted row.standing allocated row.positive covered copied
    · intro entry member
      obtain ⟨tokens,allocated,covered⟩ := (scheduled entry member).allocated
      show Placed ac up d.mem.tables _ _ (advanceAlign ac d.mem batch entry.idxMapping)
      rw [advance_row d.mem batch distinct member]
      exact advance_placed allocated (scheduled entry member).positive covered
    · intro entry member
      show Counted ac (advanceAlign ac d.mem batch entry.idxMapping)
      rw [advance_row d.mem batch distinct member]
      exact advance_counted (scheduled entry member).counted
    · intro slot absent
      show advanceAlign ac d.mem batch slot = _
      exact row_apart _ d.mem.align absent

-- A row of the postprocess, its count settled.
structure Sampled (ac : AlignConfig) (up : Upstream T) (mem : Memory T V) (numSampled : Int) (slot : Nat) : Prop where
  placed : Placed ac up mem.tables slot (mem.numComputed slot) (mem.align slot)
  most : numSampled ≤ ac.numSpeculativeBlocks + 1
  accepted : max numSampled.toNat 1 ≤ mem.numComputed slot

structure Processed (ac : AlignConfig) (before after : Memory T V) (idxMapping : List Int) : Prop where
  computed : after.numComputed = before.numComputed
  tables : after.tables = before.tables
  column : ∀ slot, (after.align slot).stateIdx = (before.align slot).stateIdx
  counted : ∀ slot row, (slot,row) ∈ validRows idxMapping → Counted ac (after.align slot)
  apart : ∀ slot : Nat, (slot : Int) ∉ idxMapping → after.align slot = before.align slot

theorem Sampled.postcopy (sampled : Sampled ac up mem numSampled slot)
    (scattered : a = scatterNumAccepted numSampled.toNat (mem.align slot)) :
    (postprocessMamba ac.blockSize (mem.numComputed slot) a).1.stateIdx = (mem.align slot).stateIdx ∧ Counted ac a ∧
    Counted ac (postprocessMamba ac.blockSize (mem.numComputed slot) a).1 ∧
    ∀ copy, (postprocessMamba ac.blockSize (mem.numComputed slot) a).2 = some copy →
      OwnCopy ac up mem.tables slot copy := by
  subst scattered
  have most := sampled.most
  have counted : Counted ac (scatterNumAccepted numSampled.toNat (mem.align slot)) := by
    refine ⟨Nat.le_max_right _ _,Nat.max_le.mpr ⟨?_,?_⟩⟩
    · omega
    · omega
  obtain ⟨column,settled,own⟩ := postcopy_exact counted
    ⟨sampled.placed.column,sampled.placed.covered,sampled.placed.room⟩ sampled.accepted
  exact ⟨column,counted,settled,own⟩

theorem scatter_row (distinct : ((validRows idxMapping).map Prod.fst).Nodup) (valid : (slot,row) ∈ validRows idxMapping)
    (align : Nat → AlignState) (numSampled : Nat → Int) :
    scatterAlign align idxMapping numSampled slot = scatterNumAccepted (numSampled row).toNat (align slot) :=
  modifies_exact _ _ _ distinct valid

theorem settle_row (distinct : ((validRows idxMapping).map Prod.fst).Nodup) (valid : (slot,row) ∈ validRows idxMapping)
    (mem : Memory T V) :
    settleAlign ac mem idxMapping slot = (postprocessMamba ac.blockSize (mem.numComputed slot) (mem.align slot)).1 :=
  modifies_exact _ _ _ distinct valid

theorem scatter_apart (align : Nat → AlignState) (numSampled : Nat → Int) {slot : Nat} (absent : (slot : Int) ∉ idxMapping) :
    scatterAlign align idxMapping numSampled slot = align slot :=
  modifies_apart _ _ _ slot fun present => absent ((valid_slot _ _).mp present)

theorem settle_apart (mem : Memory T V) {slot : Nat} (absent : (slot : Int) ∉ idxMapping) :
    settleAlign ac mem idxMapping slot = mem.align slot :=
  modifies_apart _ _ _ slot fun present => absent ((valid_slot _ _).mp present)

theorem postprocess_state_exact (d : AlignDevice T V) (idxMapping : List Int) (numSampled : Nat → Int)
    (distinct : ((validRows idxMapping).map Prod.fst).Nodup)
    (sampled : ∀ slot row, (slot,row) ∈ validRows idxMapping → Sampled ac up d.mem (numSampled row) slot) :
    Launched ac up d (postprocessState ac up d idxMapping numSampled) idxMapping ∧
    Processed ac d.mem (postprocessState ac up d idxMapping numSampled).mem idxMapping := by
  let mid := d.withAlign (scatterAlign d.mem.align idxMapping numSampled)
  have decided (slot row : Nat) (valid : (slot,row) ∈ validRows idxMapping) :=
    (sampled slot row valid).postcopy (scatter_row distinct valid d.mem.align numSampled)
  have scattered (slot : Nat) : (mid.mem.align slot).stateIdx = (d.mem.align slot).stateIdx := by
    by_cases present : (slot : Int) ∈ idxMapping
    · obtain ⟨⟨_,row⟩,valid,rfl⟩ := List.mem_map.mp ((valid_slot _ _).mpr present)
      show (scatterAlign d.mem.align idxMapping numSampled _).stateIdx = _
      rw [scatter_row distinct valid]
      rfl
    · exact congrArg AlignState.stateIdx (scatter_apart d.mem.align numSampled present)
  unfold postprocessState
  split
  · rename_i empty
    obtain rfl := List.isEmpty_iff.mp empty
    exact ⟨⟨[],by simp,by simp⟩,rfl,rfl,fun _ => rfl,by simp [validRows],fun _ _ => rfl⟩
  · dsimp only
    split
    · refine ⟨launch_own _ _ _ _ ?_ ?_,rfl,rfl,?_,?_,?_⟩
      · intro slot row valid copy copied
        exact (decided slot row valid).2.2.2 copy copied
      · intro slot absent
        exact settle_apart mid.mem absent
      · intro slot
        by_cases present : (slot : Int) ∈ idxMapping
        · obtain ⟨⟨_,row⟩,valid,rfl⟩ := List.mem_map.mp ((valid_slot _ _).mpr present)
          exact (congrArg AlignState.stateIdx (settle_row distinct valid mid.mem)).trans (decided _ row valid).1
        · exact (congrArg AlignState.stateIdx (settle_apart mid.mem present)).trans (scattered slot)
      · intro slot row valid
        show Counted ac (settleAlign ac mid.mem idxMapping slot)
        rw [settle_row distinct valid mid.mem]
        exact (decided slot row valid).2.2.1
      · intro slot absent
        exact (settle_apart mid.mem absent).trans (scatter_apart d.mem.align numSampled absent)
    · refine ⟨⟨[],by simp [AlignDevice.withAlign],by simp⟩,rfl,rfl,scattered,?_,?_⟩
      · intro slot row valid
        exact (decided slot row valid).2.1
      · intro slot absent
        exact scatter_apart d.mem.align numSampled absent

end Launches

end Glm5Next.AlignColumns
