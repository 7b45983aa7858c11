import Glm5Next.AlignColumns
import Glm5Next.StateBlockCopy

namespace Glm5Next.StateCopyLaunch
open MambaAlign AlignKernels AlignColumns OwnedRegions ByteCopies ByteEvents StateBlockCopy

-- One launch of a copy kernel: its rows, the tables they read and the states.
structure Grid (T : Type) where
  ac : AlignConfig
  up : Upstream T
  tables : T
  rows : List RowCopy
  metas : List StateMeta
  convStateDimFirst : Bool
  copyBlockSize : Nat
  temporalTiles : Nat
  states_same : ac.states = metas.map StateMeta.info
  block_pos : 0 < copyBlockSize
  tiles_pos : 0 < temporalTiles

section Launch
variable {T : Type} (g : Grid T)

def rowEntry (copy : RowCopy) (m : StateMeta) (column : Int) : Nat :=
  g.up.entry g.tables m.info.group (blockTableBase g.ac copy.slot + column)

def sourceBlock (copy : RowCopy) (m : StateMeta) : Nat := rowEntry g copy m (sourceColumn m.info copy.columns)

def targetBlock (copy : RowCopy) (m : StateMeta) : Nat := rowEntry g copy m copy.columns.dstCol

def rowProgram (copy : RowCopy) (m : StateMeta) (tileIdx : Nat) : Program :=
  StateBlockCopy.copyMambaStateBlock m g.convStateDimFirst (rowEntry g copy m) copy.columns g.copyBlockSize g.temporalTiles tileIdx

def rowSteps (copy : RowCopy) (m : StateMeta) : Nat → List CopyStep :=
  tileSteps m g.convStateDimFirst (rowEntry g copy m) copy.columns g.copyBlockSize g.temporalTiles

abbrev GridIndex := (Nat × Nat) × Nat

def gridSteps (index : GridIndex) : List CopyStep :=
  match g.rows[index.1.1]?,g.metas[index.1.2]? with
  | some copy,some m => rowSteps g copy m index.2
  | _,_ => []

-- The events of a launch: those of its programs, each program's own in its order.
def Executed (mixed : List (GridIndex × Event)) : Prop :=
  ∃ own : GridIndex → List Event, (∀ index, Performed (gridSteps g index) (own index)) ∧ Interleaved own mixed

def Listed (entry : GridIndex × Event) : Prop := ∃ step ∈ gridSteps g entry.1, entry.2.offset ∈ step.offsets

def runEvent (entry : GridIndex × Event) (s : Machine GridIndex) : Machine GridIndex :=
  match g.rows[entry.1.1.1]?,g.metas[entry.1.1.2]? with
  | some copy,some m =>
      let program := rowProgram g copy m entry.1.2
      entry.2.run program.src program.dst entry.1 s
  | _,_ => s

def Clear (copy copy' : RowCopy) : Prop :=
  ∀ m ∈ g.metas, targetBlock g copy m ≠ sourceBlock g copy' m ∧ targetBlock g copy' m ≠ sourceBlock g copy m ∧
    targetBlock g copy m ≠ targetBlock g copy' m

-- What the launch relies on: the states do not overlap, the tables name blocks
-- of the cache, and each row has blocks of its own.
structure Sound (numBlocks : Nat) : Prop where
  laid : Laid g.metas g.convStateDimFirst numBlocks
  source : ∀ copy ∈ g.rows, ∀ m ∈ g.metas, sourceBlock g copy m < numBlocks
  target : ∀ copy ∈ g.rows, ∀ m ∈ g.metas, targetBlock g copy m < numBlocks
  clear : g.rows.Pairwise (Clear g)

def Within (numBlocks s id addr : Nat) : Prop := Inside g.metas g.convStateDimFirst numBlocks s id addr

-- The machines agree on the two blocks of a row and state and on the registers of
-- its programs, or on all memory that no row writes.
def Agree (numBlocks : Nat) : Option (Nat × Nat) → Machine GridIndex → Machine GridIndex → Prop
  | some (r,s),a,b => (∀ copy m addr, g.rows[r]? = some copy → g.metas[s]? = some m →
      Within g numBlocks s (sourceBlock g copy m) addr ∨ Within g numBlocks s (targetBlock g copy m) addr →
      a.mem addr = b.mem addr) ∧ ∀ tile, a.regs ((r,s),tile) = b.regs ((r,s),tile)
  | none,a,b => ∀ addr, (∀ (r s : Nat) copy m, g.rows[r]? = some copy → g.metas[s]? = some m →
      ¬ Within g numBlocks s (targetBlock g copy m) addr) → a.mem addr = b.mem addr

variable {g} {numBlocks r r' s s' : Nat}

theorem clear_symm (clear : Clear g copy copy') : Clear g copy' copy :=
  fun m listed => ⟨(clear m listed).2.1,(clear m listed).1,(clear m listed).2.2.symm⟩

theorem clear_rows (clear : g.rows.Pairwise (Clear g)) (found : g.rows[r]? = some copy)
    (found' : g.rows[r']? = some copy') (other : r ≠ r') : Clear g copy copy' := by
  obtain ⟨bound,rfl⟩ := List.getElem?_eq_some_iff.mp found
  obtain ⟨bound',rfl⟩ := List.getElem?_eq_some_iff.mp found'
  rw [List.pairwise_iff_getElem] at clear
  rcases Nat.lt_or_gt_of_ne other with before | after
  · exact clear r r' bound bound' before
  · exact clear_symm (clear r' r bound' bound after)

theorem tile_addresses (g : Grid T) (copy : RowCopy) (m : StateMeta) (tileIdx : Nat) :
    (rowProgram g copy m tileIdx).src = (rowProgram g copy m 0).src ∧
      (rowProgram g copy m tileIdx).dst = (rowProgram g copy m 0).dst := by
  unfold rowProgram StateBlockCopy.copyMambaStateBlock
  dsimp only
  split
  · exact ⟨rfl,rfl⟩
  · split <;> exact ⟨rfl,rfl⟩

theorem event_exact (sound : Sound g numBlocks) (entry : GridIndex × Event) (own : Listed g entry) :
    ∃ copy m, g.rows[entry.1.1.1]? = some copy ∧ g.metas[entry.1.1.2]? = some m ∧
      (∀ s, runEvent g entry s = entry.2.run (rowProgram g copy m 0).src (rowProgram g copy m 0).dst entry.1 s) ∧
      Within g numBlocks entry.1.1.2 (sourceBlock g copy m) ((rowProgram g copy m 0).src + entry.2.offset) ∧
      Within g numBlocks entry.1.1.2 (targetBlock g copy m) ((rowProgram g copy m 0).dst + entry.2.offset) := by
  obtain ⟨⟨⟨r,s⟩,tile⟩,event⟩ := entry
  cases row : g.rows[r]? with
  | none => simp [Listed,gridSteps,row] at own
  | some copy =>
      cases state : g.metas[s]? with
      | none => simp [Listed,gridSteps,row,state] at own
      | some m =>
          obtain ⟨step,steps,held⟩ : ∃ step ∈ rowSteps g copy m tile, event.offset ∈ step.offsets := by
            simpa [Listed,gridSteps,row,state] using own
          have source := sound.source copy (List.mem_of_getElem? row) m (List.mem_of_getElem? state)
          have target := sound.target copy (List.mem_of_getElem? row) m (List.mem_of_getElem? state)
          obtain ⟨src,dst⟩ := tile_addresses g copy m tile
          obtain ⟨i,inside,k,short,placed⟩ := (tile_steps_bytes g.tiles_pos g.block_pos).mp ⟨tile,step,steps,held⟩
          refine ⟨copy,m,rfl,rfl,?_,⟨m,state,source,_,moved_inside inside,k,short,?_⟩,⟨m,state,target,i,?_,k,short,?_⟩⟩
          · intro s
            simp [runEvent,row,state,src,dst]
          · rw [placed]
            exact source_address 0 i k
          · exact Nat.lt_of_lt_of_le inside (Nat.sub_le _ _)
          · rw [placed]
            exact target_address 0 i k

theorem target_elsewhere (sound : Sound g numBlocks) (row : g.rows[r]? = some copy) (state : g.metas[s]? = some m)
    (row' : g.rows[r']? = some copy') (state' : g.metas[s']? = some m') (other : (r,s) ≠ (r',s'))
    (written : Within g numBlocks s (targetBlock g copy m) addr) :
    ¬ (Within g numBlocks s' (sourceBlock g copy' m') addr ∨ Within g numBlocks s' (targetBlock g copy' m') addr) := by
  have apart (same : s = s') : targetBlock g copy m ≠ sourceBlock g copy' m' ∧
      targetBlock g copy m ≠ targetBlock g copy' m' := by
    subst same
    obtain rfl : m = m' := Option.some.inj (state.symm.trans state')
    have rows : r ≠ r' := fun same => other (congrArg (·,s) same)
    have clear := clear_rows sound.clear row row' rows m (List.mem_of_getElem? state)
    exact ⟨clear.1,clear.2.2⟩
  rintro (read | target)
  · obtain ⟨same,met⟩ := sound.laid _ _ _ _ _ written read
    exact (apart same).1 met
  · obtain ⟨same,met⟩ := sound.laid _ _ _ _ _ written target
    exact (apart same).2 met

theorem event_keeps (sound : Sound g numBlocks) (entry : GridIndex × Event) (own : Listed g entry)
    (region : Option (Nat × Nat)) (other : some entry.1.1 ≠ region) (s : Machine GridIndex) :
    Agree g numBlocks region (runEvent g entry s) s := by
  obtain ⟨copy,m,row,state,runs,_,written⟩ := event_exact sound entry own
  rw [runs]
  obtain ⟨index,event⟩ := entry
  cases event with
  | load o =>
      rcases region with _ | ⟨r,s'⟩
      · exact fun _ _ => rfl
      · refine ⟨fun _ _ _ _ _ _ => rfl,fun tile => ?_⟩
        have apart : ((r,s'),tile) ≠ index := fun same => other (congrArg (fun index : GridIndex => some index.1) same.symm)
        simp [Event.run,Function.update_of_ne apart]
  | store o =>
      rcases region with _ | ⟨r,s'⟩
      · intro addr apart
        refine Function.update_of_ne ?_ _ _
        rintro rfl
        exact apart _ _ copy m row state written
      · refine ⟨fun copy' m' addr row' state' inside => Function.update_of_ne ?_ _ _,fun _ => rfl⟩
        rintro rfl
        have programs : index.1 ≠ (r,s') := fun same => other (congrArg some same)
        exact target_elsewhere sound row state row' state' programs written inside

theorem event_reads (sound : Sound g numBlocks) (entry : GridIndex × Event) (own : Listed g entry)
    (agree : Agree g numBlocks (some entry.1.1) a b) :
    Agree g numBlocks (some entry.1.1) (runEvent g entry a) (runEvent g entry b) := by
  obtain ⟨copy,m,row,state,runs,read,_⟩ := event_exact sound entry own
  rw [runs,runs]
  obtain ⟨⟨⟨r,s⟩,tile⟩,event⟩ := entry
  obtain ⟨blocks,regs⟩ := agree
  cases event with
  | load o =>
      refine ⟨blocks,fun tile' => ?_⟩
      have loaded : a.mem ((rowProgram g copy m 0).src + o) = b.mem ((rowProgram g copy m 0).src + o) :=
        blocks copy m _ row state (Or.inl read)
      by_cases here : tile' = tile
      · subst here
        simp only [Event.run,Function.update_self,regs,loaded]
      · have apart : ((r,s),tile') ≠ ((r,s),tile) := fun same => here (Prod.mk.inj same).2
        simp [Event.run,Function.update_of_ne apart,regs]
  | store o =>
      refine ⟨fun copy' m' addr row' state' inside => ?_,regs⟩
      simp only [Event.run]
      by_cases stored : addr = (rowProgram g copy m 0).dst + o
      · subst stored
        rw [Function.update_self,Function.update_self,regs]
      · rw [Function.update_of_ne stored,Function.update_of_ne stored]
        exact blocks copy' m' addr row' state' inside

theorem executed_listed (executed : Executed g mixed) : ∀ entry ∈ mixed, Listed g entry := by
  rintro ⟨index,event⟩ member
  obtain ⟨own,performed,interleaved⟩ := executed
  exact ((performed index).event event).mp ((interleaved_member interleaved).mp member)

theorem grid_owned (sound : Sound g numBlocks) :
    Owned (runEvent g) (fun entry => some entry.1.1) (Agree g numBlocks) (Listed g) := by
  refine ⟨?_,?_,event_keeps sound,fun entry own a b => event_reads sound entry own⟩
  · rintro (_ | ⟨r,s⟩) machine
    · exact fun _ _ => rfl
    · exact ⟨fun _ _ _ _ _ _ => rfl,fun _ => rfl⟩
  · rintro (_ | ⟨r,s⟩) a b c first second
    · exact fun addr apart => (first addr apart).trans (second addr apart)
    · exact ⟨fun copy m addr row state held => (first.1 copy m addr row state held).trans (second.1 copy m addr row state held),
        fun tile => (first.2 tile).trans (second.2 tile)⟩

theorem own_events (row : g.rows[r]? = some copy) (state : g.metas[s]? = some m) (mixed : List (GridIndex × Event))
    (machine : Machine GridIndex) (own : ∀ entry ∈ mixed, entry.1.1 = (r,s)) :
    run (runEvent g) mixed machine = runEvents (rowProgram g copy m 0).src (rowProgram g copy m 0).dst mixed machine := by
  apply run_same
  rintro ⟨⟨index,tile⟩,event⟩ member before
  obtain rfl : index = (r,s) := own _ member
  obtain ⟨src,dst⟩ := tile_addresses g copy m tile
  simp [runEvent,row,state,src,dst]

theorem own_copied (sound : Sound g numBlocks) (executed : Executed g mixed)
    (row : g.rows[r]? = some copy) (state : g.metas[s]? = some m) (machine : Machine GridIndex) :
    Copied (rowProgram g copy m 0).src (rowProgram g copy m 0).dst (fun o => ∃ i < moved m copy.columns,
      ∃ k < positionBytes m g.convStateDimFirst, o = offset m g.convStateDimFirst i k) machine.mem
      (run (runEvent g) (mixed.filter fun entry => decide (entry.1.1 = (r,s))) machine).mem := by
  have source := sound.source copy (List.mem_of_getElem? row) m (List.mem_of_getElem? state)
  have target := sound.target copy (List.mem_of_getElem? row) m (List.mem_of_getElem? state)
  obtain ⟨within,across⟩ := tiles_ahead sound.laid state source target g.tiles_pos g.block_pos
  obtain ⟨own,performed,interleaved⟩ := executed
  have kept := interleaved_kept interleaved fun index => decide (index.1 = (r,s))
  have programs (index : GridIndex) : Performed (if index.1 = (r,s) then rowSteps g copy m index.2 else [])
      (if decide (index.1 = (r,s)) = true then own index else []) := by
    by_cases here : index.1 = (r,s)
    · have listed := performed index
      simp only [gridSteps,here,row,state] at listed
      simpa [here] using listed
    · simpa [here] using Performed.done
  rw [own_events row state]
  · refine (interleaved_copied programs kept ?_ ?_ machine).congr fun o => ?_
    · intro index
      split
      · exact within index.2
      · exact List.Pairwise.nil
    · intro index index' other early first late second
      split at first
      · split at second
        · rename_i here there
          exact across _ _ (fun same => other (Prod.ext (here.trans there.symm) same)) early first late second
        · cases second
      · cases first
    · rw [← tile_steps_bytes g.tiles_pos g.block_pos]
      constructor
      · rintro ⟨index,step,listed,held⟩
        split at listed
        · exact ⟨index.2,step,listed,held⟩
        · cases listed
      · rintro ⟨tile,step,listed,held⟩
        exact ⟨((r,s),tile),step,by rw [if_pos rfl]; exact listed,held⟩
  · intro entry member
    exact of_decide_eq_true (List.mem_filter.mp member).2

theorem launch_blocks {V : Type} {blocks : Nat → Nat → Nat → V} (sound : Sound g numBlocks)
    (row : g.rows[r]? = some copy) (state : g.metas[s]? = some m) :
    g.rows.foldl (copyRow g.ac g.up g.tables) blocks s (targetBlock g copy m) =
      copyBlock m.info copy.columns.tokenBias (blocks s (sourceBlock g copy m)) (blocks s (targetBlock g copy m)) := by
  have info : g.ac.states[s]? = some m.info := by rw [g.states_same,List.getElem?_map,state,Option.map_some]
  have listed := List.mem_of_getElem? state
  obtain ⟨first,rest,split⟩ := List.append_of_mem (List.mem_of_getElem? row)
  have clear := sound.clear
  rw [split,List.pairwise_append,List.pairwise_cons] at clear
  obtain ⟨_,⟨after,_⟩,before⟩ := clear
  apply copy_rows_exact blocks info split
  intro other member column either
  have apart : Clear g other copy := by
    rcases List.mem_append.mp member with early | late
    · exact before other early copy List.mem_cons_self
    · exact clear_symm (after other late)
  rcases List.mem_pair.mp either with rfl | rfl
  · exact (apart m listed).2.2
  · exact (apart m listed).1

theorem launch_apart (sound : Sound g numBlocks) (executed : Executed g mixed)
    (apart : ∀ (r s : Nat) copy m, g.rows[r]? = some copy → g.metas[s]? = some m →
      ¬ Within g numBlocks s (targetBlock g copy m) addr) : (run (runEvent g) mixed machine).mem addr = machine.mem addr := by
  exact run_apart (grid_owned sound) mixed (executed_listed executed) (r := none) (fun _ _ none => nomatch none) machine addr apart

theorem target_written {m : StateMeta} {blocks : Nat → Nat → Nat → Nat → UInt8} (sound : Sound g numBlocks)
    (executed : Executed g mixed) (holds : Holds g.metas g.convStateDimFirst numBlocks machine.mem blocks)
    (row : g.rows[r]? = some copy) (state : g.metas[s]? = some m) (inside : i < positions m)
    (short : k < positionBytes m g.convStateDimFirst) :
    (run (runEvent g) mixed machine).mem (address m g.convStateDimFirst (targetBlock g copy m) i k) =
      copyBlock m.info copy.columns.tokenBias (blocks s (sourceBlock g copy m)) (blocks s (targetBlock g copy m)) i k := by
  have source := sound.source copy (List.mem_of_getElem? row) m (List.mem_of_getElem? state)
  have target := sound.target copy (List.mem_of_getElem? row) m (List.mem_of_getElem? state)
  have here : Within g numBlocks s _ _ := ⟨m,state,target,i,inside,k,short,rfl⟩
  have owned := grid_owned sound
  have alone := run_owned owned mixed (executed_listed executed) (some (r,s)) (owned.refl _ machine)
  simp only [Option.some.injEq] at alone
  rw [alone.1 copy m _ row state (Or.inr here)]
  have copied := own_copied sound executed row state machine
  have moved := block_copied sound.laid state source target copied (source_address 0) (target_address 0) holds s m state
    (targetBlock g copy m) target i inside k short
  dsimp only at moved
  rw [if_pos ⟨rfl,rfl⟩] at moved
  exact moved

-- The launch, however the loads and stores of its programs' bytes interleave, does
-- to the memory what the copies of its rows do to the blocks.
theorem launch_exact (sound : Sound g numBlocks) (executed : Executed g mixed)
    (holds : Holds g.metas g.convStateDimFirst numBlocks machine.mem blocks) :
    Holds g.metas g.convStateDimFirst numBlocks (run (runEvent g) mixed machine).mem
      (g.rows.foldl (copyRow g.ac g.up g.tables) blocks) := by
  intro s m state id bound i inside k short
  by_cases written : ∃ (r : Nat) (copy : RowCopy), g.rows[r]? = some copy ∧ targetBlock g copy m = id
  · obtain ⟨r,copy,row,rfl⟩ := written
    rw [target_written sound executed holds row state inside short,launch_blocks sound row state]
  · have here : Within g numBlocks s id (address m g.convStateDimFirst id i k) := ⟨m,state,bound,i,inside,k,short,rfl⟩
    have others : (run (runEvent g) mixed machine).mem (address m g.convStateDimFirst id i k) = _ :=
      launch_apart sound executed fun r s' copy m' row state' stored => by
        obtain ⟨rfl,rfl⟩ := sound.laid _ _ _ _ _ here stored
        obtain rfl : m = m' := Option.some.inj (state.symm.trans state')
        exact written ⟨r,copy,row,rfl⟩
    have kept : g.rows.foldl (copyRow g.ac g.up g.tables) blocks s id = blocks s id := by
      apply copy_rows_keep
      intro copy member other at_state same
      rw [g.states_same,List.getElem?_map,state] at at_state
      obtain rfl : m.info = other := Option.some.inj at_state
      obtain ⟨r,row⟩ := List.mem_iff_getElem?.mp member
      exact written ⟨r,copy,row,same⟩
    rw [others,kept,holds s m state id bound i inside k short]

theorem launch_refines {d : AlignDevice T (Nat → UInt8)} (sound : Sound g numBlocks)
    (executed : Executed g mixed) (rows : g.rows = rowCopies copies idxMapping)
    (tables : g.tables = d.mem.tables) (align : Nat → AlignState)
    (holds : Holds g.metas g.convStateDimFirst numBlocks machine.mem d.mem.blocks) :
    Holds g.metas g.convStateDimFirst numBlocks (run (runEvent g) mixed machine).mem
      (launch g.ac g.up d idxMapping copies align).mem.blocks := by
  have launched := launch_exact sound executed holds
  rw [rows,tables] at launched
  exact launched

end Launch

-- A conv state of three two-byte positions and a temporal state of ten bytes,
-- in pages of sixteen. One request moves from column 0 to column 1.
def pageStates : List StateMeta :=
  [⟨⟨0,3⟩,0,16,2,1,0,0,Nat.succ_pos 1,Or.inl rfl⟩,⟨⟨0,0⟩,6,16,2,5,0,0,Nat.succ_pos 1,Or.inl rfl⟩]

def pageGrid : Grid (Nat → Nat) where
  ac := ⟨12,12,4,2,[⟨0,3⟩,⟨0,0⟩],Nat.succ_pos 11,rfl⟩
  up := ⟨fun table _ addr => table addr.toNat,fun _ _ _ => 3,fun table _ _ _ => table,fun count _ _ => count,fun count _ => count⟩
  tables := fun column => 2 - column
  rows := [⟨0,0,⟨0,1,1⟩⟩]
  metas := pageStates
  convStateDimFirst := false
  copyBlockSize := 4
  temporalTiles := 2
  states_same := rfl
  block_pos := Nat.succ_pos 3
  tiles_pos := Nat.succ_pos 1

theorem page_grid_sound : Sound pageGrid 3 := by
  have states {s : Nat} {m : StateMeta} (found : pageStates[s]? = some m) :
      m.baseAddr = 6 * s ∧ m.blockStride = 16 ∧ m.baseAddr + blockBytes m false = 6 + 10 * s ∧ s < 2 := by
    rcases s with _ | _ | s
    · cases found
      decide
    · cases found
      decide
    · cases found
  refine ⟨ranges_laid fun s s' m m' found found' id _ id' _ other => ?_,by decide,by decide,List.pairwise_singleton _ _⟩
  obtain ⟨start,stride,ends,few⟩ := states found
  obtain ⟨start',stride',ends',few'⟩ := states found'
  rw [stride,stride']
  have apart : id ≠ id' ∨ s ≠ s' := by
    by_contra same
    exact other (Prod.ext (by omega) (by omega))
  show _ + blockBytes m false ≤ _ ∨ _ + blockBytes m' false ≤ _
  obtain rfl | rfl : s = 0 ∨ s = 1 := by omega
  all_goals obtain rfl | rfl : s' = 0 ∨ s' = 1 := by omega
  all_goals omega

def pageBlocks (s id i k : Nat) : UInt8 := pageStates[s]?.elim 0 fun m => UInt8.ofNat (address m false id i k)

def pageOrder : List GridIndex := [((0,1),1),((0,0),1),((0,1),0),((0,0),0)]

def pageEvents (index : GridIndex) : List Event := programEvents (gridSteps pageGrid index)

theorem page_order_serves (i : GridIndex) (unlisted : i ∉ pageOrder) : pageEvents i = [] := by
  have idle : gridSteps pageGrid i = [] := by
    obtain ⟨⟨r,s⟩,tile⟩ := i
    unfold gridSteps
    rcases r with _ | r
    · rcases s with _ | _ | s
      · have late : ¬ tile < 2 := fun early => unlisted (by
          rcases (by omega : tile = 0 ∨ tile = 1) with rfl | rfl <;> decide)
        exact if_neg late
      · have late : ¬ tile < 2 := fun early => unlisted (by
          rcases (by omega : tile = 0 ∨ tile = 1) with rfl | rfl <;> decide)
        exact if_neg late
      · rfl
    · rfl
  rw [pageEvents,idle]
  rfl

def pageOrderEvents : List (GridIndex × Event) := pageOrder.flatMap fun i => (pageEvents i).map fun event => (i,event)

theorem page_executed : Executed pageGrid pageOrderEvents :=
  ⟨pageEvents,fun _ => program_performed _,interleaved_serial pageOrder (by decide) page_order_serves⟩

def pageStart : Machine GridIndex := ⟨UInt8.ofNat,fun _ _ => 0⟩

def pageRun : Machine GridIndex := run (runEvent pageGrid) pageOrderEvents pageStart

-- The conv state in column 0 moves to column 1, one position on.
theorem launch_exact_page :
    ((List.range 2).map fun i => (List.range 2).map fun k => pageRun.mem (16 + (i * 2 + k))) = [[34,35],[36,37]] := by
  have held : Holds pageGrid.metas pageGrid.convStateDimFirst 3 pageStart.mem pageBlocks := by
    intro s m found id _ i _ k _
    have listed : pageStates[s]? = some m := found
    simp [pageBlocks,listed,pageGrid,pageStart]
  have launched := launch_exact page_grid_sound page_executed held
  have moved := launched 0 _ rfl 1 (by decide)
  have entry : ∀ i ∈ List.range 2, ∀ k ∈ List.range 2, pageRun.mem (16 + (i * 2 + k)) = UInt8.ofNat (32 + ((i + 1) * 2 + k)) := by
    intro i position k byte
    have positioned := List.mem_range.mp position
    have inside := List.mem_range.mp byte
    have shifted := moved i (Nat.lt_succ_of_lt positioned) k inside
    obtain rfl | rfl : i = 0 ∨ i = 1 := by omega
    all_goals obtain rfl | rfl : k = 0 ∨ k = 1 := by omega
    all_goals exact shifted.trans (by decide)
  rw [List.map_congr_left fun i position => List.map_congr_left (entry i position)]
  decide

end Glm5Next.StateCopyLaunch
