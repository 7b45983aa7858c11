import Glm5Next.AlignKernels
import Glm5Next.ByteEvents
import Glm5Next.TiledCopy

namespace Glm5Next.StateBlockCopy
open MambaAlign AlignKernels ByteCopies ByteEvents TiledCopy

-- What the capture keeps of a state tensor: addresses and strides in bytes,
-- sizes in elements. The rows are those of a DS conv state, zero elsewhere.
structure StateMeta where
  info : StateInfo
  baseAddr : Nat
  blockStride : Nat
  elemSize : Nat
  innerSize : Nat
  dimRowCount : Nat
  dimRowStride : Nat
  elem_pos : 0 < elemSize
  rows_fit : dimRowCount = 0 ∨ info.convWidth * elemSize ≤ dimRowStride

-- The addresses of one program and its statements, in program order.
structure Program where
  src : Nat
  dst : Nat
  steps : List CopyStep

-- for d in range(0, dim_rows)
def convRows (m : StateMeta) (tokenBias copyBlockSize : Nat) : List CopyStep :=
  (List.range m.dimRowCount).flatMap fun d =>
    blockLoop (d * m.dimRowStride) 1 copyBlockSize 0 ((m.info.convWidth - tokenBias) * m.elemSize)

-- `entry` reads the block table row of the request at a column. Biases are not
-- negative.
def copyMambaStateBlock (m : StateMeta) (convStateDimFirst : Bool) (entry : Int → Nat) (columns : Copy)
    (copyBlockSize temporalTiles tileIdx : Nat) : Program :=
  let tokenBias := columns.tokenBias.toNat
  let dstAddr := m.baseAddr + entry columns.dstCol * m.blockStride
  if convStateDimFirst = true ∧ m.info.convWidth > 0 then
    let srcAddr := m.baseAddr + entry columns.srcCol * m.blockStride + tokenBias * m.elemSize
    ⟨srcAddr,dstAddr,if tileIdx > 0 then [] else convRows m tokenBias copyBlockSize⟩
  else if m.info.convWidth > 0 then
    let srcAddr := m.baseAddr + entry columns.srcCol * m.blockStride + tokenBias * m.innerSize * m.elemSize
    let copySize := (m.info.convWidth - tokenBias) * m.innerSize * m.elemSize
    ⟨srcAddr,dstAddr,if tileIdx > 0 then [] else memcpyU64Tiled srcAddr dstAddr copySize tileIdx copyBlockSize 1⟩
  else
    let srcAddr := m.baseAddr + entry (columns.srcCol + columns.tokenBias) * m.blockStride
    ⟨srcAddr,dstAddr,memcpyU64Tiled srcAddr dstAddr (m.innerSize * m.elemSize) tileIdx copyBlockSize temporalTiles⟩

section Layout
variable (m : StateMeta) (convStateDimFirst : Bool)

-- A conv state slides along its positions. A temporal state has one for each
-- byte.
def positions : Nat := if m.info.convWidth > 0 then m.info.convWidth else m.innerSize * m.elemSize

def positionBytes : Nat :=
  if m.info.convWidth > 0 then
    if convStateDimFirst then m.dimRowCount * m.elemSize else m.innerSize * m.elemSize
  else 1

def offset (i k : Nat) : Nat :=
  if m.info.convWidth > 0 then
    if convStateDimFirst then k / m.elemSize * m.dimRowStride + (i * m.elemSize + k % m.elemSize)
    else i * (m.innerSize * m.elemSize) + k
  else i + k

def address (id i k : Nat) : Nat := m.baseAddr + id * m.blockStride + offset m convStateDimFirst i k

def shift (columns : Copy) : Nat := if m.info.convWidth > 0 then columns.tokenBias.toNat else 0

def moved (columns : Copy) : Nat := positions m - shift m columns

variable {m convStateDimFirst}

theorem row_place (inside : i < m.info.convWidth) (short : k < m.dimRowCount * m.elemSize) :
    i * m.elemSize + k % m.elemSize < m.dimRowStride := by
  have rest := Nat.mod_lt k m.elem_pos
  have next := Nat.mul_le_mul_right m.elemSize (Nat.succ_le_of_lt inside)
  rw [Nat.succ_mul] at next
  rcases m.rows_fit with none | fits
  · rw [none,Nat.zero_mul] at short
    exact absurd short (Nat.not_lt_zero k)
  · omega

theorem offset_injective (inside : i < positions m) (inside' : i' < positions m)
    (short : k < positionBytes m convStateDimFirst) (short' : k' < positionBytes m convStateDimFirst)
    (same : offset m convStateDimFirst i k = offset m convStateDimFirst i' k') : i = i' ∧ k = k' := by
  unfold positions at inside inside'
  unfold positionBytes at short short'
  unfold offset at same
  by_cases conv : m.info.convWidth > 0
  · rw [if_pos conv] at inside inside' short short'
    rw [if_pos conv,if_pos conv] at same
    cases convStateDimFirst with
    | true =>
        obtain ⟨row,place⟩ := Ragged.grid_unique (row_place inside short) (row_place inside' short') same
        obtain ⟨position,byte⟩ := Ragged.grid_unique (Nat.mod_lt k m.elem_pos) (Nat.mod_lt k' m.elem_pos) place
        refine ⟨position,?_⟩
        rw [← Nat.div_add_mod' k m.elemSize,← Nat.div_add_mod' k' m.elemSize,row,byte]
    | false => exact Ragged.grid_unique short short' same
  · rw [if_neg conv] at short short'
    rw [if_neg conv,if_neg conv] at same
    omega

def blockBytes (m : StateMeta) (convStateDimFirst : Bool) : Nat :=
  if m.info.convWidth > 0 then
    if convStateDimFirst then m.dimRowCount * m.dimRowStride else m.info.convWidth * (m.innerSize * m.elemSize)
  else m.innerSize * m.elemSize

theorem offset_bound (inside : i < positions m) (short : k < positionBytes m convStateDimFirst) :
    offset m convStateDimFirst i k < blockBytes m convStateDimFirst := by
  unfold positions at inside
  unfold positionBytes at short
  unfold offset blockBytes
  by_cases conv : m.info.convWidth > 0
  · rw [if_pos conv] at inside short
    rw [if_pos conv,if_pos conv]
    cases convStateDimFirst with
    | true =>
        have row := (Nat.div_lt_iff_lt_mul m.elem_pos).mpr short
        exact (Ragged.grid_bound _ _).mpr ⟨_,row,_,row_place inside short,rfl⟩
    | false => exact (Ragged.grid_bound _ _).mpr ⟨i,inside,k,short,rfl⟩
  · rw [if_neg conv] at inside short
    rw [if_neg conv,if_neg conv]
    omega

end Layout

section Block
variable {m : StateMeta} {convStateDimFirst : Bool} {entry : Int → Nat} {columns : Copy}
  {copyBlockSize temporalTiles : Nat}

theorem target_address (tileIdx i k : Nat) :
    (copyMambaStateBlock m convStateDimFirst entry columns copyBlockSize temporalTiles tileIdx).dst +
      offset m convStateDimFirst i k = address m convStateDimFirst (entry columns.dstCol) i k := by
  unfold copyMambaStateBlock
  dsimp only
  split
  · rfl
  · split <;> rfl

theorem source_address (tileIdx i k : Nat) :
    (copyMambaStateBlock m convStateDimFirst entry columns copyBlockSize temporalTiles tileIdx).src +
      offset m convStateDimFirst i k =
    address m convStateDimFirst (entry (sourceColumn m.info columns)) (i + shift m columns) k := by
  unfold copyMambaStateBlock address sourceColumn shift offset
  dsimp only
  by_cases conv : m.info.convWidth > 0
  · simp only [conv,if_true,and_true]
    cases convStateDimFirst with
    | true =>
        simp only [if_true,Nat.add_mul]
        omega
    | false =>
        simp only [Bool.false_eq_true,if_false,Nat.add_mul,Nat.mul_assoc]
        omega
  · simp only [conv,if_false,and_false]
    omega

theorem conv_alone (conv : m.info.convWidth > 0) (later : 0 < tileIdx) :
    (copyMambaStateBlock m convStateDimFirst entry columns copyBlockSize temporalTiles tileIdx).steps = [] := by
  cases convStateDimFirst <;> simp [copyMambaStateBlock,conv,later]

theorem conv_rows_exact (block : 0 < copyBlockSize) (tokenBias : Nat) :
    (∃ step ∈ convRows m tokenBias copyBlockSize, o ∈ step.offsets) ↔
      ∃ i < m.info.convWidth - tokenBias, ∃ k < m.dimRowCount * m.elemSize,
        o = k / m.elemSize * m.dimRowStride + (i * m.elemSize + k % m.elemSize) := by
  have loop (d : Nat) : (∃ step ∈ blockLoop (d * m.dimRowStride) 1 copyBlockSize 0
      ((m.info.convWidth - tokenBias) * m.elemSize), o ∈ step.offsets) ↔ ∃ i < m.info.convWidth - tokenBias,
      ∃ j < m.elemSize, o = d * m.dimRowStride + (i * m.elemSize + j) := by
    rw [block_loop_exact block Nat.one_pos,Nat.zero_mul,Nat.mul_one,Nat.add_zero]
    constructor
    · rintro ⟨low,high,_⟩
      obtain ⟨i,inside,j,short,split⟩ := (Ragged.grid_bound _ m.elemSize).mp
        (show o - d * m.dimRowStride < (m.info.convWidth - tokenBias) * m.elemSize by omega)
      exact ⟨i,inside,j,short,by omega⟩
    · rintro ⟨i,inside,j,short,rfl⟩
      have bound := (Ragged.grid_bound (m.info.convWidth - tokenBias) m.elemSize).mpr ⟨i,inside,j,short,rfl⟩
      omega
  constructor
  · rintro ⟨step,member,held⟩
    obtain ⟨d,row,listed⟩ := List.mem_flatMap.mp member
    obtain ⟨i,inside,j,short,rfl⟩ := (loop d).mp ⟨step,listed,held⟩
    refine ⟨i,inside,d * m.elemSize + j,?_,?_⟩
    · exact (Ragged.grid_bound _ _).mpr ⟨d,List.mem_range.mp row,j,short,rfl⟩
    · rw [Ragged.grid_row short,Ragged.grid_col short]
  · rintro ⟨i,inside,k,bound,rfl⟩
    obtain ⟨d,row,j,short,rfl⟩ := (Ragged.grid_bound _ _).mp bound
    obtain ⟨step,listed,held⟩ := (loop d).mpr ⟨i,inside,j,short,by
      rw [Ragged.grid_row short,Ragged.grid_col short]⟩
    exact ⟨step,List.mem_flatMap.mpr ⟨d,List.mem_range.mpr row,listed⟩,held⟩

theorem tiles_store (tiles : 0 < temporalTiles) (block : 0 < copyBlockSize) :
    (∃ tile < temporalTiles, ∃ step ∈ (copyMambaStateBlock m convStateDimFirst entry columns copyBlockSize temporalTiles
      tile).steps, o ∈ step.offsets) ↔
    ∃ i < moved m columns, ∃ k < positionBytes m convStateDimFirst, o = offset m convStateDimFirst i k := by
  by_cases conv : m.info.convWidth > 0
  · have first : (∃ tile < temporalTiles, ∃ step ∈ (copyMambaStateBlock m convStateDimFirst entry columns copyBlockSize
        temporalTiles tile).steps, o ∈ step.offsets) ↔ ∃ step ∈ (copyMambaStateBlock m convStateDimFirst entry columns
        copyBlockSize temporalTiles 0).steps, o ∈ step.offsets := by
      constructor
      · rintro ⟨tile,_,step,member,held⟩
        rcases Nat.eq_zero_or_pos tile with rfl | later
        · exact ⟨step,member,held⟩
        · rw [conv_alone conv later] at member
          cases member
      · rintro ⟨step,member,held⟩
        exact ⟨0,tiles,step,member,held⟩
    rw [first]
    cases convStateDimFirst with
    | true =>
        simpa [copyMambaStateBlock,moved,positions,shift,positionBytes,offset,conv] using
          conv_rows_exact block columns.tokenBias.toNat
    | false =>
        simp [copyMambaStateBlock,moved,positions,shift,positionBytes,offset,conv,memcpy_single_exact block,
          ← Ragged.grid_bound,Nat.mul_assoc]
  · simp only [copyMambaStateBlock,moved,positions,shift,positionBytes,offset,conv,and_false,if_false,Nat.sub_zero]
    rw [memcpy_exact _ _ _ tiles block]
    simp

theorem conv_ascending (conv : m.info.convWidth > 0) (block : 0 < copyBlockSize) :
    (copyMambaStateBlock m convStateDimFirst entry columns copyBlockSize temporalTiles 0).steps.Pairwise
      fun early late => ∀ o ∈ early.offsets, ∀ o' ∈ late.offsets, o < o' := by
  cases convStateDimFirst with
  | true =>
      simp only [copyMambaStateBlock,conv,and_self,if_true,gt_iff_lt,Nat.lt_irrefl,if_false,convRows]
      rw [List.pairwise_flatMap]
      refine ⟨fun d _ => block_loop_ascending,List.pairwise_lt_range.imp_of_mem ?_⟩
      intro d d' row row' ordered early first late second o held o' held'
      obtain ⟨_,high,_⟩ := (block_loop_exact block Nat.one_pos).mp ⟨early,first,held⟩
      obtain ⟨low,_⟩ := (block_loop_exact block Nat.one_pos).mp ⟨late,second,held'⟩
      have next := Nat.mul_le_mul_right m.dimRowStride (Nat.succ_le_of_lt ordered)
      have width := Nat.mul_le_mul_right m.elemSize (Nat.sub_le m.info.convWidth columns.tokenBias.toNat)
      rw [Nat.succ_mul] at next
      rcases m.rows_fit with none | fits
      · rw [none] at row
        cases row
      · omega
  | false =>
      simp only [copyMambaStateBlock,conv,Bool.false_eq_true,false_and,if_true,gt_iff_lt,Nat.lt_irrefl,if_false]
      exact memcpy_ascending block 0

theorem offset_start : offset m convStateDimFirst 0 0 = 0 := by simp [offset]

-- A block shifted onto itself goes to the front of its own source.
theorem source_behind (tileIdx : Nat) (same : entry (sourceColumn m.info columns) = entry columns.dstCol) :
    (copyMambaStateBlock m convStateDimFirst entry columns copyBlockSize temporalTiles tileIdx).src =
      (copyMambaStateBlock m convStateDimFirst entry columns copyBlockSize temporalTiles tileIdx).dst +
        offset m convStateDimFirst (shift m columns) 0 := by
  have source : (copyMambaStateBlock m convStateDimFirst entry columns copyBlockSize temporalTiles tileIdx).src +
      offset m convStateDimFirst 0 0 = _ := source_address tileIdx 0 0
  rw [offset_start,Nat.add_zero,Nat.zero_add,same] at source
  rw [source,target_address]

end Block

section Memory
variable {metas : List StateMeta} {convStateDimFirst : Bool} {numBlocks : Nat}

def Inside (metas : List StateMeta) (convStateDimFirst : Bool) (numBlocks s id addr : Nat) : Prop :=
  ∃ m, metas[s]? = some m ∧ id < numBlocks ∧ ∃ i < positions m, ∃ k < positionBytes m convStateDimFirst,
    addr = address m convStateDimFirst id i k

-- The state tensors may share pages but no byte.
def Laid (metas : List StateMeta) (convStateDimFirst : Bool) (numBlocks : Nat) : Prop :=
  ∀ s id s' id' addr, Inside metas convStateDimFirst numBlocks s id addr →
    Inside metas convStateDimFirst numBlocks s' id' addr → s = s' ∧ id = id'

theorem ranges_laid (apart : ∀ (s s' : Nat) m m', metas[s]? = some m → metas[s']? = some m' →
      ∀ id < numBlocks, ∀ id' < numBlocks, (s,id) ≠ (s',id') →
        m.baseAddr + id * m.blockStride + blockBytes m convStateDimFirst ≤ m'.baseAddr + id' * m'.blockStride ∨
        m'.baseAddr + id' * m'.blockStride + blockBytes m' convStateDimFirst ≤ m.baseAddr + id * m.blockStride) :
    Laid metas convStateDimFirst numBlocks := by
  rintro s id s' id' addr ⟨m,found,bound,i,inside,k,short,rfl⟩ ⟨m',found',bound',i',inside',k',short',same⟩
  by_contra other
  have low := offset_bound inside short
  have low' := offset_bound inside' short'
  have ranges := apart s s' m m' found found' id bound id' bound' fun both => other (Prod.mk.inj both)
  unfold address at same
  omega

def Holds (metas : List StateMeta) (convStateDimFirst : Bool) (numBlocks : Nat) (mem : Nat → UInt8)
    (blocks : Nat → Nat → Nat → Nat → UInt8) : Prop :=
  ∀ s m, metas[s]? = some m → ∀ id < numBlocks, ∀ i < positions m, ∀ k < positionBytes m convStateDimFirst,
    mem (address m convStateDimFirst id i k) = blocks s id i k

section Copy
variable {m : StateMeta} {entry : Int → Nat} {columns : Copy} {s copyBlockSize temporalTiles : Nat}

def tileSteps (m : StateMeta) (convStateDimFirst : Bool) (entry : Int → Nat) (columns : Copy)
    (copyBlockSize temporalTiles tileIdx : Nat) : List CopyStep :=
  if tileIdx < temporalTiles then
    (copyMambaStateBlock m convStateDimFirst entry columns copyBlockSize temporalTiles tileIdx).steps
  else []

theorem tile_steps_bytes (tiles : 0 < temporalTiles) (block : 0 < copyBlockSize) :
    (∃ tile, ∃ step ∈ tileSteps m convStateDimFirst entry columns copyBlockSize temporalTiles tile, o ∈ step.offsets) ↔
    ∃ i < moved m columns, ∃ k < positionBytes m convStateDimFirst, o = offset m convStateDimFirst i k := by
  have bytes : (∃ tile < temporalTiles, ∃ step ∈ (copyMambaStateBlock m convStateDimFirst entry columns copyBlockSize
      temporalTiles tile).steps, o ∈ step.offsets) ↔ _ := tiles_store tiles block
  rw [← bytes]
  unfold tileSteps
  constructor
  · rintro ⟨tile,step,member,held⟩
    split at member
    · rename_i bound
      exact ⟨tile,bound,step,member,held⟩
    · cases member
  · rintro ⟨tile,bound,step,member,held⟩
    refine ⟨tile,step,?_,held⟩
    rw [if_pos bound]
    exact member

theorem moved_inside (inside : i < moved m columns) : i + shift m columns < positions m := by
  unfold moved at inside
  omega

-- The tiles of a copy store nothing that one of them still has to load, save onto
-- itself.
theorem tiles_ahead (laid : Laid metas convStateDimFirst numBlocks) (found : metas[s]? = some m)
    (source : entry (sourceColumn m.info columns) < numBlocks) (target : entry columns.dstCol < numBlocks)
    (tiles : 0 < temporalTiles) (block : 0 < copyBlockSize) :
    let program := copyMambaStateBlock m convStateDimFirst entry columns copyBlockSize temporalTiles 0
    let steps := tileSteps m convStateDimFirst entry columns copyBlockSize temporalTiles
    (∀ tile, (steps tile).Pairwise (Ahead program.src program.dst)) ∧
      ∀ tile tile', tile ≠ tile' → ∀ early ∈ steps tile, ∀ late ∈ steps tile', Ahead program.src program.dst early late := by
  intro program steps
  by_cases same : entry (sourceColumn m.info columns) = entry columns.dstCol
  · have behind : program.src = program.dst + offset m convStateDimFirst (shift m columns) 0 := source_behind 0 same
    by_cases conv : m.info.convWidth > 0
    · have alone : ∀ tile, 0 < tile → steps tile = [] := fun tile later => by
        simp only [steps,tileSteps,conv_alone conv later,ite_self]
      constructor
      · intro tile
        rcases Nat.eq_zero_or_pos tile with rfl | later
        · rw [show steps 0 = program.steps from if_pos tiles]
          exact (forward_unread (by omega) (conv_ascending conv block)).imp Unread.ahead
        · rw [alone tile later]
          exact List.Pairwise.nil
      · intro tile tile' other early first late second
        rcases Nat.eq_zero_or_pos tile with rfl | later
        · rw [alone tile' (Nat.pos_of_ne_zero other.symm)] at second
          cases second
        · rw [alone tile later] at first
          cases first
    · rw [shift,if_neg conv,offset_start,Nat.add_zero] at behind
      have onto : ∀ early late, Ahead program.src program.dst early late := by
        intro early late o _ o' _ equal
        rw [behind] at equal
        exact Nat.add_left_cancel equal
      exact ⟨fun tile => List.pairwise_of_forall onto,fun _ _ _ early _ late _ => onto early late⟩
  · have apart : ∀ tile tile', ∀ early ∈ steps tile, ∀ late ∈ steps tile', Ahead program.src program.dst early late := by
      intro tile tile' early first late second o held o' held' clash
      obtain ⟨i,inside,k,short,rfl⟩ := (tile_steps_bytes tiles block).mp ⟨tile,early,first,held⟩
      obtain ⟨i',inside',k',short',rfl⟩ := (tile_steps_bytes tiles block).mp ⟨tile',late,second,held'⟩
      rw [target_address,source_address] at clash
      exact absurd (laid s _ s _ _ ⟨m,found,source,_,moved_inside inside',k',short',rfl⟩
        ⟨m,found,target,i,Nat.lt_of_lt_of_le inside (Nat.sub_le _ _),k,short,clash.symm⟩).2 same
    refine ⟨fun tile => ?_,fun tile tile' _ => apart tile tile'⟩
    exact List.Pairwise.imp_of_mem (R := fun _ _ => True) (fun first second _ => apart tile tile _ first _ second)
      (List.pairwise_of_forall fun _ _ => trivial)

theorem copy_block_view (src dst : Nat → V) (inside : i < positions m) :
    copyBlock m.info columns.tokenBias src dst i =
      if i < moved m columns then src (i + shift m columns) else dst i := by
  by_cases conv : m.info.convWidth > 0
  · simp [copyBlock,moved,positions,shift,conv]
  · simp only [positions,conv,if_false] at inside
    simp [copyBlock,moved,positions,shift,conv,inside]

theorem block_copied (laid : Laid metas convStateDimFirst numBlocks) (found : metas[s]? = some m)
    (source : entry (sourceColumn m.info columns) < numBlocks) (target : entry columns.dstCol < numBlocks)
    (copied : Copied src dst (fun o => ∃ i < moved m columns, ∃ k < positionBytes m convStateDimFirst,
      o = offset m convStateDimFirst i k) before after)
    (src_at : ∀ i k, src + offset m convStateDimFirst i k =
      address m convStateDimFirst (entry (sourceColumn m.info columns)) (i + shift m columns) k)
    (dst_at : ∀ i k, dst + offset m convStateDimFirst i k = address m convStateDimFirst (entry columns.dstCol) i k)
    (holds : Holds metas convStateDimFirst numBlocks before blocks) :
    Holds metas convStateDimFirst numBlocks after fun s' id =>
      if s' = s ∧ id = entry columns.dstCol then
        copyBlock m.info columns.tokenBias (blocks s' (entry (sourceColumn m.info columns)))
          (blocks s' (entry columns.dstCol))
      else blocks s' id := by
  intro s' m' found' id bound i inside k short
  have here : Inside metas convStateDimFirst numBlocks s' id (address m' convStateDimFirst id i k) :=
    ⟨m',found',bound,i,inside,k,short,rfl⟩
  dsimp only
  split
  · rename_i at_target
    obtain ⟨rfl,rfl⟩ := at_target
    obtain rfl : m = m' := Option.some.inj (found.symm.trans found')
    rw [copy_block_view _ _ inside]
    split
    · rename_i reached
      rw [← dst_at,copied.copied _ ⟨i,reached,k,short,rfl⟩,src_at]
      exact holds s' m found _ source _ (moved_inside reached) k short
    · rename_i behind
      rw [← holds s' m found _ target i inside k short]
      apply copied.kept
      rintro _ ⟨i',reached,k',short',rfl⟩ same
      rw [← dst_at] at same
      have inside' := Nat.lt_of_lt_of_le reached (Nat.sub_le _ _)
      obtain ⟨rfl,_⟩ := offset_injective inside inside' short short' (Nat.add_left_cancel same)
      exact behind reached
  · rename_i elsewhere
    rw [← holds s' m' found' id bound i inside k short]
    apply copied.kept
    rintro _ ⟨i',reached,k',short',rfl⟩ same
    rw [dst_at] at same
    exact elsewhere (laid s' id s _ _ here ⟨m,found,target,i',Nat.lt_of_lt_of_le reached (Nat.sub_le _ _),k',short',same⟩)

end Copy

end Memory

end Glm5Next.StateBlockCopy
