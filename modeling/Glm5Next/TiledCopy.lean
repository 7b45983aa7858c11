import Glm5Next.ByteCopies
import Glm5Next.TiledGrid
import Mathlib.Data.Nat.Bitwise

namespace Glm5Next.TiledCopy
open ByteCopies TiledGrid

-- for i in range(tile_start, tile_end, COPY_BLOCK_SIZE)
def blockLoop (base width copyBlockSize tileStart tileEnd : Nat) : List CopyStep :=
  (List.range (cdiv (tileEnd - tileStart) copyBlockSize)).map fun k =>
    let i := tileStart + k * copyBlockSize
    ⟨base,width,((List.range copyBlockSize).map fun lane => i + lane).filter fun lane => decide (lane < tileEnd)⟩

def byteLanes (base count : Nat) : CopyStep := ⟨base,1,(List.range 8).filter fun lane => decide (lane < count)⟩

-- (-dst) & 7, capped at the size.
def headBytes (dstAddr copySize : Nat) : Nat := min (-(dstAddr : Int) % 8).toNat copySize

def perTile (total numTiles copyBlockSize : Nat) : Nat := cdiv (cdiv total numTiles) copyBlockSize * copyBlockSize

def tileLoop (base width total tileIdx copyBlockSize numTiles : Nat) : List CopyStep :=
  let tileStart := tileIdx * perTile total numTiles copyBlockSize
  blockLoop base width copyBlockSize tileStart (min (tileStart + perTile total numTiles copyBlockSize) total)

-- The statements of one tile, in program order. Sizes and addresses stay far
-- below 2^63.
def memcpyU64Tiled (srcAddr dstAddr copySize tileIdx copyBlockSize numTiles : Nat) : List CopyStep :=
  if (srcAddr ^^^ dstAddr) &&& 7 = 0 then
    let head := headBytes dstAddr copySize
    let bodyU64 := (copySize - head) / 8
    let tailStart := head + bodyU64 * 8
    (if tileIdx = 0 then [byteLanes 0 head] else []) ++ tileLoop head 8 bodyU64 tileIdx copyBlockSize numTiles ++
      if tileIdx = 0 then [byteLanes tailStart (copySize - tailStart)] else []
  else tileLoop 0 1 copySize tileIdx copyBlockSize numTiles

theorem byte_lanes_exact (small : count ≤ 8) : o ∈ (byteLanes base count).offsets ↔ base ≤ o ∧ o < base + count := by
  simp only [byteLanes,CopyStep.offsets,List.mem_flatMap,List.mem_filter,List.mem_range,decide_eq_true_iff,List.mem_map]
  constructor
  · rintro ⟨lane,⟨_,inside⟩,j,unit,rfl⟩
    omega
  · rintro ⟨low,high⟩
    exact ⟨o - base,by omega,0,Nat.zero_lt_one,by omega⟩

theorem lane_bytes {step : CopyStep} (member : o ∈ step.offsets) :
    ∃ lane ∈ step.lanes, step.base + lane * step.width ≤ o ∧ o < step.base + (lane + 1) * step.width := by
  obtain ⟨lane,listed,placed⟩ := List.mem_flatMap.mp member
  obtain ⟨j,inside,rfl⟩ := List.mem_map.mp placed
  have := List.mem_range.mp inside
  refine ⟨lane,listed,by omega,?_⟩
  rw [Nat.succ_mul]
  omega

section Loop
variable {base width copyBlockSize tileStart tileEnd : Nat}

theorem block_loop_lanes (block : 0 < copyBlockSize) :
    (∃ step ∈ blockLoop base width copyBlockSize tileStart tileEnd, lane ∈ step.lanes) ↔
      tileStart ≤ lane ∧ lane < tileEnd := by
  simp only [blockLoop,List.mem_map,List.mem_range]
  constructor
  · rintro ⟨_,⟨k,_,rfl⟩,member⟩
    obtain ⟨placed,inside⟩ := List.mem_filter.mp member
    obtain ⟨off,_,rfl⟩ := List.mem_map.mp placed
    have inside := of_decide_eq_true inside
    omega
  · rintro ⟨low,high⟩
    refine ⟨_,⟨(lane - tileStart) / copyBlockSize,?_,rfl⟩,?_⟩
    · unfold cdiv
      have step := Nat.div_le_div_right (c := copyBlockSize)
        (show lane - tileStart + copyBlockSize ≤ tileEnd - tileStart + copyBlockSize - 1 by omega)
      rw [Nat.add_div_right _ block] at step
      exact step
    · refine List.mem_filter.mpr ⟨List.mem_map.mpr ⟨(lane - tileStart) % copyBlockSize,?_,?_⟩,decide_eq_true high⟩
      · exact List.mem_range.mpr (Nat.mod_lt _ block)
      · have split := Nat.div_add_mod' (lane - tileStart) copyBlockSize
        omega

theorem block_loop_parts {step : CopyStep} (member : step ∈ blockLoop base width copyBlockSize tileStart tileEnd) :
    step.base = base ∧ step.width = width := by
  obtain ⟨k,_,rfl⟩ := List.mem_map.mp member
  exact ⟨rfl,rfl⟩

theorem block_loop_exact (block : 0 < copyBlockSize) (wide : 0 < width) :
    (∃ step ∈ blockLoop base width copyBlockSize tileStart tileEnd, o ∈ step.offsets) ↔
      base + tileStart * width ≤ o ∧ o < base + tileEnd * width ∧ tileStart < tileEnd := by
  constructor
  · rintro ⟨step,member,held⟩
    obtain ⟨lane,listed,low,high⟩ := lane_bytes held
    obtain ⟨same,same'⟩ := block_loop_parts member
    rw [same,same'] at low high
    obtain ⟨first,last⟩ := (block_loop_lanes block).mp ⟨step,member,listed⟩
    have below := Nat.mul_le_mul_right width first
    have above := Nat.mul_le_mul_right width (Nat.succ_le_of_lt last)
    rw [Nat.succ_eq_add_one] at above
    exact ⟨by omega,by omega,by omega⟩
  · rintro ⟨low,high,_⟩
    have split := Nat.div_add_mod' (o - base) width
    have rest := Nat.mod_lt (o - base) wide
    have first : tileStart ≤ (o - base) / width := (Nat.le_div_iff_mul_le wide).mpr (by omega)
    have last : (o - base) / width < tileEnd := (Nat.div_lt_iff_lt_mul wide).mpr (by omega)
    have reached : ∃ step ∈ blockLoop base width copyBlockSize tileStart tileEnd, (o - base) / width ∈ step.lanes :=
      (block_loop_lanes block).mpr ⟨first,last⟩
    obtain ⟨step,member,listed⟩ := reached
    obtain ⟨same,same'⟩ := block_loop_parts member
    refine ⟨step,member,List.mem_flatMap.mpr ⟨_,listed,List.mem_map.mpr ⟨(o - base) % width,?_,?_⟩⟩⟩
    · rw [same']
      exact List.mem_range.mpr rest
    · rw [same,same']
      omega

theorem block_loop_ascending : (blockLoop base width copyBlockSize tileStart tileEnd).Pairwise fun early late =>
    ∀ o ∈ early.offsets, ∀ o' ∈ late.offsets, o < o' := by
  unfold blockLoop
  rw [List.pairwise_map]
  refine List.pairwise_lt_range.imp ?_
  intro k k' ordered o member o' member'
  obtain ⟨lane,listed,_,high⟩ := lane_bytes member
  obtain ⟨lane',listed',low,_⟩ := lane_bytes member'
  obtain ⟨off,inside,rfl⟩ := List.mem_map.mp (List.mem_filter.mp listed).1
  obtain ⟨off',_,rfl⟩ := List.mem_map.mp (List.mem_filter.mp listed').1
  have next := Nat.mul_le_mul_right copyBlockSize (Nat.succ_le_of_lt ordered)
  have inside := List.mem_range.mp inside
  rw [Nat.succ_mul] at next
  have lanes := Nat.mul_le_mul_right width
    (show tileStart + k * copyBlockSize + off + 1 ≤ tileStart + k' * copyBlockSize + off' by omega)
  dsimp only at high low
  omega

end Loop

section Tiles
variable {copyBlockSize numTiles total : Nat}

theorem tiles_reach (tiles : 0 < numTiles) (block : 0 < copyBlockSize) (total : Nat) :
    total ≤ numTiles * perTile total numTiles copyBlockSize := by
  have raw := covered tiles total
  have rounded := covered block (cdiv total numTiles)
  have scaled := Nat.mul_le_mul_left numTiles rounded
  rw [Nat.mul_comm numTiles (cdiv total numTiles)] at scaled
  exact Nat.le_trans raw scaled

theorem tiles_exact (tiles : 0 < numTiles) (block : 0 < copyBlockSize) (wide : 0 < width) (base total : Nat) :
    (∃ tile < numTiles, ∃ step ∈ tileLoop base width total tile copyBlockSize numTiles, o ∈ step.offsets) ↔
      base ≤ o ∧ o < base + total * width := by
  have reach := tiles_reach tiles block total
  simp only [tileLoop,block_loop_exact block wide]
  generalize perTile total numTiles copyBlockSize = per at reach ⊢
  constructor
  · rintro ⟨tile,_,low,high,_⟩
    have most := Nat.mul_le_mul_right width (Nat.min_le_right (tile * per + per) total)
    omega
  · rintro ⟨low,high⟩
    have split := Nat.div_add_mod' (o - base) width
    have rest := Nat.mod_lt (o - base) wide
    have inside : (o - base) / width < total := (Nat.div_lt_iff_lt_mul wide).mpr (by omega)
    have some_per : 0 < per := by
      apply Nat.pos_of_ne_zero
      rintro rfl
      rw [Nat.mul_zero] at reach
      exact Nat.not_lt_zero _ (Nat.lt_of_lt_of_le inside reach)
    have split' := Nat.div_add_mod' ((o - base) / width) per
    have rest' := Nat.mod_lt ((o - base) / width) some_per
    refine ⟨(o - base) / width / per,?_,?_,?_,by omega⟩
    · exact (Nat.div_lt_iff_lt_mul some_per).mpr (Nat.lt_of_lt_of_le inside reach)
    · have below := Nat.mul_le_mul_right width (show (o - base) / width / per * per ≤ (o - base) / width by omega)
      omega
    · have above := Nat.mul_le_mul_right width
        (show (o - base) / width + 1 ≤ min ((o - base) / width / per * per + per) total by omega)
      rw [Nat.succ_mul] at above
      omega

theorem tile_loop_parts {step : CopyStep} (member : step ∈ tileLoop base width total tile copyBlockSize numTiles) :
    step.base = base ∧ step.width = width := block_loop_parts member

theorem tile_loop_within (block : 0 < copyBlockSize) (wide : 0 < width) {step : CopyStep}
    (member : step ∈ tileLoop base width total tile copyBlockSize numTiles) (held : o ∈ step.offsets) :
    base ≤ o ∧ o < base + total * width := by
  obtain ⟨low,high,_⟩ := (block_loop_exact block wide).mp ⟨step,member,held⟩
  have most := Nat.mul_le_mul_right width
    (Nat.min_le_right (tile * perTile total numTiles copyBlockSize + perTile total numTiles copyBlockSize) total)
  omega

end Tiles

section Memcpy
variable {srcAddr dstAddr copySize copyBlockSize numTiles : Nat}

theorem head_small (dstAddr copySize : Nat) : headBytes dstAddr copySize ≤ 7 ∧ headBytes dstAddr copySize ≤ copySize := by
  unfold headBytes
  omega

theorem same_phase : (srcAddr ^^^ dstAddr) &&& 7 = 0 ↔ srcAddr % 8 = dstAddr % 8 := by
  show (srcAddr ^^^ dstAddr) &&& (2 ^ 3 - 1) = 0 ↔ _
  rw [Nat.and_two_pow_sub_one_eq_mod,Nat.xor_mod_two_pow,Nat.xor_eq_zero_iff]

def bodyWords (dstAddr copySize : Nat) : Nat := (copySize - headBytes dstAddr copySize) / 8

def tailStart (dstAddr copySize : Nat) : Nat := headBytes dstAddr copySize + bodyWords dstAddr copySize * 8

theorem tail_small (dstAddr copySize : Nat) :
    tailStart dstAddr copySize ≤ copySize ∧ copySize - tailStart dstAddr copySize ≤ 7 := by
  have fits := (head_small dstAddr copySize).2
  unfold tailStart bodyWords
  omega

theorem aligned_steps (aligned : (srcAddr ^^^ dstAddr) &&& 7 = 0) (tile : Nat) :
    memcpyU64Tiled srcAddr dstAddr copySize tile copyBlockSize numTiles =
      (if tile = 0 then [byteLanes 0 (headBytes dstAddr copySize)] else []) ++
      tileLoop (headBytes dstAddr copySize) 8 (bodyWords dstAddr copySize) tile copyBlockSize numTiles ++
      if tile = 0 then [byteLanes (tailStart dstAddr copySize) (copySize - tailStart dstAddr copySize)] else [] :=
  if_pos aligned

theorem aligned_parts {step : CopyStep} (aligned : (srcAddr ^^^ dstAddr) &&& 7 = 0) :
    step ∈ memcpyU64Tiled srcAddr dstAddr copySize tile copyBlockSize numTiles ↔
      tile = 0 ∧ step = byteLanes 0 (headBytes dstAddr copySize) ∨
      step ∈ tileLoop (headBytes dstAddr copySize) 8 (bodyWords dstAddr copySize) tile copyBlockSize numTiles ∨
      tile = 0 ∧ step = byteLanes (tailStart dstAddr copySize) (copySize - tailStart dstAddr copySize) := by
  rw [aligned_steps aligned,List.mem_append,List.mem_append,or_assoc]
  by_cases first : tile = 0 <;> simp [first]

theorem head_bytes (dstAddr copySize : Nat) :
    o ∈ (byteLanes 0 (headBytes dstAddr copySize)).offsets ↔ o < headBytes dstAddr copySize := by
  have short := (head_small dstAddr copySize).1
  rw [byte_lanes_exact (by omega)]
  omega

theorem tail_bytes (dstAddr copySize : Nat) :
    o ∈ (byteLanes (tailStart dstAddr copySize) (copySize - tailStart dstAddr copySize)).offsets ↔
      tailStart dstAddr copySize ≤ o ∧ o < copySize := by
  obtain ⟨fits,short⟩ := tail_small dstAddr copySize
  rw [byte_lanes_exact (by omega)]
  omega

theorem memcpy_exact (srcAddr dstAddr copySize : Nat) (tiles : 0 < numTiles) (block : 0 < copyBlockSize) :
    (∃ tile < numTiles, ∃ step ∈ memcpyU64Tiled srcAddr dstAddr copySize tile copyBlockSize numTiles,
      o ∈ step.offsets) ↔ o < copySize := by
  by_cases aligned : (srcAddr ^^^ dstAddr) &&& 7 = 0
  · have fits := (head_small dstAddr copySize).2
    have ends := (tail_small dstAddr copySize).1
    have body : (∃ tile < numTiles, ∃ step ∈ tileLoop (headBytes dstAddr copySize) 8 (bodyWords dstAddr copySize) tile
        copyBlockSize numTiles, o ∈ step.offsets) ↔ headBytes dstAddr copySize ≤ o ∧ o < tailStart dstAddr copySize :=
      tiles_exact tiles block (by decide) _ _
    simp only [aligned_parts aligned]
    constructor
    · rintro ⟨tile,bound,step,⟨_,rfl⟩ | member | ⟨_,rfl⟩,held⟩
      · have := (head_bytes dstAddr copySize).mp held
        omega
      · have := body.mp ⟨tile,bound,step,member,held⟩
        omega
      · exact ((tail_bytes dstAddr copySize).mp held).2
    · intro inside
      by_cases first : o < headBytes dstAddr copySize
      · exact ⟨0,tiles,_,Or.inl ⟨rfl,rfl⟩,(head_bytes dstAddr copySize).mpr first⟩
      · by_cases last : tailStart dstAddr copySize ≤ o
        · exact ⟨0,tiles,_,Or.inr (Or.inr ⟨rfl,rfl⟩),(tail_bytes dstAddr copySize).mpr ⟨last,inside⟩⟩
        · obtain ⟨tile,bound,step,member,held⟩ := body.mpr ⟨Nat.le_of_not_lt first,Nat.lt_of_not_le last⟩
          exact ⟨tile,bound,step,Or.inr (Or.inl member),held⟩
  · simp only [memcpyU64Tiled,if_neg aligned]
    rw [tiles_exact tiles block Nat.one_pos 0 copySize]
    omega

theorem memcpy_ascending (block : 0 < copyBlockSize) (tile : Nat) :
    (memcpyU64Tiled srcAddr dstAddr copySize tile copyBlockSize numTiles).Pairwise fun early late =>
      ∀ o ∈ early.offsets, ∀ o' ∈ late.offsets, o < o' := by
  by_cases aligned : (srcAddr ^^^ dstAddr) &&& 7 = 0
  · have body {step : CopyStep} {o : Nat} (member : step ∈ tileLoop (headBytes dstAddr copySize) 8
        (bodyWords dstAddr copySize) tile copyBlockSize numTiles) (held : o ∈ step.offsets) :
        headBytes dstAddr copySize ≤ o ∧ o < tailStart dstAddr copySize := tile_loop_within block (by decide) member held
    rw [aligned_steps aligned]
    by_cases first : tile = 0
    · rw [if_pos first,if_pos first,List.singleton_append,List.cons_append,List.pairwise_cons,List.pairwise_append]
      refine ⟨?_,block_loop_ascending,List.pairwise_singleton _ _,?_⟩
      · intro late later o held o' held'
        have head := (head_bytes dstAddr copySize).mp held
        rcases List.mem_append.mp later with member | last
        · have := body member held'
          omega
        · rw [List.mem_singleton.mp last] at held'
          have tail := ((tail_bytes dstAddr copySize).mp held').1
          unfold tailStart at tail
          omega
      · intro early member late last o held o' held'
        rw [List.mem_singleton.mp last] at held'
        exact Nat.lt_of_lt_of_le (body member held).2 ((tail_bytes dstAddr copySize).mp held').1
    · rw [if_neg first,if_neg first,List.nil_append,List.append_nil]
      exact block_loop_ascending
  · simp only [memcpyU64Tiled,if_neg aligned]
    exact block_loop_ascending

theorem memcpy_aligned {step : CopyStep} (block : 0 < copyBlockSize)
    (member : step ∈ memcpyU64Tiled srcAddr dstAddr copySize tile copyBlockSize numTiles) :
    step.width = 1 ∨ step.width = 8 ∧ ∀ lane ∈ step.lanes, (srcAddr + step.base + lane * 8) % 8 = 0 ∧
      (dstAddr + step.base + lane * 8) % 8 = 0 := by
  by_cases aligned : (srcAddr ^^^ dstAddr) &&& 7 = 0
  · rcases (aligned_parts aligned).mp member with ⟨_,rfl⟩ | body | ⟨_,rfl⟩
    · exact Or.inl rfl
    · have phase := same_phase.mp aligned
      obtain ⟨same,wide⟩ := tile_loop_parts body
      refine Or.inr ⟨wide,fun lane listed => ?_⟩
      -- a word is copied, so the head is not cut short by the size
      have inside := ((block_loop_lanes block).mp ⟨step,body,listed⟩).2
      have some_word : 0 < bodyWords dstAddr copySize := by omega
      rw [same]
      unfold bodyWords at some_word
      unfold headBytes at some_word ⊢
      omega
    · exact Or.inl rfl
  · simp only [memcpyU64Tiled,if_neg aligned] at member
    exact Or.inl (tile_loop_parts member).2

theorem memcpy_within {step : CopyStep} (tiles : 0 < numTiles) (block : 0 < copyBlockSize) (bound : tile < numTiles)
    (member : step ∈ memcpyU64Tiled srcAddr dstAddr copySize tile copyBlockSize numTiles) (held : o ∈ step.offsets) :
    o < copySize := (memcpy_exact _ _ _ tiles block).mp ⟨tile,bound,step,member,held⟩

theorem interleaved_copy_exact (tiles : 0 < numTiles) (block : 0 < copyBlockSize)
    (apart : ∀ i < copySize, ∀ j < copySize, srcAddr + i ≠ dstAddr + j) (steps : List CopyStep)
    (launched : steps.Perm ((List.range numTiles).flatMap fun tile =>
      memcpyU64Tiled srcAddr dstAddr copySize tile copyBlockSize numTiles)) (mem : Nat → UInt8) :
    Copied srcAddr dstAddr (· < copySize) mem (runSteps srcAddr dstAddr steps mem) := by
  have member {step : CopyStep} : step ∈ steps ↔ ∃ tile < numTiles,
      step ∈ memcpyU64Tiled srcAddr dstAddr copySize tile copyBlockSize numTiles := by
    rw [launched.mem_iff,List.mem_flatMap]
    simp only [List.mem_range]
  have within : ∀ step ∈ steps, ∀ o ∈ step.offsets, o < copySize := by
    intro step listed o held
    obtain ⟨tile,bound,own⟩ := member.mp listed
    exact memcpy_within tiles block bound own held
  refine (run_exact srcAddr dstAddr steps (apart_unread within apart) mem).congr fun o => ?_
  rw [← memcpy_exact srcAddr dstAddr copySize tiles block]
  constructor
  · rintro ⟨step,listed,held⟩
    obtain ⟨tile,bound,own⟩ := member.mp listed
    exact ⟨tile,bound,step,own,held⟩
  · rintro ⟨tile,bound,step,own,held⟩
    exact ⟨step,member.mpr ⟨tile,bound,own⟩,held⟩

theorem memcpy_single_exact (block : 0 < copyBlockSize) :
    (∃ step ∈ memcpyU64Tiled srcAddr dstAddr copySize 0 copyBlockSize 1, o ∈ step.offsets) ↔ o < copySize := by
  rw [← memcpy_exact srcAddr dstAddr copySize Nat.one_pos block]
  constructor
  · rintro ⟨step,own,held⟩
    exact ⟨0,Nat.one_pos,step,own,held⟩
  · rintro ⟨tile,bound,step,own,held⟩
    obtain rfl : tile = 0 := by omega
    exact ⟨step,own,held⟩

theorem forward_copy_exact (block : 0 < copyBlockSize) (behind : dstAddr ≤ srcAddr) (copySize : Nat) (mem : Nat → UInt8) :
    Copied srcAddr dstAddr (· < copySize) mem
      (runSteps srcAddr dstAddr (memcpyU64Tiled srcAddr dstAddr copySize 0 copyBlockSize 1) mem) := by
  exact (run_exact srcAddr dstAddr _ (forward_unread behind (memcpy_ascending block 0)) mem).congr fun _ =>
    memcpy_single_exact block

-- The bytes of the copy and no other, for tiles in any order over disjoint
-- regions and for a single tile towards lower addresses; words are aligned.
theorem tiled_copy_exact (tiles : 0 < numTiles) (block : 0 < copyBlockSize) (srcAddr dstAddr copySize : Nat)
    (mem : Nat → UInt8) :
    ((∀ i < copySize, ∀ j < copySize, srcAddr + i ≠ dstAddr + j) →
      ∀ order : List Nat, order.Perm (List.range numTiles) →
        Copied srcAddr dstAddr (· < copySize) mem (runSteps srcAddr dstAddr
          (order.flatMap fun tile => memcpyU64Tiled srcAddr dstAddr copySize tile copyBlockSize numTiles) mem)) ∧
    (dstAddr ≤ srcAddr → Copied srcAddr dstAddr (· < copySize) mem
      (runSteps srcAddr dstAddr (memcpyU64Tiled srcAddr dstAddr copySize 0 copyBlockSize 1) mem)) ∧
    ∀ count tile, ∀ step ∈ memcpyU64Tiled srcAddr dstAddr copySize tile copyBlockSize count,
      step.width = 1 ∨ step.width = 8 ∧ ∀ lane ∈ step.lanes, (srcAddr + step.base + lane * 8) % 8 = 0 ∧
        (dstAddr + step.base + lane * 8) % 8 = 0 :=
  ⟨fun apart _ launched => interleaved_copy_exact tiles block apart _ (launched.flatMap_right _) mem,
    fun behind => forward_copy_exact block behind copySize mem,fun _ _ _ member => memcpy_aligned block member⟩

end Memcpy

-- Forty bytes apart in two tiles, and twenty onto themselves eight bytes down.
theorem tiled_copy_exact_shifted :
    Copied 51 3 (· < 40) UInt8.ofNat
      (runSteps 51 3 ([1,0].flatMap fun tile => memcpyU64Tiled 51 3 40 tile 4 2) UInt8.ofNat) ∧
    Copied 11 3 (· < 20) UInt8.ofNat (runSteps 11 3 (memcpyU64Tiled 11 3 20 0 4 1) UInt8.ofNat) :=
  ⟨(tiled_copy_exact (by decide : 0 < 2) (by decide : 0 < 4) 51 3 40 UInt8.ofNat).1 (by omega) [1,0] (by decide),
    (tiled_copy_exact (by decide : 0 < 2) (by decide : 0 < 4) 11 3 20 UInt8.ofNat).2.1 (by decide)⟩

end Glm5Next.TiledCopy
