import Mathlib.Data.Finset.Union
import Glm5Next.Ragged

-- A sequence dealt out to shards, `interleave` entries at a time.
namespace Glm5Next.InterleavedShards
variable {world interleave rank : Nat}

def owner (world interleave p : Nat) : Nat := p / interleave % world

def localIndex (world interleave p : Nat) : Nat := p / interleave / world * interleave + p % interleave

def globalId (world interleave rank j : Nat) : Nat := (j / interleave * world + rank) * interleave + j % interleave

def localLen (world interleave rank len : Nat) : Nat :=
  let base := len / interleave / world * interleave
  base + min (len - base * world - rank * interleave) interleave

theorem global_owner (positive : 0 < interleave) (member : rank < world) (j : Nat) :
    owner world interleave (globalId world interleave rank j) = rank := by
  have offset := Nat.mod_lt j positive
  rw [owner,globalId,Ragged.grid_row offset,Ragged.grid_col member]

theorem global_local (positive : 0 < interleave) (member : rank < world) (j : Nat) :
    localIndex world interleave (globalId world interleave rank j) = j := by
  have offset := Nat.mod_lt j positive
  rw [localIndex,globalId,Ragged.grid_row offset,Ragged.grid_row member,Ragged.grid_col offset,Nat.div_add_mod']

theorem local_global (world interleave p : Nat) :
    globalId world interleave (owner world interleave p) (localIndex world interleave p) = p := by
  by_cases positive : 0 < interleave
  · have offset := Nat.mod_lt p positive
    rw [globalId,localIndex,owner,Ragged.grid_row offset,Ragged.grid_col offset,Nat.div_add_mod',Nat.div_add_mod']
  · obtain rfl := Nat.eq_zero_of_not_pos positive
    simp [globalId,localIndex]

theorem owner_lt (some_rank : 0 < world) (interleave p : Nat) : owner world interleave p < world := Nat.mod_lt _ some_rank

theorem global_injective (positive : 0 < interleave) (member : rank < world) :
    Function.Injective (globalId world interleave rank) := by
  intro i j same
  rw [← global_local positive member i,same,global_local positive member j]

-- Whole rounds give each shard a block; the rest of a round goes in order.
theorem local_len_exact (positive : 0 < interleave) (member : rank < world) (len j : Nat) :
    j < localLen world interleave rank len ↔ globalId world interleave rank j < len := by
  have some_rank := Nat.zero_lt_of_lt member
  have offset := Nat.mod_lt j positive
  have split := Nat.div_add_mod' j interleave
  have round := Nat.div_add_mod' len (world * interleave)
  have rest := Nat.mod_lt len (Nat.mul_pos some_rank positive)
  have rounds : len / interleave / world = len / (world * interleave) := by
    rw [Nat.div_div_eq_div_mul,Nat.mul_comm]
  have place : rank * interleave + j % interleave < world * interleave := Ragged.grid_below member offset
  have whole : len / (world * interleave) * interleave * world = len / (world * interleave) * (world * interleave) := by
    rw [Nat.mul_assoc,Nat.mul_comm interleave world]
  have target : globalId world interleave rank j =
      j / interleave * (world * interleave) + (rank * interleave + j % interleave) := by
    rw [globalId,Nat.add_mul,Nat.mul_assoc,Nat.add_assoc]
  rw [localLen,rounds,whole,target]
  generalize len / (world * interleave) = rounds_done at *
  generalize j / interleave = block at *
  rcases Nat.lt_trichotomy block rounds_done with early | rfl | late
  · have local_room := Nat.mul_le_mul_right interleave (Nat.succ_le_of_lt early)
    have global_room := Nat.mul_le_mul_right (world * interleave) (Nat.succ_le_of_lt early)
    rw [Nat.succ_mul] at local_room global_room
    omega
  · omega
  · have local_room := Nat.mul_le_mul_right interleave (Nat.succ_le_of_lt late)
    have global_room := Nat.mul_le_mul_right (world * interleave) (Nat.succ_le_of_lt late)
    rw [Nat.succ_mul] at local_room global_room
    omega

-- The shards' prefixes are the prefix, and no entry is in two.
theorem shards_cover (positive : 0 < interleave) (some_rank : 0 < world) (len : Nat) :
    ((Finset.range world).biUnion fun rank =>
      (Finset.range (localLen world interleave rank len)).image (globalId world interleave rank)) = Finset.range len := by
  ext p
  simp only [Finset.mem_biUnion,Finset.mem_image,Finset.mem_range]
  constructor
  · rintro ⟨rank,member,j,inside,rfl⟩
    exact (local_len_exact positive member len j).mp inside
  · intro inside
    have member := owner_lt some_rank interleave p
    refine ⟨owner world interleave p,member,localIndex world interleave p,?_,local_global world interleave p⟩
    rw [local_len_exact positive member,local_global]
    exact inside

theorem local_len_mono (positive : 0 < interleave) (member : rank < world) (ordered : len ≤ len') :
    localLen world interleave rank len ≤ localLen world interleave rank len' := by
  by_contra above
  have inside := (local_len_exact positive member len _).mp (Nat.lt_of_not_le above)
  exact absurd ((local_len_exact positive member len' _).mpr (Nat.lt_of_lt_of_le inside ordered)) (Nat.lt_irrefl _)

end Glm5Next.InterleavedShards
