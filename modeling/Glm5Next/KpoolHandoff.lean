import Glm5Next.KpoolRing

namespace Glm5Next.KpoolHandoff
open KpoolCompress KpoolRing

-- The write path of a chunk: the prefill writer and the tail seeding, or the
-- decode kernel in a grid so many tokens wide.
inductive Path where
  | prefill
  | extend (width : Nat)

structure Chunk where
  count : Nat
  path : Path

def Fits (chunk : Chunk) : Prop :=
  match chunk.path with
  | .prefill => True
  | .extend width => chunk.count ≤ width

-- Consecutive chunks of the tokens from `start` on, each from a pool boundary.
inductive Split (poolSize : Nat) : Nat → List Chunk → Nat → Prop
  | nil : Split poolSize start [] start
  | cons : 0 < chunk.count → poolSize ∣ start → Fits chunk → Split poolSize (start + chunk.count) rest stop →
      Split poolSize start (chunk :: rest) stop

-- Decode steps without rejections, from any position.
inductive Decodes : Nat → List Chunk → Nat → Prop
  | nil : Decodes start [] start
  | cons : 0 < count → count ≤ width → Decodes (start + count) rest stop →
      Decodes start (⟨count,.extend width⟩ :: rest) stop

section Handoff
variable {B S : Type} (ops : FloatOps B S) (roundScale : Bool) (ape : List (List S)) (poolSize : Nat)
  (blocks : Blocks) (rows : Nat → Row B)

def writeChunk (start : Nat) (chunk : Chunk) (caches : Caches B S) : Caches B S :=
  match chunk.path with
  | .prefill =>
    let tokens := fun i => tokenAt poolSize blocks (start + i) (rows (start + i))
    ⟨kpoolCompressInsert ops roundScale ape poolSize tokens chunk.count caches.index,
      kpoolSeedTailCache poolSize tokens chunk.count caches.tail⟩
  | .extend width =>
    kpoolDecodeUpdateBatched ops roundScale ape poolSize
      (gridTokens poolSize blocks start (fun t => rows (start + t)) chunk.count) width caches

def writeChunks : Nat → List Chunk → Caches B S → Caches B S
  | _,[],caches => caches
  | start,chunk :: rest,caches =>
    writeChunks (start + chunk.count) rest (writeChunk ops roundScale ape poolSize blocks rows start chunk caches)

def oneShot (length : Nat) (caches : Caches B S) : Caches B S :=
  writeChunk ops roundScale ape poolSize blocks rows 0 ⟨length,.prefill⟩ caches

def Written (caches : Caches B S) (length : Nat) : Prop :=
  Holds ops roundScale ape poolSize blocks caches rows length (length / poolSize * poolSize)

theorem extend_self (rows : Nat → Row B) (start : Nat) : extend rows (fun i => rows (start + i)) start = rows := by
  funext pos
  unfold extend
  split
  · rfl
  · rename_i past
    exact congrArg rows (Nat.add_sub_cancel' (Nat.le_of_not_lt past))

theorem empty_written (caches : Caches B S) (positive : 0 < poolSize) :
    Written ops roundScale ape poolSize blocks rows caches 0 := by
  constructor
  · intro p ends
    have whole := Nat.mul_pos (Nat.succ_pos p) positive
    exact absurd ends (Nat.not_le.mpr whole)
  · intro x _ before
    exact absurd before (Nat.not_lt_zero x)

theorem prefill_written (positive : 0 < poolSize) (caches : Caches B S) (start count : Nat) (aligned : poolSize ∣ start)
    (held : Written ops roundScale ape poolSize blocks rows caches start) :
    Written ops roundScale ape poolSize blocks rows
      (writeChunk ops roundScale ape poolSize blocks rows start ⟨count,.prefill⟩ caches) (start + count) := by
  have next := prefill_holds ops roundScale ape poolSize blocks positive ⟨caches,rows,start⟩
    (fun i => rows (start + i)) count held aligned
  rw [Invariant,prefillStep,extend_self] at next
  exact next

-- The decode path needs no boundary: a whole call is accepted.
theorem extend_written (positive : 0 < poolSize) (caches : Caches B S) (start count width : Nat) (some_token : 0 < count)
    (fits : count ≤ width) (held : Written ops roundScale ape poolSize blocks rows caches start) :
    Written ops roundScale ape poolSize blocks rows
      (writeChunk ops roundScale ape poolSize blocks rows start ⟨count,.extend width⟩ caches) (start + count) := by
  have short : start + count ≤ ((start + count) / poolSize + 1) * poolSize := by
    have split := Nat.div_add_mod (start + count) poolSize
    have residue := Nat.mod_lt (start + count) positive
    rw [Nat.add_mul,Nat.one_mul,Nat.mul_comm]
    omega
  have next := verify_holds ops roundScale ape poolSize blocks positive ⟨caches,rows,start⟩
    (fun t => rows (start + t)) count width count held ⟨some_token,Nat.le_refl _,fits⟩ (Or.inr short)
  rw [Invariant,verifyStep,extend_self] at next
  exact next

theorem chunk_written (positive : 0 < poolSize) (caches : Caches B S) (start : Nat) (chunk : Chunk)
    (some_token : 0 < chunk.count) (aligned : poolSize ∣ start) (fits : Fits chunk)
    (held : Written ops roundScale ape poolSize blocks rows caches start) :
    Written ops roundScale ape poolSize blocks rows
      (writeChunk ops roundScale ape poolSize blocks rows start chunk caches) (start + chunk.count) := by
  obtain ⟨count,path⟩ := chunk
  cases path with
  | prefill => exact prefill_written ops roundScale ape poolSize blocks rows positive caches start count aligned held
  | extend width =>
      exact extend_written ops roundScale ape poolSize blocks rows positive caches start count width some_token fits held

theorem split_written (positive : 0 < poolSize) (split : Split poolSize start chunks stop) (caches : Caches B S)
    (held : Written ops roundScale ape poolSize blocks rows caches start) :
    Written ops roundScale ape poolSize blocks rows
      (writeChunks ops roundScale ape poolSize blocks rows start chunks caches) stop := by
  induction split generalizing caches with
  | nil => exact held
  | cons some_token aligned fits rest ih =>
      exact ih _ (chunk_written ops roundScale ape poolSize blocks rows positive caches _ _ some_token aligned fits held)

theorem decodes_written (positive : 0 < poolSize) (decodes : Decodes start steps stop) (caches : Caches B S)
    (held : Written ops roundScale ape poolSize blocks rows caches start) :
    Written ops roundScale ape poolSize blocks rows
      (writeChunks ops roundScale ape poolSize blocks rows start steps caches) stop := by
  induction decodes generalizing caches with
  | nil => exact held
  | cons some_token fits rest ih =>
      exact ih _ (extend_written ops roundScale ape poolSize blocks rows positive caches _ _ _ some_token fits held)

theorem one_shot_written (positive : 0 < poolSize) (length : Nat) (caches : Caches B S) :
    Written ops roundScale ape poolSize blocks rows (oneShot ops roundScale ape poolSize blocks rows length caches)
      length := by
  have written := prefill_written ops roundScale ape poolSize blocks rows positive caches 0 length (Nat.dvd_zero _)
    (empty_written ops roundScale ape poolSize blocks rows caches positive)
  rw [Nat.zero_add] at written
  exact written

theorem pool_inside (positive : 0 < poolSize) (p length : Nat) (inside : p < length / poolSize) :
    (p + 1) * poolSize ≤ length := (Nat.le_div_iff_mul_le positive).mp inside

-- However the prompt is split, the pools and the ring are those of its tokens;
-- the decode steps after it go on as a one-shot prefill of the longer sequence.
theorem hand_off_exact (several : 2 ≤ poolSize) (split : Split poolSize 0 chunks length) (before fresh : Caches B S) :
    let after := writeChunks ops roundScale ape poolSize blocks rows 0 chunks before
    (∀ p, p < length / poolSize →
      after.index (blocks.slots p) = compressPool ops roundScale ape (pool poolSize rows p) ∧
      after.index (blocks.slots p) =
        (oneShot ops roundScale ape poolSize blocks rows length fresh).index (blocks.slots p)) ∧
    (∀ s, s < length % poolSize →
      after.tail (blocks.tailBlock * poolSize + s) = rows (length / poolSize * poolSize + s)) ∧
    ∀ steps stop, Decodes length steps stop → ∀ p, p < stop / poolSize →
      (writeChunks ops roundScale ape poolSize blocks rows length steps after).index (blocks.slots p) =
        (oneShot ops roundScale ape poolSize blocks rows stop fresh).index (blocks.slots p) := by
  intro after
  have positive : 0 < poolSize := by omega
  have held := split_written ops roundScale ape poolSize blocks rows positive split before
    (empty_written ops roundScale ape poolSize blocks rows before positive)
  refine ⟨?_,?_,?_⟩
  · intro p inside
    have ends := pool_inside poolSize positive p length inside
    have own := held.pools p ends
    have shot := (one_shot_written ops roundScale ape poolSize blocks rows positive length fresh).pools p ends
    exact ⟨own,own.trans shot.symm⟩
  · intro s inside
    have whole := Nat.div_add_mod length poolSize
    rw [Nat.mul_comm] at whole
    have residue := Nat.mod_lt length positive
    have kept := held.ring (length / poolSize * poolSize + s) (Nat.le_add_right _ _) (by omega) (by omega)
    rw [Ragged.grid_col (Nat.lt_trans inside residue)] at kept
    exact kept
  · intro steps stop decodes p inside
    have ends := pool_inside poolSize positive p stop inside
    have later := decodes_written ops roundScale ape poolSize blocks rows positive decodes after held
    have shot := one_shot_written ops roundScale ape poolSize blocks rows positive stop fresh
    exact (later.pools p ends).trans (shot.pools p ends).symm

end Handoff

theorem seven_split : Split 4 0 [⟨4,.prefill⟩,⟨3,.extend 5⟩] 7 :=
  .cons (by decide) ⟨0,rfl⟩ trivial (.cons (by decide) ⟨1,rfl⟩ (show 3 ≤ 5 by decide) .nil)

theorem hand_off_exact_seven :
    let rows := fun pos => if pos = 5 then spikeRow else zeroRow
    let caches : Caches Int ℚ := ⟨fun _ => ⟨[],1⟩,fun _ => zeroRow⟩
    let after := writeChunks ratOps true zeroApe 4 firstBlocks rows 0 [⟨4,.prefill⟩,⟨3,.extend 5⟩] caches
    after.tail 1 = spikeRow ∧
    (writeChunks ratOps true zeroApe 4 firstBlocks rows 7 [⟨2,.extend 2⟩] after).index 1 =
      (oneShot ratOps true zeroApe 4 firstBlocks rows 9 caches).index 1 := by
  intro rows caches after
  obtain ⟨_,ring,decoded⟩ := hand_off_exact ratOps true zeroApe 4 firstBlocks rows (by decide) seven_split caches caches
  exact ⟨ring 1 (by decide),decoded [⟨2,.extend 2⟩] 9 (.cons (by decide) (by decide) .nil) 1 (by decide)⟩

end Glm5Next.KpoolHandoff
