import Mathlib.Data.BitVec
import Glm5Next.StoreWrites

namespace Glm5Next.KpoolCompress
open StoreWrites

-- The arithmetic of the kernels: bfloat16 in memory, float32 in registers.
structure FloatOps (B S : Type) where
  toF32 : B → S
  toBf16 : S → B
  exact : ∀ b, toBf16 (toF32 b) = b
  add : S → S → S
  sub : S → S → S
  mul : S → S → S
  div : S → S → S
  max : S → S → S
  min : S → S → S
  abs : S → S
  exp : S → S
  exp2 : S → S
  log2 : S → S
  ceil : S → S
  negInf : S
  zero : S
  absmaxFloor : S
  fp8Max : S
  negFp8Max : S
  fp8MaxInv : S
  invSqrt128 : S
  toFp8U8 : S → BitVec 8

-- A token's raw K and its gate score, a value for each of the 128 lanes.
structure Row (B : Type) where
  key : List B
  score : List B

structure Entry (S : Type) where
  bytes : List (BitVec 8)
  scale : S

def headDim : Nat := 128

section Kernels
variable {B S : Type} (ops : FloatOps B S) (roundScale : Bool) (ape : List (List S)) (poolSize : Nat)

def FloatOps.lanes (value : S) : List S := List.replicate headDim value

def FloatOps.roundBf16 (x : List S) : List S := x.map fun v => ops.toF32 (ops.toBf16 v)

def hadamardStage (stride : Nat) (x : List S) : List S :=
  (List.range headDim).map fun i =>
    if i / stride % 2 = 0 then ops.add (x.getD i ops.zero) (x.getD (i + stride) ops.zero)
    else ops.sub (x.getD (i - stride) ops.zero) (x.getD i ops.zero)

def hadamard128 (x : List S) : List S :=
  ([1,2,4,8,16,32,64].foldl (fun x stride => hadamardStage ops stride x) x).map fun v => ops.mul v ops.invSqrt128

-- softmax(score + ape)-weighted sum of K, Hadamard rotation, fp8 quantization.
-- Both the prefill and the decode kernel run these loops over a pool's rows.
def compressPool (rows : List (Row B)) : Entry S :=
  let scores := List.zipWith (fun (row : Row B) bias => List.zipWith ops.add (row.score.map ops.toF32) bias) rows ape
  let maxScore := scores.foldl (List.zipWith ops.max) (FloatOps.lanes ops.negInf)
  let sums := (List.zip rows scores).foldl (fun (acc,denom) (row,score) =>
      let prob := List.zipWith (fun s m => ops.exp (ops.sub s m)) score maxScore
      (List.zipWith ops.add acc (List.zipWith ops.mul (row.key.map ops.toF32) prob),
        List.zipWith ops.add denom prob))
    (FloatOps.lanes ops.zero,FloatOps.lanes ops.zero)
  let pooled := ops.roundBf16 (List.zipWith ops.div sums.1 sums.2)
  let x := ops.roundBf16 (hadamard128 ops pooled)
  let absmax := ops.max ((x.map ops.abs).foldl ops.max ops.negInf) ops.absmaxFloor
  let scale :=
    if roundScale then ops.exp2 (ops.ceil (ops.log2 (ops.mul absmax ops.fp8MaxInv)))
    else ops.mul absmax ops.fp8MaxInv
  let quantized := x.map fun v => ops.min (ops.max (ops.div v scale) ops.negFp8Max) ops.fp8Max
  ⟨quantized.map ops.toFp8U8,scale⟩

-- One token as the kernels see it; -1 marks what does not exist.
structure Token (B : Type) where
  slot : Int
  pos : Int
  tailSlot : Int
  row : Row B

-- The index cache by pool slot and the tail cache by block * pool_size + offset.
structure Caches (B S : Type) where
  index : Nat → Entry S
  tail : Nat → Row B

-- The prefill writer: every token is a candidate for the end of its pool.
def kpoolCompressInsert (tokens : Nat → Token B) (n : Nat) (index : Nat → Entry S) : Nat → Entry S :=
  if n < poolSize then index
  else writes index ((List.range n).filterMap fun i =>
    if (tokens i).slot ≥ 0 ∧ i ≥ poolSize - 1 then
      some ((tokens i).slot.toNat,compressPool ops roundScale ape ((List.range poolSize).map fun s =>
        (tokens (i - (poolSize - 1) + s)).row))
    else none)

-- A token is seeded when no token pool_size ahead shares its tail block.
def kpoolSeedTailCache (tokens : Nat → Token B) (n : Nat) (tail : Nat → Row B) : Nat → Row B :=
  writes tail ((List.range n).filterMap fun i =>
    let t := (tokens i).tailSlot
    let ahead := if i + poolSize < n then (tokens (i + poolSize)).tailSlot else -1
    if t < 0 ∨ (ahead ≥ 0 ∧ ahead / poolSize = t / poolSize) then none
    else some ((t / poolSize * poolSize + t % poolSize).toNat,(tokens i).row))

def FloatOps.stashed (row : Row B) : Row B :=
  ⟨row.key.map fun b => ops.toBf16 (ops.toF32 b),row.score.map fun b => ops.toBf16 (ops.toF32 b)⟩

-- One iteration of the decode kernel: a completed pool is compressed from the
-- ring and the current token, then the token goes into the ring.
def decodeToken (caches : Caches B S) (token : Token B) : Caches B S :=
  let safePos := token.pos.toNat
  let posValid := token.slot ≥ 0 ∧ token.pos ≥ 0
  let slot := safePos % poolSize
  let block := token.tailSlot.toNat / poolSize
  let stashValid := token.pos ≥ 0 ∧ token.tailSlot ≥ 0
  let poolLogicalStart := safePos - slot
  let pool := (List.range poolSize).map fun poolSlot =>
    if poolSlot = slot then token.row
    else caches.tail (block * poolSize + (poolLogicalStart + poolSlot) % poolSize)
  { index :=
      if posValid ∧ slot = poolSize - 1 then
        write caches.index (token.slot.toNat,compressPool ops roundScale ape pool)
      else caches.index
    tail :=
      if stashValid then write caches.tail (block * poolSize + slot,ops.stashed token.row) else caches.tail }

-- The program of one request: its tokens in position order.
def kpoolDecodeUpdateBatched (tokens : Nat → Token B) (nextN : Nat) (caches : Caches B S) : Caches B S :=
  (List.range nextN).foldl (fun caches t => decodeToken ops roundScale ape poolSize caches (tokens t)) caches

theorem decode_next (tokens : Nat → Token B) (t : Nat) (caches : Caches B S) :
    kpoolDecodeUpdateBatched ops roundScale ape poolSize tokens (t + 1) caches =
      decodeToken ops roundScale ape poolSize
        (kpoolDecodeUpdateBatched ops roundScale ape poolSize tokens t caches) (tokens t) := by
  rw [kpoolDecodeUpdateBatched,List.range_succ,List.foldl_append]
  rfl

theorem stashed_exact (row : Row B) : ops.stashed row = row := by
  simp [FloatOps.stashed,ops.exact]

end Kernels

end Glm5Next.KpoolCompress
