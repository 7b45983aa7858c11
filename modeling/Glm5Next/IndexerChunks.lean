import Glm5Next.Ragged
import Glm5Next.StoreWrites

namespace Glm5Next.IndexerChunks
open StoreWrites

structure Request where
  contextLen : Nat
  queryLen : Nat
  deriving DecidableEq, Repr

def Request.seqLen (r : Request) : Nat := r.contextLen + r.queryLen

-- The arrays of the common attention metadata, decode requests first. The CPU
-- copy of the sequence lengths is exact for prefill rows.
def queryLens (reqs : List Request) : List Nat := reqs.map Request.queryLen

def queryStartLoc (reqs : List Request) (r : Nat) : Nat := Ragged.start (queryLens reqs) r

def compressedSeqLens (compressRatio : Nat) (reqs : List Request) : List Nat :=
  reqs.map fun r => r.seqLen / compressRatio

-- The requests start..stop-1, counted from the first prefill request, with
-- their number of query tokens and of pools.
structure Group where
  start : Nat
  stop : Nat
  chunkM : Nat
  chunkN : Nat
  deriving DecidableEq, Repr

-- The inner loop: how many of the next (query length,pool count) pairs fit.
def grow (workspaceSize maxLogitsElems : Nat) : List (Nat × Nat) → Nat → Nat → Nat × Nat × Nat
  | [],m,n => (0,m,n)
  | (q,s) :: rest,m,n =>
    if n + s ≤ workspaceSize ∧ (m + q) * (n + s) ≤ maxLogitsElems then
      let (taken,m,n) := grow workspaceSize maxLogitsElems rest (m + q) (n + s)
      (taken + 1,m,n)
    else (0,m,n)

def nextGroup (workspaceSize maxLogitsElems start q s : Nat) (rest : List (Nat × Nat)) : Group :=
  let (taken,m,n) := grow workspaceSize maxLogitsElems ((q,s) :: rest) 0 0
  if taken = 0 then ⟨start,start + 1,q,s⟩ else ⟨start,start + taken,m,n⟩

theorem next_group_grows (workspaceSize maxLogitsElems start q s : Nat) (rest : List (Nat × Nat)) :
    start < (nextGroup workspaceSize maxLogitsElems start q s rest).stop := by
  unfold nextGroup
  dsimp only
  split
  · exact Nat.lt_succ_self start
  · exact Nat.lt_add_of_pos_right (Nat.pos_of_ne_zero ‹_›)

def splitGroups (workspaceSize maxLogitsElems start : Nat) : List (Nat × Nat) → List Group
  | [] => []
  | (q,s) :: rest =>
    let group := nextGroup workspaceSize maxLogitsElems start q s rest
    group :: splitGroups workspaceSize maxLogitsElems group.stop (((q,s) :: rest).drop (group.stop - start))
termination_by pairs => pairs.length
decreasing_by
  have grows := next_group_grows workspaceSize maxLogitsElems start q s rest
  simp only [List.length_drop,List.length_cons]
  omega

def querySlices (maxLogitsElems : Nat) (group : Group) : List (Nat × Nat) :=
  let maxQ := if group.chunkN > 0 then max 1 (maxLogitsElems / group.chunkN) else max 1 group.chunkM
  (List.range ((group.chunkM + maxQ - 1) / maxQ)).map fun i =>
    (i * maxQ,i * maxQ + min maxQ (group.chunkM - i * maxQ))

def splitIndexerPrefillChunks (pairs : List (Nat × Nat)) (workspaceSize maxLogitsBytes requestOffset : Nat) :
    List ((Nat × Nat) × Nat × Nat) :=
  (splitGroups workspaceSize (maxLogitsBytes / 4) 0 pairs).flatMap fun group =>
    (querySlices (maxLogitsBytes / 4) group).map fun querySlice =>
      ((group.start + requestOffset,group.stop + requestOffset),querySlice)

structure PrefillChunkMetadata where
  blockTable : Nat → Nat → Nat
  cuSeqlenKs : Nat → Nat
  cuSeqlenKe : Nat → Nat
  cuSeqLens : List Nat
  tokenToSeq : Nat → Nat
  totalSeqLens : Nat
  tokenStart : Nat
  tokenEnd : Nat
  numReqs : Nat
  skipKvGather : Bool

def kernelBlockSize : Nat := 1024

-- for i in range(0,n,BLOCK_SIZE): i + tl.arange(0,BLOCK_SIZE)
def blockOffsets (n : Nat) : List Nat :=
  (List.range ((n + kernelBlockSize - 1) / kernelBlockSize)).flatMap fun i =>
    (List.range kernelBlockSize).map fun j => i * kernelBlockSize + j

-- The row stores of one program of the kernel: position, ks and ke. DCP is off,
-- so a row starts at the request's first pool.
def rowStores (compressRatio qsStart qsStop queryStart queryLen seqLen rowStart : Nat) : List (Nat × Nat × Nat) :=
  ((blockOffsets queryLen).filter fun offset =>
      decide (offset < queryLen ∧ qsStart ≤ queryStart + offset ∧ queryStart + offset < qsStop)).map fun offset =>
    let globalCtx := seqLen - queryLen + 1 + offset
    (queryStart + offset - qsStart,rowStart,rowStart + globalCtx / compressRatio)

def tokenStores (seqStart compressedSeqLen batchIdx : Nat) : List (Nat × Nat) :=
  ((blockOffsets compressedSeqLen).filter fun offset => decide (offset < compressedSeqLen)).map fun offset =>
    (seqStart + offset,batchIdx)

def chunkStores (compressRatio qsStart qsStop : Nat) (chunk : List Request) (queryStart : Nat → Nat) :
    List (Nat × Nat × Nat) :=
  chunk.zipIdx.flatMap fun (req,r) =>
    rowStores compressRatio qsStart qsStop (queryStart r) (queryStart (r + 1) - queryStart r) req.seqLen
      (Ragged.start (compressedSeqLens compressRatio chunk) r)

-- `empty` is what torch.empty found in memory. `none`: no pool in the chunk.
def buildPrefillChunkMetadata (compressRatio : Nat) (empty : Nat → Nat) (reqs : List Request)
    (blockTable : Nat → Nat → Nat) (startIdx endIdx : Nat) (querySlice : Nat × Nat) :
    Option PrefillChunkMetadata :=
  let chunk := (reqs.drop startIdx).take (endIdx - startIdx)
  let compressed := compressedSeqLens compressRatio chunk
  let totalSeqLens := compressed.sum
  if totalSeqLens = 0 then none
  else
    let (qsStart,qsStop) := querySlice
    let rows := chunkStores compressRatio qsStart qsStop chunk fun r =>
      queryStartLoc reqs (startIdx + r) - queryStartLoc reqs startIdx
    let tokens := compressed.zipIdx.flatMap fun (len,r) => tokenStores (Ragged.start compressed r) len r
    some {
      blockTable := fun r => blockTable (startIdx + r)
      cuSeqlenKs := writes empty (rows.map fun row => (row.1,row.2.1))
      cuSeqlenKe := writes empty (rows.map fun row => (row.1,row.2.2))
      cuSeqLens := (List.range (chunk.length + 1)).map (Ragged.start compressed)
      tokenToSeq := writes empty tokens
      totalSeqLens := totalSeqLens
      tokenStart := queryStartLoc reqs startIdx + qsStart
      tokenEnd := queryStartLoc reqs startIdx + qsStop
      numReqs := endIdx - startIdx
      skipKvGather := decide (qsStart > 0) }

def prefillPairs (compressRatio : Nat) (reqs : List Request) (numDecodes : Nat) : List (Nat × Nat) :=
  (reqs.drop numDecodes).map fun r => (r.queryLen,r.seqLen / compressRatio)

def prefillChunks (compressRatio : Nat) (empty : Nat → Nat) (reqs : List Request) (numDecodes : Nat)
    (blockTable : Nat → Nat → Nat) (workspaceSize maxLogitsBytes : Nat) : List PrefillChunkMetadata :=
  (splitIndexerPrefillChunks (prefillPairs compressRatio reqs numDecodes) workspaceSize maxLogitsBytes
      numDecodes).filterMap fun spec =>
    buildPrefillChunkMetadata compressRatio empty reqs blockTable spec.1.1 spec.1.2 spec.2

-- A page holds the keys of its entries first and their scales behind them.
structure KvCache where
  blockSize : Nat
  headDim : Nat
  pages : Nat → Nat → UInt8

abbrev PoolEntry := List UInt8 × List UInt8

def KvCache.entry (kv : KvCache) (blk off : Nat) : PoolEntry :=
  ((List.range kv.headDim).map fun b => kv.pages blk (off * kv.headDim + b),
    (List.range 4).map fun b => kv.pages blk (kv.blockSize * kv.headDim + off * 4 + b))

def gatherK (kv : KvCache) (chunk : PrefillChunkMetadata) (dst : Nat → PoolEntry) : Nat → PoolEntry :=
  let lens := List.zipWith (fun next this => next - this) chunk.cuSeqLens.tail chunk.cuSeqLens
  let reqOfPool := Ragged.owners lens
  fun j => match reqOfPool[j]? with
    | none => dst j
    | some r =>
      let posInReq := j - chunk.cuSeqLens.getD r 0
      kv.entry (chunk.blockTable r (posInReq / kv.blockSize)) (posInReq % kv.blockSize)

-- The loop over the chunks, with the gathered buffer each chunk is scored on.
def scoredChunks (kv : KvCache) : (Nat → PoolEntry) → List PrefillChunkMetadata →
    List (PrefillChunkMetadata × (Nat → PoolEntry))
  | _,[] => []
  | buffer,chunk :: rest =>
    let buffer := if chunk.skipKvGather then buffer else gatherK kv chunk buffer
    (chunk,buffer) :: scoredChunks kv buffer rest

end Glm5Next.IndexerChunks
