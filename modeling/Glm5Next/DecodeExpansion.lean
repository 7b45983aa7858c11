import Glm5Next.BufferSlices
import Glm5Next.DecodeLayout
import Glm5Next.TiledGrid

namespace Glm5Next.DecodeExpansion
open BufferSlices DecodeLayout StoreWrites TiledGrid

-- The builder's configuration. The indexer's pages hold blockSize tokens; the
-- block tables are in blocks of kernelBlockSize tokens where that is set.
structure BuilderConfig extends DecodeConfig where
  compressRatio : Nat
  blockSize : Nat
  kernelBlockSize : Option Nat
  tableWidth : Nat
  ratio_pos : 0 < compressRatio
  block_pos : 0 < blockSize
  kernel_divides : ∀ kbs ∈ kernelBlockSize, kbs ∣ blockSize

-- The decodes of a step, with the token count after padding.
structure Decodes where
  seqLens : List Nat
  decodeLens : List Nat
  numDecodeTokens : Nat
  blockTable : Nat → Nat → Int
  listed : seqLens.length = decodeLens.length
  some_decode : decodeLens ≠ []
  grown : ∀ r len seqLen : Nat, decodeLens[r]? = some len → seqLens[r]? = some seqLen → len ≤ seqLen
  counted : decodeLens.sum ≤ numDecodeTokens

-- The persistent buffers, as long as the largest batch.
structure Buffers where
  decodeLens : Nat → Int
  perReqDecodeLens : Nat → Int
  decodeSeqLens : Nat → Int
  -- Rows of tableWidth entries.
  expandedBlockTable : Nat → Int
  expandedSeqLens : Nat → Int
  indexerDecodeBlockTable : Nat → Nat → Int

-- seqLens has `size` entries in memory order.
structure Prepared where
  buffers : Buffers
  seqLens : Nat → Int
  size : Nat
  blockTable : Nat → Nat → Int
  decodeLens : Nat → Int
  batchSize : Nat
  requiresPadding : Bool

structure DecodeTensors where
  seqLens : Nat → Int
  rows : Nat
  blockTable : Nat → Nat → Int
  columns : Nat
  decodeLens : Nat → Int
  batchSize : Nat
  requiresPadding : Bool
  perReqDecodeLens : Nat → Int
  decodeIsUniform : Bool
  writeMaxDecodeLen : Nat

namespace Decodes
variable (batch : Decodes)

def numDecodes : Nat := batch.decodeLens.length

def queryStartLoc (r : Nat) : Int := Ragged.start batch.decodeLens r

def diff (r : Nat) : Int := batch.queryStartLoc (r + 1) - batch.queryStartLoc r

def seqLen (r : Nat) : Int := batch.seqLens.getD r 0

def uniform : Bool :=
  decide (minDecodeLen batch.decodeLens = maxDecodeLen batch.decodeLens ∧
    batch.numDecodes * maxDecodeLen batch.decodeLens = batch.numDecodeTokens)

end Decodes

section Prepare
variable (width : Nat) (batch : Decodes)

def uniformSeqLen (idx : Nat) : Nat × Int :=
  let maxDecodeLen := maxDecodeLen batch.decodeLens
  (idx,batch.seqLen (idx / maxDecodeLen) - maxDecodeLen + (idx % maxDecodeLen : Nat) + 1)

def uniformTile (program : Nat × Nat) : List (Nat × Int) :=
  (lanes width 1024 program.2).map fun off =>
    (program.1 * width + off,batch.blockTable (program.1 / maxDecodeLen batch.decodeLens) off)

def prepareUniformDecodeKernel (idx : Nat) : List (Nat × Int) :=
  (List.range (cdiv width 1024)).flatMap fun tile => uniformTile width batch (idx,tile)

def prepareUniform (order : List Nat) (b : Buffers) : Buffers :=
  { b with
    decodeSeqLens := fillFrom (writes b.decodeSeqLens (order.map (uniformSeqLen batch))) batch.numDecodeTokens 0
    expandedBlockTable := writes b.expandedBlockTable (order.flatMap (prepareUniformDecodeKernel width batch))
    decodeLens := writes b.decodeLens (order.map fun idx => (idx,1)) }

-- `counts` is decode_lens as repeat_interleave reads it on the device.
def prepareVariable (counts : List Nat) (b : Buffers) : Buffers :=
  let actualExpanded := batch.decodeLens.sum
  let owner := fun i => (Ragged.owners counts).getD i 0
  let expandedOffset := fun i => batch.seqLen (owner i) - counts.getD (owner i) 0 - batch.queryStartLoc (owner i)
  let copied := assign b.expandedBlockTable 0 (actualExpanded * width) fun a =>
    batch.blockTable (owner (a / width)) (a % width)
  { b with
    decodeSeqLens := fillFrom (assign b.decodeSeqLens 0 actualExpanded fun (i : Nat) => expandedOffset i + i + 1)
      actualExpanded 0
    expandedBlockTable := fun a =>
      if actualExpanded ≤ a / width ∧ a / width < batch.numDecodeTokens ∧ a % width = 0 then 0 else copied a
    decodeLens := assign b.decodeLens 0 batch.numDecodeTokens fun _ => 1 }

end Prepare

section Build
variable (cfg : BuilderConfig) (order : List Nat) (batch : Decodes)

def prepareNative (decodeLens : Nat → Int) (b : Buffers) : Prepared :=
  let maxDecodeLen := maxDecodeLen batch.decodeLens
  let padded := decide (minDecodeLen batch.decodeLens ≠ maxDecodeLen)
  if 1 + cfg.numSpeculativeTokens > 1 then
    let decodeSeqLens := assign b.decodeSeqLens 0 (batch.numDecodes * maxDecodeLen) fun i =>
      batch.seqLen (i / maxDecodeLen) - maxDecodeLen + 1 + (i % maxDecodeLen : Nat)
    ⟨{ b with decodeSeqLens := decodeSeqLens },decodeSeqLens,batch.numDecodes * maxDecodeLen,batch.blockTable,
      decodeLens,batch.numDecodes,padded⟩
  else ⟨b,batch.seqLen,batch.numDecodes,batch.blockTable,decodeLens,batch.numDecodes,padded⟩

def prepareDecodeTensors (decodeLens : Nat → Int) (b : Buffers) : Prepared :=
  if useNative cfg.toDecodeConfig batch.decodeLens then prepareNative cfg batch decodeLens b
  else
    let after :=
      if cfg.supportsVarlen = false ∧ batch.uniform then prepareUniform cfg.tableWidth batch order b
      else prepareVariable cfg.tableWidth batch ((List.range batch.numDecodes).map fun r => (decodeLens r).toNat) b
    ⟨after,after.decodeSeqLens,batch.numDecodeTokens,
      fun row col => after.expandedBlockTable (row * cfg.tableWidth + col),after.decodeLens,batch.numDecodeTokens,false⟩

def splitFactor : Option Nat :=
  if 1 < cfg.compressRatio then
    match cfg.kernelBlockSize with
    | none => none
    | some kbs => if cfg.blockSize ≠ kbs ∧ cfg.blockSize % kbs = 0 then some (cfg.blockSize / kbs) else none
  else none

-- block_table[:, ::factor] // factor
def translated (factor : Nat) (blockTable : Nat → Nat → Int) : Nat → Nat → Int :=
  fun row col => blockTable row (col * factor) / factor

def indexerBlockTable : Nat → Nat → Int :=
  match splitFactor cfg with
  | none => batch.blockTable
  | some factor => translated factor batch.blockTable

def translateDecodeTable (rows : Nat) (blockTable buffer : Nat → Nat → Int) :
    (Nat → Nat → Int) × (Nat → Nat → Int) × Nat :=
  match splitFactor cfg with
  | none => (buffer,blockTable,cfg.tableWidth)
  | some factor =>
    let cols := cdiv cfg.tableWidth factor
    let after := fun row col =>
      if row < rows ∧ col < cols then translated factor blockTable row col else buffer row col
    (after,after,cols)

def seqLensIsBufferView : Bool :=
  useNative cfg.toDecodeConfig batch.decodeLens && decide (1 + cfg.numSpeculativeTokens > 1) ||
    !useNative cfg.toDecodeConfig batch.decodeLens && decide (maxDecodeLen batch.decodeLens > 1)

def copySeqLens (expandedSeqLens : Nat → Int) (size : Nat) (pools : Nat → Int) : Option (Nat → Int) :=
  (assignTensor expandedSeqLens 0 batch.numDecodes size pools).map fun expanded =>
    assign expanded batch.numDecodes batch.numDecodeTokens fun _ => 0

-- The lengths in pools: in place where they are in a buffer of the builder,
-- and in another buffer otherwise. Last component: how many there are.
def compressSeqLens (prepared : Prepared) : Option (Buffers × (Nat → Int) × Nat) :=
  let b := prepared.buffers
  let pools := fun i => prepared.seqLens i / (cfg.compressRatio : Int)
  if cfg.compressRatio ≤ 1 then some (b,prepared.seqLens,prepared.size)
  else if seqLensIsBufferView cfg batch then
    let decodeSeqLens := assign b.decodeSeqLens 0 prepared.size pools
    some ({ b with decodeSeqLens := decodeSeqLens },decodeSeqLens,prepared.size)
  else
    (copySeqLens batch b.expandedSeqLens prepared.size pools).map fun expanded =>
      ({ b with expandedSeqLens := expanded },expanded,batch.numDecodeTokens)

-- The decode part of build. `none` is a RuntimeError.
def buildDecode (b : Buffers) : Option (Buffers × DecodeTensors) :=
  let decodeLens := assign b.decodeLens 0 batch.numDecodes batch.diff
  let perReq := assign b.perReqDecodeLens 0 batch.numDecodes decodeLens
  let prepared := prepareDecodeTensors cfg order batch decodeLens
    { b with decodeLens := decodeLens,perReqDecodeLens := perReq }
  let (translation,blockTable,columns) := translateDecodeTable cfg prepared.batchSize prepared.blockTable
    prepared.buffers.indexerDecodeBlockTable
  let compressed := compressSeqLens cfg batch
    { prepared with buffers := { prepared.buffers with indexerDecodeBlockTable := translation } }
  compressed.map fun (after,seqLens,rows) =>
    (after,⟨seqLens,rows,blockTable,columns,prepared.decodeLens,prepared.batchSize,prepared.requiresPadding,perReq,
      decide (minDecodeLen batch.decodeLens = maxDecodeLen batch.decodeLens),maxDecodeLen batch.decodeLens⟩)

end Build

end Glm5Next.DecodeExpansion
