import Glm5Next.AppliedRows
import Glm5Next.MambaAlign
import Glm5Next.PointUpdates

namespace Glm5Next.AlignKernels
open PpUtils WorkerLoop AppliedRows MambaAlign PointUpdates

-- One (layer, state type) pair: its cache group and the conv width, zero for a
-- temporal state.
structure StateInfo where
  group : Nat
  convWidth : Nat
  deriving DecidableEq, Repr

-- maxBlocks is the stride of the per-slot block tables. The running column of
-- a new request is counted in blocks of the cache.
structure AlignConfig where
  blockSize : Nat
  cacheBlockSize : Nat
  maxBlocks : Nat
  numSpeculativeBlocks : Nat
  states : List StateInfo
  block_pos : 0 < blockSize
  block_same : cacheBlockSize = blockSize

-- The block tables and the computed counts belong to code that is not in the
-- repository. `entry` reads the flat table of a group at an address.
structure Upstream (T : Type) where
  entry : T → Nat → Int → Nat
  numBlocks : T → Nat → Nat → Nat
  appendBlockIds : T → Nat → List (List Nat) → Bool → T
  postUpdate : Nat → Int → Option Nat → Nat
  postUpdateNumComputedTokens : Nat → Nat → Nat

-- An append touches the row of its slot, and keeps what the row holds unless
-- it overwrites. The counts advance by the query length less the rejected.
structure Upstream.Documented (up : Upstream T) : Prop where
  append_other : ∀ tables slot ids overwrite group other, slot ≠ other →
    up.numBlocks (up.appendBlockIds tables slot ids overwrite) group other = up.numBlocks tables group other
  append_grows : ∀ tables slot ids group,
    up.numBlocks tables group slot ≤ up.numBlocks (up.appendBlockIds tables slot ids false) group slot
  post_update : ∀ (count rejected : Nat) (query : Option Nat),
    up.postUpdate count rejected query = count + query.getD 0 - rejected
  post_num_computed : ∀ count query, up.postUpdateNumComputedTokens count query = count + query

structure Memory (T V : Type) where
  align : Nat → AlignState
  numComputed : Nat → Nat
  tables : T
  -- The contents of a block of a state, by state and block id.
  blocks : Nat → Nat → Nat → V
  -- Whether the layout of the states was captured.
  isInitialized : Bool

structure RowCopy where
  row : Nat
  slot : Nat
  columns : Copy
  deriving DecidableEq, Repr

-- One launch of a copy kernel, for statements about a whole run.
structure Launch (T V : Type) where
  idxMapping : List Int
  copies : List RowCopy
  before : Memory T V
  after : Memory T V

structure AlignDevice (T V : Type) where
  mem : Memory T V
  launches : List (Launch T V)

section Kernels
variable {T V : Type} (ac : AlignConfig) (up : Upstream T)

def blockTableBase (slot : Nat) : Int := slot * ac.maxBlocks

def sourceColumn (state : StateInfo) (copy : Copy) : Int :=
  if state.convWidth > 0 then copy.srcCol else copy.srcCol + copy.tokenBias

-- The table addresses one program of a copy kernel dereferences.
def addresses (state : StateInfo) (copy : RowCopy) : List Int :=
  [blockTableBase ac copy.slot + copy.columns.dstCol,
    blockTableBase ac copy.slot + sourceColumn state copy.columns]

def copyBlock (state : StateInfo) (tokenBias : Int) (src dst : Nat → V) : Nat → V :=
  if state.convWidth > 0 then
    fun i => if i < state.convWidth - tokenBias.toNat then src (i + tokenBias.toNat) else dst i
  else src

def copyMambaStateBlock (tables : T) (copy : RowCopy) (blocks : Nat → Nat → Nat → V) (state : StateInfo × Nat) :
    Nat → Nat → Nat → V :=
  let base := blockTableBase ac copy.slot
  let destBlockId := up.entry tables state.1.group (base + copy.columns.dstCol)
  let srcBlockId := up.entry tables state.1.group (base + sourceColumn state.1 copy.columns)
  fun s id =>
    if s = state.2 ∧ id = destBlockId then
      copyBlock state.1 copy.columns.tokenBias (blocks s srcBlockId) (blocks s destBlockId)
    else blocks s id

def copyRow (tables : T) (blocks : Nat → Nat → Nat → V) (copy : RowCopy) : Nat → Nat → Nat → V :=
  ac.states.zipIdx.foldl (copyMambaStateBlock ac up tables copy) blocks

def rowCopies (copies : Nat → Option Copy) (idxMapping : List Int) : List RowCopy :=
  (validRows idxMapping).filterMap fun target => (copies target.1).map fun copy => ⟨target.2,target.1,copy⟩

def launch (d : AlignDevice T V) (idxMapping : List Int) (copies : Nat → Option Copy) (align : Nat → AlignState) :
    AlignDevice T V :=
  let rows := rowCopies copies idxMapping
  let after := { d.mem with align := align,blocks := rows.foldl (copyRow ac up d.mem.tables) d.mem.blocks }
  ⟨after,d.launches ++ [⟨idxMapping,rows,d.mem,after⟩]⟩

def batchMapping (batch : InputBatch ReqId) : List Int := batch.map fun row => (row.idxMapping : Int)

def queryRows (batch : InputBatch ReqId) : List (Nat × Nat) :=
  batch.map fun row => (row.idxMapping,row.numScheduledTokens)

def advanceAlign (mem : Memory T V) (batch : InputBatch ReqId) : Nat → AlignState :=
  modifies (fun slot queryLen a => preprocessMambaAlign ac.blockSize (mem.numComputed slot + queryLen) a) mem.align
    (queryRows batch)

def scatterAlign (align : Nat → AlignState) (idxMapping : List Int) (numSampled : Nat → Int) : Nat → AlignState :=
  modifies (fun _ row a => scatterNumAccepted (numSampled row).toNat a) align (validRows idxMapping)

-- The writes of the postprocess kernel, whose programs read a snapshot.
def settleAlign (mem : Memory T V) (idxMapping : List Int) : Nat → AlignState :=
  modifies (fun slot _ _ => (postprocessMamba ac.blockSize (mem.numComputed slot) (mem.align slot)).1) mem.align
    (validRows idxMapping)

def AlignDevice.withAlign (d : AlignDevice T V) (align : Nat → AlignState) : AlignDevice T V :=
  { d with mem := { d.mem with align := align } }

def AlignDevice.withComputed (d : AlignDevice T V) (numComputed : Nat → Nat) : AlignDevice T V :=
  { d with mem := { d.mem with numComputed := numComputed } }

def AlignDevice.withTables (d : AlignDevice T V) (tables : T) : AlignDevice T V :=
  { d with mem := { d.mem with tables := tables } }

def preprocessState (d : AlignDevice T V) (batch : InputBatch ReqId) : AlignDevice T V :=
  if batch.isEmpty then d
  else
    let align := advanceAlign ac d.mem batch
    let d := { d with mem := { d.mem with align := align,isInitialized := true } }
    launch ac up d (batchMapping batch) (fun slot => precopyMambaAlign (align slot)) align

def postprocessState (d : AlignDevice T V) (idxMapping : List Int) (numSampled : Nat → Int) : AlignDevice T V :=
  if idxMapping.isEmpty then d
  else
    let d := d.withAlign (scatterAlign d.mem.align idxMapping numSampled)
    if d.mem.isInitialized then
      launch ac up d idxMapping
        (fun slot => (postprocessMamba ac.blockSize (d.mem.numComputed slot) (d.mem.align slot)).2)
        (settleAlign ac d.mem idxMapping)
    else d

def fillNumAccepted (count : Nat) (a : AlignState) : AlignState := { a with numAccepted := count }

-- The forward writes blocks as it likes.
def alignDevice (forward : (Nat → Nat → Nat → V) → InputBatch ReqId → Nat → Nat → Nat → V) :
    Device ReqId (AlignDevice T V) where
  addRequest d slot new :=
    ((d.withAlign (modify d.mem.align slot (addRequest ac.cacheBlockSize new.numComputedTokens))).withComputed
      (modify d.mem.numComputed slot fun _ => new.numComputedTokens)).withTables
        (up.appendBlockIds d.mem.tables slot new.blockIds true)
  appendBlockIds d slot blockIds := d.withTables (up.appendBlockIds d.mem.tables slot blockIds false)
  preprocessState := preprocessState ac up
  forward d batch := { d with mem := { d.mem with blocks := forward d.mem.blocks batch } }
  postprocessNumComputedTokens d batch := d.withComputed
    (modifies (fun _ queryLen count => up.postUpdateNumComputedTokens count queryLen) d.mem.numComputed (queryRows batch))
  postUpdateRow d slot _ _ numRejected queryLen := d.withComputed
    (modify d.mem.numComputed slot fun count => up.postUpdate count numRejected queryLen)
  postprocessState := postprocessState ac up
  resetAccepted d idxMapping := d.withAlign
    (modifies (fun _ _ a => fillNumAccepted (max 0 1) a) d.mem.align (validRows idxMapping))

end Kernels

end Glm5Next.AlignKernels
