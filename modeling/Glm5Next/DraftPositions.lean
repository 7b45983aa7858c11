import Glm5Next.KpoolWritePhase

namespace Glm5Next.DraftPositions
open KpoolCompress CacheRegions TailSlots StoreWrites
open KpoolWritePhase (seedEffect)

structure Request where
  queryLen : Nat
  numRejected : Nat
  tailBlock : Nat
  accepted : numRejected < queryLen

-- The target's batch as propose gets it, decode requests first; a replayed graph
-- of the draft prefill or of a decode step also takes the padding behind them.
structure TargetBatch where
  requests : List Request
  numDecodes : Nat
  positions : Nat → Nat
  prefillRows : Nat
  graphRows : Nat
  prefillCovers : requests.length ≤ prefillRows
  covers : requests.length ≤ graphRows

structure Config where
  poolSize : Nat
  maxModelLen : Nat
  numSpeculativeSteps : Nat
  advanceDraftPositions : Bool

section Proposer
variable (batch : TargetBatch)

def queryLens : List Nat := batch.requests.map Request.queryLen

def queryStart (r : Nat) : Nat := Ragged.start (queryLens batch) r

def decodeLens : List Nat := (queryLens batch).take batch.numDecodes

def numTokens : Nat := (queryLens batch).sum

def numDecodeTokens : Nat := (decodeLens batch).sum

-- Only the rows of tokens that were not rejected get the target's positions.
def copiedPositions : List (Nat × Nat) :=
  batch.requests.zipIdx.flatMap fun (q,r) => (List.range (q.queryLen - q.numRejected)).map fun k =>
    (queryStart batch r + k,batch.positions (queryStart batch r + k))

def preparePrefillInputs (buffer : Nat → Nat) : Nat → Nat := writes buffer (copiedPositions batch)

-- 0 in the padding.
def lastTokenIndex (r : Nat) : Nat :=
  match batch.requests[r]? with
  | some q => queryStart batch r + (q.queryLen - q.numRejected) - 1
  | none => 0

-- positions[:num_reqs] = positions[last_token_indices] at the end of _prefill.
def gatherLast (buffer : Nat → Nat) : Nat → Nat := fun i =>
  if i < batch.prefillRows then buffer (lastTokenIndex batch i) else buffer i

def advance (cfg : Config) (rows : Nat) (buffer : Nat → Nat) : Nat → Nat := fun i =>
  if cfg.advanceDraftPositions = true ∧ i < rows then min (buffer i + 1) (cfg.maxModelLen - 1) else buffer i

def propose (cfg : Config) (buffer : Nat → Nat) : Nat → Nat :=
  let gathered := gatherLast batch (preparePrefillInputs batch buffer)
  if cfg.numSpeculativeSteps = 1 then gathered
  else
    (List.range' 1 (cfg.numSpeculativeSteps - 1)).foldl (fun buffer step =>
        if step ≥ cfg.numSpeculativeSteps - 1 then buffer else advance cfg batch.graphRows buffer)
      (advance cfg batch.requests.length gathered)

def afterProposals (cfg : Config) (buffer : Nat → Nat) (batches : List TargetBatch) : Nat → Nat :=
  batches.foldl (fun buffer batch => propose batch cfg buffer) buffer

-- The draft prefill takes the target's metadata and the speculator's positions.
def tailBlockOf (r : Nat) : Nat := (batch.requests[r]?.map Request.tailBlock).getD 0

def tailCommon : CommonAttentionMetadata := packed (queryLens batch) (tailBlockOf batch) batch.positions

variable {B S : Type} (poolSize : Nat) (slotMapping : Nat → Int) (rows : Nat → Row B) (zero : Row B) (buffer : Nat → Nat)

def prefillToken (i : Nat) : Token B :=
  let j := numDecodeTokens batch + i
  ⟨slotMapping j,buffer j,(build (.init poolSize) (tailCommon batch)).2.slotMapping.getD j (-1),rows j⟩

def grid (cell : Nat × Nat) : Token B :=
  ⟨groupTokens (decodeLens batch) (numDecodeTokens batch) slotMapping (-1) cell,
    groupTokens (decodeLens batch) (numDecodeTokens batch) (fun i => (buffer i : Int)) (-1) cell,
    decTailSlot poolSize (firstColumn (tailCommon batch)) (decodeLens batch) (numDecodeTokens batch) buffer cell,
    groupTokens (decodeLens batch) (numDecodeTokens batch) rows zero cell⟩

-- Where a program stashes its token in the tail cache, if it does.
def stashPlace : Effect B S → Option Nat
  | .seed place _ => some place
  | .token token => if token.pos ≥ 0 ∧ token.tailSlot ≥ 0 then some (place poolSize token) else none
  | _ => none

def ringPlace (q : Request) (pos : Nat) : Nat := q.tailBlock * poolSize + pos % poolSize

-- Every row that the draft prefill stashes goes to its own target position's
-- slot in its own request's ring.
structure Placed : Prop where
  decode : ∀ r q k place, r < batch.numDecodes → batch.requests[r]? = some q →
    k < gridWidth (decodeLens batch) (numDecodeTokens batch) →
    stashPlace (S := S) poolSize (.token (grid batch poolSize slotMapping rows zero buffer (r,k))) = some place →
    k < q.queryLen ∧ place = ringPlace poolSize q (batch.positions (queryStart batch r + k))
  prefill : ∀ r q k place, batch.numDecodes ≤ r → batch.requests[r]? = some q → k < q.queryLen →
    stashPlace (S := S) poolSize (seedEffect poolSize (prefillToken batch poolSize slotMapping rows buffer)
      (numTokens batch - numDecodeTokens batch) (queryStart batch r + k - numDecodeTokens batch)) = some place →
    place = ringPlace poolSize q (batch.positions (queryStart batch r + k))

-- The rows of rejected tokens hold, up to a pool, the right position already.
def Fresh : Prop :=
  ∀ r q k, r < batch.numDecodes → batch.requests[r]? = some q → q.queryLen - q.numRejected ≤ k → k < q.queryLen →
    buffer (queryStart batch r + k) % poolSize = batch.positions (queryStart batch r + k) % poolSize

variable {batch poolSize} {q : Request} {r k : Nat}

theorem lens_found (found : batch.requests[r]? = some q) : (queryLens batch)[r]? = some q.queryLen := by
  rw [queryLens,List.getElem?_map,found]
  rfl

theorem decode_found (found : batch.requests[r]? = some q) (decode : r < batch.numDecodes) :
    (decodeLens batch)[r]? = some q.queryLen := by
  rw [decodeLens,List.getElem?_take_of_lt decode,lens_found found]

theorem decode_start (decode : r < batch.numDecodes) :
    Ragged.start (decodeLens batch) r = queryStart batch r := Ragged.start_take _ _ (Nat.le_of_lt decode)

theorem block_exact (found : batch.requests[r]? = some q) : tailBlockOf batch r = q.tailBlock := by
  rw [tailBlockOf,found]
  rfl

theorem copied_member : (i,pos) ∈ copiedPositions batch ↔
    ∃ r q k, batch.requests[r]? = some q ∧ k < q.queryLen - q.numRejected ∧ i = queryStart batch r + k ∧
      pos = batch.positions i := by
  unfold copiedPositions
  rw [List.mem_flatMap]
  constructor
  · rintro ⟨⟨q,r⟩,listed,member⟩
    obtain ⟨k,inside,same⟩ := List.mem_map.mp member
    cases same
    exact ⟨r,q,k,List.mem_zipIdx_iff_getElem?.mp listed,List.mem_range.mp inside,rfl,rfl⟩
  · rintro ⟨r,q,k,found,inside,rfl,rfl⟩
    exact ⟨(q,r),List.mem_zipIdx_iff_getElem?.mpr found,List.mem_map.mpr ⟨k,List.mem_range.mpr inside,rfl⟩⟩

-- A kept token's row is refreshed, a rejected token's row keeps what it had.
theorem prepared_kept (found : batch.requests[r]? = some q) (kept : k < q.queryLen - q.numRejected) :
    preparePrefillInputs batch buffer (queryStart batch r + k) = batch.positions (queryStart batch r + k) := by
  apply writes_exact
  · exact copied_member.mpr ⟨r,q,k,found,kept,rfl,rfl⟩
  · rintro ⟨i,pos⟩ member rfl
    obtain ⟨_,_,_,_,_,_,value⟩ := copied_member.mp member
    exact value

theorem prepared_rejected (found : batch.requests[r]? = some q) (rejected : q.queryLen - q.numRejected ≤ k)
    (inside : k < q.queryLen) :
    preparePrefillInputs batch buffer (queryStart batch r + k) = buffer (queryStart batch r + k) := by
  apply writes_apart
  rintro ⟨i,pos⟩ member same
  obtain ⟨r',q',k',found',kept,flat,_⟩ := copied_member.mp member
  obtain ⟨rfl,rfl⟩ := Ragged.locate_unique (lens_found found') (show k' < q'.queryLen by omega) (lens_found found) inside
    (flat.symm.trans same)
  rw [found] at found'
  cases found'
  omega

theorem grid_stash (positive : 0 < poolSize) (found : batch.requests[r]? = some q) (decode : r < batch.numDecodes)
    (inside : k < q.queryLen) :
    stashPlace (S := S) poolSize (.token (grid batch poolSize slotMapping rows zero buffer (r,k))) =
      some (ringPlace poolSize q (buffer (queryStart batch r + k))) := by
  have listed := decode_found found decode
  have pos : (grid batch poolSize slotMapping rows zero buffer (r,k)).pos = (buffer (queryStart batch r + k) : Int) := by
    unfold grid numDecodeTokens
    dsimp only
    rw [group_exact _ _ listed inside,decode_start decode]
  have tail : (grid batch poolSize slotMapping rows zero buffer (r,k)).tailSlot =
      ((q.tailBlock * poolSize + buffer (queryStart batch r + k) % poolSize : Nat) : Int) := by
    unfold grid numDecodeTokens tailCommon
    dsimp only
    rw [dec_tail_exact poolSize _ _ listed inside,packed_block _ _ (lens_found found),block_exact found,
      decode_start decode]
  rw [stashPlace,place,pos,tail,if_pos ⟨Int.natCast_nonneg _,Int.natCast_nonneg _⟩,Int.toNat_natCast,Int.toNat_natCast,
    Ragged.grid_row (Nat.mod_lt _ positive)]
  rfl

theorem pad_stash (found : batch.requests[r]? = some q) (decode : r < batch.numDecodes) (past : q.queryLen ≤ k)
    (wide : k < gridWidth (decodeLens batch) (numDecodeTokens batch)) :
    stashPlace (S := S) poolSize (.token (grid batch poolSize slotMapping rows zero buffer (r,k))) = none := by
  have pos : (grid batch poolSize slotMapping rows zero buffer (r,k)).pos = -1 := by
    unfold grid numDecodeTokens
    exact group_pad _ _ (decode_found found decode) past wide
  rw [stashPlace,pos]
  exact if_neg fun both => absurd both.1 (by decide)

-- The prefill rows follow the target's slot mapping, not the buffer.
theorem prefill_stash (found : batch.requests[r]? = some q) (prefill : batch.numDecodes ≤ r) (inside : k < q.queryLen)
    (stored : stashPlace (S := S) poolSize (seedEffect poolSize (prefillToken batch poolSize slotMapping rows buffer) n
      (queryStart batch r + k - numDecodeTokens batch)) = some spot) :
    spot = ringPlace poolSize q (batch.positions (queryStart batch r + k)) := by
  have after : numDecodeTokens batch ≤ queryStart batch r := Ragged.start_le _ prefill
  have tail : (prefillToken batch poolSize slotMapping rows buffer
      (queryStart batch r + k - numDecodeTokens batch)).tailSlot =
        ((q.tailBlock * poolSize + batch.positions (queryStart batch r + k) % poolSize : Nat) : Int) := by
    unfold prefillToken tailCommon
    dsimp only
    rw [Nat.add_sub_cancel' (by omega),queryStart,packed_slot _ _ _ (lens_found found) inside,block_exact found]
    rfl
  unfold seedEffect at stored
  dsimp only at stored
  rw [tail] at stored
  generalize (if queryStart batch r + k - numDecodeTokens batch + poolSize < n then _ else (-1 : Int)) = ahead at stored
  split at stored
  · cases stored
  · rw [stashPlace,Int.mul_comm,Int.mul_ediv_add_emod,Int.toNat_natCast] at stored
    exact (Option.some.inj stored).symm

end Proposer

-- After any proposals: the rows of the next draft prefill are stashed at their
-- target positions exactly when the buffer is right at the rejected rows.
theorem draft_stashes_exact {B S : Type} (cfg : Config) (positive : 0 < cfg.poolSize) (start : Nat → Nat)
    (batches : List TargetBatch) (batch : TargetBatch) (slotMapping : Nat → Int) (rows : Nat → Row B) (zero : Row B) :
    let buffer := afterProposals cfg start batches
    Placed (S := S) batch cfg.poolSize slotMapping rows zero (preparePrefillInputs batch buffer) ↔
      Fresh batch cfg.poolSize buffer := by
  intro buffer
  constructor
  · intro placed r q k decode found rejected inside
    have wide : k < gridWidth (decodeLens batch) (numDecodeTokens batch) :=
      Nat.lt_of_lt_of_le inside (grid_wide (decode_found found decode))
    have stored := grid_stash (S := S) slotMapping rows zero (preparePrefillInputs batch buffer) positive found decode
      inside
    obtain ⟨_,same⟩ := placed.decode r q k _ decode found wide stored
    rw [prepared_rejected buffer found rejected inside] at same
    exact Nat.add_left_cancel same
  · intro fresh
    constructor
    · intro r q k place decode found wide stored
      by_cases inside : k < q.queryLen
      · rw [grid_stash slotMapping rows zero _ positive found decode inside] at stored
        refine ⟨inside,(Option.some.inj stored).symm.trans ?_⟩
        by_cases kept : k < q.queryLen - q.numRejected
        · rw [prepared_kept buffer found kept]
        · rw [prepared_rejected buffer found (Nat.le_of_not_lt kept) inside]
          exact congrArg (q.tailBlock * cfg.poolSize + ·) (fresh r q k decode found (Nat.le_of_not_lt kept) inside)
      · rw [pad_stash slotMapping rows zero _ found decode (Nat.le_of_not_lt inside) wide] at stored
        cases stored
    · intro r q k place prefill found inside stored
      exact prefill_stash slotMapping rows _ found prefill inside stored

def verifyBatch (position numRejected : Nat) (accepted : numRejected < 2) : TargetBatch where
  requests := [⟨2,numRejected,6,accepted⟩]
  numDecodes := 1
  positions := fun i => position + i
  prefillRows := 1
  graphRows := 1
  prefillCovers := Nat.le_refl 1
  covers := Nat.le_refl 1

def pools16 : Config := ⟨16,1024,1,true⟩

theorem draft_stashes_exact_accepted :
    Placed (B := Int) (S := Int) (verifyBatch 8 0 (by decide)) 16 (fun _ => -1) (fun _ => ⟨[],[]⟩) ⟨[],[]⟩
      (preparePrefillInputs (verifyBatch 8 0 (by decide)) (afterProposals pools16 (fun _ => 0) [])) := by
  apply (draft_stashes_exact pools16 (by decide) (fun _ => 0) [] (verifyBatch 8 0 (by decide)) _ _ _).mpr
  intro r q k decode found rejected inside
  obtain rfl : r = 0 := Nat.lt_one_iff.mp decode
  cases found
  exact absurd inside (Nat.not_lt.mpr rejected)

-- The rejected draft at position 11 goes to the ring slot of the kept token at 9.
theorem rejected_draft_misplaced :
    ringPlace 16 ⟨2,1,6,by decide⟩ 9 ≠ ringPlace 16 ⟨2,1,6,by decide⟩ 11 ∧
    stashPlace (S := Int) 16 (.token (grid (B := Int) (verifyBatch 10 1 (by decide)) 16 (fun _ => -1)
      (fun _ => ⟨[],[]⟩) ⟨[],[]⟩ (preparePrefillInputs (verifyBatch 10 1 (by decide))
        (afterProposals pools16 (fun _ => 0) [verifyBatch 8 0 (by decide)])) (0,1))) =
      some (ringPlace 16 ⟨2,1,6,by decide⟩ 9) ∧
    ¬ Placed (B := Int) (S := Int) (verifyBatch 10 1 (by decide)) 16 (fun _ => -1) (fun _ => ⟨[],[]⟩) ⟨[],[]⟩
      (preparePrefillInputs (verifyBatch 10 1 (by decide))
        (afterProposals pools16 (fun _ => 0) [verifyBatch 8 0 (by decide)])) := by
  have stashed : stashPlace (S := Int) 16 (.token (grid (B := Int) (verifyBatch 10 1 (by decide)) 16 (fun _ => -1)
      (fun _ => ⟨[],[]⟩) ⟨[],[]⟩ (preparePrefillInputs (verifyBatch 10 1 (by decide))
        (afterProposals pools16 (fun _ => 0) [verifyBatch 8 0 (by decide)])) (0,1))) =
      some (ringPlace 16 ⟨2,1,6,by decide⟩ 9) := by decide
  refine ⟨by decide,stashed,?_⟩
  intro placed
  have place := (placed.decode 0 _ 1 _ (by decide) rfl (by decide) stashed).2
  revert place
  decide

end Glm5Next.DraftPositions
