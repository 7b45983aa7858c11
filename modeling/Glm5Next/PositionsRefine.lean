import Glm5Next.DraftPositions
import Glm5Next.DraftRollout

-- The positions buffer of the rollout is the one that DraftPositions follows
-- alone, from one proposal to the next.
namespace Glm5Next.PositionsRefine
open GridStores DraftInputs DraftRollout
variable {V M : Type} {o : Outside V M} {reqs : List Request} {t : Target} {z : Sizes}

def Tracks (buffer : Nat → Nat) (mem : Buffers V) : Prop := ∀ i, mem (.positions i) = (buffer i : Int)

structure Same (batch : DraftPositions.TargetBatch) (reqs : List Request) (t : Target) : Prop where
  lens : DraftPositions.queryLens batch = queryLens reqs
  requests : ∀ (r : Nat) (q : Request), reqs[r]? = some q →
    ∃ p, batch.requests[r]? = some p ∧ p.queryLen = q.queryLen ∧ p.numRejected = q.numRejected
  positions : ∀ i, t.positions i = (batch.positions i : Int)

variable {batch : DraftPositions.TargetBatch}

theorem Same.start (same : Same batch reqs t) (r : Nat) : DraftPositions.queryStart batch r = queryStart reqs r := by
  rw [DraftPositions.queryStart,same.lens]
  rfl

theorem Same.counted (same : Same batch reqs t) : batch.requests.length = reqs.length := by
  have lens := congrArg List.length same.lens
  simpa [DraftPositions.queryLens,queryLens] using lens

theorem prepared_tracks (same : Same batch reqs t) (described : Describes reqs t z) (tracks : Tracks buffer mem) :
    Tracks (DraftPositions.preparePrefillInputs batch buffer) (prefillPrepared (V := V) reqs t z mem) := by
  intro i
  by_cases inside : i < (queryLens reqs).sum
  · obtain ⟨r,q,k,found,short,rfl,owner⟩ := owner_inside inside
    obtain ⟨p,listed,length,rejected⟩ := same.requests r q found
    have count : p.queryLen - p.numRejected = q.kept := by rw [length,rejected]; rfl
    by_cases kept : k < q.kept
    · rw [prepared_position described mem found kept,← described.positions r q k found short,same.positions,
        ← same.start,DraftPositions.prepared_kept buffer listed (count ▸ kept)]
    · rw [← same.start,DraftPositions.prepared_rejected buffer listed (by omega) (by omega),same.start,← tracks]
      simp only [prefillPrepared,owner,kept_found found,Nat.add_lt_add_iff_left,kept,and_false,if_false]
  · rw [DraftPositions.preparePrefillInputs,StoreWrites.writes_apart]
    · rw [← tracks i]
      exact if_neg fun both => inside both.1
    · rintro ⟨j,pos⟩ member rfl
      obtain ⟨r,q,k,found,kept,rfl,_⟩ := DraftPositions.copied_member.mp member
      have listed := DraftPositions.lens_found found
      have bounded := Ragged.row_inside listed (show k < q.queryLen by omega) (List.getElem?_eq_some_iff.mp listed).1
      rw [Ragged.start_length] at bounded
      exact inside (same.lens ▸ bounded)

-- The padding takes the position of the first row.
theorem gathered_tracks (same : Same batch reqs t) (described : Describes reqs t z) (out : Output V)
    (fits : batch.prefillRows ≤ z.maxNumReqs) (tracks : Tracks buffer (prefillPrepared reqs t z source)) :
    Tracks (DraftPositions.gatherLast batch buffer) (gathered z (prefillPrepared reqs t z source) batch.prefillRows out) := by
  intro i
  by_cases row : i < batch.prefillRows
  · have last : DraftPositions.lastTokenIndex batch i = lastTokenIndex (prefillPrepared reqs t z source) i := by
      by_cases own : i < z.numReqs
      · obtain ⟨q,found⟩ := request_found described own
        obtain ⟨p,listed,length,rejected⟩ := same.requests i q found
        simp only [DraftPositions.lastTokenIndex,listed,same.start,length,rejected,last_index source described found]
        rfl
      · have past : batch.requests[i]? = none := by
          rw [List.getElem?_eq_none_iff,same.counted,← described.counted]
          exact Nat.le_of_not_lt own
        have padded : i < z.maxNumReqs := Nat.lt_of_lt_of_le row fits
        simp only [DraftPositions.lastTokenIndex,past,lastTokenIndex,prefillPrepared,own,padded,if_false,if_true,
          Int.toNat_zero]
    rw [DraftPositions.gatherLast,if_pos row,last,← tracks]
    exact if_pos row
  · rw [DraftPositions.gatherLast,if_neg row,← tracks]
    exact if_neg row

theorem clamp_cast {maxModelLen : Nat} (positive : 0 < maxModelLen) (position : Nat) :
    min ((position : Int) + 1) ((maxModelLen : Int) - 1) = ((min (position + 1) (maxModelLen - 1) : Nat) : Int) := by
  omega

variable {cfg : DraftPositions.Config}

theorem advanced_tracks {rows : Nat} {buffer : Nat → Nat} {mem mem' : Buffers V} (positive : 0 < cfg.maxModelLen)
    (tracks : Tracks buffer mem) (advanced : ∀ i, mem' (.positions i) =
      if cfg.advanceDraftPositions = true ∧ i < rows then
        min ((mem (.positions i) : Int) + 1) ((cfg.maxModelLen : Int) - 1) else mem (.positions i)) :
    Tracks (DraftPositions.advance cfg rows buffer) mem' := by
  intro i
  have before := tracks i
  rw [advanced i,DraftPositions.advance]
  split
  · rw [before]
    exact clamp_cast positive (buffer i)
  · exact before

structure Configured (z : Sizes) (cfg : DraftPositions.Config) : Prop where
  maxLen : z.maxModelLen = cfg.maxModelLen
  steps : z.numSpeculativeSteps = cfg.numSpeculativeSteps
  advances : z.advanceDraftPositions = cfg.advanceDraftPositions

theorem turn_tracks {s next : State V M} (positive : 0 < cfg.maxModelLen) (configured : Configured z cfg)
    (inside : step < cfg.numSpeculativeSteps) (tracks : Tracks buffer s.mem) (metadata : Option M)
    (turned : next.mem = (generateDraft o z desc ⟨setStep step s.mem,s.calls,metadata⟩).mem) :
    Tracks (if step ≥ cfg.numSpeculativeSteps - 1 then buffer
      else DraftPositions.advance cfg desc.numReqs buffer) next.mem := by
  rw [turned,generate_exact (o := o) {s with attnMetadata := metadata} (configured.steps ▸ inside),← configured.steps]
  split
  · rename_i last
    intro i
    rw [← tracks i]
    exact if_neg fun both => Nat.not_lt.mpr last both.1.1
  · rename_i more
    have more : step < z.numSpeculativeSteps - 1 := Nat.lt_of_not_le more
    apply advanced_tracks positive tracks
    intro i
    rw [← configured.advances,← configured.maxLen]
    simp only [updated,setStep,more,true_and]

theorem turns_track {desc : BatchDesc} (turn : State V M → Nat → State V M) (steps : List Nat) (s : State V M)
    (inside : ∀ step ∈ steps, step < cfg.numSpeculativeSteps)
    (turned : ∀ s step, step < cfg.numSpeculativeSteps → ∀ buffer, Tracks buffer s.mem →
      Tracks (if step ≥ cfg.numSpeculativeSteps - 1 then buffer
        else DraftPositions.advance cfg desc.numReqs buffer) (turn s step).mem)
    (tracks : Tracks buffer s.mem) :
    Tracks (steps.foldl (fun buffer step => if step ≥ cfg.numSpeculativeSteps - 1 then buffer
      else DraftPositions.advance cfg desc.numReqs buffer) buffer) (steps.foldl turn s).mem := by
  induction steps generalizing s buffer with
  | nil => exact tracks
  | cons step steps ih =>
      exact ih _ (fun other member => inside other (List.mem_cons_of_mem _ member))
        (turned s step (inside step (by simp)) buffer tracks)

-- The batch that DraftPositions takes for a plan's padded batches.
structure Padded (plan : Plan) (z : Sizes) (batch : DraftPositions.TargetBatch) : Prop where
  prefill : plan.prefillDesc.numReqs = batch.prefillRows
  decode : plan.decodeDesc.numReqs = batch.graphRows
  fits : plan.prefillDesc.numReqs ≤ z.maxNumReqs

theorem positions_refine (same : Same batch reqs t) (described : Describes reqs t z) (plan : Plan)
    (padded : Padded plan z batch) (positive : 0 < cfg.maxModelLen) (configured : Configured z cfg)
    (targetHidden : Nat → Nat → V) (mem : Buffers V) (tracks : Tracks buffer mem) :
    Tracks (DraftPositions.propose batch cfg buffer) (propose o t z plan targetHidden mem).mem := by
  have copied : Tracks buffer (copyHidden z plan.numTokensPadded targetHidden mem) := tracks
  have launched := prepared_tracks (z := z) same described copied
  unfold propose DraftPositions.propose
  dsimp only
  rw [prefill_exact described _ _ (o.all _ _),← configured.steps]
  generalize filled : prefill o z plan.prefillDesc _ = s
  have gathered : Tracks (DraftPositions.gatherLast batch (DraftPositions.preparePrefillInputs batch buffer)) s.mem := by
    subst filled
    unfold prefill
    dsimp only
    rw [padded.prefill]
    exact gathered_tracks same described _ (padded.prefill ▸ padded.fits) launched
  split
  · exact gathered
  · rw [decode_exact _ _ (o.all _ _)]
    have started : Tracks (DraftPositions.advance cfg batch.requests.length
        (DraftPositions.gatherLast batch (DraftPositions.preparePrefillInputs batch buffer))) (decodePrepared t z s.mem) := by
      apply advanced_tracks positive gathered
      intro i
      rw [same.counted,← described.counted,← configured.advances,← configured.maxLen]
      rfl
    have steps : ∀ step ∈ List.range' 1 (cfg.numSpeculativeSteps - 1), step < cfg.numSpeculativeSteps := by
      intro step listed
      have bound := List.mem_range'_1.mp listed
      omega
    rw [← padded.decode,configured.steps]
    split
    · unfold fusedMultiStepDecode
      rw [configured.steps]
      apply turns_track _ _ _ steps
      · intro s step inside buffer tracks
        apply turn_tracks (o := o) positive configured inside tracks s.attnMetadata
        unfold fusedTurn
        dsimp only
        split <;> rfl
      · split
        · exact started
        · exact started
    · unfold multiStepDecode
      rw [configured.steps]
      apply turns_track _ _ _ steps
      · intro s step inside buffer tracks
        exact turn_tracks (o := o) positive configured inside tracks _
          (congrArg State.mem (plain_turn plan.skipAttn s step))
      · exact started

structure Proposal (V M : Type) (cfg : DraftPositions.Config) where
  o : Outside V M
  reqs : List Request
  t : Target
  z : Sizes
  plan : Plan
  targetHidden : Nat → Nat → V
  batch : DraftPositions.TargetBatch
  same : Same batch reqs t
  described : Describes reqs t z
  configured : Configured z cfg
  padded : Padded plan z batch

def proposals (mem : Buffers V) (calls : List (Proposal V M cfg)) : Buffers V :=
  calls.foldl (fun mem p => (propose p.o p.t p.z p.plan p.targetHidden mem).mem) mem

-- Over any proposals, one after the other on the same buffers.
theorem proposals_refine (positive : 0 < cfg.maxModelLen) (calls : List (Proposal V M cfg)) (buffer : Nat → Nat)
    (mem : Buffers V) (tracks : Tracks buffer mem) :
    Tracks (DraftPositions.afterProposals cfg buffer (calls.map Proposal.batch)) (proposals mem calls) := by
  induction calls generalizing buffer mem with
  | nil => exact tracks
  | cons p calls ih =>
      exact ih _ _ (positions_refine (o := p.o) p.same p.described p.plan p.padded positive p.configured p.targetHidden
        mem tracks)

theorem sample_rows : [0,0].length ≤ 4 := by decide

def sampleBatch : DraftPositions.TargetBatch where
  requests := [⟨2,1,6,sample_refused⟩,⟨1,0,7,sample_plain⟩]
  numDecodes := 2
  positions := fun i => if i < 2 then 5 + i else 0
  prefillRows := 4
  graphRows := 4
  prefillCovers := sample_rows
  covers := sample_rows

theorem sample_same : Same sampleBatch sampleRequests sampleTarget := by
  constructor
  · rfl
  · rintro (_ | _ | r) q found
    · cases found
      exact ⟨_,rfl,rfl,rfl⟩
    · cases found
      exact ⟨_,rfl,rfl,rfl⟩
    · simp [sampleRequests] at found
  · intro i
    simp only [sampleTarget,sampleBatch]
    split <;> simp

theorem sample_configured : Configured sampleSizes ⟨16,8,3,true⟩ := ⟨rfl,rfl,rfl⟩

def graphPlan : Plan := {samplePlan with prefillDesc := ⟨4,3⟩}

theorem graph_padded : Padded graphPlan sampleSizes sampleBatch := ⟨rfl,rfl,Nat.le_refl 4⟩

def sampleProposal : Proposal Int Unit ⟨16,8,3,true⟩ where
  o := sampleOutside
  reqs := sampleRequests
  t := sampleTarget
  z := sampleSizes
  plan := graphPlan
  targetHidden := fun i _ => i
  batch := sampleBatch
  same := sample_same
  described := sample_described
  configured := sample_configured
  padded := graph_padded

-- Row 3 belongs to no request; either proposal sets it to the position of row 0
-- and moves it on.
theorem proposals_refine_twice : proposals zeroed [sampleProposal,sampleProposal] (.positions 3) = (6 : Int) := by
  have tracks : Tracks (fun _ => 0) zeroed := fun _ => rfl
  have positive : 0 < 8 := by decide
  have refined := proposals_refine positive [sampleProposal,sampleProposal] _ _ tracks 3
  exact refined.trans (by decide)

end Glm5Next.PositionsRefine
