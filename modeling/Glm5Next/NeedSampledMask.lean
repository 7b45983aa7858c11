import Glm5Next.PpUtils

namespace Glm5Next.NeedSampledMask
open PpUtils

-- What is true of a row whose step produces a sample: `c` tokens are really
-- computed, the mirror overshoots by at most `k` rejected drafts, and the step
-- samples `s` tokens.
structure Sampling (row : BatchRow ReqId) (k c s : Nat) : Prop where
  produces : row.prefillLen ≤ row.numComputedTokens + row.numScheduledTokens
  prefilling : c < row.prefillLen → row.numComputedTokens = c
  lower : row.prefillLen ≤ c → c ≤ row.numComputedTokens
  upper : row.prefillLen ≤ c → row.numComputedTokens ≤ c + k
  sampled : 1 ≤ s ∧ s ≤ k + 1

def totalLen (row : BatchRow ReqId) (c : Nat) : Nat := max c (row.prefillLen - 1) + 1

-- Not finished by length after the step, hence scheduled again.
def Continues (row : BatchRow ReqId) (c s : Nat) : Prop := totalLen row c + s < row.maxSeqLen

def Relayed (batch : InputBatch ReqId) (i : Nat) : Prop :=
  ∃ mask, computeNeedSampledMask batch = some mask ∧ mask[i]? = some true

-- The limit falls between the true length after the step and the mirror.
def LimitInOvershoot (row : BatchRow ReqId) (c s : Nat) : Prop :=
  row.prefillLen ≤ c ∧ c + 1 + s < row.maxSeqLen ∧ row.maxSeqLen ≤ row.numComputedTokens + 1

theorem relayed_exact (found : batch[i]? = some row) (sampling : Sampling row k c s) :
    Relayed batch i ↔ max row.numComputedTokens row.prefillLen + 1 < row.maxSeqLen := by
  unfold Relayed
  rw [mask_row]
  constructor
  · rintro ⟨other,at_i,_,continues⟩
    rw [found] at at_i
    cases at_i
    simpa [notFinishing] using continues
  · intro below
    exact ⟨row,found,by simpa [producesSample] using sampling.produces,by simpa [notFinishing] using below⟩

-- During prefill the mirror is exact, so the mask and the true length agree.
theorem continues_prefilling (sampling : Sampling row k c s) (short : c < row.prefillLen)
    (continues : Continues row c s) : max row.numComputedTokens row.prefillLen + 1 < row.maxSeqLen := by
  have mirror := sampling.prefilling short
  have one := sampling.sampled.1
  simp only [Continues,totalLen] at continues
  omega

theorem continues_decoding (long : row.prefillLen ≤ c) :
    Continues row c s ↔ c + 1 + s < row.maxSeqLen := by
  simp only [Continues,totalLen]
  omega

theorem continuing_row_relayed_exact (batch : InputBatch ReqId) (i k c s : Nat) (row : BatchRow ReqId)
    (found : batch[i]? = some row) (sampling : Sampling row k c s) :
    (Continues row c s → Relayed batch i) ↔ ¬ LimitInOvershoot row c s := by
  rw [relayed_exact found sampling]
  constructor
  · rintro kept ⟨long,continues,reached⟩
    have below := kept ((continues_decoding long).mpr continues)
    omega
  · intro outside continues
    by_cases short : c < row.prefillLen
    · exact continues_prefilling sampling short continues
    · have long : row.prefillLen ≤ c := by omega
      have lower := sampling.lower long
      have room : ¬ row.maxSeqLen ≤ row.numComputedTokens + 1 := fun reached =>
        outside ⟨long,(continues_decoding long).mp continues,reached⟩
      omega

def nearLimit : BatchRow Nat := ⟨0,0,23,4,10,24⟩

theorem nearLimit_sampling : Sampling nearLimit 3 20 1 := by
  constructor <;> decide

theorem continuing_row_relayed_exact_nearLimit :
    (Continues nearLimit 20 1 → Relayed [nearLimit] 0) ↔ ¬ LimitInOvershoot nearLimit 20 1 :=
  continuing_row_relayed_exact [nearLimit] 0 3 20 1 nearLimit rfl nearLimit_sampling

theorem continuing_row_dropped :
    ¬ ∀ (batch : InputBatch Nat) (i k c s : Nat) (row : BatchRow Nat), batch[i]? = some row →
      Sampling row k c s → Continues row c s → Relayed batch i := by
  intro kept
  obtain ⟨mask,computed,_⟩ := kept [nearLimit] 0 3 20 1 nearLimit rfl
    nearLimit_sampling (by unfold Continues totalLen; decide)
  exact absurd computed (by simp [computeNeedSampledMask,producesSample,notFinishing,nearLimit])

end Glm5Next.NeedSampledMask
