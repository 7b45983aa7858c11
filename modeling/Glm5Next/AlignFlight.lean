import Glm5Next.DeferredResults
import Glm5Next.AlignSeats

namespace Glm5Next.AlignFlight
open PpUtils WorkerLoop AppliedRows DeferredResults AlignKernels AlignColumns AlignSeats
variable {ReqId : Type} {cfg : Config}

def batchTokens (batch : InputBatch ReqId) (slot : Nat) : Nat :=
  (batch.map fun row => if row.idxMapping = slot then row.numScheduledTokens else 0).sum

-- The tokens of a slot that ran in the last `steps` steps and since the slot
-- was freed last. The history is read from its end.
def inFlight : Nat → List (StepRecord ReqId) → Nat → Nat
  | 0,_,_ => 0
  | _ + 1,[],_ => 0
  | steps + 1,record :: older,slot =>
    record.batch.elim 0 (fun batch => batchTokens batch slot) +
      keepUnless record.freed (inFlight steps older) slot

theorem batch_tokens_apart (batch : InputBatch ReqId) (apart : slot ∉ batch.map BatchRow.idxMapping) :
    batchTokens batch slot = 0 := by
  induction batch with
  | nil => rfl
  | cons row rest ih =>
      rw [List.map_cons,List.mem_cons,not_or] at apart
      rw [batchTokens,List.map_cons,List.sum_cons,if_neg (Ne.symm apart.1),Nat.zero_add]
      exact ih apart.2

theorem batch_tokens_le (batch : InputBatch ReqId) (member : entry ∈ batch) :
    entry.numScheduledTokens ≤ batchTokens batch entry.idxMapping := by
  induction batch with
  | nil => cases member
  | cons row rest ih =>
      rw [batchTokens,List.map_cons,List.sum_cons]
      rcases List.mem_cons.mp member with rfl | member
      · rw [if_pos rfl]
        exact Nat.le_add_right _ _
      · exact Nat.le_trans (ih member) (Nat.le_add_left _ _)

theorem batch_tokens_exact (batch : InputBatch ReqId) (distinct : (batch.map BatchRow.idxMapping).Nodup)
    (member : entry ∈ batch) : batchTokens batch entry.idxMapping = entry.numScheduledTokens := by
  induction batch with
  | nil => cases member
  | cons row rest ih =>
      obtain ⟨unlisted,distinct⟩ := List.nodup_cons.mp distinct
      rw [batchTokens,List.map_cons,List.sum_cons]
      rcases List.mem_cons.mp member with rfl | member
      · rw [if_pos rfl]
        exact Nat.add_eq_left.mpr (batch_tokens_apart rest unlisted)
      · have different : row.idxMapping ≠ entry.idxMapping := fun same =>
          unlisted (same ▸ List.mem_map_of_mem member)
        rw [if_neg different,Nat.zero_add]
        exact ih distinct member

theorem in_flight_grows (steps : Nat) (older : List (StepRecord ReqId)) (slot : Nat) :
    inFlight steps older slot ≤ inFlight (steps + 1) older slot := by
  induction steps generalizing older with
  | zero => exact Nat.zero_le _
  | succ steps ih =>
      cases older with
      | nil => exact Nat.le_refl _
      | cons record older =>
          refine Nat.add_le_add_left ?_ _
          unfold keepUnless
          split
          · exact Nat.le_refl _
          · exact ih older

theorem in_flight_due (steps : Nat) (older : List (StepRecord ReqId)) (found : older[steps]? = some source)
    (ran : source.batch = some batch)
    (kept : ∀ i record, i < steps → older[i]? = some record → slot ∉ record.freed) :
    inFlight steps older slot + batchTokens batch slot ≤ inFlight (steps + 1) older slot := by
  induction steps generalizing older with
  | zero =>
      cases older with
      | nil => cases found
      | cons record older =>
          obtain rfl : record = source := Option.some.inj found
          show 0 + _ ≤ record.batch.elim 0 _ + _
          rw [ran,Nat.zero_add]
          exact Nat.le_add_right _ _
  | succ steps ih =>
      cases older with
      | nil => cases found
      | cons record older =>
          have held : slot ∉ record.freed := kept 0 record (Nat.succ_pos _) rfl
          have later := ih older found fun i other below at_i => kept (i + 1) other (Nat.succ_lt_succ below) at_i
          show _ + keepUnless record.freed (inFlight steps older) slot + _ ≤
            _ + keepUnless record.freed (inFlight (steps + 1) older) slot
          unfold keepUnless
          rw [if_neg held,if_neg held,Nat.add_assoc]
          exact Nat.add_le_add_left later _

theorem valid_slots_nodup (idxMapping : List Int)
    (unique : ∀ slot a b, (slot,a) ∈ validRows idxMapping → (slot,b) ∈ validRows idxMapping → a = b) :
    ((validRows idxMapping).map Prod.fst).Nodup := by
  have rows := List.pairwise_map.mp (valid_rows_nodup idxMapping)
  refine List.pairwise_map.mpr (rows.imp_of_mem ?_)
  rintro ⟨slot,a⟩ ⟨other,b⟩ one two different same
  obtain rfl : slot = other := same
  exact different (unique slot a b one two)

theorem batch_valid_nodup (batch : InputBatch ReqId) (distinct : (batch.map BatchRow.idxMapping).Nodup) :
    ((validRows (batchMapping batch)).map Prod.fst).Nodup := by
  apply valid_slots_nodup
  intro slot a b one two
  obtain ⟨entry,at_a,rfl⟩ := batch_valid one
  obtain ⟨other,at_b,same⟩ := batch_valid two
  have bound := (List.getElem?_eq_some_iff.mp at_a).1
  refine (List.getElem?_inj (by simpa using bound) distinct).mp ?_
  rw [List.getElem?_map,List.getElem?_map,at_a,at_b]
  exact congrArg some same.symm

theorem batch_targets (batch : InputBatch ReqId) (slot : Nat) :
    slot ∈ (validRows (batchMapping batch)).map Prod.fst ↔ slot ∈ batch.map BatchRow.idxMapping := by
  constructor
  · intro member
    obtain ⟨⟨_,row⟩,valid,rfl⟩ := List.mem_map.mp member
    obtain ⟨entry,found,same⟩ := batch_valid valid
    exact List.mem_map.mpr ⟨entry,List.mem_of_getElem? found,same⟩
  · intro member
    obtain ⟨entry,listed,rfl⟩ := List.mem_map.mp member
    obtain ⟨row,found⟩ := List.mem_iff_getElem?.mp listed
    refine List.mem_map.mpr ⟨(entry.idxMapping,row),(valid_row _ _ _).mpr ?_,rfl⟩
    rw [batchMapping,List.getElem?_map,found]
    rfl

theorem due_in_flight (due : Due cfg history slot row entry) (world : cfg.worldSize = steps + 1)
    (found : history[history.length - cfg.worldSize]? = some source) (ran : source.batch = some batch)
    (at_row : batch[row]? = some entry) :
    inFlight steps history.reverse slot + entry.numScheduledTokens ≤ inFlight cfg.worldSize history.reverse slot := by
  have old := due.old
  have place : history.reverse[steps]? = some source := by
    rw [List.getElem?_reverse (by omega),← found]
    congr 1
    omega
  have leaves := in_flight_due steps history.reverse place ran (by
    intro i record below at_i
    have bound := (List.getElem?_eq_some_iff.mp at_i).1
    rw [List.length_reverse] at bound
    rw [List.getElem?_reverse bound] at at_i
    exact due.kept _ record (by omega) at_i)
  have least := batch_tokens_le batch (List.mem_of_getElem? at_row)
  rw [due.slot_exact] at least
  rw [world]
  omega

end Glm5Next.AlignFlight
