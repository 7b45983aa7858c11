import Glm5Next.SlotOwners
import Glm5Next.AlignColumns

namespace Glm5Next.AlignSeats
open PpUtils WorkerLoop SlotOwners AppliedRows MambaAlign PointUpdates AlignKernels AlignColumns
variable {ReqId T V : Type} {ac : AlignConfig} {up : Upstream T}

-- A slot in use, with `count` tokens of its request still in flight.
structure Seated (ac : AlignConfig) (up : Upstream T) (mem : Memory T V) (slot count : Nat) : Prop where
  inFlight : count ≤ mem.numComputed slot
  counted : Counted ac (mem.align slot)
  standing : Placed ac up mem.tables slot (mem.numComputed slot) (mem.align slot) ∨
    Fresh ac (mem.numComputed slot) (mem.align slot) ∧ count = 0

structure Seats (ac : AlignConfig) (up : Upstream T) (r : Runner ReqId (AlignDevice T V)) (count : Nat → Nat) :
    Prop where
  seated : ∀ slot ∈ r.reqStates.slots, Seated ac up r.device.mem slot (count slot)
  empty : ∀ slot, slot ∉ r.reqStates.slots → count slot = 0

def keepUnless (freed : List Nat) (count : Nat → Nat) : Nat → Nat := fun slot => if slot ∈ freed then 0 else count slot

theorem keep_nil (count : Nat → Nat) : keepUnless [] count = count := by
  funext slot
  exact if_neg List.not_mem_nil

theorem keep_append (first second : List Nat) (count : Nat → Nat) :
    keepUnless second (keepUnless first count) = keepUnless (first ++ second) count := by
  funext slot
  unfold keepUnless
  by_cases early : slot ∈ first <;> by_cases late : slot ∈ second <;> simp [early,late]

theorem keep_le (freed : List Nat) (count : Nat → Nat) (slot : Nat) : keepUnless freed count slot ≤ count slot := by
  unfold keepUnless
  split
  · exact Nat.zero_le _
  · exact Nat.le_refl _

theorem Seated.fewer (seated : Seated ac up mem slot count) {rest : Nat} (less : rest ≤ count) :
    Seated ac up mem slot rest := by
  refine ⟨Nat.le_trans less seated.inFlight,seated.counted,?_⟩
  cases seated.standing with
  | inl placed => exact Or.inl placed
  | inr fresh => exact Or.inr ⟨fresh.1,by have none := fresh.2; omega⟩

theorem Seats.fewer {r : Runner ReqId (AlignDevice T V)} (seats : Seats ac up r count) {rest : Nat → Nat}
    (less : ∀ slot, rest slot ≤ count slot) : Seats ac up r rest := by
  refine ⟨fun slot used => (seats.seated slot used).fewer (less slot),fun slot unused => ?_⟩
  have none := seats.empty slot unused
  have below := less slot
  omega

theorem Seated.grow {before after : Memory T V} (seated : Seated ac up before slot count)
    (align : after.align slot = before.align slot) (computed : after.numComputed slot = before.numComputed slot)
    (grown : ∀ group, up.numBlocks before.tables group slot ≤ up.numBlocks after.tables group slot) :
    Seated ac up after slot count := by
  refine ⟨?_,?_,?_⟩
  · rw [computed]
    exact seated.inFlight
  · rw [align]
    exact seated.counted
  · rw [align,computed]
    cases seated.standing with
    | inl placed =>
        refine Or.inl ⟨placed.column,placed.covered,placed.room.first,placed.room.wide,fun state member => ?_⟩
        exact Int.lt_of_lt_of_le (placed.room.held state member) (Int.ofNat_le.mpr (grown state.group))
    | inr fresh => exact Or.inr fresh

theorem frees_seats {before after : Runner ReqId (AlignDevice T V)} (frees : Frees before after freed)
    (device : after.device = before.device) (kept : ∀ slot ∈ after.reqStates.slots, slot ∈ before.reqStates.slots)
    (seats : Seats ac up before count) : Seats ac up after (keepUnless freed count) := by
  constructor
  · intro slot used
    rw [device]
    exact (seats.seated slot (kept slot used)).fewer (keep_le freed count slot)
  · intro slot unused
    unfold keepUnless
    split
    · rfl
    · rename_i held
      apply seats.empty
      intro used
      obtain ⟨⟨reqId,_⟩,member,rfl⟩ := List.mem_map.mp used
      exact unused (List.mem_map.mpr ⟨_,frees.keeps reqId _ member held,rfl⟩)

section Phases
variable [DecidableEq ReqId]

theorem remove_seats (r : Runner ReqId (AlignDevice T V)) (reqId : ReqId) (seats : Seats ac up r count) :
    Seats ac up (removeRequest r reqId).1 (keepUnless (removeRequest r reqId).2.toList count) := by
  apply frees_seats (remove_frees r reqId) (remove_device r reqId) _ seats
  intro slot used
  obtain ⟨entry,member,rfl⟩ := List.mem_map.mp used
  rw [remove_entries] at member
  exact List.mem_map.mpr ⟨entry,(List.mem_filter.mp member).1,rfl⟩

theorem removes_seats (r : Runner ReqId (AlignDevice T V)) (ids : List ReqId) (seats : Seats ac up r count) :
    Seats ac up (removeRequests r ids).1 (keepUnless (removeRequests r ids).2 count) := by
  induction ids generalizing r count with
  | nil =>
      rw [show (removeRequests r []).2 = [] from rfl,keep_nil]
      exact seats
  | cons reqId rest ih =>
      have later := ih (removeRequest r reqId).1 (remove_seats r reqId seats)
      rw [keep_append] at later
      exact later

variable {forward : (Nat → Nat → Nat → V) → InputBatch ReqId → Nat → Nat → Nat → V}

theorem insert_seats (documented : up.Documented) (r : Runner ReqId (AlignDevice T V)) (new : NewRequestData ReqId)
    (inserted : r.reqStates.addRequest new slot = some reqStates) (seats : Seats ac up r count) :
    Seats ac up { r with
      reqStates := reqStates
      device := (alignDevice ac up forward).addRequest r.device slot new } count := by
  obtain ⟨_,unused,table⟩ := add_parts inserted
  have slots : reqStates.slots = slot :: r.reqStates.slots := congrArg (List.map Prod.snd) table
  constructor
  · intro other used
    have used : other ∈ reqStates.slots := used
    rw [slots] at used
    by_cases same : other = slot
    · subst same
      have none := seats.empty other unused
      have align : modify r.device.mem.align other (addRequest ac.cacheBlockSize new.numComputedTokens) other =
          addRequest ac.cacheBlockSize new.numComputedTokens (r.device.mem.align other) := if_pos rfl
      have computed : modify r.device.mem.numComputed other (fun _ => new.numComputedTokens) other =
          new.numComputedTokens := if_pos rfl
      rw [none]
      refine ⟨Nat.zero_le _,?_,Or.inr ⟨?_,rfl⟩⟩
      · show Counted ac (modify _ _ _ _)
        rw [align]
        exact ⟨Nat.le_refl 1,Nat.le_add_left 1 _⟩
      · show Fresh ac (modify r.device.mem.numComputed other (fun _ => new.numComputedTokens) other)
          (modify r.device.mem.align other (addRequest ac.cacheBlockSize new.numComputedTokens) other)
        rw [align,computed]
        exact add_fresh ac _ _
    · have held := seats.seated other (List.mem_of_ne_of_mem same used)
      refine held.grow (if_neg same) (if_neg same) fun group => ?_
      exact Nat.le_of_eq (documented.append_other _ _ _ _ _ _ (Ne.symm same)).symm
  · intro other unused
    have unused : other ∉ reqStates.slots := unused
    rw [slots,List.mem_cons,not_or] at unused
    exact seats.empty other unused.2

theorem adds_seats (documented : up.Documented) (news : List (NewRequestData ReqId)) (slots : List Nat)
    (r next : Runner ReqId (AlignDevice T V)) (seats : Seats ac up r count)
    (added : addRequests (alignDevice ac up forward) r news slots = some (next,freed)) :
    Seats ac up next (keepUnless freed count) := by
  induction news generalizing r slots freed count with
  | nil =>
      obtain ⟨rfl,rfl⟩ : r = next ∧ [] = freed := by simpa [addRequests] using added
      rw [keep_nil]
      exact seats
  | cons new rest ih =>
      cases slots with
      | nil => cases added
      | cons slot slots =>
          simp only [addRequests,Option.bind_eq_bind,Option.bind_eq_some_iff,Option.pure_def,
            Option.some.injEq,Prod.mk.injEq,Prod.exists] at added
          obtain ⟨reqStates,inserted,last,later,ran,rfl,rfl⟩ := added
          have removed := remove_seats r new.reqId seats
          have rested := ih slots _ (insert_seats documented _ new inserted removed) ran
          rw [keep_append] at rested
          exact rested

theorem updates_seats (documented : up.Documented) (reqs : List (CachedRequestData ReqId))
    (r next : Runner ReqId (AlignDevice T V)) (seats : Seats ac up r count)
    (updated : updateRequests (alignDevice ac up forward) r reqs = some next) : Seats ac up next count := by
  induction reqs generalizing r with
  | nil =>
      obtain rfl : r = next := by simpa [updateRequests] using updated
      exact seats
  | cons req rest ih =>
      simp only [updateRequests,updateRequest,Option.bind_eq_bind,Option.bind_eq_some_iff,
        Option.pure_def,Option.some.injEq] at updated
      obtain ⟨middle,⟨reqIndex,_,rfl⟩,ran⟩ := updated
      apply ih _ _ ran
      cases req.newBlockIds with
      | none => exact ⟨seats.seated,seats.empty⟩
      | some blockIds =>
          refine ⟨fun slot used => (seats.seated slot used).grow rfl rfl fun group => ?_,seats.empty⟩
          by_cases same : reqIndex = slot
          · subst same
            exact documented.append_grows _ _ _ _
          · exact Nat.le_of_eq (documented.append_other _ _ _ _ _ _ same).symm

end Phases

-- The result of a row that ran `queryLen` tokens: it keeps at least one of
-- them, and no more than one and the speculative ones.
structure RowResult (ac : AlignConfig) (numSampled numRejected : Int) (queryLen : Nat) : Prop where
  natural : 0 ≤ numRejected
  most : numSampled ≤ ac.numSpeculativeBlocks + 1
  rest : max numSampled.toNat 1 + numRejected.toNat ≤ queryLen

section Settle
variable {forward : (Nat → Nat → Nat → V) → InputBatch ReqId → Nat → Nat → Nat → V}

def settleRows (up : Upstream T) (d : AlignDevice T V) (rows : List (Nat × Nat)) (numRejected : Nat → Int)
    (query : Nat → Option Nat) : AlignDevice T V :=
  d.withComputed (modifies (fun _ row count => up.postUpdate count (numRejected row) (query row)) d.mem.numComputed rows)

theorem post_update_rows (d : AlignDevice T V) (rows : List (Nat × Nat)) (tokens : Nat → Nat → Int)
    (numSampled numRejected : Nat → Int) (query : Nat → Option Nat) :
    rows.foldl (fun m target => (alignDevice ac up forward).postUpdateRow m target.1 (tokens target.2)
      (numSampled target.2) (numRejected target.2) (query target.2)) d =
      settleRows up d rows numRejected query := by
  induction rows generalizing d with
  | nil => rfl
  | cons target rest ih => exact ih _

structure Settling (ac : AlignConfig) (up : Upstream T) (mem : Memory T V) (numSampled numRejected : Int)
    (query : Option Nat) (slot : Nat) : Prop where
  placed : Placed ac up mem.tables slot (mem.numComputed slot + query.getD 0) (mem.align slot)
  result : ∃ queryLen, RowResult ac numSampled numRejected queryLen ∧ queryLen ≤ mem.numComputed slot + query.getD 0

theorem settle_exact (documented : up.Documented) (d : AlignDevice T V) (idxMapping : List Int)
    (numSampled numRejected : Nat → Int) (query : Nat → Option Nat)
    (distinct : ((validRows idxMapping).map Prod.fst).Nodup)
    (settling : ∀ slot row, (slot,row) ∈ validRows idxMapping →
      Settling ac up d.mem (numSampled row) (numRejected row) (query row) slot) :
    let settled := settleRows up d (validRows idxMapping) numRejected query
    Launched ac up d (postprocessState ac up settled idxMapping numSampled) idxMapping ∧
    Processed ac settled.mem (postprocessState ac up settled idxMapping numSampled).mem idxMapping ∧
    (∀ slot row, (slot,row) ∈ validRows idxMapping → settled.mem.numComputed slot =
      d.mem.numComputed slot + (query row).getD 0 - (numRejected row).toNat) ∧
    ∀ slot, slot ∉ (validRows idxMapping).map Prod.fst → settled.mem.numComputed slot = d.mem.numComputed slot := by
  intro settled
  have counts (slot row : Nat) (valid : (slot,row) ∈ validRows idxMapping) : settled.mem.numComputed slot =
      d.mem.numComputed slot + (query row).getD 0 - (numRejected row).toNat := by
    obtain ⟨queryLen,result,_⟩ := (settling slot row valid).result
    have updated : settled.mem.numComputed slot =
        up.postUpdate (d.mem.numComputed slot) (numRejected row) (query row) :=
      modifies_exact (fun _ row count => up.postUpdate count (numRejected row) (query row)) _ _ distinct valid
    rw [updated,← documented.post_update,Int.toNat_of_nonneg result.natural]
  have sampled (slot row : Nat) (valid : (slot,row) ∈ validRows idxMapping) :
      Sampled ac up settled.mem (numSampled row) slot := by
    obtain ⟨queryLen,result,counted⟩ := (settling slot row valid).result
    have rest := result.rest
    refine ⟨?_,result.most,?_⟩
    · rw [counts slot row valid]
      exact (settling slot row valid).placed.fewer (Nat.sub_le _ _)
    · rw [counts slot row valid]
      omega
  obtain ⟨launched,processed⟩ := postprocess_state_exact settled idxMapping numSampled distinct sampled
  exact ⟨launched,processed,counts,fun slot apart =>
    modifies_apart (fun _ row count => up.postUpdate count (numRejected row) (query row)) _ _ slot apart⟩

theorem deferred_seats (documented : up.Documented) (d : AlignDevice T V) (out : SampledOutputs)
    (distinct : ((validRows out.idxMapping).map Prod.fst).Nodup) (slots : List Nat) (count rest : Nat → Nat)
    (seated : ∀ slot ∈ slots, Seated ac up d.mem slot (count slot)) (less : ∀ slot, rest slot ≤ count slot)
    (rows : ∀ slot row, (slot,row) ∈ validRows out.idxMapping → slot ∈ slots ∧ ∃ queryLen,
      RowResult ac (out.numSampled row) (out.numRejected row) queryLen ∧ rest slot + queryLen ≤ count slot) :
    let settled := settleRows up d (validRows out.idxMapping) out.numRejected fun _ => none
    Launched ac up d (postprocessState ac up settled out.idxMapping out.numSampled) out.idxMapping ∧
    ∀ slot ∈ slots, Seated ac up (postprocessState ac up settled out.idxMapping out.numSampled).mem slot (rest slot) := by
  intro settled
  have standing (slot row : Nat) (valid : (slot,row) ∈ validRows out.idxMapping) :
      Placed ac up d.mem.tables slot (d.mem.numComputed slot) (d.mem.align slot) := by
    obtain ⟨used,queryLen,result,inFlight⟩ := rows slot row valid
    cases (seated slot used).standing with
    | inl placed => exact placed
    | inr fresh =>
        have some_token := result.rest
        have none := fresh.2
        omega
  obtain ⟨launched,processed,counts,apart⟩ := settle_exact documented d out.idxMapping out.numSampled out.numRejected
    (fun _ => none) distinct (by
      intro slot row valid
      obtain ⟨used,queryLen,result,inFlight⟩ := rows slot row valid
      have counted := (seated slot used).inFlight
      exact ⟨standing slot row valid,queryLen,result,by omega⟩)
  refine ⟨launched,fun slot used => ?_⟩
  by_cases present : slot ∈ (validRows out.idxMapping).map Prod.fst
  · obtain ⟨⟨_,row⟩,valid,rfl⟩ := List.mem_map.mp present
    obtain ⟨_,queryLen,result,inFlight⟩ := rows _ row valid
    have counted := (seated _ used).inFlight
    have left := result.rest
    have placed := (standing _ row valid).fewer (Nat.sub_le _ (out.numRejected row).toNat)
    have computed := (congrFun processed.computed _).trans (counts _ row valid)
    refine ⟨?_,processed.counted _ row valid,Or.inl ?_⟩
    · rw [computed]
      show rest _ ≤ d.mem.numComputed _ + 0 - _
      dsimp only at left inFlight counted ⊢
      omega
    · rw [computed,processed.tables]
      exact placed.moved (processed.column _)
  · refine ((seated slot used).fewer (less slot)).grow ?_ ?_ fun group => ?_
    · exact processed.apart slot fun member => present ((valid_slot _ _).mpr member)
    · exact (congrFun processed.computed slot).trans (apart slot present)
    · rw [processed.tables]
      exact Nat.le_refl _

end Settle

end Glm5Next.AlignSeats
