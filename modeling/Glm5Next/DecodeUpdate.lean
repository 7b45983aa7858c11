import Glm5Next.CacheRegions
import Glm5Next.KpoolRing
import Mathlib.Tactic.IntervalCases

namespace Glm5Next.DecodeUpdate
open KpoolCompress KpoolRing CacheRegions StoreWrites

-- A request's row of the decode grid: `count` tokens from position `start` on,
-- `rows` its sequence by position.
structure Request (B : Type) where
  tailBlock : Nat
  start : Nat
  count : Nat
  rows : Nat → Row B

def Padding (token : Token B) : Prop := token.pos < 0 ∨ (token.slot < 0 ∧ token.tailSlot < 0)

structure Entries (poolSize : Nat) (tokens : Nat → Token B) (nextN : Nat) (q : Request B) : Prop where
  fits : q.count ≤ nextN
  position : ∀ t, t < q.count → (tokens t).pos = (q.start + t : Nat)
  row : ∀ t, t < q.count → (tokens t).row = q.rows (q.start + t)
  stashed : ∀ t, t < q.count → 0 ≤ (tokens t).tailSlot
  block : ∀ t, t < q.count → (tokens t).tailSlot.toNat / poolSize = q.tailBlock
  padded : ∀ t, q.count ≤ t → t < nextN → Padding (tokens t)

-- The tokens of the pool the request is in are in its ring.
def Ring (poolSize : Nat) (tail : Nat → Row B) (q : Request B) : Prop :=
  ∀ j, j < q.start % poolSize → tail (q.tailBlock * poolSize + j) = q.rows (q.start / poolSize * poolSize + j)

structure Batch (poolSize : Nat) (requests : Nat → Request B) (numRequests nextN : Nat) (grid : Nat × Nat → Token B)
    (caches : Caches B S) : Prop where
  entries : ∀ r, r < numRequests → Entries poolSize (fun t => grid (r,t)) nextN (requests r)
  ring : ∀ r, r < numRequests → Ring poolSize caches.tail (requests r)
  blocks : ∀ r r', r < numRequests → r' < numRequests → (requests r).tailBlock = (requests r').tailBlock → r = r'
  slots : ∀ r r' t t', r < numRequests → r' < numRequests → t < (requests r).count → t' < (requests r').count →
    completes poolSize (grid (r,t)) → completes poolSize (grid (r',t')) →
    (grid (r,t)).slot.toNat = (grid (r',t')).slot.toNat → r = r' ∧ t = t'

-- The launch has a program for every request; `steps` is an order in which the
-- iterations of all of them execute.
structure Schedule (numRequests nextN : Nat) (steps : List (Nat × Nat)) : Prop where
  programs : ∀ r, r < numRequests →
    (steps.filter fun step => decide (step.1 = r)) = (List.range nextN).map fun t => (r,t)
  bounded : ∀ step ∈ steps, step.1 < numRequests

section Launch
variable {B S : Type} (ops : FloatOps B S) (roundScale : Bool) (ape : List (List S)) (poolSize : Nat)

def kpoolDecodeUpdateLaunch (grid : Nat × Nat → Token B) (steps : List (Nat × Nat)) (caches : Caches B S) :
    Caches B S :=
  OwnedRegions.run (fun step => apply ops roundScale ape poolSize (.token (grid step))) steps caches

def completions (tokens : Nat → Token B) (q : Request B) (n : Nat) : List (Nat × Entry S) :=
  (List.range n).filterMap fun t =>
    if completes poolSize (tokens t) then
      some ((tokens t).slot.toNat,compressPool ops roundScale ape (pool poolSize q.rows ((q.start + t) / poolSize)))
    else none

def stashes (q : Request B) (n : Nat) : List (Nat × Row B) :=
  (List.range n).map fun t => (q.tailBlock * poolSize + (q.start + t) % poolSize,q.rows (q.start + t))

theorem stashes_succ (q : Request B) (n : Nat) (tail : Nat → Row B) :
    writes tail (stashes poolSize q (n + 1)) =
      write (writes tail (stashes poolSize q n))
        (q.tailBlock * poolSize + (q.start + n) % poolSize,q.rows (q.start + n)) := by
  rw [stashes,List.range_succ,List.map_append,writes_append]
  rfl

theorem completions_succ (tokens : Nat → Token B) (q : Request B) (n : Nat) (index : Nat → Entry S) :
    writes index (completions ops roundScale ape poolSize tokens q (n + 1)) =
      if completes poolSize (tokens n) then
        write (writes index (completions ops roundScale ape poolSize tokens q n)) ((tokens n).slot.toNat,
          compressPool ops roundScale ape (pool poolSize q.rows ((q.start + n) / poolSize)))
      else writes index (completions ops roundScale ape poolSize tokens q n) := by
  rw [completions,List.range_succ,List.filterMap_append,writes_append]
  by_cases ends : completes poolSize (tokens n)
  · rw [List.filterMap_cons,if_pos ends,if_pos ends]
    rfl
  · rw [List.filterMap_cons,if_neg ends,if_neg ends]
    rfl

-- The last pool_size tokens of the pool in progress can be read from the ring.
theorem stashes_ring (q : Request B) (tail : Nat → Row B) (ring : Ring poolSize tail q) (n x : Nat)
    (first : q.start / poolSize * poolSize ≤ x) (before : x < q.start + n) (near : q.start + n ≤ x + poolSize) :
    writes tail (stashes poolSize q n) (q.tailBlock * poolSize + x % poolSize) = q.rows x := by
  induction n with
  | zero =>
      have split := Nat.div_add_mod q.start poolSize
      rw [Nat.mul_comm] at split
      obtain ⟨j,rfl⟩ := Nat.exists_eq_add_of_le first
      have residue := Nat.mod_lt q.start (show 0 < poolSize by omega)
      rw [Ragged.grid_col (show j < poolSize by omega)]
      exact ring j (by omega)
  | succ n ih =>
      rw [stashes_succ]
      by_cases current : x = q.start + n
      · rw [current]
        exact if_pos rfl
      · have apart := offsets_apart poolSize (show x < q.start + n by omega) (by omega)
        rw [written_apart (by omega)]
        exact ih (by omega) (by omega)

section Program
variable {tokens : Nat → Token B} {nextN : Nat} {q : Request B} (entries : Entries poolSize tokens nextN q)
  (caches : Caches B S) (ring : Ring poolSize caches.tail q)
include entries

theorem real_tail (real : t < q.count) (caches : Caches B S) :
    (decodeToken ops roundScale ape poolSize caches (tokens t)).tail =
      write caches.tail (q.tailBlock * poolSize + (q.start + t) % poolSize,q.rows (q.start + t)) := by
  have pos := entries.position t real
  rw [token_tail,if_pos ⟨by rw [pos]; exact Int.natCast_nonneg _,entries.stashed t real⟩,place,entries.block t real,pos,
    entries.row t real,Int.toNat_natCast]

theorem pad_exact (past : q.count ≤ t) (inside : t < nextN) (caches : Caches B S) :
    decodeToken ops roundScale ape poolSize caches (tokens t) = caches := by
  have kept : ¬ completes poolSize (tokens t) ∧ ¬ ((tokens t).pos ≥ 0 ∧ (tokens t).tailSlot ≥ 0) := by
    unfold completes
    rcases entries.padded t past inside with absent | ⟨slotless,unstashed⟩
    · exact ⟨by omega,by omega⟩
    · exact ⟨by omega,by omega⟩
  have index := token_index ops roundScale ape poolSize caches (tokens t)
  have tail := token_tail ops roundScale ape poolSize caches (tokens t)
  rw [if_neg kept.1] at index
  rw [if_neg kept.2] at tail
  generalize decodeToken ops roundScale ape poolSize caches (tokens t) = after at index tail
  cases after
  cases caches
  subst index tail
  rfl

include ring

theorem ring_pool_exact (real : t < q.count) (ends : completes poolSize (tokens t)) :
    ringPool poolSize (writes caches.tail (stashes poolSize q t)) (tokens t) =
      pool poolSize q.rows ((q.start + t) / poolSize) := by
  have last := ends.2
  unfold ringPool pool
  rw [entries.position t real,Int.toNat_natCast] at *
  apply List.map_congr_left
  intro s listed
  have inside := List.mem_range.mp listed
  have split := Nat.div_add_mod (q.start + t) poolSize
  rw [Nat.mul_comm] at split
  by_cases current : s = (q.start + t) % poolSize
  · rw [if_pos current,entries.row t real,current,split]
  · have started : q.start / poolSize * poolSize ≤ (q.start + t) / poolSize * poolSize :=
      Nat.mul_le_mul_right _ (Nat.div_le_div_right (Nat.le_add_right _ _))
    have place : q.start + t - (q.start + t) % poolSize + s = (q.start + t) / poolSize * poolSize + s := by omega
    rw [if_neg current,entries.block t real,place]
    exact stashes_ring poolSize q caches.tail ring t _ (by omega) (by omega) (by omega)

theorem real_loop_exact (real : n ≤ q.count) :
    kpoolDecodeUpdateBatched ops roundScale ape poolSize tokens n caches =
      ⟨writes caches.index (completions ops roundScale ape poolSize tokens q n),
        writes caches.tail (stashes poolSize q n)⟩ := by
  induction n with
  | zero => rfl
  | succ n ih =>
      rw [decode_next,ih (Nat.le_of_succ_le real),stashes_succ,completions_succ]
      have index := token_index ops roundScale ape poolSize
        ⟨writes caches.index (completions ops roundScale ape poolSize tokens q n),
          writes caches.tail (stashes poolSize q n)⟩ (tokens n)
      have tail := real_tail ops roundScale ape poolSize entries real
        ⟨writes caches.index (completions ops roundScale ape poolSize tokens q n),
          writes caches.tail (stashes poolSize q n)⟩
      generalize decodeToken ops roundScale ape poolSize _ (tokens n) = after at index tail
      cases after
      dsimp only at index tail
      rw [index,tail]
      split
      · rename_i ends
        rw [ring_pool_exact poolSize entries caches ring real ends]
      · rfl

-- The program of one request: the padding behind its tokens does nothing.
theorem program_exact :
    kpoolDecodeUpdateBatched ops roundScale ape poolSize tokens nextN caches =
      ⟨writes caches.index (completions ops roundScale ape poolSize tokens q q.count),
        writes caches.tail (stashes poolSize q q.count)⟩ := by
  have padded : ∀ k, q.count + k ≤ nextN →
      kpoolDecodeUpdateBatched ops roundScale ape poolSize tokens (q.count + k) caches =
        kpoolDecodeUpdateBatched ops roundScale ape poolSize tokens q.count caches := by
    intro k
    induction k with
    | zero => intro _; rfl
    | succ k ih =>
        intro inside
        rw [← Nat.add_assoc,decode_next,ih (by omega)]
        exact pad_exact ops roundScale ape poolSize entries (Nat.le_add_right _ k) (by omega) _
  obtain ⟨k,width⟩ := Nat.exists_eq_add_of_le entries.fits
  rw [width,padded k (Nat.le_of_eq width.symm)]
  exact real_loop_exact ops roundScale ape poolSize entries caches ring (Nat.le_refl _)

end Program

section Requests
variable {requests : Nat → Request B} {numRequests nextN : Nat} {grid : Nat × Nat → Token B} {caches : Caches B S}

def territory (requests : Nat → Request B) (numRequests : Nat) (grid : Nat × Nat → Token B) (r : Nat) : Territory where
  slots := fun slot => r < numRequests ∧
    ∃ t, t < (requests r).count ∧ completes poolSize (grid (r,t)) ∧ (grid (r,t)).slot.toNat = slot
  blocks := fun block => r < numRequests ∧ (requests r).tailBlock = block

theorem territories_apart (batch : Batch poolSize requests numRequests nextN grid caches) :
    Apart (territory poolSize requests numRequests grid) := by
  intro r r' other
  constructor
  · rintro slot ⟨bound,t,real,ends,rfl⟩ ⟨bound',t',real',ends',same⟩
    exact other (batch.slots r r' t t' bound bound' real real' ends ends' same.symm).1
  · rintro block ⟨bound,rfl⟩ ⟨bound',same⟩
    exact other (batch.blocks r r' bound bound' same.symm)

theorem grid_belongs (batch : Batch poolSize requests numRequests nextN grid caches) (bound : r < numRequests)
    (inside : t < nextN) :
    Belongs (S := S) poolSize (territory poolSize requests numRequests grid r) (.token (grid (r,t))) := by
  have entries := batch.entries r bound
  intro positioned slotted
  by_cases real : t < (requests r).count
  · exact ⟨⟨bound,(entries.block t real).symm⟩,fun held last => ⟨bound,t,real,⟨⟨held,positioned⟩,last⟩,rfl⟩⟩
  · rcases entries.padded t (Nat.le_of_not_lt real) inside with absent | ⟨slotless,unstashed⟩
    · exact absurd positioned (Int.not_le.mpr absent)
    · rcases slotted with held | held
      · exact absurd held (Int.not_le.mpr slotless)
      · exact absurd held (Int.not_le.mpr unstashed)

theorem launch_own (positive : 0 < poolSize) (batch : Batch poolSize requests numRequests nextN grid caches)
    (scheduled : Schedule numRequests nextN steps) :
    (∀ r, r < numRequests → Agree poolSize (territory poolSize requests numRequests grid r)
      (kpoolDecodeUpdateLaunch ops roundScale ape poolSize grid steps caches)
      (kpoolDecodeUpdateBatched ops roundScale ape poolSize (fun t => grid (r,t)) nextN caches)) ∧
    Agree poolSize (withRest (territory poolSize requests numRequests grid) none)
      (kpoolDecodeUpdateLaunch ops roundScale ape poolSize grid steps caches) caches := by
  have owned := effects_owned ops roundScale ape poolSize positive
    (apart_rest (territories_apart poolSize batch)) (fun step => Effect.token (grid step))
    (fun step : Nat × Nat => some step.1)
  have legal : ∀ step ∈ steps, Belongs (S := S) poolSize
      (withRest (territory poolSize requests numRequests grid) (some step.1)) (.token (grid step)) := by
    rintro ⟨r,t⟩ member
    have bound := scheduled.bounded _ member
    have listed : (r,t) ∈ (List.range nextN).map fun t => (r,t) := by
      rw [← scheduled.programs r bound]
      exact List.mem_filter.mpr ⟨member,by simp⟩
    obtain ⟨t',inside,same⟩ := List.mem_map.mp listed
    cases same
    exact grid_belongs poolSize batch bound (List.mem_range.mp inside)
  constructor
  · intro r bound
    have own := OwnedRegions.run_owned owned steps legal (some r) (owned.refl (some r) caches)
    simp only [Option.some.injEq] at own
    have program : OwnedRegions.run (fun step => apply ops roundScale ape poolSize (.token (grid step)))
        ((List.range nextN).map fun t => (r,t)) caches =
          kpoolDecodeUpdateBatched ops roundScale ape poolSize (fun t => grid (r,t)) nextN caches :=
      OwnedRegions.run_map _ _ _ _
    rw [scheduled.programs r bound,program] at own
    exact own
  · exact OwnedRegions.run_apart owned steps legal (fun step _ => Option.some_ne_none _) caches

end Requests

def poolTokens (slot : Int) (rows : Nat → Row B) (p i : Nat) : Token B :=
  ⟨if i = poolSize - 1 then slot else -1,(p * poolSize + i : Nat),-1,rows (p * poolSize + i)⟩

theorem pool_inserted (positive : 0 < poolSize) (held : 0 ≤ slot) (rows : Nat → Row B) (p : Nat)
    (index : Nat → Entry S) :
    kpoolCompressInsert ops roundScale ape poolSize (poolTokens poolSize slot rows p) poolSize index slot.toNat =
      compressPool ops roundScale ape (pool poolSize rows p) := by
  unfold kpoolCompressInsert
  rw [if_neg (Nat.lt_irrefl _)]
  have value : (List.range poolSize).map (fun s =>
      (poolTokens poolSize slot rows p (poolSize - 1 - (poolSize - 1) + s)).row) = pool poolSize rows p := by
    rw [Nat.sub_self]
    apply List.map_congr_left
    intro s _
    rw [Nat.zero_add]
    rfl
  apply writes_exact
  · refine List.mem_filterMap.mpr ⟨poolSize - 1,List.mem_range.mpr (by omega),?_⟩
    rw [value,poolTokens,if_pos rfl,if_pos ⟨held,Nat.le_refl _⟩]
  · intro entry member _
    obtain ⟨i,listed,stored⟩ := List.mem_filterMap.mp member
    have bound := List.mem_range.mp listed
    split at stored
    · rename_i ends
      obtain rfl : i = poolSize - 1 := by omega
      cases stored
      exact congrArg (compressPool ops roundScale ape) value
    · cases stored

-- Whatever the order of the programs and however many tokens a call has.
theorem decode_update_exact (positive : 0 < poolSize) (requests : Nat → Request B) (numRequests nextN : Nat)
    (grid : Nat × Nat → Token B) (steps : List (Nat × Nat)) (caches : Caches B S)
    (batch : Batch poolSize requests numRequests nextN grid caches) (scheduled : Schedule numRequests nextN steps) :
    let after := kpoolDecodeUpdateLaunch ops roundScale ape poolSize grid steps caches
    (∀ r, r < numRequests → let q := requests r
      (∀ t, t < q.count → completes poolSize (grid (r,t)) →
        after.index (grid (r,t)).slot.toNat =
          kpoolCompressInsert ops roundScale ape poolSize
            (poolTokens poolSize (grid (r,t)).slot q.rows ((q.start + t) / poolSize)) poolSize caches.index
            (grid (r,t)).slot.toNat) ∧
      (∀ t, t < q.count → (∀ u, t < u → u < q.count → (q.start + u) % poolSize ≠ (q.start + t) % poolSize) →
        after.tail (q.tailBlock * poolSize + (q.start + t) % poolSize) = q.rows (q.start + t)) ∧
      ∀ s, s < poolSize → (∀ t, t < q.count → (q.start + t) % poolSize ≠ s) →
        after.tail (q.tailBlock * poolSize + s) = caches.tail (q.tailBlock * poolSize + s)) ∧
    (∀ slot, (∀ r t, r < numRequests → t < (requests r).count → completes poolSize (grid (r,t)) →
        (grid (r,t)).slot.toNat ≠ slot) → after.index slot = caches.index slot) ∧
    ∀ place, (∀ r, r < numRequests → (requests r).tailBlock ≠ place / poolSize) →
      after.tail place = caches.tail place := by
  intro after
  obtain ⟨own,rest⟩ := launch_own ops roundScale ape poolSize positive batch scheduled
  refine ⟨?_,?_,?_⟩
  · intro r bound q
    have agree := own r bound
    have entries := batch.entries r bound
    rw [program_exact ops roundScale ape poolSize entries caches (batch.ring r bound)] at agree
    have ring : ∀ s, s < poolSize → after.tail (q.tailBlock * poolSize + s) =
        writes caches.tail (stashes poolSize q q.count) (q.tailBlock * poolSize + s) := by
      intro s inside
      exact agree.2 _ ⟨bound,(Ragged.grid_row inside).symm⟩
    refine ⟨?_,?_,?_⟩
    · intro t real ends
      rw [pool_inserted ops roundScale ape poolSize positive ends.1.1]
      refine (agree.1 _ ⟨bound,t,real,ends,rfl⟩).trans ?_
      apply writes_exact
      · exact List.mem_filterMap.mpr ⟨t,List.mem_range.mpr real,if_pos ends⟩
      · intro entry member same
        obtain ⟨u,listed,stored⟩ := List.mem_filterMap.mp member
        split at stored
        · rename_i ends'
          cases stored
          have twice := (batch.slots r r u t bound bound (List.mem_range.mp listed) real ends' ends same).2
          rw [twice]
        · cases stored
    · intro t real last
      have near : q.count ≤ t + poolSize := by
        by_contra far
        exact last (t + poolSize) (by omega) (by omega) (by rw [← Nat.add_assoc,Nat.add_mod_right])
      rw [ring _ (Nat.mod_lt _ positive)]
      have started := Nat.div_mul_le_self q.start poolSize
      exact stashes_ring poolSize q caches.tail (batch.ring r bound) q.count _ (by omega) (by omega) (by omega)
    · intro s inside untouched
      rw [ring s inside]
      apply writes_apart
      intro entry member same
      obtain ⟨t,listed,rfl⟩ := List.mem_map.mp member
      exact untouched t (List.mem_range.mp listed) (Nat.add_left_cancel same)
  · intro slot apart
    apply rest.1
    rintro r ⟨bound,t,real,ends,same⟩
    exact apart r t bound real ends same
  · intro place apart
    apply rest.2
    rintro r ⟨bound,same⟩
    exact apart r bound same

end Launch

def twoRequests (r : Nat) : Request Int :=
  if r = 0 then ⟨5,1,3,fun pos => if pos = 2 then spikeRow else zeroRow⟩ else ⟨6,0,1,fun _ => zeroRow⟩

def twoGrid : Nat × Nat → Token Int
  | (0,0) => ⟨10,1,11,zeroRow⟩
  | (0,1) => ⟨-1,2,10,spikeRow⟩
  | (0,2) => ⟨11,3,11,zeroRow⟩
  | (1,0) => ⟨-1,0,12,zeroRow⟩
  | (1,1) => ⟨-1,-1,-1,spikeRow⟩
  | _ => ⟨-1,2,-1,spikeRow⟩

def twoCaches : Caches Int ℚ := ⟨fun _ => ⟨[],0⟩,fun _ => zeroRow⟩

def twoSteps : List (Nat × Nat) := [(1,0),(0,0),(0,1),(1,1),(0,2),(1,2)]

theorem two_scheduled : Schedule 2 3 twoSteps := by
  constructor
  · intro r bound
    interval_cases r <;> decide
  · decide

theorem two_entries (bound : r < 2) : Entries 2 (fun t => twoGrid (r,t)) 3 (twoRequests r) := by
  interval_cases r
  · constructor
    · decide
    all_goals intro t real
    · have inside : t < 3 := real
      interval_cases t <;> rfl
    · have inside : t < 3 := real
      interval_cases t <;> rfl
    · have inside : t < 3 := real
      interval_cases t <;> decide
    · have inside : t < 3 := real
      interval_cases t <;> decide
    · exact fun inside => absurd inside (Nat.not_lt.mpr real)
  · constructor
    · decide
    all_goals intro t real
    · obtain rfl : t = 0 := Nat.lt_one_iff.mp real
      rfl
    · obtain rfl : t = 0 := Nat.lt_one_iff.mp real
      rfl
    · obtain rfl : t = 0 := Nat.lt_one_iff.mp real
      decide
    · obtain rfl : t = 0 := Nat.lt_one_iff.mp real
      decide
    · intro inside
      have past : 1 ≤ t := real
      interval_cases t
      · exact Or.inl (by decide)
      · exact Or.inr ⟨by decide,by decide⟩

theorem two_ends (bound : r < 2) (real : t < (twoRequests r).count) (ends : completes 2 (twoGrid (r,t))) :
    r = 0 ∧ (t = 0 ∨ t = 2) ∧ (twoGrid (r,t)).slot.toNat = 10 + t / 2 := by
  interval_cases r
  · have inside : t < 3 := real
    interval_cases t
    · decide
    · exact absurd ends (by decide)
    · decide
  · obtain rfl : t = 0 := Nat.lt_one_iff.mp real
    exact absurd ends (by decide)

theorem two_batch : Batch 2 twoRequests 2 3 twoGrid twoCaches where
  entries := fun r bound => two_entries bound
  ring := by
    intro r bound j inside
    interval_cases r
    · have first : j < 1 := inside
      interval_cases j
      rfl
    · exact absurd inside (Nat.not_lt_zero j)
  blocks := by
    intro r r' bound bound' same
    interval_cases r
    all_goals interval_cases r'
    · rfl
    · cases same
    · cases same
    · rfl
  slots := by
    intro r r' t t' bound bound' real real' ends ends' same
    obtain ⟨rfl,_,slot⟩ := two_ends bound real ends
    obtain ⟨rfl,_,slot'⟩ := two_ends bound' real' ends'
    omega

theorem decode_update_exact_two :
    let after := kpoolDecodeUpdateLaunch ratOps true zeroApe 2 twoGrid twoSteps twoCaches
    after.index 11 = kpoolCompressInsert ratOps true zeroApe 2
      (poolTokens 2 11 (fun pos => if pos = 2 then spikeRow else zeroRow) 1) 2 twoCaches.index 11 ∧
    after.tail 10 = spikeRow ∧ after.index 12 = twoCaches.index 12 := by
  obtain ⟨own,slots,_⟩ := decode_update_exact ratOps true zeroApe 2 (by decide) twoRequests 2 3 twoGrid twoSteps twoCaches
    two_batch two_scheduled
  obtain ⟨pools,ring,_⟩ := own 0 (by decide)
  refine ⟨pools 2 (by decide) (by decide),ring 1 (by decide) ?_,slots 12 ?_⟩
  · intro u later real
    have last : u = 2 := Nat.le_antisymm (Nat.le_of_lt_succ real) later
    subst last
    decide
  · intro r t bound real ends
    obtain ⟨_,_,slot⟩ := two_ends bound real ends
    omega

end Glm5Next.DecodeUpdate
