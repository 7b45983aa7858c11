import Glm5Next.KpoolWritePhase
import Mathlib.Algebra.Order.BigOperators.Group.List

-- Requests that come, grow and go over one index cache and one tail cache.
namespace Glm5Next.KpoolServing
open KpoolCompress CacheRegions KpoolWritePhase
open KpoolRing (Blocks Holds State extend pool)
open DecodeUpdate (Schedule)

-- A request: its tail block, the pool slots of its block table and its
-- committed tokens, those below `length`.
structure Live (poolSize : Nat) (B : Type) where
  tailBlock : Nat
  pools : List Nat
  committed : Nat → Row B
  length : Nat
  distinct : pools.Nodup
  covered : length / poolSize ≤ pools.length

section Requests
variable {poolSize : Nat} {ReqId B S : Type}

def Separate (l l' : Live poolSize B) : Prop := l.tailBlock ≠ l'.tailBlock ∧ l.pools.Disjoint l'.pools

theorem separate_symm {l l' : Live poolSize B} (apart : Separate l l') : Separate l' l :=
  ⟨apart.1.symm,apart.2.symm⟩

-- The requests the runner holds. No two of them share a block.
structure Table (poolSize : Nat) (ReqId B : Type) where
  live : ReqId → Option (Live poolSize B)
  apart : ∀ id id' l l', live id = some l → live id' = some l' → id ≠ id' → Separate l l'

def Free (table : Table poolSize ReqId B) (id : ReqId) (l : Live poolSize B) : Prop :=
  ∀ other l', other ≠ id → table.live other = some l' → Separate l l'

def Table.empty : Table poolSize ReqId B := ⟨fun _ => none,fun _ _ _ _ held => by cases held⟩

def Table.put [DecidableEq ReqId] (table : Table poolSize ReqId B) (id : ReqId) (l : Live poolSize B)
    (free : Free table id l) : Table poolSize ReqId B where
  live other := if other = id then some l else table.live other
  apart := by
    intro a b l₁ l₂ held held' other
    by_cases first : a = id
    · by_cases second : b = id
      · exact absurd (first.trans second.symm) other
      · rw [if_pos first] at held
        rw [if_neg second] at held'
        cases held
        exact free b l₂ second held'
    · rw [if_neg first] at held
      by_cases second : b = id
      · rw [if_pos second] at held'
        cases held'
        exact separate_symm (free a l₁ first held)
      · rw [if_neg second] at held'
        exact table.apart a b l₁ l₂ held held' other

def Table.drop [DecidableEq ReqId] (table : Table poolSize ReqId B) (id : ReqId) : Table poolSize ReqId B where
  live other := if other = id then none else table.live other
  apart := by
    intro a b l₁ l₂ held held' other
    split at held
    · cases held
    · split at held'
      · cases held'
      · exact table.apart a b l₁ l₂ held held' other

-- A request of a forward: the tokens it has scheduled, and how many of them
-- are committed.
structure Turn (table : Table poolSize ReqId B) where
  id : ReqId
  request : Live poolSize B
  listed : table.live id = some request
  rows : List (Row B)
  accepted : Nat
  within : accepted ≤ rows.length
  allocated : (request.length + rows.length) / poolSize ≤ request.pools.length

-- Decode requests come first; a prefill chunk starts at a pool boundary and all
-- of it is committed.
structure Forward (table : Table poolSize ReqId B) where
  turns : List (Turn table)
  numDecodes : Nat
  decodesFirst : numDecodes ≤ turns.length
  once : (turns.map Turn.id).Nodup
  sampled : ∀ r t, r < numDecodes → turns[r]? = some t → 1 ≤ t.accepted
  chunked : ∀ r t, numDecodes ≤ r → turns[r]? = some t → poolSize ∣ t.request.length ∧ t.accepted = t.rows.length

variable {table : Table poolSize ReqId B} (zero : Row B) {reqId : ReqId} {r : Nat}

def Turn.toRequest (t : Turn table) : Request poolSize B where
  contextLen := t.request.length
  rows := t.rows
  tailBlock := t.request.tailBlock
  pools := t.request.pools
  allocated := t.allocated

def Turn.after (t : Turn table) : Live poolSize B where
  tailBlock := t.request.tailBlock
  pools := t.request.pools
  committed := extend t.request.committed (fun k => t.rows.getD k zero) t.request.length
  length := t.request.length + t.accepted
  distinct := t.request.distinct
  covered := Nat.le_trans (Nat.div_le_div_right (Nat.add_le_add_left t.within _)) t.allocated

theorem turns_apart {t t' : Turn table} (other : t.id ≠ t'.id) : Separate t.request t'.request :=
  table.apart t.id t'.id _ _ t.listed t'.listed other

theorem turns_pairwise (f : Forward table) : f.turns.Pairwise fun t t' => Separate t.request t'.request :=
  (List.pairwise_map.mp f.once).imp turns_apart

def Forward.batch (f : Forward table) : Batch poolSize B where
  requests := f.turns.map Turn.toRequest
  numDecodes := f.numDecodes
  decodesFirst := by
    rw [List.length_map]
    exact f.decodesFirst
  aligned := by
    intro r q prefill found
    rw [List.getElem?_map] at found
    obtain ⟨t,listed,rfl⟩ := Option.map_eq_some_iff.mp found
    exact (f.chunked r t prefill listed).1
  blocks := by
    rw [List.map_map]
    exact List.pairwise_map.mpr ((turns_pairwise f).imp fun apart => apart.1)
  slots := by
    rw [List.flatMap_map]
    refine List.nodup_flatMap.mpr ⟨fun t _ => t.request.distinct,?_⟩
    exact (turns_pairwise f).imp fun apart => apart.2

variable [DecidableEq ReqId]

def Forward.turn (f : Forward table) (id : ReqId) : Option (Turn table) := f.turns.find? fun t => t.id = id

def Forward.live (f : Forward table) (id : ReqId) : Option (Live poolSize B) :=
  match f.turn id with
  | some t => some (t.after zero)
  | none => table.live id

theorem turn_listed (f : Forward table) (found : f.turn reqId = some t) :
    (∃ r : Nat, f.turns[r]? = some t) ∧ t.id = reqId :=
  ⟨List.mem_iff_getElem?.mp (List.mem_of_find?_eq_some found),by simpa using List.find?_some found⟩

theorem after_blocks (f : Forward table) (held : f.live zero reqId = some l) :
    ∃ before, table.live reqId = some before ∧ l.tailBlock = before.tailBlock ∧ l.pools = before.pools := by
  unfold Forward.live at held
  cases found : f.turn reqId with
  | some t =>
      rw [found] at held
      cases held
      obtain ⟨_,rfl⟩ := turn_listed f found
      exact ⟨t.request,t.listed,rfl,rfl⟩
  | none =>
      rw [found] at held
      exact ⟨l,held,rfl,rfl⟩

def Forward.after (f : Forward table) : Table poolSize ReqId B where
  live := f.live zero
  apart := by
    intro id id' l l' held held' other
    obtain ⟨before,listed,block,pools⟩ := after_blocks zero f held
    obtain ⟨before',listed',block',pools'⟩ := after_blocks zero f held'
    have apart := table.apart id id' before before' listed listed' other
    unfold Separate
    rw [block,block',pools,pools']
    exact apart

end Requests

section Caches
variable {poolSize : Nat} {ReqId B S : Type} (ops : FloatOps B S) (roundScale : Bool) (ape : List (List S))

def blocksOf (l : Live poolSize B) : Blocks where
  tailBlock := l.tailBlock
  slots p := if inside : p < l.pools.length then l.pools[p] else l.pools.sum + 1 + p
  distinct := by
    intro p q same
    have small : ∀ (p : Nat) (inside : p < l.pools.length), l.pools[p] ≤ l.pools.sum :=
      fun p inside => List.le_sum_of_mem (List.getElem_mem inside)
    by_cases first : p < l.pools.length
    · by_cases second : q < l.pools.length
      · rw [dif_pos first,dif_pos second] at same
        exact (List.Nodup.getElem_inj_iff l.distinct).mp same
      · rw [dif_pos first,dif_neg second] at same
        have bound := small p first
        omega
    · by_cases second : q < l.pools.length
      · rw [dif_neg first,dif_pos second] at same
        have bound := small q second
        omega
      · rw [dif_neg first,dif_neg second] at same
        omega

theorem own_slot (l : Live poolSize B) (inside : p < l.pools.length) : (blocksOf l).slots p = l.pools.getD p 0 := by
  rw [List.getD_eq_getElem?_getD,List.getElem?_eq_getElem inside]
  exact dif_pos inside

def Held (caches : Caches B S) (l : Live poolSize B) : Prop :=
  Holds ops roundScale ape poolSize (blocksOf l) caches l.committed l.length (l.length / poolSize * poolSize)

def Same (l : Live poolSize B) (caches caches' : Caches B S) : Prop :=
  (∀ p < l.length / poolSize, caches.index (l.pools.getD p 0) = caches'.index (l.pools.getD p 0)) ∧
    (0 < l.length → ∀ place, place / poolSize = l.tailBlock → caches.tail place = caches'.tail place)

theorem whole_pool (positive : 0 < poolSize) : (p + 1) * poolSize ≤ length ↔ p < length / poolSize :=
  (Nat.le_div_iff_mul_le positive).symm

theorem held_congr (positive : 0 < poolSize) {l : Live poolSize B} (held : Held ops roundScale ape caches l)
    (same : Same l caches caches') : Held ops roundScale ape caches' l := by
  constructor
  · intro p ends
    have whole := (whole_pool positive).mp ends
    have slot := own_slot l (Nat.lt_of_lt_of_le whole l.covered)
    rw [← held.pools p ends,slot]
    exact (same.1 p whole).symm
  · intro x first before near
    rw [← held.ring x first before near]
    exact (same.2 (by omega) _ (Ragged.grid_row (Nat.mod_lt x positive))).symm

theorem held_pool (positive : 0 < poolSize) {l : Live poolSize B} (held : Held ops roundScale ape caches l)
    (whole : p < l.length / poolSize) :
    caches.index (l.pools.getD p 0) = compressPool ops roundScale ape (pool poolSize l.committed p) := by
  rw [← held.pools p ((whole_pool positive).mpr whole),own_slot l (Nat.lt_of_lt_of_le whole l.covered)]

def Live.grown (l : Live poolSize B) (extra : List Nat) (distinct : (l.pools ++ extra).Nodup) : Live poolSize B where
  tailBlock := l.tailBlock
  pools := l.pools ++ extra
  committed := l.committed
  length := l.length
  distinct := distinct
  covered := by
    rw [List.length_append]
    exact Nat.le_add_right_of_le l.covered

theorem grown_held (positive : 0 < poolSize) {l : Live poolSize B} (held : Held ops roundScale ape caches l)
    (distinct : (l.pools ++ extra).Nodup) : Held ops roundScale ape caches (l.grown extra distinct) := by
  constructor
  · intro p ends
    have inside := Nat.lt_of_lt_of_le ((whole_pool positive).mp ends) l.covered
    have slot : (blocksOf (l.grown extra distinct)).slots p = (blocksOf l).slots p := by
      rw [own_slot l inside,own_slot _ (Nat.lt_of_lt_of_le inside (by simp [Live.grown]))]
      simp [Live.grown,List.getElem?_append_left inside]
    rw [slot]
    exact held.pools p ends
  · exact held.ring

theorem fresh_held (positive : 0 < poolSize) {l : Live poolSize B} (fresh : l.length = 0) (caches : Caches B S) :
    Held ops roundScale ape caches l := by
  constructor
  · intro p ends
    have whole := (whole_pool positive).mp ends
    rw [fresh,Nat.zero_div] at whole
    exact absurd whole (Nat.not_lt_zero p)
  · intro x _ before
    rw [fresh] at before
    exact absurd before (Nat.not_lt_zero x)

section Turns
variable {table : Table poolSize ReqId B} (zero : Row B)

-- A verify step processes no token past the pool that stays incomplete.
def Turn.Safe (t : Turn table) : Prop :=
  (t.request.length + t.accepted) % poolSize = 0 ∨
    t.request.length + t.rows.length ≤ ((t.request.length + t.accepted) / poolSize + 1) * poolSize

def Forward.Safe (f : Forward table) : Prop := ∀ r t, r < f.numDecodes → f.turns[r]? = some t → t.Safe

theorem own_token (positive : 0 < poolSize) (t : Turn table) (inside : k < t.rows.length) :
    ownToken zero t.toRequest k =
      KpoolRing.tokenAt poolSize (blocksOf t.request) (t.request.length + k) (t.rows.getD k zero) := by
  have slot : poolSlot t.toRequest (t.request.length + k) =
      KpoolRing.poolSlot poolSize (blocksOf t.request) (t.request.length + k) := by
    unfold poolSlot KpoolRing.poolSlot
    split
    · rename_i last
      have room : (t.request.length + k) / poolSize < t.request.pools.length := by
        refine Nat.lt_of_lt_of_le ((whole_pool positive).mp ?_) t.allocated
        rw [KpoolRing.pool_end poolSize positive last]
        omega
      rw [own_slot t.request room]
      rfl
    · rfl
  exact congrArg (fun slot => (⟨slot,_,_,_⟩ : Token B)) slot

theorem decode_program (positive : 0 < poolSize) (t : Turn table) (caches : Caches B S) :
    ownDecode ops roundScale ape zero t.toRequest caches =
      kpoolDecodeUpdateBatched ops roundScale ape poolSize (KpoolRing.gridTokens poolSize (blocksOf t.request)
        t.request.length (fun k => t.rows.getD k zero) t.rows.length) t.rows.length caches := by
  refine OwnedRegions.run_same _ caches fun k listed caches => ?_
  have inside := List.mem_range.mp listed
  rw [own_token zero positive t inside,KpoolRing.gridTokens,if_pos (show k < t.rows.length from inside)]
  rfl

theorem decode_held (positive : 0 < poolSize) (t : Turn table) (held : Held ops roundScale ape caches t.request)
    (sampled : 1 ≤ t.accepted) (safe : t.Safe) :
    Held ops roundScale ape (ownDecode ops roundScale ape zero t.toRequest caches) (t.after zero) := by
  rw [decode_program ops roundScale ape zero positive]
  exact KpoolRing.verify_holds ops roundScale ape poolSize (blocksOf t.request) positive
    ⟨caches,t.request.committed,t.request.length⟩ _ t.rows.length t.rows.length t.accepted held
    ⟨sampled,t.within,Nat.le_refl _⟩ safe

theorem own_seed (positive : 0 < poolSize) (t : Turn table) (k : Nat) :
    ownSeed (S := S) zero t.toRequest k = seedEffect poolSize
      (fun k => KpoolRing.tokenAt poolSize (blocksOf t.request) (t.request.length + k) (t.rows.getD k zero))
      t.rows.length k := by
  have stored := congrArg (fun entry : Option (Nat × Row B) =>
      entry.elim (Effect.idle : Effect B S) fun entry => .seed entry.1 entry.2)
    (KpoolRing.seed_stored poolSize (blocksOf t.request) positive (fun k => t.rows.getD k zero) t.request.length
      t.rows.length k)
  dsimp only at stored
  rw [apply_ite (fun entry : Option (Nat × Row B) => entry.elim (Effect.idle : Effect B S) _),
    apply_ite (fun entry : Option (Nat × Row B) => entry.elim (Effect.idle : Effect B S) _)] at stored
  exact stored.symm

theorem prefill_held (positive : 0 < poolSize) (t : Turn table) (held : Held ops roundScale ape caches t.request)
    (aligned : poolSize ∣ t.request.length) (whole : t.accepted = t.rows.length) :
    Held ops roundScale ape (ownPrefill ops roundScale ape zero t.toRequest caches) (t.after zero) := by
  have step := KpoolRing.prefill_holds ops roundScale ape poolSize (blocksOf t.request) positive
    ⟨caches,t.request.committed,t.request.length⟩ (fun k => t.rows.getD k zero) t.rows.length held aligned
  have pools : OwnedRegions.run (fun k => apply ops roundScale ape poolSize
      (poolEffect ops roundScale ape poolSize (ownToken zero t.toRequest) k)) (List.range t.rows.length) caches =
      OwnedRegions.run (fun k => apply ops roundScale ape poolSize (poolEffect ops roundScale ape poolSize
        (fun k => KpoolRing.tokenAt poolSize (blocksOf t.request) (t.request.length + k) (t.rows.getD k zero)) k))
        (List.range t.rows.length) caches := by
    refine OwnedRegions.run_same _ caches fun k listed caches => ?_
    have inside := List.mem_range.mp listed
    unfold poolEffect
    rw [own_token zero positive t inside]
    rfl
  have written : ownPrefill ops roundScale ape zero t.toRequest caches =
      (KpoolRing.prefillStep ops roundScale ape poolSize (blocksOf t.request)
        ⟨caches,t.request.committed,t.request.length⟩ (fun k => t.rows.getD k zero) t.rows.length).caches := by
    unfold ownPrefill
    rw [show t.toRequest.rows = t.rows from rfl,pools,pools_run ops roundScale ape positive]
    simp only [own_seed zero positive]
    rw [seeds_run ops roundScale ape]
    rfl
  rw [written]
  have length : (t.after zero).length = t.request.length + t.rows.length := congrArg (t.request.length + ·) whole
  unfold Held
  rw [length]
  exact step

def Reads (caches : Caches B S) (t : Turn table) : Prop :=
  ∀ p < (t.request.length + t.rows.length) / poolSize, caches.index (t.request.pools.getD p 0) =
    compressPool ops roundScale ape (pool poolSize (t.after zero).committed p)

theorem holds_read (positive : 0 < poolSize) (t : Turn table)
    (holds : Holds ops roundScale ape poolSize (blocksOf t.request) caches (t.after zero).committed
      (t.request.length + t.rows.length) low) : Reads ops roundScale ape zero caches t := by
  intro p whole
  rw [← holds.pools p ((whole_pool positive).mpr whole),own_slot t.request (Nat.lt_of_lt_of_le whole t.allocated)]

theorem after_committed (t : Turn table) : (t.after zero).committed =
    extend t.request.committed (fun k => t.rows.getD k zero) t.request.length := rfl

theorem after_old (t : Turn table) (before : x < t.request.length) :
    (t.after zero).committed x = t.request.committed x := by
  rw [after_committed]
  exact KpoolRing.extended_old before

theorem after_new (t : Turn table) (k : Nat) : (t.after zero).committed (t.request.length + k) = t.rows.getD k zero := by
  rw [after_committed]
  exact KpoolRing.extended_new _ _ _ k

theorem decode_reads (positive : 0 < poolSize) (t : Turn table) (held : Held ops roundScale ape caches t.request) :
    Reads ops roundScale ape zero (ownDecode ops roundScale ape zero t.toRequest caches) t := by
  have before : Holds ops roundScale ape poolSize (blocksOf t.request) caches (t.after zero).committed t.request.length
      (t.request.length / poolSize * poolSize) := by
    constructor
    · intro p ends
      rw [held.pools p ends]
      exact congrArg _ (KpoolRing.pool_congr poolSize fun x inside => (after_old zero t (by omega)).symm)
    · intro x first inside near
      exact (held.ring x first inside near).trans (after_old zero t inside).symm
  have processed := KpoolRing.decode_loop_holds ops roundScale ape poolSize (blocksOf t.request) positive _
    (fun k => t.rows.getD k zero) t.request.length t.rows.length t.rows.length before (Nat.le_refl _)
    fun k _ => (after_new zero t k).symm
  rw [Nat.min_self,← decode_program ops roundScale ape zero positive] at processed
  exact holds_read ops roundScale ape zero positive t processed

theorem prefill_reads (positive : 0 < poolSize) (t : Turn table) (held : Held ops roundScale ape caches t.request)
    (aligned : poolSize ∣ t.request.length) (whole : t.accepted = t.rows.length) :
    Reads ops roundScale ape zero (ownPrefill ops roundScale ape zero t.toRequest caches) t := by
  have after := prefill_held ops roundScale ape zero positive t held aligned whole
  have length : (t.after zero).length = t.request.length + t.rows.length := congrArg (t.request.length + ·) whole
  unfold Held at after
  rw [length] at after
  exact holds_read ops roundScale ape zero positive t after

section Batches
variable {steps : List (Nat × Nat)} {r : Nat}

theorem turn_request (f : Forward table) {t : Turn table} (found : f.turns[r]? = some t) :
    f.batch.requests[r]? = some t.toRequest := by
  show (f.turns.map Turn.toRequest)[r]? = _
  rw [List.getElem?_map,found]
  rfl

theorem phase_turn (positive : 0 < poolSize) (f : Forward table)
    (scheduled : Schedule f.batch.numDecodes (launchWidth f.batch) steps) {t : Turn table}
    (found : f.turns[r]? = some t) (caches : Caches B S) :
    let own := if r < f.numDecodes then ownDecode ops roundScale ape zero t.toRequest caches
      else ownPrefill ops roundScale ape zero t.toRequest caches
    let written := writePhase zero f.batch ops roundScale ape steps caches
    (∀ p < t.request.pools.length, written.index (t.request.pools.getD p 0) = own.index (t.request.pools.getD p 0)) ∧
      ∀ place, place / poolSize = t.request.tailBlock → written.tail place = own.tail place := by
  have agree := phase_own ops roundScale ape zero positive scheduled (turn_request f found) caches
  refine ⟨fun p inside => agree.1 _ ⟨_,turn_request f found,?_⟩,fun place block =>
    agree.2 place ⟨_,turn_request f found,block.symm⟩⟩
  show _ ∈ t.request.pools
  rw [List.getD_eq_getElem?_getD,List.getElem?_eq_getElem inside]
  exact List.getElem_mem inside

theorem phase_other [DecidableEq ReqId] (positive : 0 < poolSize) (f : Forward table)
    (scheduled : Schedule f.batch.numDecodes (launchWidth f.batch) steps) {l : Live poolSize B}
    (listed : table.live reqId = some l) (absent : f.turn reqId = none) (caches : Caches B S) :
    Same l (writePhase zero f.batch ops roundScale ape steps caches) caches := by
  have agree := phase_rest ops roundScale ape zero positive scheduled caches
  have apart : ∀ (r : Nat) q, f.batch.requests[r]? = some q →
      q.tailBlock ≠ l.tailBlock ∧ q.pools.Disjoint l.pools := by
    intro r q found
    rw [show f.batch.requests = f.turns.map Turn.toRequest from rfl,List.getElem?_map] at found
    obtain ⟨t,among,rfl⟩ := Option.map_eq_some_iff.mp found
    refine table.apart t.id reqId _ l t.listed listed ?_
    have other := List.find?_eq_none.mp absent t (List.mem_of_getElem? among)
    simpa using other
  constructor
  · intro p whole
    refine agree.1 _ ?_
    rintro r ⟨q,found,mine⟩
    refine (apart r q found).2 mine ?_
    have inside := Nat.lt_of_lt_of_le whole l.covered
    rw [List.getD_eq_getElem?_getD,List.getElem?_eq_getElem inside]
    exact List.getElem_mem inside
  · intro _ place block
    refine agree.2 place ?_
    rintro r ⟨q,found,mine⟩
    exact (apart r q found).1 (mine.trans block)

end Batches

end Turns

-- What the runner keeps between steps.
structure Serving (poolSize : Nat) (ReqId B S : Type) where
  caches : Caches B S
  table : Table poolSize ReqId B

section Runs
variable (zero : Row B)

def Coherent (s : Serving poolSize ReqId B S) : Prop :=
  ∀ id l, s.table.live id = some l → Held ops roundScale ape s.caches l

theorem forward_reads {s : Serving poolSize ReqId B S} (positive : 0 < poolSize)
    (coherent : Coherent ops roundScale ape s) (f : Forward s.table)
    (scheduled : Schedule f.batch.numDecodes (launchWidth f.batch) steps) {t : Turn s.table} (member : t ∈ f.turns) :
    Reads ops roundScale ape zero (writePhase zero f.batch ops roundScale ape steps s.caches) t := by
  obtain ⟨r,among⟩ := List.mem_iff_getElem?.mp member
  have pools := (phase_turn ops roundScale ape zero positive f scheduled among s.caches).1
  have before := coherent t.id t.request t.listed
  intro p whole
  rw [pools p (Nat.lt_of_lt_of_le whole t.allocated)]
  split
  · exact decode_reads ops roundScale ape zero positive t before p whole
  · rename_i prefill
    obtain ⟨aligned,all⟩ := f.chunked r t (Nat.le_of_not_lt prefill) among
    exact prefill_reads ops roundScale ape zero positive t before aligned all p whole

variable [DecidableEq ReqId]

-- A request is added without tokens, also again after it was preempted. Whatever
-- no request has written may change (new blocks are zeroed).
inductive Step (s : Serving poolSize ReqId B S) : Serving poolSize ReqId B S → Prop
  | addRequest (reqId : ReqId) (l : Live poolSize B) (fresh : l.length = 0) (free : Free s.table reqId l) :
      Step s ⟨s.caches,s.table.put reqId l free⟩
  | appendBlockIds (reqId : ReqId) (l : Live poolSize B) (listed : s.table.live reqId = some l) (extra : List Nat)
      (distinct : (l.pools ++ extra).Nodup) (free : Free s.table reqId (l.grown extra distinct)) :
      Step s ⟨s.caches,s.table.put reqId (l.grown extra distinct) free⟩
  | removeRequest (reqId : ReqId) : Step s ⟨s.caches,s.table.drop reqId⟩
  | rewriteFree (caches : Caches B S) (apart : ∀ id l, s.table.live id = some l → Same l s.caches caches) :
      Step s ⟨caches,s.table⟩
  | forward (f : Forward s.table) (safe : f.Safe) (steps : List (Nat × Nat))
      (scheduled : Schedule f.batch.numDecodes (launchWidth f.batch) steps) :
      Step s ⟨writePhase zero f.batch ops roundScale ape steps s.caches,f.after zero⟩

-- From no request, whatever the caches hold.
inductive Reached (caches : Caches B S) : Serving poolSize ReqId B S → Prop
  | start : Reached caches ⟨caches,Table.empty⟩
  | step (reached : Reached caches s) (step : Step ops roundScale ape zero s s') : Reached caches s'

variable {s s' : Serving poolSize ReqId B S}

theorem put_held {table : Table poolSize ReqId B} {l : Live poolSize B} (free : Free table reqId l)
    (own : Held ops roundScale ape caches l)
    (others : ∀ id l, table.live id = some l → Held ops roundScale ape caches l) :
    ∀ id l', (table.put reqId l free).live id = some l' → Held ops roundScale ape caches l' := by
  intro id l' listed
  replace listed : (if id = reqId then some l else table.live id) = some l' := listed
  split at listed
  · cases listed
    exact own
  · exact others id l' listed

theorem forward_held (positive : 0 < poolSize) (coherent : Coherent ops roundScale ape s) (f : Forward s.table)
    (safe : f.Safe) (scheduled : Schedule f.batch.numDecodes (launchWidth f.batch) steps) :
    Coherent ops roundScale ape ⟨writePhase zero f.batch ops roundScale ape steps s.caches,f.after zero⟩ := by
  intro id l listed
  replace listed : f.live zero id = some l := listed
  unfold Forward.live at listed
  cases found : f.turn id with
  | none =>
      rw [found] at listed
      have rest := phase_other ops roundScale ape zero positive f scheduled listed found s.caches
      exact held_congr ops roundScale ape positive (coherent id l listed)
        ⟨fun p whole => (rest.1 p whole).symm,fun written place block => (rest.2 written place block).symm⟩
  | some t =>
      rw [found] at listed
      cases listed
      obtain ⟨⟨r,among⟩,rfl⟩ := turn_listed f found
      obtain ⟨pools,tail⟩ := phase_turn ops roundScale ape zero positive f scheduled among s.caches
      have before := coherent t.id t.request t.listed
      have own : Held ops roundScale ape (if r < f.numDecodes then ownDecode ops roundScale ape zero t.toRequest s.caches
          else ownPrefill ops roundScale ape zero t.toRequest s.caches) (t.after zero) := by
        split
        · rename_i decode
          exact decode_held ops roundScale ape zero positive t before (f.sampled r t decode among) (safe r t decode among)
        · rename_i prefill
          obtain ⟨aligned,whole⟩ := f.chunked r t (Nat.le_of_not_lt prefill) among
          exact prefill_held ops roundScale ape zero positive t before aligned whole
      refine held_congr ops roundScale ape positive own ⟨fun p whole => (pools p ?_).symm,fun _ place block =>
        (tail place block).symm⟩
      exact Nat.lt_of_lt_of_le whole (t.after zero).covered

theorem step_coherent (positive : 0 < poolSize) (coherent : Coherent ops roundScale ape s)
    (step : Step ops roundScale ape zero s s') : Coherent ops roundScale ape s' := by
  cases step with
  | addRequest reqId l fresh free =>
      exact put_held ops roundScale ape free (fresh_held ops roundScale ape positive fresh _) coherent
  | appendBlockIds reqId l listed extra distinct free =>
      have grown := grown_held ops roundScale ape positive (coherent reqId l listed) distinct
      exact put_held ops roundScale ape free grown coherent
  | removeRequest reqId =>
      intro id l listed
      replace listed : (if id = reqId then none else s.table.live id) = some l := listed
      split at listed
      · cases listed
      · exact coherent id l listed
  | rewriteFree caches apart =>
      intro id l listed
      exact held_congr ops roundScale ape positive (coherent id l listed) (apart id l listed)
  | forward f safe steps scheduled => exact forward_held ops roundScale ape zero positive coherent f safe scheduled

theorem reached_coherent (positive : 0 < poolSize) (reached : Reached ops roundScale ape zero caches s) :
    Coherent ops roundScale ape s := by
  induction reached with
  | start =>
      intro id l listed
      cases listed
  | step _ step ih => exact step_coherent ops roundScale ape zero positive ih step

-- Between steps every request has its whole pools in its slots, and a forward
-- reads those of all the tokens it runs, whatever it goes on to reject.
theorem serving_exact (positive : 0 < poolSize) (reached : Reached ops roundScale ape zero caches s) :
    (∀ id l, s.table.live id = some l → ∀ p < l.length / poolSize,
      s.caches.index (l.pools.getD p 0) = compressPool ops roundScale ape (pool poolSize l.committed p)) ∧
    ∀ (f : Forward s.table) (steps : List (Nat × Nat)), Schedule f.batch.numDecodes (launchWidth f.batch) steps →
      ∀ t ∈ f.turns, Reads ops roundScale ape zero (writePhase zero f.batch ops roundScale ape steps s.caches) t := by
  have coherent := reached_coherent ops roundScale ape zero positive reached
  constructor
  · intro id l listed p whole
    exact held_pool ops roundScale ape positive (coherent id l listed) whole
  · intro f steps scheduled t member
    exact forward_reads ops roundScale ape zero positive coherent f scheduled member

end Runs

end Caches

theorem two_slots : ([4,6] : List Nat).Nodup := by decide

def newRequest : Live 2 Int := ⟨3,[4,6],fun _ => KpoolRing.zeroRow,0,two_slots,Nat.zero_le 2⟩

theorem new_free : Free (Table.empty : Table 2 Nat Int) 7 newRequest := fun _ _ _ held => by cases held

def promptTable : Table 2 Nat Int := Table.empty.put 7 newRequest new_free

def promptTurn : Turn promptTable :=
  ⟨7,newRequest,rfl,[KpoolRing.zeroRow,KpoolRing.spikeRow,KpoolRing.zeroRow],3,Nat.le_refl 3,Nat.one_le_ofNat⟩

theorem alone_once (id : Nat) : ([id] : List Nat).Nodup := List.nodup_singleton id

theorem prompt_chunked (r : Nat) (t : Turn promptTable) (_ : 0 ≤ r) (found : [promptTurn][r]? = some t) :
    2 ∣ t.request.length ∧ t.accepted = t.rows.length := by
  obtain ⟨inside,rfl⟩ := List.getElem?_eq_some_iff.mp found
  obtain rfl : r = 0 := Nat.lt_one_iff.mp inside
  exact ⟨⟨0,rfl⟩,rfl⟩

def promptForward : Forward promptTable where
  turns := [promptTurn]
  numDecodes := 0
  decodesFirst := Nat.zero_le 1
  once := alone_once 7
  sampled _ _ decode := absurd decode (Nat.not_lt_zero _)
  chunked := prompt_chunked

def afterPrompt : Table 2 Nat Int := promptForward.after KpoolRing.zeroRow

def verifyTurn : Turn afterPrompt :=
  ⟨7,promptTurn.after KpoolRing.zeroRow,rfl,[KpoolRing.spikeRow,KpoolRing.zeroRow],1,Nat.one_le_ofNat,Nat.le_refl 2⟩

theorem verify_first (found : [verifyTurn][r]? = some t) : r < 1 ∧ t = verifyTurn := by
  obtain ⟨inside,rfl⟩ := List.getElem?_eq_some_iff.mp found
  obtain rfl : r = 0 := Nat.lt_one_iff.mp inside
  exact ⟨inside,rfl⟩

theorem verify_sampled (r : Nat) (t : Turn afterPrompt) (_ : r < 1) (found : [verifyTurn][r]? = some t) :
    1 ≤ t.accepted := by
  rw [(verify_first found).2]
  exact Nat.le_refl 1

theorem verify_decodes (r : Nat) (t : Turn afterPrompt) (prefill : 1 ≤ r) (found : [verifyTurn][r]? = some t) :
    2 ∣ t.request.length ∧ t.accepted = t.rows.length := absurd (verify_first found).1 (Nat.not_lt_of_le prefill)

theorem verify_counted : 1 ≤ [verifyTurn].length := Nat.le_refl 1

def verifyForward : Forward afterPrompt where
  turns := [verifyTurn]
  numDecodes := 1
  decodesFirst := verify_counted
  once := alone_once 7
  sampled := verify_sampled
  chunked := verify_decodes

theorem verify_safe : verifyForward.Safe := by
  intro r t _ found
  rw [(verify_first found).2]
  exact Or.inl rfl

theorem prompt_scheduled : Schedule promptForward.batch.numDecodes (launchWidth promptForward.batch) [] :=
  ⟨fun _ bound => absurd bound (Nat.not_lt_zero _),fun _ member => by cases member⟩

theorem verify_scheduled : Schedule verifyForward.batch.numDecodes (launchWidth verifyForward.batch) [(0,0),(0,1)] := by
  constructor
  · intro r bound
    obtain rfl : r = 0 := Nat.lt_one_iff.mp bound
    rfl
  · decide

def anyCaches : Caches Int ℚ := ⟨fun _ => ⟨[],2⟩,fun _ => KpoolRing.spikeRow⟩

def promptCaches : Caches Int ℚ :=
  writePhase KpoolRing.zeroRow promptForward.batch KpoolRing.ratOps true KpoolRing.zeroApe [] anyCaches

def verifyCaches : Caches Int ℚ :=
  writePhase KpoolRing.zeroRow verifyForward.batch KpoolRing.ratOps true KpoolRing.zeroApe [(0,0),(0,1)] promptCaches

theorem prompt_reached : Reached KpoolRing.ratOps true KpoolRing.zeroApe KpoolRing.zeroRow anyCaches
    ⟨promptCaches,afterPrompt⟩ := by
  have added : Reached KpoolRing.ratOps true KpoolRing.zeroApe KpoolRing.zeroRow anyCaches ⟨anyCaches,promptTable⟩ :=
    .step .start (.addRequest 7 newRequest rfl new_free)
  refine .step added ?_
  refine Step.forward (s := ⟨anyCaches,promptTable⟩) promptForward ?_ [] prompt_scheduled
  exact fun _ _ decode => absurd decode (Nat.not_lt_zero _)

theorem verify_reached : Reached KpoolRing.ratOps true KpoolRing.zeroApe KpoolRing.zeroRow anyCaches
    ⟨verifyCaches,verifyForward.after KpoolRing.zeroRow⟩ := by
  refine .step prompt_reached ?_
  exact Step.forward (s := ⟨promptCaches,afterPrompt⟩) verifyForward verify_safe _ verify_scheduled

theorem serving_exact_verified :
    verifyCaches.index 4 = compressPool KpoolRing.ratOps true KpoolRing.zeroApe [KpoolRing.zeroRow,KpoolRing.spikeRow] ∧
    verifyCaches.index 6 = compressPool KpoolRing.ratOps true KpoolRing.zeroApe [KpoolRing.zeroRow,KpoolRing.spikeRow] := by
  have served := (serving_exact KpoolRing.ratOps true KpoolRing.zeroApe KpoolRing.zeroRow (by decide)
    verify_reached).1 7 (verifyTurn.after KpoolRing.zeroRow) rfl
  exact ⟨served 0 (by decide),served 1 (by decide)⟩

end Glm5Next.KpoolServing
