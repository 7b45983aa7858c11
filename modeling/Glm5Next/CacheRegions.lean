import Glm5Next.KpoolCompress
import Glm5Next.OwnedRegions
import Glm5Next.Ragged

namespace Glm5Next.CacheRegions
open KpoolCompress StoreWrites OwnedRegions

-- One program of the write phase: a pool of the prefill writer, a seeded token,
-- an iteration of the decode kernel, or one that returns at once.
inductive Effect (B S : Type) where
  | idle
  | pool (slot : Nat) (entry : Entry S)
  | seed (place : Nat) (row : Row B)
  | token (token : Token B)

-- The pool slots and the tail blocks of one owner.
structure Territory where
  slots : Nat → Prop
  blocks : Nat → Prop

def withRest (territory : Region → Territory) : Option Region → Territory
  | some r => territory r
  | none => ⟨fun slot => ∀ r, ¬ (territory r).slots slot,fun block => ∀ r, ¬ (territory r).blocks block⟩

section Effects
variable {B S Step Region : Type} (ops : FloatOps B S) (roundScale : Bool) (ape : List (List S)) (poolSize : Nat)

def apply : Effect B S → Caches B S → Caches B S
  | .idle,caches => caches
  | .pool slot entry,caches => { caches with index := write caches.index (slot,entry) }
  | .seed place row,caches => { caches with tail := write caches.tail (place,row) }
  | .token token,caches => decodeToken ops roundScale ape poolSize caches token

def Agree (own : Territory) (caches caches' : Caches B S) : Prop :=
  (∀ slot, own.slots slot → caches.index slot = caches'.index slot) ∧
    ∀ place, own.blocks (place / poolSize) → caches.tail place = caches'.tail place

-- A token without a slot of either kind does nothing and belongs to everybody.
def Belongs (own : Territory) : Effect B S → Prop
  | .idle => True
  | .pool slot _ => own.slots slot
  | .seed place _ => own.blocks (place / poolSize)
  | .token token => 0 ≤ token.pos → 0 ≤ token.slot ∨ 0 ≤ token.tailSlot →
      own.blocks (token.tailSlot.toNat / poolSize) ∧
        (0 ≤ token.slot → token.pos.toNat % poolSize = poolSize - 1 → own.slots token.slot.toNat)

def Apart (territory : Region → Territory) : Prop :=
  ∀ r r', r ≠ r' → (∀ slot, (territory r).slots slot → ¬ (territory r').slots slot) ∧
    ∀ block, (territory r).blocks block → ¬ (territory r').blocks block

theorem apart_rest {territory : Region → Territory} (apart : Apart territory) : Apart (withRest territory) := by
  intro r r' other
  cases r with
  | none =>
      cases r' with
      | none => exact absurd rfl other
      | some r' => exact ⟨fun _ nobody => nobody r',fun _ nobody => nobody r'⟩
  | some r =>
      cases r' with
      | none => exact ⟨fun _ own nobody => nobody r own,fun _ own nobody => nobody r own⟩
      | some r' => exact apart r r' fun same => other (congrArg some same)

def completes (token : Token B) : Prop := (token.slot ≥ 0 ∧ token.pos ≥ 0) ∧ token.pos.toNat % poolSize = poolSize - 1

instance (token : Token B) : Decidable (completes poolSize token) := inferInstanceAs (Decidable (_ ∧ _))

def ringPool (tail : Nat → Row B) (token : Token B) : List (Row B) :=
  (List.range poolSize).map fun poolSlot =>
    if poolSlot = token.pos.toNat % poolSize then token.row
    else tail (token.tailSlot.toNat / poolSize * poolSize +
      (token.pos.toNat - token.pos.toNat % poolSize + poolSlot) % poolSize)

def place (token : Token B) : Nat := token.tailSlot.toNat / poolSize * poolSize + token.pos.toNat % poolSize

theorem token_index (caches : Caches B S) (token : Token B) :
    (decodeToken ops roundScale ape poolSize caches token).index =
      if completes poolSize token then
        write caches.index (token.slot.toNat,compressPool ops roundScale ape (ringPool poolSize caches.tail token))
      else caches.index := rfl

theorem token_tail (caches : Caches B S) (token : Token B) :
    (decodeToken ops roundScale ape poolSize caches token).tail =
      if token.pos ≥ 0 ∧ token.tailSlot ≥ 0 then write caches.tail (place poolSize token,token.row)
      else caches.tail := by
  rw [← stashed_exact ops token.row]
  rfl

theorem place_block (positive : 0 < poolSize) (token : Token B) :
    place poolSize token / poolSize = token.tailSlot.toNat / poolSize := Ragged.grid_row (Nat.mod_lt _ positive)

theorem written_apart {store : Nat → V} (apart : a ≠ entry.1) : write store entry a = store a := if_neg apart

theorem written_same {store store' : Nat → V} (agree : store a = store' a) :
    write store entry a = write store' entry a := by
  unfold write
  split
  · rfl
  · exact agree

theorem agree_trans (own : Territory) (a b c : Caches B S) (first : Agree poolSize own a b)
    (second : Agree poolSize own b c) : Agree poolSize own a c :=
  ⟨fun slot mine => (first.1 slot mine).trans (second.1 slot mine),
    fun place mine => (first.2 place mine).trans (second.2 place mine)⟩

theorem effect_keeps (positive : 0 < poolSize) {territory : Region → Territory} (apart : Apart territory)
    (other : r ≠ r') (effect : Effect B S) (belongs : Belongs poolSize (territory r) effect) (caches : Caches B S) :
    Agree poolSize (territory r') (apply ops roundScale ape poolSize effect caches) caches := by
  obtain ⟨slotsApart,blocksApart⟩ := apart r r' other
  cases effect with
  | idle => exact ⟨fun _ _ => rfl,fun _ _ => rfl⟩
  | pool slot entry =>
      refine ⟨fun a mine => ?_,fun _ _ => rfl⟩
      apply written_apart
      rintro rfl
      exact slotsApart _ belongs mine
  | seed place row =>
      refine ⟨fun _ _ => rfl,fun a mine => ?_⟩
      apply written_apart
      rintro rfl
      exact blocksApart _ belongs mine
  | token token =>
      constructor
      · intro a mine
        show (decodeToken ops roundScale ape poolSize caches token).index a = caches.index a
        rw [token_index]
        split
        · rename_i ends
          apply written_apart
          rintro rfl
          exact slotsApart _ ((belongs ends.1.2 (Or.inl ends.1.1)).2 ends.1.1 ends.2) mine
        · rfl
      · intro a mine
        show (decodeToken ops roundScale ape poolSize caches token).tail a = caches.tail a
        rw [token_tail]
        split
        · rename_i stashed
          apply written_apart
          rintro rfl
          have block := (belongs stashed.1 (Or.inr stashed.2)).1
          rw [← place_block poolSize positive token] at block
          exact blocksApart _ block mine
        · rfl

theorem effect_reads (positive : 0 < poolSize) (own : Territory) (effect : Effect B S)
    (belongs : Belongs poolSize own effect) (agree : Agree poolSize own caches caches') :
    Agree poolSize own (apply ops roundScale ape poolSize effect caches)
      (apply ops roundScale ape poolSize effect caches') := by
  cases effect with
  | idle => exact agree
  | pool slot entry => exact ⟨fun a mine => written_same (agree.1 a mine),agree.2⟩
  | seed place row => exact ⟨agree.1,fun a mine => written_same (agree.2 a mine)⟩
  | token token =>
      constructor
      · intro a mine
        show (decodeToken ops roundScale ape poolSize caches token).index a =
          (decodeToken ops roundScale ape poolSize caches' token).index a
        rw [token_index,token_index]
        split
        · rename_i ends
          have block := (belongs ends.1.2 (Or.inl ends.1.1)).1
          have rows : ringPool poolSize caches.tail token = ringPool poolSize caches'.tail token := by
            apply List.map_congr_left
            intro s listed
            split
            · rfl
            · apply agree.2
              rw [Ragged.grid_row (Nat.mod_lt _ positive)]
              exact block
          rw [rows]
          exact written_same (agree.1 a mine)
        · exact agree.1 a mine
      · intro a mine
        show (decodeToken ops roundScale ape poolSize caches token).tail a =
          (decodeToken ops roundScale ape poolSize caches' token).tail a
        rw [token_tail,token_tail]
        split
        · exact written_same (agree.2 a mine)
        · exact agree.2 a mine

theorem effects_owned (positive : 0 < poolSize) {territory : Region → Territory} (apart : Apart territory)
    (effect : Step → Effect B S) (owner : Step → Region) :
    Owned (fun step => apply ops roundScale ape poolSize (effect step)) owner
      (fun r => Agree poolSize (territory r)) (fun step => Belongs poolSize (territory (owner step)) (effect step)) where
  refl := fun _ _ => ⟨fun _ _ => rfl,fun _ _ => rfl⟩
  trans := fun r => agree_trans poolSize (territory r)
  keeps := fun step belongs _ other caches =>
    effect_keeps ops roundScale ape poolSize positive apart other (effect step) belongs caches
  reads := fun step belongs _ _ agree =>
    effect_reads ops roundScale ape poolSize positive (territory (owner step)) (effect step) belongs agree

end Effects

end Glm5Next.CacheRegions
