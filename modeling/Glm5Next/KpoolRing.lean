import Glm5Next.Fp8Codec
import Glm5Next.KpoolCompress
import Glm5Next.Ragged
import Mathlib.Data.Nat.ModEq
import Mathlib.Data.Rat.Floor

namespace Glm5Next.KpoolRing
open KpoolCompress StoreWrites

-- The blocks a request holds: its one tail block, and an index slot for every
-- pool, all of them different.
structure Blocks where
  tailBlock : Nat
  slots : Nat → Nat
  distinct : ∀ p q, slots p = slots q → p = q

section Request
variable {B S : Type} (ops : FloatOps B S) (roundScale : Bool) (ape : List (List S)) (poolSize : Nat)
  (blocks : Blocks)

-- The pool-granular slot mapping: only the last token of a pool has a slot.
def poolSlot (pos : Nat) : Int := if pos % poolSize = poolSize - 1 then blocks.slots (pos / poolSize) else -1

-- own_block * kpool + pos % kpool
def tailSlot (pos : Nat) : Int := (blocks.tailBlock * poolSize + pos % poolSize : Nat)

def tokenAt (pos : Nat) (row : Row B) : Token B := ⟨poolSlot poolSize blocks pos,pos,tailSlot poolSize blocks pos,row⟩

-- The committed tokens are those below `length`.
structure State (B S : Type) where
  caches : Caches B S
  committed : Nat → Row B
  length : Nat

-- A prefill step writes `count` prompt tokens; a verify step processes `count`
-- tokens, in a grid `width` wide, and `accepted` of them stay.
inductive Action (B : Type) where
  | prefill (rows : Nat → Row B) (count : Nat)
  | verify (rows : Nat → Row B) (count width accepted : Nat)

-- Prefill chunks start at a pool boundary.
def Allowed (s : State B S) : Action B → Prop
  | .prefill _ _ => poolSize ∣ s.length
  | .verify _ count width accepted => 1 ≤ accepted ∧ accepted ≤ count ∧ count ≤ width

def extend (committed rows : Nat → Row B) (length : Nat) : Nat → Row B :=
  fun pos => if pos < length then committed pos else rows (pos - length)

def prefillStep (s : State B S) (rows : Nat → Row B) (count : Nat) : State B S :=
  let tokens := fun i => tokenAt poolSize blocks (s.length + i) (rows i)
  { caches :=
      ⟨kpoolCompressInsert ops roundScale ape poolSize tokens count s.caches.index,
        kpoolSeedTailCache poolSize tokens count s.caches.tail⟩
    committed := extend s.committed rows s.length
    length := s.length + count }

def gridTokens (length : Nat) (rows : Nat → Row B) (count t : Nat) : Token B :=
  if t < count then tokenAt poolSize blocks (length + t) (rows t) else ⟨-1,-1,-1,rows t⟩

def verifyStep (s : State B S) (rows : Nat → Row B) (count width accepted : Nat) : State B S :=
  { caches := kpoolDecodeUpdateBatched ops roundScale ape poolSize (gridTokens poolSize blocks s.length rows count)
      width s.caches
    committed := extend s.committed rows s.length
    length := s.length + accepted }

def step (s : State B S) : Action B → State B S
  | .prefill rows count => prefillStep ops roundScale ape poolSize blocks s rows count
  | .verify rows count width accepted => verifyStep ops roundScale ape poolSize blocks s rows count width accepted

-- The states reached by steps that keep a rule.
inductive Run (rule : State B S → Action B → Prop) (start : State B S) : List (Action B) → State B S → Prop
  | start : Run rule start [] start
  | step (run : Run rule start actions s) (kept : rule s action) :
      Run rule start (actions ++ [action]) (step ops roundScale ape poolSize blocks s action)

def pool (committed : Nat → Row B) (p : Nat) : List (Row B) :=
  (List.range poolSize).map fun s => committed (p * poolSize + s)

def Correct (s : State B S) : Prop :=
  ∀ p, (p + 1) * poolSize ≤ s.length →
    s.caches.index (blocks.slots p) = compressPool ops roundScale ape (pool poolSize s.committed p)

-- No processed token is of a pool after the one that stays incomplete.
def Safe (s : State B S) : Action B → Prop
  | .prefill _ _ => True
  | .verify _ count _ accepted =>
    (s.length + accepted) % poolSize = 0 ∨ s.length + count ≤ ((s.length + accepted) / poolSize + 1) * poolSize

-- What the caches hold of the sequence `rows` below position `q`: the whole
-- pools, and from `low` on the last pool_size tokens in the ring.
structure Holds (caches : Caches B S) (rows : Nat → Row B) (q low : Nat) : Prop where
  pools : ∀ p, (p + 1) * poolSize ≤ q →
    caches.index (blocks.slots p) = compressPool ops roundScale ape (pool poolSize rows p)
  ring : ∀ x, low ≤ x → x < q → q ≤ x + poolSize →
    caches.tail (blocks.tailBlock * poolSize + x % poolSize) = rows x

def Invariant (s : State B S) : Prop :=
  Holds ops roundScale ape poolSize blocks s.caches s.committed s.length (s.length / poolSize * poolSize)

theorem pool_congr (same : ∀ x, x < (p + 1) * poolSize → rows x = rows' x) :
    pool poolSize rows p = pool poolSize rows' p := by
  apply List.map_congr_left
  intro s listed
  apply same
  have inside := List.mem_range.mp listed
  rw [Nat.succ_mul]
  omega

theorem tail_block (positive : 0 < poolSize) (pos : Nat) :
    (tailSlot poolSize blocks pos).toNat / poolSize = blocks.tailBlock := by
  rw [tailSlot,Int.toNat_natCast,Ragged.grid_row (Nat.mod_lt _ positive)]

theorem offsets_apart (before : x < q) (near : q < x + poolSize) : x % poolSize ≠ q % poolSize := by
  intro same
  have divides : poolSize ∣ q - x := (Nat.modEq_iff_dvd' (Nat.le_of_lt before)).mp same
  have bound := Nat.le_of_dvd (by omega) divides
  omega

theorem pool_end (positive : 0 < poolSize) (last : q % poolSize = poolSize - 1) : (q / poolSize + 1) * poolSize = q + 1 := by
  have split := Nat.div_add_mod q poolSize
  rw [Nat.succ_mul,Nat.mul_comm]
  omega

theorem last_of_pool (positive : 0 < poolSize) (ends : (p + 1) * poolSize = q + 1) :
    q % poolSize = poolSize - 1 ∧ q / poolSize = p := by
  rw [Nat.succ_mul] at ends
  have split : q = p * poolSize + (poolSize - 1) := by omega
  rw [split]
  exact ⟨Ragged.grid_col (by omega),Ragged.grid_row (by omega)⟩

theorem decode_index (caches : Caches B S) (q : Nat) (row : Row B) :
    (decodeToken ops roundScale ape poolSize caches (tokenAt poolSize blocks q row)).index =
      if q % poolSize = poolSize - 1 then
        write caches.index (blocks.slots (q / poolSize),compressPool ops roundScale ape
          ((List.range poolSize).map fun s => if s = q % poolSize then row
            else caches.tail ((tailSlot poolSize blocks q).toNat / poolSize * poolSize +
              (q - q % poolSize + s) % poolSize)))
      else caches.index := by
  unfold decodeToken tokenAt
  dsimp only
  by_cases last : q % poolSize = poolSize - 1
  · simp [poolSlot,last]
  · simp [poolSlot,last]

theorem decode_tail (positive : 0 < poolSize) (caches : Caches B S) (q : Nat) (row : Row B) :
    (decodeToken ops roundScale ape poolSize caches (tokenAt poolSize blocks q row)).tail =
      write caches.tail (blocks.tailBlock * poolSize + q % poolSize,row) := by
  have block := tail_block poolSize blocks positive q
  have stored : 0 ≤ tailSlot poolSize blocks q := Int.natCast_nonneg _
  unfold decodeToken tokenAt
  dsimp only
  rw [if_pos ⟨Int.natCast_nonneg _,stored⟩,stashed_exact,block,Int.toNat_natCast]

theorem decode_token_holds (positive : 0 < poolSize) (held : Holds ops roundScale ape poolSize blocks caches rows q low)
    (started : low ≤ q / poolSize * poolSize) :
    Holds ops roundScale ape poolSize blocks
      (decodeToken ops roundScale ape poolSize caches (tokenAt poolSize blocks q (rows q))) rows (q + 1) low := by
  constructor
  · intro p ends
    rw [decode_index]
    by_cases whole : (p + 1) * poolSize ≤ q
    · split
      · rename_i last
        rw [write,if_neg,held.pools p whole]
        intro same
        have own := pool_end poolSize positive last
        rw [← blocks.distinct _ _ same] at own
        omega
      · exact held.pools p whole
    · have ends : (p + 1) * poolSize = q + 1 := by omega
      obtain ⟨last,own⟩ := last_of_pool poolSize positive ends
      rw [if_pos last,own,write,if_pos rfl]
      show compressPool ops roundScale ape _ = _
      congr 1
      apply List.map_congr_left
      intro s listed
      have inside := List.mem_range.mp listed
      have split := Nat.div_add_mod q poolSize
      rw [Nat.mul_comm,own] at split
      by_cases current : s = q % poolSize
      · rw [if_pos current,current,split]
      · have place : q - q % poolSize + s = p * poolSize + s := by omega
        rw [own] at started
        have stashed := held.ring (p * poolSize + s) (by omega) (by omega) (by omega)
        rw [Ragged.grid_col inside] at stashed
        rw [if_neg current,tail_block poolSize blocks positive,place,Ragged.grid_col inside,stashed]
  · intro x first before near
    rw [decode_tail ops roundScale ape poolSize blocks positive,write]
    by_cases current : x = q
    · rw [current,if_pos rfl]
    · have apart := offsets_apart poolSize (show x < q by omega) (by omega)
      rw [if_neg (by omega)]
      exact held.ring x first (by omega) (by omega)

theorem decode_pad_exact (caches : Caches B S) (row : Row B) :
    decodeToken ops roundScale ape poolSize caches ⟨-1,-1,-1,row⟩ = caches := by
  simp [decodeToken]

theorem decode_loop_holds (positive : 0 < poolSize) (rows new : Nat → Row B) (c count width : Nat)
    (held : Holds ops roundScale ape poolSize blocks caches rows c low) (started : low ≤ c / poolSize * poolSize)
    (same : ∀ t, t < count → new t = rows (c + t)) :
    Holds ops roundScale ape poolSize blocks (kpoolDecodeUpdateBatched ops roundScale ape poolSize
      (gridTokens poolSize blocks c new count) width caches) rows (c + min width count) low := by
  induction width with
  | zero => simpa [kpoolDecodeUpdateBatched] using held
  | succ t ih =>
      rw [decode_next,gridTokens]
      by_cases token : t < count
      · rw [Nat.min_eq_left (Nat.le_of_lt token)] at ih
        rw [if_pos token,same t token,Nat.min_eq_left token]
        apply decode_token_holds ops roundScale ape poolSize blocks positive ih
        exact Nat.le_trans started (Nat.mul_le_mul_right _ (Nat.div_le_div_right (Nat.le_add_right c t)))
      · rw [Nat.min_eq_right (Nat.le_of_not_lt token)] at ih
        rw [if_neg token,decode_pad_exact,Nat.min_eq_right (by omega)]
        exact ih

theorem pool_slot_parts (held : poolSlot poolSize blocks q ≥ 0) :
    q % poolSize = poolSize - 1 ∧ (poolSlot poolSize blocks q).toNat = blocks.slots (q / poolSize) := by
  unfold poolSlot at held ⊢
  by_cases last : q % poolSize = poolSize - 1
  · rw [if_pos last]
    exact ⟨last,Int.toNat_natCast _⟩
  · rw [if_neg last] at held
    omega

theorem pool_aligned (aligned : poolSize ∣ c) (after : c < (p + 1) * poolSize) : c ≤ p * poolSize := by
  obtain ⟨k,rfl⟩ := aligned
  rw [Nat.mul_comm] at after ⊢
  exact Nat.mul_le_mul_right _ (Nat.le_of_lt_succ (Nat.lt_of_mul_lt_mul_right after))

theorem index_written (positive : 0 < poolSize) (rows new : Nat → Row B) (c count : Nat) (index : Nat → Entry S)
    (aligned : poolSize ∣ c) (same : ∀ i, i < count → new i = rows (c + i)) (p : Nat) (after : c < (p + 1) * poolSize)
    (inside : (p + 1) * poolSize ≤ c + count) :
    kpoolCompressInsert ops roundScale ape poolSize (fun i => tokenAt poolSize blocks (c + i) (new i)) count index
      (blocks.slots p) = compressPool ops roundScale ape (pool poolSize rows p) := by
  have starts := pool_aligned poolSize aligned after
  have length : (p + 1) * poolSize = p * poolSize + poolSize := Nat.succ_mul _ _
  -- the value stored for a token that ends pool p
  have value : ∀ i, i < count → c + i + 1 = (p + 1) * poolSize →
      (List.range poolSize).map (fun s => (tokenAt poolSize blocks (c + (i - (poolSize - 1) + s))
        (new (i - (poolSize - 1) + s))).row) = pool poolSize rows p := by
    intro i bound ends
    apply List.map_congr_left
    intro s listed
    have offset := List.mem_range.mp listed
    have place : c + (i - (poolSize - 1) + s) = p * poolSize + s := by omega
    rw [← place]
    exact same _ (by omega)
  unfold kpoolCompressInsert
  rw [if_neg (by omega)]
  apply writes_exact
  · refine List.mem_filterMap.mpr ⟨(p + 1) * poolSize - 1 - c,List.mem_range.mpr (by omega),?_⟩
    have ends : c + ((p + 1) * poolSize - 1 - c) + 1 = (p + 1) * poolSize := by omega
    obtain ⟨last,own⟩ := last_of_pool poolSize positive ends.symm
    have slot : poolSlot poolSize blocks (c + ((p + 1) * poolSize - 1 - c)) = blocks.slots p := by
      rw [poolSlot,if_pos last,own]
    have held : poolSlot poolSize blocks (c + ((p + 1) * poolSize - 1 - c)) ≥ 0 := by
      rw [slot]
      exact Int.natCast_nonneg _
    rw [if_pos ⟨held,by omega⟩,value _ (by omega) ends]
    show some ((poolSlot poolSize blocks _).toNat,_) = _
    rw [slot,Int.toNat_natCast]
  · intro entry member at_p
    obtain ⟨i,listed,stored⟩ := List.mem_filterMap.mp member
    split at stored
    · rename_i held
      cases stored
      obtain ⟨last,slot⟩ := pool_slot_parts poolSize blocks held.1
      have own := blocks.distinct _ _ (slot.symm.trans at_p)
      have ends := pool_end poolSize positive last
      rw [own] at ends
      show compressPool ops roundScale ape _ = _
      rw [value i (List.mem_range.mp listed) ends.symm]
    · cases stored

theorem index_kept (positive : 0 < poolSize) (new : Nat → Row B) (c count : Nat) (index : Nat → Entry S) (p : Nat)
    (before : (p + 1) * poolSize ≤ c) :
    kpoolCompressInsert ops roundScale ape poolSize (fun i => tokenAt poolSize blocks (c + i) (new i)) count index
      (blocks.slots p) = index (blocks.slots p) := by
  unfold kpoolCompressInsert
  split
  · rfl
  · apply writes_apart
    intro entry member at_p
    obtain ⟨i,_,stored⟩ := List.mem_filterMap.mp member
    split at stored
    · rename_i held
      cases stored
      obtain ⟨last,slot⟩ := pool_slot_parts poolSize blocks held.1
      have own := blocks.distinct _ _ (slot.symm.trans at_p)
      have ends := pool_end poolSize positive last
      rw [own] at ends
      omega
    · cases stored

theorem tail_slot_place (pos : Nat) : (tailSlot poolSize blocks pos / (poolSize : Int) * poolSize +
    tailSlot poolSize blocks pos % (poolSize : Int)).toNat = blocks.tailBlock * poolSize + pos % poolSize := by
  rw [Int.mul_comm,Int.mul_ediv_add_emod,tailSlot,Int.toNat_natCast]

-- A token is stored exactly when it is among the chunk's last pool_size ones.
theorem seed_stored (positive : 0 < poolSize) (new : Nat → Row B) (c count i : Nat) :
    (let t := (tokenAt poolSize blocks (c + i) (new i)).tailSlot
      let ahead := if i + poolSize < count then
        (tokenAt poolSize blocks (c + (i + poolSize)) (new (i + poolSize))).tailSlot else -1
      if t < 0 ∨ (ahead ≥ 0 ∧ ahead / poolSize = t / poolSize) then none
      else some ((t / poolSize * poolSize + t % poolSize).toNat,(tokenAt poolSize blocks (c + i) (new i)).row)) =
    if i + poolSize < count then none else some (blocks.tailBlock * poolSize + (c + i) % poolSize,new i) := by
  have natural : ∀ pos, 0 ≤ tailSlot poolSize blocks pos := fun _ => Int.natCast_nonneg _
  have block : ∀ pos, tailSlot poolSize blocks pos / (poolSize : Int) = blocks.tailBlock := by
    intro pos
    have whole := tail_block poolSize blocks positive pos
    rw [← whole]
    push_cast
    rw [Int.toNat_of_nonneg (natural pos)]
  dsimp only [tokenAt]
  by_cases ahead : i + poolSize < count
  · rw [if_pos ahead,if_pos ahead,if_pos (Or.inr ⟨natural _,(block _).trans (block _).symm⟩)]
  · rw [if_neg ahead,if_neg ahead,if_neg,tail_slot_place]
    have := natural (c + i)
    omega

theorem tail_seeded (positive : 0 < poolSize) (new tail : Nat → Row B) (c count i : Nat) (inside : i < count)
    (last : count ≤ i + poolSize) :
    kpoolSeedTailCache poolSize (fun i => tokenAt poolSize blocks (c + i) (new i)) count tail
      (blocks.tailBlock * poolSize + (c + i) % poolSize) = new i := by
  unfold kpoolSeedTailCache
  simp only [seed_stored poolSize blocks positive]
  apply writes_exact
  · refine List.mem_filterMap.mpr ⟨i,List.mem_range.mpr inside,?_⟩
    exact if_neg (by omega)
  · intro entry member same
    obtain ⟨j,listed,stored⟩ := List.mem_filterMap.mp member
    have bound := List.mem_range.mp listed
    split at stored
    · cases stored
    · cases stored
      dsimp only at same ⊢
      by_cases before : i < j
      · have apart := offsets_apart poolSize (show c + i < c + j by omega) (by omega)
        omega
      · by_cases after : j < i
        · have apart := offsets_apart poolSize (show c + j < c + i by omega) (by omega)
          omega
        · obtain rfl : j = i := by omega
          rfl

theorem extended_old (before : x < length) : extend committed rows length x = committed x := if_pos before

theorem extended_new (committed rows : Nat → Row B) (length i : Nat) :
    extend committed rows length (length + i) = rows i := by
  rw [extend,if_neg (by omega),Nat.add_sub_cancel_left]

theorem prefill_holds (positive : 0 < poolSize) (s : State B S) (rows : Nat → Row B) (count : Nat)
    (held : Invariant ops roundScale ape poolSize blocks s) (aligned : poolSize ∣ s.length) :
    Invariant ops roundScale ape poolSize blocks (prefillStep ops roundScale ape poolSize blocks s rows count) := by
  have new : ∀ i, i < count → rows i = extend s.committed rows s.length (s.length + i) :=
    fun i _ => (extended_new _ _ _ i).symm
  constructor
  · intro p ends
    by_cases old : (p + 1) * poolSize ≤ s.length
    · have before : pool poolSize (extend s.committed rows s.length) p = pool poolSize s.committed p :=
        pool_congr poolSize fun x inside => extended_old (by omega)
      exact (index_kept ops roundScale ape poolSize blocks positive rows s.length count s.caches.index p old).trans
        ((held.pools p old).trans (congrArg _ before.symm))
    · exact index_written ops roundScale ape poolSize blocks positive _ rows s.length count _ aligned new p (by omega)
        ends
  · intro x first before near
    have reached : s.length ≤ x := by
      obtain ⟨k,split⟩ := aligned
      refine Nat.le_trans ?_ first
      show s.length ≤ (s.length + count) / poolSize * poolSize
      rw [split,Nat.mul_add_div positive,Nat.mul_comm,Nat.add_mul]
      exact Nat.le_add_right _ _
    obtain ⟨i,rfl⟩ := Nat.exists_eq_add_of_le reached
    have inside : i < count := Nat.lt_of_add_lt_add_left before
    refine (tail_seeded poolSize blocks positive rows s.caches.tail s.length count i inside ?_).trans
      (extended_new _ _ _ i).symm
    have bound : s.length + count ≤ s.length + i + poolSize := near
    omega

theorem verify_holds (positive : 0 < poolSize) (s : State B S) (rows : Nat → Row B) (count width accepted : Nat)
    (held : Invariant ops roundScale ape poolSize blocks s)
    (allowed : Allowed poolSize s (.verify rows count width accepted))
    (safe : Safe poolSize s (.verify rows count width accepted)) :
    Invariant ops roundScale ape poolSize blocks
      (verifyStep ops roundScale ape poolSize blocks s rows count width accepted) := by
  obtain ⟨some_accepted,inside,fits⟩ := allowed
  have old : ∀ x, x < s.length → extend s.committed rows s.length x = s.committed x := fun x => extended_old
  have start : Holds ops roundScale ape poolSize blocks s.caches (extend s.committed rows s.length) s.length
      (s.length / poolSize * poolSize) := by
    constructor
    · intro p ends
      rw [held.pools p ends]
      exact congrArg _ (pool_congr poolSize fun x before => (old x (by omega)).symm)
    · intro x first before near
      rw [old x before]
      exact held.ring x first before near
  have processed := decode_loop_holds ops roundScale ape poolSize blocks positive _ rows s.length count width start
    (Nat.le_refl _) fun t _ => (extended_new s.committed rows s.length t).symm
  rw [Nat.min_eq_right fits] at processed
  constructor
  · intro p ends
    have reached : (p + 1) * poolSize ≤ s.length + accepted := ends
    exact processed.pools p (by omega)
  · intro x first before near
    have bound : x < s.length + accepted := before
    have later : (s.length + accepted) / poolSize * poolSize ≤ x := first
    have started : s.length / poolSize * poolSize ≤ (s.length + accepted) / poolSize * poolSize :=
      Nat.mul_le_mul_right _ (Nat.div_le_div_right (Nat.le_add_right _ _))
    refine processed.ring x (Nat.le_trans started later) (by omega) ?_
    rcases safe with whole | short
    · have split := Nat.div_add_mod (s.length + accepted) poolSize
      rw [whole,Nat.mul_comm] at split
      omega
    · rw [Nat.succ_mul] at short
      omega

theorem step_holds (positive : 0 < poolSize) (s : State B S) (action : Action B)
    (held : Invariant ops roundScale ape poolSize blocks s) (allowed : Allowed poolSize s action)
    (safe : Safe poolSize s action) :
    Invariant ops roundScale ape poolSize blocks (step ops roundScale ape poolSize blocks s action) := by
  cases action with
  | prefill rows count => exact prefill_holds ops roundScale ape poolSize blocks positive s rows count held allowed
  | verify rows count width accepted =>
      exact verify_holds ops roundScale ape poolSize blocks positive s rows count width accepted held allowed safe

theorem run_holds (positive : 0 < poolSize) (start : State B S) (held : Invariant ops roundScale ape poolSize blocks start)
    (run : Run ops roundScale ape poolSize blocks (fun s action => Allowed poolSize s action ∧ Safe poolSize s action)
      start actions s) : Invariant ops roundScale ape poolSize blocks s := by
  induction run with
  | start => exact held
  | step run kept ih => exact step_holds ops roundScale ape poolSize blocks positive _ _ ih kept.1 kept.2

-- From a request without tokens, whatever its blocks held before.
theorem safe_run_correct (several : 2 ≤ poolSize) (caches : Caches B S) (rows : Nat → Row B)
    (run : Run ops roundScale ape poolSize blocks (fun s action => Allowed poolSize s action ∧ Safe poolSize s action)
      ⟨caches,rows,0⟩ actions s) : Correct ops roundScale ape poolSize blocks s := by
  have fresh : Invariant ops roundScale ape poolSize blocks ⟨caches,rows,0⟩ := by
    constructor
    · intro p ends
      have length : (p + 1) * poolSize = p * poolSize + poolSize := Nat.succ_mul _ _
      have empty : (p + 1) * poolSize ≤ 0 := ends
      omega
    · intro x _ before
      exact absurd before (Nat.not_lt_zero x)
  exact (run_holds ops roundScale ape poolSize blocks (by omega) _ fresh run).pools

end Request

-- Arithmetic that agrees with the kernels' on the pools below: all scores are
-- equal, and every pooled or rotated value is 0, 8 or just above 1/2.
def ratOps : FloatOps Int ℚ where
  toF32 := fun b => b / 256
  toBf16 := fun x => ⌊x * 256 + 1 / 2⌋
  exact := by
    intro b
    rw [Int.floor_eq_iff]
    constructor <;> linarith
  add := (· + ·)
  sub := (· - ·)
  mul := (· * ·)
  div := (· / ·)
  max := max
  min := min
  abs := fun x => |x|
  exp := fun _ => 1
  exp2 := fun x => if x < 0 then 1 / 2 ^ (-⌊x⌋).toNat else 2 ^ ⌊x⌋.toNat
  log2 := fun x => if x < 1 / 2 ^ 10 then -45 / 2 else -19 / 2
  ceil := fun x => ⌈x⌉
  negInf := -1000000
  zero := 0
  absmaxFloor := 1 / 10000
  fp8Max := 448
  negFp8Max := -448
  fp8MaxInv := 1 / 448
  invSqrt128 := 11863283 / 134217728
  toFp8U8 := Fp8Codec.toFp8U8 Fp8Codec.ieeeCast

def zeroRow : Row Int := ⟨List.replicate 128 0,List.replicate 128 0⟩

def spikeRow : Row Int := ⟨8192 :: List.replicate 127 0,List.replicate 128 0⟩

def zeroApe : List (List ℚ) := List.replicate 4 (List.replicate 128 0)

def firstBlocks : Blocks := ⟨0,id,fun _ _ same => same⟩

def freshState : State Int ℚ := ⟨⟨fun _ => ⟨[],0⟩,fun _ => zeroRow⟩,fun _ => zeroRow,0⟩

def promptStep : Action Int := .prefill (fun _ => zeroRow) 2

def draftStep (accepted : Nat) : Action Int := .verify (fun t => if t = 2 then spikeRow else zeroRow) 3 4 accepted

def lastStep : Action Int := .verify (fun _ => zeroRow) 1 4 1

theorem safe_run_correct_accepted :
    Correct ratOps true zeroApe 4 firstBlocks (step ratOps true zeroApe 4 firstBlocks
      (step ratOps true zeroApe 4 firstBlocks freshState promptStep) (draftStep 2)) :=
  safe_run_correct ratOps true zeroApe 4 firstBlocks (by decide) _ _
    (.step (.step .start ⟨⟨0,rfl⟩,trivial⟩) ⟨⟨by decide,by decide,by decide⟩,Or.inl rfl⟩)

-- A prompt of two tokens; the drafts at 3 and 4 are rejected, and the draft at
-- 4 has taken the ring slot of the token at 0 when pool 0 ends.
theorem rolled_back_pool_misread :
    Run ratOps true zeroApe 4 firstBlocks (Allowed 4) freshState [promptStep,draftStep 1,lastStep]
      (step ratOps true zeroApe 4 firstBlocks (step ratOps true zeroApe 4 firstBlocks
        (step ratOps true zeroApe 4 firstBlocks freshState promptStep) (draftStep 1)) lastStep) ∧
    ¬ Correct ratOps true zeroApe 4 firstBlocks (step ratOps true zeroApe 4 firstBlocks
      (step ratOps true zeroApe 4 firstBlocks (step ratOps true zeroApe 4 firstBlocks freshState promptStep)
        (draftStep 1)) lastStep) := by
  constructor
  · refine .step (.step (.step .start ?_) ?_) ?_
    · exact ⟨0,rfl⟩
    · exact ⟨by decide,by decide,by decide⟩
    · exact ⟨by decide,by decide,by decide⟩
  · intro correct
    have entry := congrArg (fun entry => entry.bytes[0]?) (correct 0 (by decide))
    revert entry
    decide +kernel

end Glm5Next.KpoolRing
