import Mathlib.Algebra.BigOperators.Group.List.Lemmas
import Mathlib.Algebra.BigOperators.Ring.List
import Mathlib.Algebra.Order.BigOperators.Group.List
import Mathlib.Algebra.Order.Field.Basic
import Mathlib.Tactic.Ring
import Mathlib.Tactic.FieldSimp

-- The online softmax: a running maximum with sums that are kept relative to it
-- and rescaled when it moves.
namespace OnlineSoftmax
variable {S K Lane V : Type} [LinearOrder S]

-- `rel a b` is the weight of a score relative to a larger one, `size a` its
-- weight as such. The score the maximum starts from weighs nothing, and what
-- is at most a score that weighs nothing weighs nothing (by `scaled`).
structure Weighing (S K : Type) [LinearOrder S] [Field K] [LinearOrder K] where
  proper : S → Prop
  floor : S
  rel : S → S → K
  size : S → K
  proper_floor : proper floor
  size_floor : size floor = 0
  size_nonneg : ∀ a, 0 ≤ size a
  chain : ∀ a b c, proper c → floor ≤ b → a ≤ b → b ≤ c → rel a b * rel b c = rel a c
  scaled : ∀ a b, proper b → floor ≤ b → a ≤ b → rel a b * size b = size a

structure Running (S K Lane : Type) where
  max : S
  sum : K
  acc : Lane → K

def start [Zero K] (floor : S) : Running S K Lane := ⟨floor,0,fun _ => 0⟩

def tileMax (m : S) (tile : List (S × V)) : S := tile.foldl (fun m item => Max.max item.1 m) m

def absorb [Field K] (rel : S → S → K) (state : Running S K Lane) (tile : List (S × (Lane → K))) : Running S K Lane :=
  let m := tileMax state.max tile
  ⟨m,state.sum * rel state.max m + (tile.map fun item => rel item.1 m).sum,
    fun i => state.acc i * rel state.max m + (tile.map fun item => rel item.1 m * item.2 i).sum⟩

-- What the state holds of the items absorbed so far.
structure Holds [Field K] [LinearOrder K] (w : Weighing S K) (state : Running S K Lane) (items : List (S × (Lane → K))) : Prop where
  above : w.floor ≤ state.max
  bound : ∀ item ∈ items, item.1 ≤ state.max
  reached : state.max = w.floor ∨ ∃ item ∈ items, item.1 = state.max
  sum : state.sum = (items.map fun item => w.rel item.1 state.max).sum
  acc : ∀ i, state.acc i = (items.map fun item => w.rel item.1 state.max * item.2 i).sum

theorem tile_max_above (m : S) (tile : List (S × V)) : m ≤ tileMax m tile := by
  induction tile generalizing m with
  | nil => exact le_refl m
  | cons item tile ih => exact le_trans (le_max_right item.1 m) (ih _)

theorem tile_max_bound (m : S) {tile : List (S × V)} (member : item ∈ tile) : item.1 ≤ tileMax m tile := by
  induction tile generalizing m with
  | nil => cases member
  | cons head tile ih =>
      rcases List.mem_cons.mp member with rfl | later
      · exact le_trans (le_max_left _ m) (tile_max_above _ tile)
      · exact ih _ later

theorem tile_max_reached (m : S) (tile : List (S × V)) :
    tileMax m tile = m ∨ ∃ item ∈ tile, item.1 = tileMax m tile := by
  induction tile generalizing m with
  | nil => exact Or.inl rfl
  | cons head tile ih =>
      rcases ih (Max.max head.1 m) with kept | ⟨item,member,same⟩
      · have top : tileMax m (head :: tile) = Max.max head.1 m := kept
        rcases max_choice head.1 m with left | right
        · exact Or.inr ⟨head,by simp,by rw [top,left]⟩
        · exact Or.inl (by rw [top,right])
      · exact Or.inr ⟨item,by simp [member],same⟩

section Run
variable [Field K] [LinearOrder K] (w : Weighing S K) {state : Running S K Lane} {items tile : List (S × (Lane → K))}

theorem start_holds : Holds w (start w.floor : Running S K Lane) [] :=
  ⟨le_refl _,by simp,Or.inl rfl,rfl,fun _ => rfl⟩

theorem max_proper (holds : Holds w state items) (proper : ∀ item ∈ items, w.proper item.1) : w.proper state.max := by
  rcases holds.reached with floor | ⟨item,member,same⟩
  · rw [floor]
    exact w.proper_floor
  · rw [← same]
    exact proper item member

theorem absorb_holds (holds : Holds w state items) (proper : ∀ item ∈ items ++ tile, w.proper item.1) :
    Holds w (absorb w.rel state tile) (items ++ tile) := by
  have raised := tile_max_above state.max tile
  have reached : tileMax state.max tile = w.floor ∨ ∃ item ∈ items ++ tile, item.1 = tileMax state.max tile := by
    rcases tile_max_reached state.max tile with kept | ⟨item,member,same⟩
    · rw [kept]
      rcases holds.reached with floor | ⟨item,member,same⟩
      · exact Or.inl floor
      · exact Or.inr ⟨item,by simp [member],same⟩
    · exact Or.inr ⟨item,by simp [member],same⟩
  have top : w.proper (tileMax state.max tile) := by
    rcases reached with floor | ⟨item,member,same⟩
    · rw [floor]
      exact w.proper_floor
    · rw [← same]
      exact proper item member
  -- An item absorbed before is rescaled from the old maximum to the new one.
  have moved : ∀ item ∈ items, w.rel item.1 state.max * w.rel state.max (tileMax state.max tile) =
      w.rel item.1 (tileMax state.max tile) := fun item member =>
    w.chain _ _ _ top holds.above (holds.bound item member) raised
  refine ⟨le_trans holds.above raised,?_,reached,?_,?_⟩
  · intro item member
    rcases List.mem_append.mp member with before | now
    · exact le_trans (holds.bound item before) raised
    · exact tile_max_bound _ now
  · have earlier : state.sum * w.rel state.max (tileMax state.max tile) =
        (items.map fun item => w.rel item.1 (tileMax state.max tile)).sum := by
      rw [holds.sum,← List.sum_map_mul_right]
      exact congrArg List.sum (List.map_congr_left moved)
    simp only [absorb,List.map_append,List.sum_append,earlier]
  · intro i
    have earlier : state.acc i * w.rel state.max (tileMax state.max tile) =
        (items.map fun item => w.rel item.1 (tileMax state.max tile) * item.2 i).sum := by
      rw [holds.acc i,← List.sum_map_mul_right]
      refine congrArg List.sum (List.map_congr_left ?_)
      intro item member
      rw [← moved item member]
      ring
    simp only [absorb,List.map_append,List.sum_append,earlier]

theorem run_holds (tiles : List (List (S × (Lane → K)))) (holds : Holds w state items)
    (proper : ∀ item ∈ items ++ tiles.flatten, w.proper item.1) :
    Holds w (tiles.foldl (absorb w.rel) state) (items ++ tiles.flatten) := by
  induction tiles generalizing state items with
  | nil => simpa using holds
  | cons tile tiles ih =>
      rw [List.flatten_cons,← List.append_assoc] at proper ⊢
      exact ih (absorb_holds w holds fun item member => proper item (List.mem_append_left _ member)) proper

variable (holds : Holds w state items) (proper : ∀ item ∈ items, w.proper item.1)
include holds proper

theorem sum_sized : state.sum * w.size state.max = (items.map fun item => w.size item.1).sum := by
  rw [holds.sum,← List.sum_map_mul_right]
  refine congrArg List.sum (List.map_congr_left ?_)
  intro item member
  exact w.scaled _ _ (max_proper w holds proper) holds.above (holds.bound item member)

theorem acc_sized (i : Lane) :
    state.acc i * w.size state.max = (items.map fun item => w.size item.1 * item.2 i).sum := by
  rw [holds.acc i,← List.sum_map_mul_right]
  refine congrArg List.sum (List.map_congr_left ?_)
  intro item member
  rw [← w.scaled _ _ (max_proper w holds proper) holds.above (holds.bound item member)]
  ring

theorem weightless (empty : w.size state.max = 0) (member : item ∈ items) : w.size item.1 = 0 := by
  rw [← w.scaled _ _ (max_proper w holds proper) holds.above (holds.bound item member),empty,mul_zero]

variable [IsStrictOrderedRing K]

theorem sum_positive (real : w.size state.max ≠ 0) : 0 < state.sum := by
  have positive : 0 < w.size state.max := lt_of_le_of_ne (w.size_nonneg _) (Ne.symm real)
  have total : 0 < state.sum * w.size state.max := by
    rw [sum_sized w holds proper]
    rcases holds.reached with floor | ⟨item,member,same⟩
    · rw [floor,w.size_floor] at positive
      exact absurd positive (lt_irrefl 0)
    · apply lt_of_lt_of_le positive
      rw [← same]
      apply List.single_le_sum _ _ (List.mem_map_of_mem member)
      intro x listed
      obtain ⟨item,_,rfl⟩ := List.mem_map.mp listed
      exact w.size_nonneg _
  exact (mul_pos_iff_of_pos_right positive).mp total

-- The guarded quotient is the weighted mean, and 0 where nothing weighs.
theorem quotient_exact (masked : ∀ item ∈ items, w.size item.1 = 0 → item.2 i = 0) :
    state.acc i / (if state.sum > 0 then state.sum else 1) =
      (items.map fun item => w.size item.1 * item.2 i).sum / (items.map fun item => w.size item.1).sum := by
  by_cases real : w.size state.max = 0
  · have none_acc : state.acc i = 0 := by
      rw [holds.acc i]
      apply List.sum_eq_zero
      intro x listed
      obtain ⟨item,member,rfl⟩ := List.mem_map.mp listed
      rw [masked item member (weightless w holds proper real member),mul_zero]
    have none_sum : (items.map fun item => w.size item.1).sum = 0 := by
      rw [← sum_sized w holds proper,real,mul_zero]
    rw [none_acc,none_sum,zero_div,div_zero]
  · rw [if_pos (sum_positive w holds proper real),← sum_sized w holds proper,← acc_sized w holds proper]
    exact (mul_div_mul_right _ _ real).symm

end Run

end OnlineSoftmax
