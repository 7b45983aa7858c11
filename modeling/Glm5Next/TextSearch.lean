import Mathlib.Data.List.Infix

-- Searching in texts, which are lists of characters.
namespace TextSearch
variable {α : Type} [DecidableEq α]

def contains (sub text : List α) : Bool := decide (sub <:+: text)

def startsWith (sub text : List α) : Bool := decide (sub <+: text)

def endsWith (sub text : List α) : Bool := decide (sub <:+ text)

-- What stands before the last occurrence.
def beforeLast (sub : List α) : List α → Option (List α)
  | [] => if sub = [] then some [] else none
  | c :: text =>
      match beforeLast sub text with
      | some before => some (c :: before)
      | none => if sub <+: c :: text then some [] else none

-- The first part of a split at the last occurrence.
def rsplitFirst (sub text : List α) : List α := (beforeLast sub text).getD text

-- Every occurrence from the left, or the first one only; `skip` characters
-- belong to the occurrence just replaced.
def replaceFrom (old new : List α) (once : Bool) (skip : Nat) : List α → List α
  | [] => []
  | c :: text =>
      if 0 < skip then replaceFrom old new once (skip - 1) text
      else if old <+: c :: text then
        if once then new ++ (c :: text).drop old.length
        else new ++ replaceFrom old new once (old.length - 1) text
      else c :: replaceFrom old new once 0 text

def replace (old new text : List α) : List α := replaceFrom old new false 0 text

def replaceFirst (old new text : List α) : List α := replaceFrom old new true 0 text

theorem before_none {sub text : List α} (absent : ¬ sub <:+: text) : beforeLast sub text = none := by
  induction text with
  | nil =>
      apply if_neg
      rintro rfl
      exact absent List.nil_infix
  | cons c text ih =>
      rw [List.infix_cons_iff,not_or] at absent
      rw [beforeLast,ih absent.2]
      exact if_neg absent.1

theorem rsplit_exact {sub text : List α} (before : List α) (starts : sub <+: text) (last : ¬ sub <:+: text.tail) :
    rsplitFirst sub (before ++ text) = before := by
  have found : beforeLast sub (before ++ text) = some before := by
    induction before with
    | nil =>
        cases text with
        | nil => exact if_pos (List.prefix_nil.mp starts)
        | cons c text =>
            rw [List.tail_cons] at last
            rw [List.nil_append,beforeLast,before_none last]
            exact if_pos starts
    | cons c before ih => rw [List.cons_append,beforeLast,ih]
  rw [rsplitFirst,found,Option.getD_some]

omit [DecidableEq α] in
theorem absent_joined {sub before after : List α} {c : α} (clean : ¬ sub <:+: before ++ [c]) (apart : ¬ sub <:+: after)
    (cut : ∀ n < sub.length, (sub.take n).getLast? = some c → ¬ sub.drop n <+: after) :
    ¬ sub <:+: before ++ [c] ++ after := by
  intro inside
  rcases List.infix_append_iff.mp inside with early | late | ⟨front,back,rfl,ends,starts⟩
  · exact clean early
  · exact apart late
  · rcases front.eq_nil_or_concat' with rfl | ⟨front,d,rfl⟩
    · exact apart starts.isInfix
    · cases back with
      | nil =>
          rw [List.append_nil] at clean
          exact clean ends.isInfix
      | cons e back =>
          have same : d = c := by
            have last := List.suffix_or_suffix_of_suffix ends (List.suffix_append before [c])
            obtain ⟨x,whole⟩ := ends
            rw [← List.append_assoc] at whole
            exact (List.append_inj' whole rfl).2 |> List.cons.inj |>.1
          apply cut (front ++ [d]).length
          · simp
          · rw [List.take_left,same]
            simp
          · rw [List.drop_left]
            exact starts

theorem ends_with_exact {sub after : List α} (before : List α) (long : sub.length ≤ after.length) :
    endsWith sub (before ++ after) = endsWith sub after := by
  unfold endsWith
  congr 1
  apply propext
  constructor
  · intro ends
    exact List.suffix_of_suffix_length_le ends (List.suffix_append before after) long
  · intro ends
    exact ends.trans (List.suffix_append before after)

omit [DecidableEq α] in
theorem same_before {first second after after' : List α} (same : first ++ after = second ++ after')
    (apart : ¬ after <:+ after') (apart' : ¬ after' <:+ after) : False := by
  rcases List.suffix_or_suffix_of_suffix (List.suffix_append first after) (same ▸ List.suffix_append second after')
    with inside | inside
  · exact apart inside
  · exact apart' inside

section Replacing

theorem replace_absent {old text : List α} (new : List α) (once : Bool) (absent : ¬ old <:+: text) :
    replaceFrom old new once 0 text = text := by
  induction text with
  | nil => rfl
  | cons c text ih =>
      rw [List.infix_cons_iff,not_or] at absent
      rw [replaceFrom,if_neg (Nat.lt_irrefl 0),if_neg absent.1,ih absent.2]

theorem replace_skip (old new : List α) (skipped rest : List α) :
    replaceFrom old new false skipped.length (skipped ++ rest) = replaceFrom old new false 0 rest := by
  induction skipped with
  | nil => rfl
  | cons c skipped ih =>
      rw [List.length_cons,List.cons_append,replaceFrom,if_pos (Nat.succ_pos _),Nat.add_sub_cancel]
      exact ih

theorem replace_start (proper : old ≠ []) (new : List α) {rest : List α} (absent : ¬ old <:+: rest) :
    replace old new (old ++ rest) = new ++ rest := by
  obtain ⟨c,old',rfl⟩ := List.exists_cons_of_ne_nil proper
  have starts : c :: old' <+: c :: (old' ++ rest) := List.prefix_append (c :: old') rest
  unfold replace
  rw [List.cons_append,replaceFrom,if_neg (Nat.lt_irrefl 0),if_pos starts,if_neg Bool.false_ne_true,List.length_cons,
    Nat.add_sub_cancel,replace_skip,replace_absent new false absent]

theorem replace_first_start (proper : old ≠ []) (new rest : List α) :
    replaceFirst old new (old ++ rest) = new ++ rest := by
  obtain ⟨c,old',rfl⟩ := List.exists_cons_of_ne_nil proper
  have starts : c :: old' <+: c :: (old' ++ rest) := List.prefix_append (c :: old') rest
  unfold replaceFirst
  rw [List.cons_append,replaceFrom,if_neg (Nat.lt_irrefl 0),if_pos starts,if_pos rfl]
  have cut : (c :: (old' ++ rest)).drop (c :: old').length = rest := List.drop_left
  rw [cut]

omit [DecidableEq α] in
theorem starts_apart {sub front rest : List α} (apart : ¬ sub <+: front) (apart' : ¬ front <+: sub) :
    ¬ sub <+: front ++ rest := by
  intro starts
  rcases List.prefix_or_prefix_of_prefix starts (List.prefix_append front rest) with inside | inside
  · exact apart inside
  · exact apart' inside

end Replacing

section Starts

-- No difference where both have a character.
def agrees : List α → List α → Bool
  | c :: first,d :: second => decide (c = d) && agrees first second
  | _,_ => true

-- Neither text begins inside the front, unless both go on with the rest of it.
def Keeps (front old new : List α) : Prop :=
  ∀ tail, tail <:+ front → tail <+: old ∧ tail <+: new ∨ agrees tail old = false ∧ agrees tail new = false

theorem prefixes_agree {first second text : List α} (starts : first <+: text) (starts' : second <+: text) :
    agrees first second = true := by
  induction text generalizing first second with
  | nil =>
      rw [List.prefix_nil.mp starts]
      rfl
  | cons c text ih =>
      cases first with
      | nil => rfl
      | cons d first =>
          cases second with
          | nil => rfl
          | cons e second =>
              obtain ⟨rfl,rest⟩ := List.cons_prefix_cons.mp starts
              obtain ⟨rfl,rest'⟩ := List.cons_prefix_cons.mp starts'
              simpa [agrees] using ih rest rest'

theorem keeps_swapped {front old new : List α} (keeps : Keeps front old new) (after after' : List α) :
    front <+: new ++ after ↔ front <+: old ++ after' := by
  rcases keeps front List.suffix_rfl with ⟨starts,starts'⟩ | ⟨differs,differs'⟩
  · exact iff_of_true (starts'.trans (List.prefix_append _ _)) (starts.trans (List.prefix_append _ _))
  · refine iff_of_false ?_ ?_
    · intro starts
      rw [prefixes_agree starts (List.prefix_append _ _)] at differs'
      cases differs'
    · intro starts
      rw [prefixes_agree starts (List.prefix_append _ _)] at differs
      cases differs

theorem keeps_tail {front old new : List α} (keeps : Keeps (c :: front) old new) : Keeps front old new :=
  fun tail suffix => keeps tail (suffix.trans (List.suffix_cons c front))

theorem joined_starts {front old new : List α} (keeps : Keeps front old new) (before after after' : List α) :
    front <+: before ++ (new ++ after) ↔ front <+: before ++ (old ++ after') := by
  induction before generalizing front with
  | nil => exact keeps_swapped keeps after after'
  | cons c before ih =>
      cases front with
      | nil => exact iff_of_true List.nil_prefix List.nil_prefix
      | cons d front =>
          rw [List.cons_append,List.cons_append,List.cons_prefix_cons,List.cons_prefix_cons]
          exact and_congr_right fun _ => ih (keeps_tail keeps)

theorem replace_starts {front old new : List α} (keeps : Keeps front old new) (text : List α) :
    front <+: replace old new text ↔ front <+: text := by
  unfold replace
  induction text generalizing front with
  | nil => exact Iff.rfl
  | cons c text ih =>
      rw [replaceFrom,if_neg (Nat.lt_irrefl 0)]
      by_cases here : old <+: c :: text
      · rw [if_pos here,if_neg Bool.false_ne_true]
        obtain ⟨after,whole⟩ := here
        rw [← whole]
        exact keeps_swapped keeps _ after
      · rw [if_neg here]
        cases front with
        | nil => exact iff_of_true List.nil_prefix List.nil_prefix
        | cons d front =>
            rw [List.cons_prefix_cons,List.cons_prefix_cons]
            exact and_congr_right fun _ => ih (keeps_tail keeps)

theorem rsplit_found {sub text : List α} (inside : sub <:+: text) :
    ∃ after, text = rsplitFirst sub text ++ (sub ++ after) := by
  have found : ∃ before after, beforeLast sub text = some before ∧ text = before ++ (sub ++ after) := by
    induction text with
    | nil =>
        have empty := List.infix_nil.mp inside
        subst empty
        exact ⟨[],[],rfl,rfl⟩
    | cons c text ih =>
        by_cases later : sub <:+: text
        · obtain ⟨before,after,found,split⟩ := ih later
          refine ⟨c :: before,after,?_,?_⟩
          · rw [beforeLast,found]
          · rw [List.cons_append,← split]
        · obtain ⟨after,split⟩ := (List.infix_cons_iff.mp inside).resolve_right later
          refine ⟨[],after,?_,split.symm⟩
          rw [beforeLast,before_none later]
          exact if_pos ⟨after,split⟩
  obtain ⟨before,after,found,split⟩ := found
  refine ⟨after,?_⟩
  rw [rsplitFirst,found,Option.getD_some]
  exact split

end Starts

end TextSearch
