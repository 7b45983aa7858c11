import Mathlib.Data.List.Basic

-- Steps that each stay inside the region of one owner. What a region holds
-- after a run depends on its owner's steps alone, wherever the others stand
-- between them.
namespace OwnedRegions
variable {State Step Region : Type} [DecidableEq Region]

def run (apply : Step → State → State) (steps : List Step) (s : State) : State :=
  steps.foldl (fun s step => apply step s) s

theorem run_append (apply : Step → State → State) (first second : List Step) (s : State) :
    run apply (first ++ second) s = run apply second (run apply first s) := List.foldl_append

theorem run_map (apply : Step → State → State) (f : Arg → Step) (args : List Arg) (s : State) :
    run apply (args.map f) s = run (fun arg => apply (f arg)) args s := List.foldl_map

theorem run_same {apply apply' : Step → State → State} (steps : List Step) (s : State)
    (same : ∀ step ∈ steps, ∀ s, apply step s = apply' step s) : run apply steps s = run apply' steps s := by
  induction steps generalizing s with
  | nil => rfl
  | cons step steps ih =>
      show run apply steps (apply step s) = run apply' steps (apply' step s)
      rw [same step (by simp),ih _ fun other member => same other (List.mem_cons_of_mem _ member)]

theorem run_idle {apply : Step → State → State} (steps : List Step) (s : State)
    (idle : ∀ step ∈ steps, ∀ s, apply step s = s) : run apply steps s = s := by
  induction steps with
  | nil => rfl
  | cons step steps ih =>
      show run apply steps (apply step s) = s
      rw [idle step (by simp),ih fun other member => idle other (List.mem_cons_of_mem _ member)]

-- `same r` relates states that agree on the region r.
structure Owned (apply : Step → State → State) (owner : Step → Region) (same : Region → State → State → Prop)
    (legal : Step → Prop) : Prop where
  refl : ∀ r s, same r s s
  trans : ∀ r a b c, same r a b → same r b c → same r a c
  keeps : ∀ step, legal step → ∀ r, owner step ≠ r → ∀ s, same r (apply step s) s
  reads : ∀ step, legal step → ∀ s s', same (owner step) s s' → same (owner step) (apply step s) (apply step s')

variable {apply : Step → State → State} {owner : Step → Region} {same : Region → State → State → Prop}
  {legal : Step → Prop}

theorem run_owned (owned : Owned apply owner same legal) (steps : List Step) (allowed : ∀ step ∈ steps, legal step)
    (r : Region) (agree : same r s s') :
    same r (run apply steps s) (run apply (steps.filter fun step => decide (owner step = r)) s') := by
  induction steps generalizing s s' with
  | nil => exact agree
  | cons step steps ih =>
      have here := allowed step (by simp)
      have later : ∀ step ∈ steps, legal step := fun other member => allowed other (List.mem_cons_of_mem _ member)
      by_cases own : owner step = r
      · rw [List.filter_cons_of_pos (by simpa using own)]
        subst own
        exact ih later (owned.reads step here s s' agree)
      · rw [List.filter_cons_of_neg (by simpa using own)]
        exact ih later (owned.trans r _ _ _ (owned.keeps step here r own s) agree)

theorem run_apart (owned : Owned apply owner same legal) (steps : List Step) (allowed : ∀ step ∈ steps, legal step)
    (apart : ∀ step ∈ steps, owner step ≠ r) (s : State) : same r (run apply steps s) s := by
  have alone := run_owned owned steps allowed r (owned.refl r s)
  rw [List.filter_eq_nil_iff.mpr fun step member => by simpa using apart step member] at alone
  exact alone

-- The steps of several programs, mixed but each program's in its own order.
def Interleaved [DecidableEq Index] (program : Index → List Step) (mixed : List (Index × Step)) : Prop :=
  ∀ i, (mixed.filter fun entry => decide (entry.1 = i)).map Prod.snd = program i

section Interleaved
variable {Index : Type} [DecidableEq Index] {program : Index → List Step} {mixed : List (Index × Step)}

theorem interleaved_member (interleaved : Interleaved program mixed) : (i,step) ∈ mixed ↔ step ∈ program i := by
  rw [← interleaved i]
  simp

theorem interleaved_serial (order : List Index) (once : order.Nodup) (idle : ∀ i, i ∉ order → program i = []) :
    Interleaved program (order.flatMap fun i => (program i).map fun step => (i,step)) := by
  intro i
  have own : ∀ order : List Index, order.Nodup →
      ((order.flatMap fun i => (program i).map fun step => (i,step)).filter fun entry => decide (entry.1 = i)).map
        Prod.snd = if i ∈ order then program i else [] := by
    intro order once
    induction order with
    | nil => rfl
    | cons j rest ih =>
        obtain ⟨unlisted,once⟩ := List.nodup_cons.mp once
        rw [List.flatMap_cons,List.filter_append,List.map_append,ih once,List.filter_map]
        by_cases same : j = i
        · subst same
          simp [Function.comp_def,unlisted]
        · simp [Function.comp_def,same,Ne.symm same]
  rw [own order once]
  split
  · rfl
  · rename_i unlisted
    exact (idle i unlisted).symm

theorem interleaved_kept (interleaved : Interleaved program mixed) (keep : Index → Bool) :
    Interleaved (fun i => if keep i then program i else []) (mixed.filter fun entry => keep entry.1) := by
  intro i
  simp only [List.filter_filter]
  by_cases kept : keep i = true
  · rw [if_pos kept,← interleaved i]
    congr 1
    apply List.filter_congr
    rintro ⟨j,step⟩ _
    by_cases same : j = i <;> simp [same,kept]
  · rw [if_neg kept,List.filter_eq_nil_iff.mpr,List.map_nil]
    rintro ⟨j,step⟩ _
    by_cases same : j = i
    · simp [same,kept]
    · simp [same]

-- Pairs in the order in which programs run them: a pair of one program is in its
-- order, a pair of two in any.
theorem interleaved_pairwise {good : Index × Step → Index × Step → Prop} (interleaved : Interleaved program mixed)
    (within : ∀ i, (program i).Pairwise fun early late => good (i,early) (i,late))
    (across : ∀ i j, i ≠ j → ∀ early ∈ program i, ∀ late ∈ program j, good (i,early) (j,late)) : mixed.Pairwise good := by
  apply List.pairwise_iff_forall_sublist.mpr
  rintro ⟨i,early⟩ ⟨j,late⟩ ordered
  by_cases same : i = j
  · subst same
    have own := (ordered.filter fun entry => decide (entry.1 = i)).map Prod.snd
    rw [interleaved i] at own
    exact List.pairwise_iff_forall_sublist.mp (within i) (by simpa using own)
  · have first := (interleaved_member interleaved).mp (ordered.subset (List.mem_cons_self ..))
    have second := (interleaved_member interleaved).mp (ordered.subset (List.mem_cons_of_mem _ (List.mem_cons_self ..)))
    exact across i j same early first late second

end Interleaved

end OwnedRegions
