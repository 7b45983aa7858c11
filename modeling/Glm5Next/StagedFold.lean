import Mathlib.Data.List.Basic

-- A fold cut into stages. Between two stages the state is handed over through
-- a partial conversion; the cut is invisible when the next step cannot tell the
-- converted state from the original one.
namespace StagedFold
variable {σ α : Type} {f : σ → α → σ} {handoff : σ → Option σ}

def staged (f : σ → α → σ) (handoff : σ → Option σ) : σ → List (List α) → Option σ
  | s,[] => some s
  | s,[slice] => some (slice.foldl f s)
  | s,slice :: next :: rest => (handoff (slice.foldl f s)).bind fun s => staged f handoff s (next :: rest)

def Transparent (f : σ → α → σ) (handoff : σ → Option σ) (s : σ) (xs : List α) : Prop :=
  ∀ before a after, xs = before ++ a :: after → before ≠ [] →
    ∃ handed, handoff (before.foldl f s) = some handed ∧ f handed a = f (before.foldl f s) a

theorem transparent_rest (clear : Transparent f handoff s (slice ++ rest)) :
    Transparent f handoff (slice.foldl f s) rest := by
  intro before a after split proper
  obtain ⟨handed,hands,agrees⟩ := clear (slice ++ before) a after (by simp [split]) (by simp [proper])
  rw [List.foldl_append] at hands agrees
  exact ⟨handed,hands,agrees⟩

-- Two states that the first step does not distinguish stay indistinguishable.
theorem transparent_handed (clear : Transparent f handoff s (a :: rest)) (agrees : f handed a = f s a) :
    Transparent f handoff handed (a :: rest) := by
  intro before b after split proper
  obtain ⟨first,before,rfl⟩ := List.exists_cons_of_ne_nil proper
  obtain ⟨rfl,tail⟩ := List.cons.inj split
  have found := clear (a :: before) b after (by rw [tail]; rfl) proper
  simpa only [List.foldl_cons,agrees] using found

theorem staged_exact (slices : List (List α)) (s : σ) (proper : ∀ slice ∈ slices, slice ≠ [])
    (clear : Transparent f handoff s slices.flatten) :
    staged f handoff s slices = some (slices.flatten.foldl f s) := by
  induction slices generalizing s with
  | nil => rfl
  | cons slice rest ih =>
      cases rest with
      | nil => simp [staged]
      | cons next rest =>
          obtain ⟨a,next,rfl⟩ := List.exists_cons_of_ne_nil (proper next (by simp))
          obtain ⟨b,slice,rfl⟩ := List.exists_cons_of_ne_nil (proper slice (by simp))
          obtain ⟨handed,hands,agrees⟩ := clear (b :: slice) a (next ++ rest.flatten) (by simp) (by simp)
          have later : Transparent f handoff ((b :: slice).foldl f s) ((a :: next) :: rest).flatten :=
            transparent_rest (by simpa using clear)
          have handed_later : Transparent f handoff handed ((a :: next) :: rest).flatten :=
            transparent_handed (by simpa using later) agrees
          have proper_rest : ∀ slice ∈ (a :: next) :: rest, slice ≠ [] :=
            fun slice member => proper slice (List.mem_cons_of_mem _ member)
          calc staged f handoff s ((b :: slice) :: (a :: next) :: rest)
              = staged f handoff handed ((a :: next) :: rest) := by rw [staged,hands,Option.bind_some]
            _ = some (((a :: next) :: rest).flatten.foldl f handed) := ih handed proper_rest handed_later
            _ = some (((b :: slice) :: (a :: next) :: rest).flatten.foldl f s) := by
                simp [List.foldl_append,agrees]

end StagedFold
