import Mathlib.Data.Finset.Card
import Mathlib.Data.Finset.Union
import Mathlib.Order.Defs.LinearOrder

-- The best of a finite set by a score. Ties are broken in any way.
namespace Glm5Next.TopKSelection
variable {α β : Type} [DecidableEq α] [LinearOrder β] {score : α → β} {k : Nat} {s t u : Finset α}

structure Selects (score : α → β) (k : Nat) (s t : Finset α) : Prop where
  inside : t ⊆ s
  count : t.card = min k s.card
  best : ∀ x ∈ s, x ∉ t → ∀ y ∈ t, score x ≤ score y

omit [DecidableEq α] in
theorem selects_all (selects : Selects score k s t) (few : s.card ≤ k) : t = s :=
  Finset.eq_of_subset_of_card_le selects.inside (by rw [selects.count,Nat.min_eq_right few])

omit [DecidableEq α] in
theorem selects_full (selects : Selects score k s t) (member : x ∈ s) (left_out : x ∉ t) : t.card = k := by
  by_contra partly
  have count := selects.count
  have all := selects_all selects (by omega)
  exact left_out (all ▸ member)

omit [DecidableEq α] in
theorem selects_congr {score' : α → β} (selects : Selects score k s t) (same : ∀ x ∈ s, score x = score' x) :
    Selects score' k s t := by
  refine ⟨selects.inside,selects.count,fun x member left_out y chosen => ?_⟩
  rw [← same x member,← same y (selects.inside chosen)]
  exact selects.best x member left_out y chosen

omit [DecidableEq α] in
theorem selects_image {γ : Type} [DecidableEq γ] {name : α → γ} {scoreOf : γ → β} (injective : Function.Injective name)
    (selects : Selects (fun x => scoreOf (name x)) k s t) : Selects scoreOf k (s.image name) (t.image name) := by
  refine ⟨Finset.image_subset_image selects.inside,?_,?_⟩
  · rw [Finset.card_image_of_injective _ injective,Finset.card_image_of_injective _ injective,selects.count]
  · intro x member left_out y chosen
    obtain ⟨x',inside,rfl⟩ := Finset.mem_image.mp member
    obtain ⟨y',kept,rfl⟩ := Finset.mem_image.mp chosen
    exact selects.best x' inside (fun both => left_out (Finset.mem_image_of_mem name both)) y' kept

section Parts
variable {ι : Type} {parts : Finset ι} {part chosen : ι → Finset α}

theorem merged_full (each : ∀ i ∈ parts, Selects score k (part i) (chosen i))
    (merged : Selects score k (parts.biUnion chosen) t) : t.card = min k (parts.biUnion part).card := by
  have below : (parts.biUnion chosen).card ≤ (parts.biUnion part).card :=
    Finset.card_le_card (Finset.biUnion_mono fun i listed => (each i listed).inside)
  have count := merged.count
  by_cases cut : ∃ i ∈ parts, k ≤ (part i).card
  · obtain ⟨i,listed,many⟩ := cut
    have kept : (chosen i).card ≤ (parts.biUnion chosen).card :=
      Finset.card_le_card (Finset.subset_biUnion_of_mem chosen listed)
    have full := (each i listed).count
    omega
  · push Not at cut
    have whole : parts.biUnion chosen = parts.biUnion part :=
      Finset.biUnion_congr rfl fun i listed => selects_all (each i listed) (Nat.le_of_lt (cut i listed))
    rw [count,whole]

theorem selects_merge (each : ∀ i ∈ parts, Selects score k (part i) (chosen i))
    (merged : Selects score k (parts.biUnion chosen) t) : Selects score k (parts.biUnion part) t := by
  refine ⟨merged.inside.trans (Finset.biUnion_mono fun i listed => (each i listed).inside),merged_full each merged,?_⟩
  intro x member left_out y kept
  obtain ⟨i,listed,inside⟩ := Finset.mem_biUnion.mp member
  by_cases candidate : x ∈ chosen i
  · exact merged.best x (Finset.mem_biUnion.mpr ⟨i,listed,candidate⟩) left_out y kept
  · -- the k elements that its part preferred would all be selected, and y besides
    by_contra worse
    have better : ∀ z ∈ chosen i, score y < score z := fun z preferred =>
      lt_of_lt_of_le (lt_of_not_ge worse) ((each i listed).best x inside candidate z preferred)
    have taken : insert y (chosen i) ⊆ t := by
      refine Finset.insert_subset kept fun z preferred => ?_
      by_contra dropped
      exact absurd (merged.best z (Finset.mem_biUnion.mpr ⟨i,listed,preferred⟩) dropped y kept)
        (not_le_of_gt (better z preferred))
    have apart : y ∉ chosen i := fun preferred => lt_irrefl _ (better y preferred)
    have room := Finset.card_le_card taken
    have full := selects_full (each i listed) inside candidate
    have count := merged.count
    rw [Finset.card_insert_of_notMem apart] at room
    omega

end Parts

end Glm5Next.TopKSelection
