import Glm5Next.MtpOrder

namespace Glm5Next.MtpEmbedding
open TextSearch PairedHalves Fp8Projections MtpLoading MtpOrder

def tableName : Name := "embed_tokens.weight".toList

-- The embedding of the first MTP layer, under both namings.
def ownEmbedTokens (d : Drafter T) : Name := layerName d.numHiddenLayers ++ tableName

def prefixedOwnEmbedTokens (d : Drafter T) : Name :=
  "model.language_model.layers.".toList ++ (toString d.numHiddenLayers).toList ++ ['.'] ++ tableName

theorem digits_plain (c : Char) (plain : c.isDigit = false) (n : Nat) : c ∉ (toString n).toList := by
  intro member
  have digits : (toString n).toList = Nat.toDigits 10 n := by simp
  rw [digits] at member
  have digit := Nat.isDigit_of_mem_toDigits (by decide) (by decide) member
  rw [plain] at digit
  cases digit

theorem rotary_absent (front : Name) (plain : 'q' ∉ front) (n : Nat) :
    contains "rotary_emb.inv_freq".toList (front ++ (toString n).toList ++ ['.'] ++ tableName) = false := by
  apply decide_eq_false
  intro inside
  have member : 'q' ∈ front ++ (toString n).toList ++ ['.'] ++ tableName := inside.subset (by decide)
  simp only [List.mem_append] at member
  rcases member with ((early | digit) | dot) | late
  · exact plain early
  · exact digits_plain 'q' (by decide) n digit
  · revert dot
    decide
  · revert late
    decide

theorem own_stripped (d : Drafter T) : stripped (ownEmbedTokens d) = ownEmbedTokens d ∧
    stripped (prefixedOwnEmbedTokens d) = ownEmbedTokens d := by
  constructor
  · have apart : startsWith "model.language_model.".toList (ownEmbedTokens d) = false := by
      apply decide_eq_false
      unfold ownEmbedTokens layerName
      rw [List.append_assoc,List.append_assoc]
      exact starts_apart (by decide) (by decide)
    unfold stripped
    rw [apart]
    rfl
  · have split : prefixedOwnEmbedTokens d = "model.language_model.".toList ++
        ("layers.".toList ++ ((toString d.numHiddenLayers).toList ++ (['.'] ++ tableName))) := by
      unfold prefixedOwnEmbedTokens
      rw [List.append_assoc,List.append_assoc,← List.append_assoc "model.language_model.".toList]
      rfl
    have starts : startsWith "model.language_model.".toList (prefixedOwnEmbedTokens d) = true := by
      rw [split]
      exact decide_eq_true (List.prefix_append _ _)
    have whole : ownEmbedTokens d = "model.".toList ++
        ("layers.".toList ++ ((toString d.numHiddenLayers).toList ++ (['.'] ++ tableName))) := by
      unfold ownEmbedTokens layerName
      rw [List.append_assoc,List.append_assoc,← List.append_assoc "model.".toList]
      rfl
    unfold stripped
    rw [starts,if_pos rfl,split,replace_first_start (by decide),whole]

theorem own_layer (d : Drafter T) :
    getSpecLayerIdxFromWeightName d.numHiddenLayers d.numNextnPredictLayers (ownEmbedTokens d) = some d.numHiddenLayers := by
  have first : startsWith (layerName (d.numHiddenLayers + 0)) (ownEmbedTokens d) = true :=
    decide_eq_true (List.prefix_append _ _)
  obtain ⟨count,more⟩ := Nat.exists_eq_succ_of_ne_zero (Nat.pos_iff_ne_zero.mp d.someLayer)
  unfold getSpecLayerIdxFromWeightName
  rw [more,List.range_succ_eq_map,List.find?_cons_of_pos (by rw [first]; rfl)]
  rfl

theorem own_rewritten (d : Drafter T) : rewriteSpecLayerName d.numHiddenLayers (ownEmbedTokens d) = embedTokens := by
  have embeds : contains "embed_tokens".toList (ownEmbedTokens d) = true := by
    apply decide_eq_true
    exact (List.IsInfix.trans (by decide) (List.infix_append_right : tableName <:+: ownEmbedTokens d))
  have absent : ¬ layerName d.numHiddenLayers <:+: tableName := by
    intro inside
    have front : "model.layers.".toList <:+: layerName d.numHiddenLayers := by
      unfold layerName
      rw [List.append_assoc]
      exact List.infix_append_left
    exact absurd (front.trans inside) (by decide)
  have proper : layerName d.numHiddenLayers ≠ [] := by
    unfold layerName
    simp
  have found : specLayerWeightNames.find? (fun weightName => contains weightName (ownEmbedTokens d)) =
      some "embed_tokens".toList := List.find?_cons_of_pos embeds
  unfold rewriteSpecLayerName
  rw [found]
  dsimp only
  rw [if_pos (by decide),ownEmbedTokens,replace_start proper _ absent]
  rfl

theorem embed_stacked (params : List Name) : stackedRoute params stackedParamsMapping embedTokens = .inr embedTokens := by
  rfl

theorem embed_expert (params : List Name) (isLocal : Name → Nat → Name → Bool) (mappings : List ExpertMapping)
    (expertNames : ∀ mapping ∈ mappings, "experts.".toList <:+: mapping.weightName) :
    expertRoute params isLocal embedTokens mappings false = none := by
  induction mappings with
  | nil => rfl
  | cons mapping mappings ih =>
      have absent : contains mapping.weightName embedTokens = false := by
        apply decide_eq_false
        intro inside
        exact absurd ((expertNames mapping List.mem_cons_self).trans inside) (by decide)
      unfold expertRoute
      rw [absent]
      exact ih fun mapping member => expertNames mapping (List.mem_cons_of_mem _ member)

theorem embed_route (d : Drafter T) : paramRoute d d.numHiddenLayers embedTokens = loadInto d.params embedTokens none := by
  have plain : endsWith ".bias".toList embedTokens = false := by decide
  unfold paramRoute directRoute
  rw [embed_stacked]
  dsimp only
  rw [embed_expert _ _ _ d.expertNames,plain,d.remapPlain embedTokens (by decide)]
  simp

-- The MTP layer's own table is loaded into the same parameter as the target's.
theorem own_event (d : Drafter T) (t : CheckpointTensor T)
    (own : t.name = ownEmbedTokens d ∨ t.name = prefixedOwnEmbedTokens d) :
    event d t = if embedTokens ∈ d.params then some (.direct (some ⟨embedTokens,none,t.tensor⟩)) else some (.direct none) := by
  have no_rotary : contains "rotary_emb.inv_freq".toList t.name = false := by
    rcases own with own | own <;> rw [own] <;> exact rotary_absent _ (by decide) _
  have plain : stripped t.name = ownEmbedTokens d := by
    rcases own with own | own <;> rw [own]
    · exact (own_stripped d).1
    · exact (own_stripped d).2
  have no_wk : wkHalf (⟨embedTokens,t.fp8,t.tensor⟩ : CheckpointTensor T) = none := by
    have unmatched : (!contains "indexer.wk.".toList embedTokens || contains "wk_weights".toList embedTokens) = true := by
      decide
    exact if_pos unmatched
  have no_attn : attnHalf d.params (⟨embedTokens,t.fp8,t.tensor⟩ : CheckpointTensor T) = none := by
    have unmatched : projOrder.find? (fun proj => contains (fp8AttnProjs proj).suffix embedTokens) = none := by decide
    unfold attnHalf
    rw [unmatched]
  unfold event
  rw [no_rotary,if_neg Bool.false_ne_true]
  dsimp only
  rw [plain,own_layer]
  dsimp only
  rw [own_rewritten]
  unfold layerEvent
  rw [no_wk,no_attn]
  dsimp only
  rw [embed_route]
  unfold loadInto
  by_cases present : embedTokens ∈ d.params
  · rw [if_pos present,if_pos present]
  · rw [if_neg present,if_neg present]

end Glm5Next.MtpEmbedding
