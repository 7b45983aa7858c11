import Glm5Next.SparseMlaOffsets

-- The kernels on the buffers of a call.
namespace Glm5Next.SparseMlaCalls
open TiledGrid SentinelScores WrappedInts SparseMla SparseMlaOffsets
variable {K : Type} [Field K] [LinearOrder K]

section Fits
variable (call : MlaCall K)

-- The products of token, head and split ids with their strides fit their types.
structure ProductsFit (splits : Nat) : Prop where
  queries : ∀ curQ < call.numTokens, Scales curQ call.strideQToken
  heads : ∀ curHead < call.numHeadsQ, Scales curHead call.strideQHead
  rows : ∀ curQ < call.numTokens, Scales curQ call.strideIndicesToken
  out : OutFits call.tensors
  mid : MidFits call.tensors splits

def RowsFit : Prop := ∀ curQ < call.numTokens, ∀ i < call.indexTopk,
  maskKv call.tensors (attended call.tensors curQ i) →
    attended call.tensors curQ i * call.dimQk + call.dimQk ≤ 2 ^ 31

def onBuffers (qBuffer kBuffer : Int → K) : MlaCall K := { call with qBuffer := qBuffer, kBuffer := kBuffer }

variable {call}

omit [Field K] [LinearOrder K] in
theorem ProductsFit.onBuffers (fits : ProductsFit call splits) (qBuffer kBuffer : Int → K) :
    ProductsFit (onBuffers call qBuffer kBuffer) splits where
  queries := fits.queries
  heads := fits.heads
  rows := fits.rows
  out := ⟨fits.out.tokens,fits.out.heads⟩
  mid := ⟨fits.mid.tokens,fits.mid.heads,fits.mid.splits⟩

end Fits

section Loads
variable {call : MlaCall K}

omit [Field K] [LinearOrder K] in
theorem load_index (fits : ProductsFit call splits) (row : curQ < call.numTokens) (i : Nat) :
    attended call.loaded curQ i = attended call.tensors curQ i := by
  have token := (scaled_exact curQ _).mpr (fits.rows curQ row)
  have head := (scaled_exact 0 call.strideIndicesHead).mpr (Scales.zero _)
  unfold attended MlaCall.loaded MlaCall.tensors
  dsimp only
  rw [token,head]
  push_cast
  rfl

omit [Field K] [LinearOrder K] in
theorem load_query (fits : ProductsFit call splits) (row : curQ < call.numTokens) (head : curHead < call.numHeadsQ)
    (d : Nat) : call.loaded.q curQ curHead d = call.tensors.q curQ curHead d := by
  have token := (scaled_exact curQ _).mpr (fits.queries curQ row)
  have lane := (scaled_exact curHead _).mpr (fits.heads curHead head)
  unfold MlaCall.loaded MlaCall.tensors
  dsimp only
  rw [token,lane]
  push_cast
  rfl

omit [Field K] [LinearOrder K] in
theorem load_row (fits : row * call.dimQk + call.dimQk ≤ 2 ^ 31) (lane : d < call.dimQk) :
    call.loaded.kv row 0 d = call.tensors.kv row 0 d := by
  have exact_offset := (offset_exact call.kvStrides (Int.natCast_nonneg row) d).mpr (by
    show (row : Int) * call.dimQk + d < 2 ^ 31
    omega)
  have own : (row : Int) * call.kvStrides.token + d = (row * call.dimQk + 0 * call.dimQk + d : Nat) := by
    unfold MlaCall.kvStrides
    push_cast
    ring
  show call.kBuffer (kvOffset call.kvStrides 0 row d) = _
  rw [exact_offset,own]
  rfl

theorem loaded_attention (exps : Exponentials K) (fits : ProductsFit call splits) (rows : RowsFit call)
    (row : curQ < call.numTokens) (head : curHead < call.numHeadsQ) (column : dv < blockDv) :
    attention exps call.loaded curQ curHead dv = attention exps call.tensors curQ curHead dv := by
  have indices : attended call.loaded curQ = attended call.tensors curQ := funext (load_index fits row)
  have same : attendedRows call.loaded curQ = attendedRows call.tensors curQ := by
    unfold attendedRows
    rw [indices]
    rfl
  have lanes : ∀ i ∈ attendedRows call.tensors curQ, ∀ d < call.dimQk,
      call.loaded.kv (attended call.tensors curQ i).toNat 0 d =
        call.tensors.kv (attended call.tensors curQ i).toNat 0 d := by
    intro i member d lane
    obtain ⟨listed,valid⟩ := Finset.mem_filter.mp member
    have fit := rows curQ row i (Finset.mem_range.mp listed) valid
    obtain ⟨n,natural⟩ := Int.eq_ofNat_of_zero_le valid.1
    rw [natural] at fit ⊢
    exact load_row (by exact_mod_cast fit) lane
  have logits : ∀ i ∈ attendedRows call.tensors curQ,
      logit call.loaded curQ curHead (attended call.tensors curQ i) =
        logit call.tensors curQ curHead (attended call.tensors curQ i) := by
    intro i member
    unfold logit
    refine congrArg (call.smScale * ·) (Finset.sum_congr rfl fun d lane => ?_)
    rw [load_query fits row head,lanes i member d (Finset.mem_range.mp lane)]
  have wide : dv < call.dimQk := Nat.lt_of_lt_of_le column (dims_wide call.tensors)
  unfold attention
  rw [same,indices]
  congr 2
  · exact Finset.sum_congr rfl fun i member => by rw [logits i member,lanes i member dv wide]
  · exact Finset.sum_congr rfl fun i member => by rw [logits i member]

end Loads

def highHalf (a : Int) : K := if 2 ^ 31 ≤ a then 1 else 0

section Misread
variable {call : MlaCall K}

omit [LinearOrder K] in
theorem high_unread (high : call.kBuffer = highHalf) (row d : Nat) : call.loaded.kv row 0 d = 0 := by
  have below : kvOffset call.kvStrides 0 row d < 2 ^ 31 := int32_lt _
  show call.kBuffer (kvOffset call.kvStrides 0 row d) = 0
  rw [high]
  exact if_neg (by omega)

omit [LinearOrder K] in
-- The last V lane of a row that ends past 2^31 lies past it.
theorem high_lane (high : call.kBuffer = highHalf) (past : 2 ^ 31 < row * call.dimQk + call.dimQk) :
    call.tensors.kv row 0 511 = 1 := by
  have lane : 2 ^ 31 ≤ row * call.dimQk + 511 := by
    rcases call.dims with rope | plain
    · rw [rope] at past ⊢
      omega
    · rw [plain] at past ⊢
      unfold blockDmodel at past ⊢
      omega
  show call.kBuffer _ = 1
  rw [high]
  exact if_pos (by push_cast; omega)

theorem high_nonneg [IsStrictOrderedRing K] (high : call.kBuffer = highHalf) (row d : Nat) :
    0 ≤ call.tensors.kv row 0 d := by
  show 0 ≤ call.kBuffer _
  rw [high]
  unfold highHalf
  split
  · exact zero_le_one
  · exact le_refl 0

variable [IsStrictOrderedRing K] (exps : Exponentials K)

theorem misread (high : call.kBuffer = highHalf) (curHead : Nat) (listed : i < call.indexTopk)
    (valid : maskKv call.tensors (attended call.tensors curQ i))
    (past : 2 ^ 31 < attended call.tensors curQ i * call.dimQk + call.dimQk) :
    attention exps call.loaded curQ curHead 511 = 0 ∧ 0 < attention exps call.tensors curQ curHead 511 := by
  have member : i ∈ attendedRows call.tensors curQ := Finset.mem_filter.mpr ⟨Finset.mem_range.mpr listed,valid⟩
  have some_row : attendedRows call.tensors curQ ≠ ∅ := Finset.ne_empty_of_mem member
  obtain ⟨n,natural⟩ := Int.eq_ofNat_of_zero_le valid.1
  have own : call.tensors.kv (attended call.tensors curQ i).toNat 0 511 = 1 := by
    rw [natural] at past ⊢
    exact high_lane high (by exact_mod_cast past)
  constructor
  · unfold attention
    split
    · rfl
    · rw [Finset.sum_eq_zero fun j _ => by rw [high_unread high,mul_zero],zero_div]
  · unfold attention
    rw [if_neg some_row]
    apply div_pos
    · refine Finset.sum_pos' (fun j _ => ?_) ⟨i,member,?_⟩
      · exact mul_nonneg (le_of_lt (exps.exp_pos _)) (high_nonneg high _ _)
      · rw [own,mul_one]
        exact exps.exp_pos _
    · exact Finset.sum_pos (fun j _ => exps.exp_pos _) ⟨i,member⟩

end Misread

section Calls
variable [IsStrictOrderedRing K] (exps : Exponentials K) (call : MlaCall K)

theorem paths_loaded (fits : ProductsFit call splits) (tiled : 0 < blockN) (divided : 0 < splits)
    (before : Int → K) (beforeMid : Int → Wide K)
    (launched : final.Perm (programs call.numTokens call.numHeadsQ (min blockH call.numHeadsQ)))
    (staged : stage.Perm (grid3 call.numTokens (numHeadGroups call.tensors) splits))
    (merged : merge.Perm (grid3 call.numTokens call.numHeadsQ numMergeDvTiles)) :
    Correct exps call.loaded call.loaded blockN splits final stage merge before beforeMid := by
  have block : min blockH call.numHeadsQ = validBlockH call.loaded blockH := by
    show _ = if call.numHeadsQ > blockH then blockH else call.numHeadsQ
    split <;> omega
  rw [block] at launched
  have out : OutFits call.loaded := ⟨fits.out.tokens,fits.out.heads⟩
  have mid : MidFits call.loaded splits := ⟨fits.mid.tokens,fits.mid.heads,fits.mid.splits⟩
  exact both_paths_exact exps out mid tiled divided before beforeMid launched staged merged

-- Whatever the queries and the pool hold, both paths are exact just where every
-- attended row ends below 2^31.
theorem sparse_mla_exact (fits : ProductsFit call splits) (tiled : 0 < blockN) (divided : 0 < splits)
    (before : Int → K) (beforeMid : Int → Wide K) (final : List (Nat × Nat)) (stage merge : List (Nat × Nat × Nat))
    (launched : final.Perm (programs call.numTokens call.numHeadsQ (min blockH call.numHeadsQ)))
    (staged : stage.Perm (grid3 call.numTokens (numHeadGroups call.tensors) splits))
    (merged : merge.Perm (grid3 call.numTokens call.numHeadsQ numMergeDvTiles)) :
    (∀ qBuffer kBuffer, Correct exps (onBuffers call qBuffer kBuffer).loaded (onBuffers call qBuffer kBuffer).tensors blockN splits
      final stage merge before beforeMid) ↔ RowsFit call := by
  have paths (qBuffer kBuffer : Int → K) := paths_loaded exps (onBuffers call qBuffer kBuffer) (fits.onBuffers qBuffer kBuffer)
    tiled divided before beforeMid launched staged merged
  constructor
  · intro correct curQ row i listed valid
    by_contra past
    have high : (onBuffers call call.qBuffer highHalf).kBuffer = highHalf := rfl
    obtain ⟨read,own⟩ := misread exps high 0 listed valid (Int.not_le.mp past)
    have stored := (paths call.qBuffer highHalf).single curQ row 0 call.someHead 511 (by decide)
    have target := (correct call.qBuffer highHalf).single curQ row 0 call.someHead 511 (by decide)
    rw [stored.symm.trans target] at read
    exact absurd read (ne_of_gt own)
  · intro rows qBuffer kBuffer
    have exact_loads {curQ curHead dv : Nat} (row : curQ < call.numTokens) (head : curHead < call.numHeadsQ)
        (column : dv < blockDv) := loaded_attention exps (fits.onBuffers qBuffer kBuffer) rows row head column
    exact {
      single := fun curQ row curHead head dv column =>
        ((paths qBuffer kBuffer).single curQ row curHead head dv column).trans (exact_loads row head column)
      split := fun curQ row curHead head dv column =>
        ((paths qBuffer kBuffer).split curQ row curHead head dv column).trans (exact_loads row head column)
      single_once := (paths qBuffer kBuffer).single_once
      split_once := (paths qBuffer kBuffer).split_once }

end Calls

-- Two tokens of two heads, five positions over three splits and tiles of two.
noncomputable def twoHeads : MlaCall ℝ where
  numTokens := 2
  numHeadsQ := 2
  dimQk := 512
  seqKv := 3
  indexTopk := 5
  qBuffer a := a
  kBuffer a := -a
  indicesPtr a := if a < 5 then a else -1
  strideQToken := 1024
  strideQHead := 512
  strideIndicesToken := 5
  strideIndicesHead := 5
  smScale := 1
  someHead := Nat.two_pos
  dims := plain_dims

theorem two_heads_fit : ProductsFit twoHeads 3 := by
  refine ⟨?_,?_,?_,⟨?_,?_⟩,⟨?_,?_,?_⟩⟩
  all_goals
    show ∀ x < _, Scales x _
    decide

theorem two_heads_rows : RowsFit twoHeads := by
  intro curQ _ i _ valid
  have below : attended twoHeads.tensors curQ i < 3 := valid.2
  show attended twoHeads.tensors curQ i * 512 + 512 ≤ 2 ^ 31
  omega

theorem sparse_mla_exact_twoHeads : 0 < 2 ∧ 0 < 3 ∧ ∀ qBuffer kBuffer : Int → ℝ,
    Correct realExponentials (onBuffers twoHeads qBuffer kBuffer).loaded (onBuffers twoHeads qBuffer kBuffer).tensors 2 3
      (programs 2 2 2) (grid3 2 1 3) (grid3 2 2 numMergeDvTiles) (fun _ => 7) fun _ => .negInf :=
  ⟨by decide,by decide,(sparse_mla_exact realExponentials twoHeads two_heads_fit (by decide : 0 < 2)
    (by decide : 0 < 3) (fun _ => 7) (fun _ => .negInf) _ _ _ (List.Perm.refl _) (List.Perm.refl _)
    (List.Perm.refl _)).mpr two_heads_rows⟩

-- One token that attends to the last of 4194305 rows of 512 elements, a row of
-- ones.
noncomputable def largeCall : MlaCall ℝ where
  numTokens := 1
  numHeadsQ := 1
  dimQk := 512
  seqKv := 4194305
  indexTopk := 16
  qBuffer _ := 0
  kBuffer := highHalf
  indicesPtr a := if a = 0 then 4194304 else -1
  strideQToken := 512
  strideQHead := 512
  strideIndicesToken := 16
  strideIndicesHead := 16
  smScale := 1
  someHead := Nat.one_pos
  dims := plain_dims

theorem large_call_fits : ProductsFit largeCall 2 := by
  refine ⟨?_,?_,?_,⟨?_,?_⟩,⟨?_,?_,?_⟩⟩
  all_goals
    show ∀ x < _, Scales x _
    decide

-- Both paths leave 0 where the attention is positive.
theorem large_pool_misread :
    singlePass realExponentials largeCall.loaded 16 (programs 1 1 1) (fun _ => 7)
      (outCell largeCall.loaded 0 0 511 : Nat) = 0 ∧
    splitPass realExponentials largeCall.loaded 2
      (splitMid realExponentials largeCall.loaded 16 2 (grid3 1 1 2) fun _ => .negInf) (grid3 1 1 numMergeDvTiles)
      (fun _ => 7) (outCell largeCall.loaded 0 0 511 : Nat) = 0 ∧
    0 < attention realExponentials largeCall.tensors 0 0 511 := by
  have paths := paths_loaded realExponentials largeCall large_call_fits (by decide : 0 < 16) (by decide : 0 < 2)
    (fun _ => 7) (fun _ => .negInf) (List.Perm.refl (programs 1 1 1)) (List.Perm.refl (grid3 1 1 2))
    (List.Perm.refl (grid3 1 1 numMergeDvTiles))
  have last : attended largeCall.tensors 0 0 = 4194304 := rfl
  have valid : maskKv largeCall.tensors (attended largeCall.tensors 0 0) := by
    rw [last]
    exact ⟨by decide,by decide⟩
  have past : 2 ^ 31 < attended largeCall.tensors 0 0 * largeCall.dimQk + largeCall.dimQk := by
    rw [last]
    show (2 ^ 31 : Int) < 4194304 * 512 + 512
    decide
  have high : largeCall.kBuffer = highHalf := rfl
  obtain ⟨read,own⟩ := misread realExponentials high 0 (by decide : 0 < 16) valid past
  have single := paths.single 0 Nat.one_pos 0 Nat.one_pos 511 (by decide)
  have split := paths.split 0 Nat.one_pos 0 Nat.one_pos 511 (by decide)
  exact ⟨single.trans read,split.trans read,own⟩

end Glm5Next.SparseMlaCalls
