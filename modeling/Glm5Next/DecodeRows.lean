import Glm5Next.DecodeExpansion

namespace Glm5Next.DecodeRows
open BufferSlices DecodeLayout DecodeExpansion StoreWrites TiledGrid

-- What either preparation leaves behind: token k of request r has flat row
-- start r + k, with the keys up to itself and its request's block table row.
structure Flattened (width : Nat) (batch : Decodes) (b : Buffers) : Prop where
  tokens : ∀ r len seqLen k : Nat, batch.decodeLens[r]? = some len → batch.seqLens[r]? = some seqLen → k < len →
    b.decodeSeqLens (Ragged.start batch.decodeLens r + k) = (seqLen : Int) - len + k + 1
  tables : ∀ r len k c : Nat, batch.decodeLens[r]? = some len → k < len → c < width →
    b.expandedBlockTable ((Ragged.start batch.decodeLens r + k) * width + c) = batch.blockTable r c
  beyond : ∀ i, batch.decodeLens.sum ≤ i → b.decodeSeqLens i = 0
  singles : ∀ i < batch.numDecodeTokens, b.decodeLens i = 1

section Batch
variable {batch : Decodes} {r len seqLen k : Nat}

theorem diff_exact (found : batch.decodeLens[r]? = some len) : batch.diff r = len := by
  unfold Decodes.diff Decodes.queryStartLoc
  rw [Ragged.start_succ found]
  omega

theorem counts_exact (batch : Decodes) (buf : Nat → Int) :
    ((List.range batch.numDecodes).map fun r => (assign buf 0 batch.numDecodes batch.diff r).toNat) =
      batch.decodeLens := by
  apply List.ext_getElem
  · simp [Decodes.numDecodes]
  · intro r inside inside'
    have request : r < batch.numDecodes := by simpa using inside
    rw [List.getElem_map,List.getElem_range,assign_inside _ _ request,
      diff_exact (List.getElem?_eq_getElem inside'),Int.toNat_natCast]

theorem uniform_exact (uniform : batch.uniform = true) :
    minDecodeLen batch.decodeLens = maxDecodeLen batch.decodeLens ∧ batch.decodeLens.sum = batch.numDecodeTokens := by
  obtain ⟨same,counted⟩ := of_decide_eq_true uniform
  refine ⟨same,?_⟩
  rw [← counted,← Ragged.start_length]
  exact Ragged.start_uniform (fun _ member => lens_uniform same member) (Nat.le_refl _)

theorem seq_len_exact (length : batch.seqLens[r]? = some seqLen) : batch.seqLen r = seqLen := by
  simp [Decodes.seqLen,List.getD_eq_getElem?_getD,length]

theorem some_length (batch : Decodes) (found : batch.decodeLens[r]? = some len) :
    ∃ seqLen : Nat, batch.seqLens[r]? = some seqLen := by
  have bound := (List.getElem?_eq_some_iff.mp found).1
  rw [← batch.listed] at bound
  exact ⟨_,List.getElem?_eq_getElem bound⟩

theorem token_inside (found : batch.decodeLens[r]? = some len) (inside : k < len) :
    Ragged.start batch.decodeLens r + k < batch.numDecodeTokens :=
  Nat.lt_of_lt_of_le (token_before found inside) batch.counted

end Batch

section Uniform
variable {batch : Decodes} {order : List Nat}

theorem uniform_seq_len (launched : order.Perm (List.range batch.numDecodeTokens)) (b : Buffers)
    (inside : idx < batch.numDecodeTokens) :
    (prepareUniform width batch order b).decodeSeqLens idx = (uniformSeqLen batch idx).2 := by
  have member : idx ∈ order := launched.mem_iff.mpr (List.mem_range.mpr inside)
  unfold prepareUniform
  dsimp only
  rw [fill_before _ _ inside]
  apply writes_exact
  · exact List.mem_map.mpr ⟨idx,member,rfl⟩
  · intro entry listed same
    obtain ⟨other,_,rfl⟩ := List.mem_map.mp listed
    cases (show other = idx from same)
    rfl

theorem uniform_single (launched : order.Perm (List.range batch.numDecodeTokens)) (b : Buffers)
    (inside : idx < batch.numDecodeTokens) : (prepareUniform width batch order b).decodeLens idx = 1 := by
  have member : idx ∈ order := launched.mem_iff.mpr (List.mem_range.mpr inside)
  unfold prepareUniform
  dsimp only
  apply writes_exact
  · exact List.mem_map.mpr ⟨idx,member,rfl⟩
  · intro entry listed _
    obtain ⟨other,_,rfl⟩ := List.mem_map.mp listed
    rfl

theorem tiles_aimed (width : Nat) (batch : Decodes) : Aimed width 1024 (uniformTile width batch) := by
  intro row tile
  simp [uniformTile]

theorem uniform_table (launched : order.Perm (List.range batch.numDecodeTokens)) (b : Buffers)
    (inside : idx < batch.numDecodeTokens) (column : c < width) :
    (prepareUniform width batch order b).expandedBlockTable (idx * width + c) =
      batch.blockTable (idx / maxDecodeLen batch.decodeLens) c := by
  -- Every program runs through the tiles of its row.
  have tiled : order.flatMap (prepareUniformDecodeKernel width batch) =
      (order.flatMap fun idx => (List.range (cdiv width 1024)).map fun tile => (idx,tile)).flatMap
        (uniformTile width batch) := by
    rw [List.flatMap_assoc]
    simp only [List.flatMap_map]
    rfl
  have programs : (order.flatMap fun idx => (List.range (cdiv width 1024)).map fun tile => (idx,tile)).Perm
      (programs batch.numDecodeTokens width 1024) := launched.flatMap_right _
  unfold prepareUniform
  dsimp only
  rw [tiled]
  apply cell_exact (by decide) (tiles_aimed width batch) programs
    (fun row col => batch.blockTable (row / maxDecodeLen batch.decodeLens) col) _ _ inside column
  intro row tile col _ _ val stored
  obtain ⟨off,_,same⟩ := List.mem_map.mp stored
  obtain ⟨address,rfl⟩ := Prod.mk.injEq .. ▸ same
  cases Nat.add_left_cancel address
  rfl

theorem uniform_flattened (uniform : batch.uniform = true)
    (launched : order.Perm (List.range batch.numDecodeTokens)) (b : Buffers) :
    Flattened width batch (prepareUniform width batch order b) := by
  obtain ⟨same,total⟩ := uniform_exact uniform
  refine ⟨?_,?_,?_,fun i inside => uniform_single launched b inside⟩
  · intro r len seqLen k found length inside
    obtain ⟨own,flat,_⟩ := uniform_token k same found
    have wide : k < maxDecodeLen batch.decodeLens := own ▸ inside
    rw [uniform_seq_len launched b (token_inside found inside),flat]
    dsimp only [uniformSeqLen]
    rw [Ragged.grid_row wide,Ragged.grid_col wide,seq_len_exact length,own]
  · intro r len k c found inside column
    obtain ⟨own,flat,_⟩ := uniform_token k same found
    have wide : k < maxDecodeLen batch.decodeLens := own ▸ inside
    rw [uniform_table launched b (token_inside found inside) column,flat,Ragged.grid_row wide]
  · intro i past
    exact fill_from _ _ (total ▸ past)

end Uniform

section Variable
variable {batch : Decodes}

theorem variable_flattened (batch : Decodes) (b : Buffers) :
    Flattened width batch (prepareVariable width batch batch.decodeLens b) := by
  have owner : ∀ r len k, batch.decodeLens[r]? = some len → k < len →
      (Ragged.owners batch.decodeLens).getD (Ragged.start batch.decodeLens r + k) 0 = r := by
    intro r len k found inside
    rw [List.getD_eq_getElem?_getD,Ragged.owners_get found inside,Option.getD_some]
  refine ⟨?_,?_,fun i past => fill_from _ _ past,?_⟩
  · intro r len seqLen k found length inside
    have before := token_before found inside
    unfold prepareVariable
    dsimp only
    rw [fill_before _ _ before,assign_inside _ _ before,owner r len k found inside,seq_len_exact length,
      List.getD_eq_getElem?_getD,found,Option.getD_some,Decodes.queryStartLoc]
    omega
  · intro r len k c found inside column
    have before := token_before found inside
    have address := Ragged.grid_below before column
    unfold prepareVariable
    dsimp only
    rw [Ragged.grid_row column,Ragged.grid_col column,if_neg (by omega),assign_inside _ _ address,
      Ragged.grid_row column,Ragged.grid_col column,owner r len k found inside]
  · intro i inside
    unfold prepareVariable
    dsimp only
    rw [assign_inside _ _ inside]

end Variable

theorem Flattened.agree {batch : Decodes} {one two : Buffers} (first : Flattened width batch one)
    (second : Flattened width batch two) (unpadded : batch.decodeLens.sum = batch.numDecodeTokens)
    (inside : i < batch.numDecodeTokens) :
    one.decodeSeqLens i = two.decodeSeqLens i ∧ one.decodeLens i = two.decodeLens i ∧
      ∀ c < width, one.expandedBlockTable (i * width + c) = two.expandedBlockTable (i * width + c) := by
  obtain ⟨r,len,k,found,token,rfl⟩ := Ragged.locate batch.decodeLens (unpadded ▸ inside)
  obtain ⟨seqLen,length⟩ := some_length batch found
  refine ⟨?_,?_,fun c column => ?_⟩
  · rw [first.tokens r len seqLen k found length token,second.tokens r len seqLen k found length token]
  · rw [first.singles _ inside,second.singles _ inside]
  · rw [first.tables r len k c found token column,second.tables r len k c found token column]

section Translation
variable {cfg : BuilderConfig} {batch : Decodes} {phys : Nat → Nat → Int}

def virtualSplit (cfg : BuilderConfig) : Nat :=
  match cfg.kernelBlockSize with
  | none => 1
  | some kbs => cfg.blockSize / kbs

def SplitTable (cfg : BuilderConfig) (batch : Decodes) (phys : Nat → Nat → Int) : Prop :=
  ∀ r c, r < batch.numDecodes → c < cfg.tableWidth →
    batch.blockTable r c = phys r (c / virtualSplit cfg) * virtualSplit cfg + (c % virtualSplit cfg : Nat)

theorem split_pos (cfg : BuilderConfig) : 0 < virtualSplit cfg := by
  unfold virtualSplit
  cases kernel : cfg.kernelBlockSize with
  | none => exact Nat.one_pos
  | some kbs =>
      have divides := cfg.kernel_divides kbs kernel
      exact Nat.div_pos (Nat.le_of_dvd cfg.block_pos divides) (Nat.pos_of_dvd_of_pos divides cfg.block_pos)

theorem factor_exact (compressed : 1 < cfg.compressRatio) :
    splitFactor cfg = if virtualSplit cfg = 1 then none else some (virtualSplit cfg) := by
  unfold splitFactor virtualSplit
  rw [if_pos compressed]
  cases kernel : cfg.kernelBlockSize with
  | none => rfl
  | some kbs =>
      have divides := cfg.kernel_divides kbs kernel
      have positive := Nat.pos_of_dvd_of_pos divides cfg.block_pos
      have whole := Nat.div_mul_cancel divides
      dsimp only
      by_cases same : cfg.blockSize = kbs
      · rw [if_neg fun both => both.1 same,if_pos (by rw [same,Nat.div_self positive])]
      · rw [if_pos ⟨same,Nat.mod_eq_zero_of_dvd divides⟩,if_neg]
        intro single
        rw [single,Nat.one_mul] at whole
        exact same whole.symm

theorem indexer_table_exact (split : SplitTable cfg batch phys) (request : r < batch.numDecodes)
    (served : 1 < cfg.compressRatio ∨ virtualSplit cfg = 1) (column : k < cdiv cfg.tableWidth (virtualSplit cfg)) :
    indexerBlockTable cfg batch r k = phys r k := by
  have inside := Ragged.block_start (split_pos cfg) column
  have here := split r (k * virtualSplit cfg) request inside
  rw [Nat.mul_div_cancel _ (split_pos cfg),Nat.mul_mod_left,Int.natCast_zero,Int.add_zero] at here
  have unsplit : virtualSplit cfg = 1 → batch.blockTable r k = phys r k := by
    intro single
    rw [single,Nat.mul_one,Int.natCast_one,Int.mul_one] at here
    exact here
  unfold indexerBlockTable
  by_cases compressed : 1 < cfg.compressRatio
  · rw [factor_exact compressed]
    by_cases single : virtualSplit cfg = 1
    · rw [if_pos single]
      exact unsplit single
    · rw [if_neg single]
      dsimp only [translated]
      rw [here]
      exact Int.mul_ediv_cancel _ (by have := split_pos cfg; omega)
  · have untranslated : splitFactor cfg = none := if_neg compressed
    rw [untranslated]
    exact unsplit (served.resolve_left compressed)

theorem columns_exact (rows : Nat) (table buffer : Nat → Nat → Int)
    (served : 1 < cfg.compressRatio ∨ virtualSplit cfg = 1) :
    (translateDecodeTable cfg rows table buffer).2.2 = cdiv cfg.tableWidth (virtualSplit cfg) := by
  have whole : virtualSplit cfg = 1 → cfg.tableWidth = cdiv cfg.tableWidth (virtualSplit cfg) := by
    intro single
    rw [single]
    simp [cdiv]
  unfold translateDecodeTable
  by_cases compressed : 1 < cfg.compressRatio
  · rw [factor_exact compressed]
    by_cases single : virtualSplit cfg = 1
    · rw [if_pos single]
      exact whole single
    · rw [if_neg single]
  · have untranslated : splitFactor cfg = none := if_neg compressed
    rw [untranslated]
    exact whole (served.resolve_left compressed)

theorem factor_pos (translation : splitFactor cfg = some factor) : 0 < factor := by
  by_cases compressed : 1 < cfg.compressRatio
  · rw [factor_exact compressed] at translation
    split at translation
    · cases translation
    · cases translation
      exact split_pos cfg
  · have untranslated : splitFactor cfg = none := if_neg compressed
    rw [untranslated] at translation
    cases translation

-- The decode side translates expanded rows, the other side the rows themselves.
theorem decode_table_same {rows : Nat} {table buffer : Nat → Nat → Int} (inside : row < rows)
    (copied : ∀ c < cfg.tableWidth, table row c = batch.blockTable r c)
    (column : k < (translateDecodeTable cfg rows table buffer).2.2) :
    (translateDecodeTable cfg rows table buffer).2.1 row k = indexerBlockTable cfg batch r k := by
  unfold translateDecodeTable at column ⊢
  unfold indexerBlockTable
  cases translation : splitFactor cfg with
  | none =>
      rw [translation] at column
      exact copied k column
  | some factor =>
      rw [translation] at column
      dsimp only at column ⊢
      rw [if_pos ⟨inside,column⟩]
      unfold translated
      rw [copied _ (Ragged.block_start (factor_pos translation) column)]

end Translation

section Build
variable {cfg : BuilderConfig} {batch : Decodes} {order : List Nat}

-- Where a batch of single tokens is not as wide as it has requests, the copy
-- of the lengths does not fit its slice.
def Misfit (cfg : BuilderConfig) (batch : Decodes) : Prop :=
  1 < cfg.compressRatio ∧ maxDecodeLen batch.decodeLens ≤ 1 ∧
    batch.numDecodeTokens ≠ batch.numDecodes ∧ batch.numDecodeTokens ≠ 1

theorem prepared_flattened (flattened : useNative cfg.toDecodeConfig batch.decodeLens = false)
    (launched : order.Perm (List.range batch.numDecodeTokens)) (buf : Nat → Int) (b : Buffers) :
    ∃ after, Flattened cfg.tableWidth batch after ∧
      DecodeExpansion.prepareDecodeTensors cfg order batch (assign buf 0 batch.numDecodes batch.diff) b =
        ⟨after,after.decodeSeqLens,batch.numDecodeTokens,
          fun row col => after.expandedBlockTable (row * cfg.tableWidth + col),after.decodeLens,
          batch.numDecodeTokens,false⟩ := by
  unfold DecodeExpansion.prepareDecodeTensors
  rw [if_neg (by simp [flattened]),counts_exact]
  dsimp only
  by_cases launch : cfg.supportsVarlen = false ∧ batch.uniform
  · rw [if_pos launch]
    exact ⟨_,uniform_flattened launch.2 launched b,rfl⟩
  · rw [if_neg launch]
    exact ⟨_,variable_flattened batch b,rfl⟩

theorem view_exact (flattened : useNative cfg.toDecodeConfig batch.decodeLens = false) :
    seqLensIsBufferView cfg batch = decide (maxDecodeLen batch.decodeLens > 1) := by
  simp [seqLensIsBufferView,flattened]

theorem copied_some (buf pools : Nat → Int) :
    (copySeqLens batch buf batch.numDecodeTokens pools).isSome = true ↔
      batch.numDecodeTokens = batch.numDecodes ∨ batch.numDecodeTokens = 1 := by
  rw [copySeqLens,Option.isSome_map]
  exact tensor_fits buf pools

theorem decodes_pos (batch : Decodes) : 0 < batch.numDecodes := List.length_pos_iff.mpr batch.some_decode

theorem copied_entry {buf pools after : Nat → Int}
    (copied : copySeqLens batch buf batch.numDecodeTokens pools = some after) (inside : i < batch.numDecodeTokens) :
    after i = pools i := by
  have shape := (copied_some buf pools).mp (by rw [copied]; rfl)
  have requests := decodes_pos batch
  obtain ⟨expanded,assigned,rfl⟩ := Option.map_eq_some_iff.mp copied
  have request : i < batch.numDecodes := by omega
  rw [assign_before _ _ request]
  exact tensor_entry assigned request inside

theorem compressed_some (flattened : useNative cfg.toDecodeConfig batch.decodeLens = false)
    (prepared : Prepared) (sized : prepared.size = batch.numDecodeTokens) :
    (compressSeqLens cfg batch prepared).isSome = true ↔ ¬ Misfit cfg batch := by
  unfold compressSeqLens Misfit
  rw [view_exact flattened,sized]
  dsimp only
  by_cases ratio : cfg.compressRatio ≤ 1
  · rw [if_pos ratio]
    exact ⟨fun _ misfit => Nat.not_lt.mpr ratio misfit.1,fun _ => rfl⟩
  · rw [if_neg ratio]
    by_cases several : maxDecodeLen batch.decodeLens > 1
    · rw [if_pos (decide_eq_true several)]
      exact ⟨fun _ misfit => Nat.not_lt.mpr misfit.2.1 several,fun _ => rfl⟩
    · rw [if_neg (by simpa using several),Option.isSome_map,copied_some]
      omega

theorem compressed_entries (flattened : useNative cfg.toDecodeConfig batch.decodeLens = false)
    (prepared : Prepared) (sized : prepared.size = batch.numDecodeTokens)
    (built : compressSeqLens cfg batch prepared = some (after,seqLens,rows)) :
    rows = batch.numDecodeTokens ∧
      ∀ i < batch.numDecodeTokens, seqLens i = prepared.seqLens i / (cfg.compressRatio : Int) := by
  unfold compressSeqLens at built
  rw [view_exact flattened,sized] at built
  dsimp only at built
  split at built
  · rename_i ratio
    have single : cfg.compressRatio = 1 := Nat.le_antisymm ratio cfg.ratio_pos
    cases built
    refine ⟨rfl,fun i _ => ?_⟩
    rw [single,Int.natCast_one,Int.ediv_one]
  · split at built
    · cases built
      exact ⟨rfl,fun i inside => assign_inside _ _ inside⟩
    · obtain ⟨expanded,copied,same⟩ := Option.map_eq_some_iff.mp built
      cases same
      exact ⟨rfl,fun i inside => copied_entry copied inside⟩

-- The metadata of flattened decodes: a row for each token, then rows of length
-- zero. A row's table is what the write and the prefill read use for its
-- request, and lists the request's pages.
structure Expanded (cfg : BuilderConfig) (batch : Decodes) (phys : Nat → Nat → Int) (out : DecodeTensors) : Prop where
  rows : out.rows = batch.numDecodeTokens
  lengths : ∀ r len seqLen k : Nat, batch.decodeLens[r]? = some len → batch.seqLens[r]? = some seqLen → k < len →
    out.seqLens (Ragged.start batch.decodeLens r + k) = ((seqLen - len + k + 1) / cfg.compressRatio : Nat)
  beyond : ∀ i, batch.decodeLens.sum ≤ i → i < batch.numDecodeTokens → out.seqLens i = 0
  columns : 1 < cfg.compressRatio ∨ virtualSplit cfg = 1 → out.columns = cdiv cfg.tableWidth (virtualSplit cfg)
  tables : 1 < cfg.compressRatio ∨ virtualSplit cfg = 1 → ∀ r len k c : Nat, batch.decodeLens[r]? = some len → k < len →
    c < out.columns → out.blockTable (Ragged.start batch.decodeLens r + k) c = phys r c
  pages : ∀ r len k c : Nat, batch.decodeLens[r]? = some len → k < len → c < out.columns →
    out.blockTable (Ragged.start batch.decodeLens r + k) c = indexerBlockTable cfg batch r c

def PathsAgree (width : Nat) (batch : Decodes) : Prop :=
  batch.uniform = true → ∀ order : List Nat, order.Perm (List.range batch.numDecodeTokens) → ∀ one two : Buffers,
    ∀ i < batch.numDecodeTokens,
      (prepareUniform width batch order one).decodeSeqLens i =
        (prepareVariable width batch batch.decodeLens two).decodeSeqLens i ∧
      (prepareUniform width batch order one).decodeLens i =
        (prepareVariable width batch batch.decodeLens two).decodeLens i ∧
      ∀ c < width, (prepareUniform width batch order one).expandedBlockTable (i * width + c) =
        (prepareVariable width batch batch.decodeLens two).expandedBlockTable (i * width + c)

theorem paths_agree (width : Nat) (batch : Decodes) : PathsAgree width batch := by
  intro uniform order launched one two i inside
  exact (uniform_flattened uniform launched one).agree (variable_flattened batch two) (uniform_exact uniform).2 inside

def expandedRows (cfg : BuilderConfig) (b : Buffers) : Nat → Nat → Int :=
  fun row col => b.expandedBlockTable (row * cfg.tableWidth + col)

-- After the preparation only the copy of the lengths can fail.
theorem built_exact (flattened : useNative cfg.toDecodeConfig batch.decodeLens = false)
    (launched : order.Perm (List.range batch.numDecodeTokens)) (b : Buffers) :
    ∃ (flat : Buffers) (prepared : Prepared) (finish : Buffers × (Nat → Int) × Nat → Buffers × DecodeTensors),
      Flattened cfg.tableWidth batch flat ∧ prepared.seqLens = flat.decodeSeqLens ∧
      prepared.size = batch.numDecodeTokens ∧
      buildDecode cfg order batch b = (compressSeqLens cfg batch prepared).map finish ∧
      ∀ lengths, (finish lengths).2.seqLens = lengths.2.1 ∧ (finish lengths).2.rows = lengths.2.2 ∧
        ((finish lengths).2.blockTable,(finish lengths).2.columns) =
          (translateDecodeTable cfg batch.numDecodeTokens (expandedRows cfg flat) flat.indexerDecodeBlockTable).2 := by
  obtain ⟨flat,exact_flat,prepared⟩ := prepared_flattened flattened launched b.decodeLens
    { b with
      decodeLens := assign b.decodeLens 0 batch.numDecodes batch.diff
      perReqDecodeLens := assign b.perReqDecodeLens 0 batch.numDecodes
        (assign b.decodeLens 0 batch.numDecodes batch.diff) }
  unfold buildDecode
  dsimp only
  rw [prepared]
  exact ⟨flat,_,_,exact_flat,rfl,rfl,rfl,fun _ => ⟨rfl,rfl,rfl⟩⟩

theorem built_fits (flattened : useNative cfg.toDecodeConfig batch.decodeLens = false)
    (launched : order.Perm (List.range batch.numDecodeTokens))
    (built : buildDecode cfg order batch b = some (after,out)) : ¬ Misfit cfg batch := by
  obtain ⟨_,prepared,_,_,_,sized,result,_⟩ := built_exact flattened launched b
  rw [result] at built
  obtain ⟨lengths,compressed,_⟩ := Option.map_eq_some_iff.mp built
  apply (compressed_some flattened prepared sized).mp
  rw [compressed]
  rfl

theorem fits_expanded {phys : Nat → Nat → Int} (flattened : useNative cfg.toDecodeConfig batch.decodeLens = false)
    (launched : order.Perm (List.range batch.numDecodeTokens)) (split : SplitTable cfg batch phys) (b : Buffers)
    (fits : ¬ Misfit cfg batch) :
    ∃ after out, buildDecode cfg order batch b = some (after,out) ∧ Expanded cfg batch phys out := by
  obtain ⟨flat,prepared,finish,exact_flat,own,sized,result,shown⟩ := built_exact flattened launched b
  obtain ⟨⟨after,seqLens,rows⟩,compressed⟩ := Option.isSome_iff_exists.mp
    ((compressed_some flattened prepared sized).mpr fits)
  obtain ⟨counted,pooled⟩ := compressed_entries flattened prepared sized compressed
  obtain ⟨lengths,whole,table⟩ := shown (after,seqLens,rows)
  obtain ⟨tables,columns⟩ := Prod.mk.injEq .. ▸ table
  dsimp only at lengths whole
  rw [result,compressed]
  refine ⟨_,_,rfl,?_⟩
  have page : ∀ r len k c : Nat, batch.decodeLens[r]? = some len → k < len →
      c < (finish (after,seqLens,rows)).2.columns →
      (finish (after,seqLens,rows)).2.blockTable (Ragged.start batch.decodeLens r + k) c =
        indexerBlockTable cfg batch r c := by
    intro r len k c found inside column
    rw [columns] at column
    rw [tables]
    exact decode_table_same (token_inside found inside)
      (fun c bound => exact_flat.tables r len k c found inside bound) column
  refine ⟨whole.trans counted,?_,?_,?_,?_,page⟩
  · intro r len seqLen k found length inside
    have grown := batch.grown r len seqLen found length
    rw [lengths,pooled _ (token_inside found inside),own,exact_flat.tokens r len seqLen k found length inside,
      Int.natCast_ediv]
    congr 1
    omega
  · intro i past inside
    rw [lengths,pooled i inside,own,exact_flat.beyond i past,Int.zero_ediv]
  · intro served
    rw [columns]
    exact columns_exact _ _ _ served
  · intro served r len k c found inside column
    rw [page r len k c found inside column]
    rw [columns] at column
    have request := (List.getElem?_eq_some_iff.mp found).1
    exact indexer_table_exact split request served (by rwa [← columns_exact _ _ _ served])

-- The metadata is exact where the lengths fit, and nowhere else built.
theorem expansion_exact_iff {phys : Nat → Nat → Int}
    (flattened : useNative cfg.toDecodeConfig batch.decodeLens = false)
    (launched : order.Perm (List.range batch.numDecodeTokens)) (split : SplitTable cfg batch phys) (b : Buffers) :
    (∃ after out, buildDecode cfg order batch b = some (after,out) ∧ Expanded cfg batch phys out) ∧
      PathsAgree cfg.tableWidth batch ↔
    ¬ Misfit cfg batch := by
  constructor
  · rintro ⟨⟨after,out,built,_⟩,_⟩
    exact built_fits flattened launched built
  · intro fits
    exact ⟨fits_expanded flattened launched split b fits,paths_agree _ _⟩

end Build

def splitConfig : BuilderConfig where
  useFlattening := true
  supportsVarlen := false
  numSpeculativeTokens := 3
  compressRatio := 4
  blockSize := 256
  kernelBlockSize := some 64
  tableWidth := 10
  ratio_pos := by decide
  block_pos := by decide
  kernel_divides := by decide

def samplePages (r c : Nat) : Int := 100 * r + c

def splitTable (r c : Nat) : Int := samplePages r (c / 4) * 4 + (c % 4 : Nat)

def verifyDecodes : Decodes where
  seqLens := [10,7,12,0]
  decodeLens := [3,1,4,0]
  numDecodeTokens := 9
  blockTable := splitTable
  listed := rfl
  some_decode := by decide
  grown := by
    intro r len seqLen found length
    match r with
    | 0 => cases found; cases length; decide
    | 1 => cases found; cases length; decide
    | 2 => cases found; cases length; decide
    | 3 => cases found; cases length; decide
    | r + 4 => simp at found
  counted := by decide

def zeroBuffers : Buffers := ⟨fun _ => 0,fun _ => 0,fun _ => 0,fun _ => 0,fun _ => 0,fun _ _ => 0⟩

theorem expansion_exact_verify :
    (∃ after out, buildDecode splitConfig (List.range 9) verifyDecodes zeroBuffers = some (after,out) ∧
      Expanded splitConfig verifyDecodes samplePages out) ∧ PathsAgree 10 verifyDecodes := by
  have flattened : useNative splitConfig.toDecodeConfig verifyDecodes.decodeLens = false := by decide
  have split : SplitTable splitConfig verifyDecodes samplePages := fun _ _ _ _ => rfl
  have several : ¬ maxDecodeLen verifyDecodes.decodeLens ≤ 1 := by decide
  exact (expansion_exact_iff flattened (List.Perm.refl _) split zeroBuffers).mpr fun misfit => several misfit.2.1

def singleTokens : Decodes where
  seqLens := [9,5,12]
  decodeLens := [1,1,1]
  numDecodeTokens := 4
  blockTable := splitTable
  listed := rfl
  some_decode := by decide
  grown := by
    intro r len seqLen found length
    match r with
    | 0 => cases found; cases length; decide
    | 1 => cases found; cases length; decide
    | 2 => cases found; cases length; decide
    | r + 3 => simp at found
  counted := by decide

def varlenConfig : BuilderConfig :=
  { splitConfig with useFlattening := false,supportsVarlen := true }

-- Four lengths do not fit into the slice of three requests.
theorem single_tokens_unbuilt :
    buildDecode varlenConfig (List.range 4) singleTokens zeroBuffers = none ∧
    ¬ ∃ after out, buildDecode varlenConfig (List.range 4) singleTokens zeroBuffers = some (after,out) ∧
      Expanded varlenConfig singleTokens samplePages out := by
  have raised : buildDecode varlenConfig (List.range 4) singleTokens zeroBuffers = none := rfl
  refine ⟨raised,?_⟩
  rintro ⟨after,out,built,_⟩
  rw [raised] at built
  cases built

end Glm5Next.DecodeRows
