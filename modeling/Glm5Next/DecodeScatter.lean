import Glm5Next.DecodeLayout
import Glm5Next.TensorOps
import Glm5Next.WrappedInts

namespace Glm5Next.DecodeScatter
open TensorOps WrappedInts

-- Request and intra-request index of each token. Where a shape does not fit
-- torch raises.
def buildDecodeScatterIndices (decodeLens : List Nat) (numRequests n : Nat) : Option (List Int × List Int) :=
  match repeatInterleave (arange numRequests) decodeLens n with
  | none => none
  | some reqId =>
      let reqStarts := cumsum (0 :: decodeLens.dropLast.map fun (len : Nat) => (len : Int))
      match repeatInterleave reqStarts decodeLens n with
      | none => none
      | some starts => some (reqId,List.zipWith (fun i start => i - start) (arange n) starts)

-- Both arange(n) and the starts have n entries. The scatter is dtype-agnostic.
def scatterDecodeTokensByRequest {α : Type} (tokens : List α) (padValue : α) (numRequests lmax : Nat)
    (scatterIndices : List Int × List Int) : Option (Nat × Nat → α) :=
  indexPut numRequests lmax (fun _ => padValue) scatterIndices.1 scatterIndices.2 tokens

def decodeTopkSeqLens (positions : List Int) (decodeLens : List Nat) (numDecodeTokens batchSize nextN : Nat)
    (requiresPadding : Bool) : Option (List Int) :=
  if requiresPadding then
    match buildDecodeScatterIndices decodeLens batchSize numDecodeTokens with
    | none => none
    | some scatterIdx =>
        (scatterDecodeTokensByRequest ((positions.take numDecodeTokens).map int32) (-1) batchSize nextN scatterIdx).map
          fun padded => (flatten batchSize nextN padded).map fun pos => int32 (pos + 1)
  else some ((positions.take (batchSize * nextN)).map fun pos => int32 (int32 pos + 1))

def cells (decodeLens : List Nat) : List (Nat × Nat) :=
  DecodeLayout.buildDecodeScatterIndices decodeLens decodeLens.sum

def Before (a b : Nat × Nat) : Prop := a.1 < b.1 ∨ a.1 = b.1 ∧ a.2 < b.2

theorem before_ne (earlier : Before a b) : a ≠ b := by
  rintro rfl
  unfold Before at earlier
  omega

section Cells
variable {decodeLens : List Nat}

theorem cells_length (decodeLens : List Nat) : (cells decodeLens).length = decodeLens.sum := by
  simp [cells,DecodeLayout.buildDecodeScatterIndices]

theorem cell_exact (found : decodeLens[r]? = some len) (inside : k < len) :
    (cells decodeLens)[Ragged.start decodeLens r + k]? = some (r,k) := DecodeLayout.place_exact found inside

theorem cell_parts (listed : (cells decodeLens)[i]? = some (r,k)) :
    ∃ len, decodeLens[r]? = some len ∧ k < len ∧ i = Ragged.start decodeLens r + k := DecodeLayout.place_parts listed

theorem mem_cells : (r,k) ∈ cells decodeLens ↔ ∃ len, decodeLens[r]? = some len ∧ k < len := by
  constructor
  · intro member
    obtain ⟨i,listed⟩ := List.mem_iff_getElem?.mp member
    obtain ⟨len,found,inside,_⟩ := cell_parts listed
    exact ⟨len,found,inside⟩
  · rintro ⟨len,found,inside⟩
    exact List.mem_of_getElem? (cell_exact found inside)

theorem cells_ordered (decodeLens : List Nat) : (cells decodeLens).Pairwise Before := by
  rw [List.pairwise_iff_getElem]
  intro i j bound bound' ordered
  rcases at_i : (cells decodeLens)[i] with ⟨r,k⟩
  rcases at_j : (cells decodeLens)[j] with ⟨s,l⟩
  obtain ⟨len,found,inside,same⟩ := cell_parts ((List.getElem?_eq_getElem bound).trans (congrArg some at_i))
  obtain ⟨len',found',inside',same'⟩ := cell_parts ((List.getElem?_eq_getElem bound').trans (congrArg some at_j))
  rcases Nat.lt_trichotomy r s with earlier | rfl | later
  · exact Or.inl earlier
  · exact Or.inr ⟨rfl,by omega⟩
  · have behind := Ragged.row_inside found' inside' later
    omega

theorem cells_nodup (decodeLens : List Nat) : (cells decodeLens).Nodup := (cells_ordered decodeLens).imp before_ne

-- The chain of repeat_interleave and cumsum names the cells.
theorem indices_exact (some_request : decodeLens ≠ []) :
    buildDecodeScatterIndices decodeLens decodeLens.length decodeLens.sum =
      some ((cells decodeLens).map fun cell => (cell.1 : Int),(cells decodeLens).map fun cell => (cell.2 : Int)) := by
  have requests := List.length_pos_of_ne_nil some_request
  obtain ⟨reqId,ids,long,id_exact⟩ := repeat_exact (arange decodeLens.length) decodeLens (arange_length _)
  obtain ⟨starts,begins,long',start_exact⟩ := repeat_exact
    (cumsum (0 :: decodeLens.dropLast.map fun (len : Nat) => (len : Int))) decodeLens (by
      rw [cumsum_length,List.length_cons,List.length_map,List.length_dropLast]
      omega)
  rw [buildDecodeScatterIndices,ids]
  dsimp only
  rw [begins]
  refine congrArg some (Prod.ext ?_ ?_)
  · refine List.ext_getElem? fun i => ?_
    by_cases inside : i < decodeLens.sum
    · obtain ⟨r,len,k,found,bound,rfl⟩ := Ragged.locate decodeLens inside
      have request := (List.getElem?_eq_some_iff.mp found).1
      rw [id_exact r len k r found bound (arange_get request),List.getElem?_map,cell_exact found bound,Option.map_some]
    · have past : reqId.length ≤ i := by omega
      have unlisted : ((cells decodeLens).map fun cell => (cell.1 : Int)).length ≤ i := by
        rw [List.length_map,cells_length]
        omega
      rw [List.getElem?_eq_none past,List.getElem?_eq_none unlisted]
  · refine List.ext_getElem? fun i => ?_
    by_cases inside : i < decodeLens.sum
    · obtain ⟨r,len,k,found,bound,rfl⟩ := Ragged.locate decodeLens inside
      have request := (List.getElem?_eq_some_iff.mp found).1
      rw [List.getElem?_zipWith,arange_get inside,start_exact r len k _ found bound (cumsum_starts decodeLens request),
        List.getElem?_map,cell_exact found bound,Option.map_some]
      show some (((Ragged.start decodeLens r + k : Nat) : Int) - (Ragged.start decodeLens r : Int)) = some (k : Int)
      exact congrArg some (by omega)
    · have past : (List.zipWith (fun i start => i - start) (arange decodeLens.sum) starts).length ≤ i := by
        rw [List.length_zipWith,arange_length]
        omega
      have unlisted : ((cells decodeLens).map fun cell => (cell.2 : Int)).length ≤ i := by
        rw [List.length_map,cells_length]
        omega
      rw [List.getElem?_eq_none past,List.getElem?_eq_none unlisted]

theorem cells_inside (fits : ∀ len ∈ decodeLens, len ≤ lmax) :
    ∀ cell ∈ cells decodeLens, cell.1 < decodeLens.length ∧ cell.2 < lmax := by
  rintro ⟨r,k⟩ member
  obtain ⟨len,found,inside⟩ := mem_cells.mp member
  exact ⟨(List.getElem?_eq_some_iff.mp found).1,Nat.lt_of_lt_of_le inside (fits len (List.mem_of_getElem? found))⟩

theorem scattered_exact {α : Type} (tokens : List α) (padValue : α) (fits : ∀ len ∈ decodeLens, len ≤ lmax)
    (counted : tokens.length = decodeLens.sum) :
    ∃ out, scatterDecodeTokensByRequest tokens padValue decodeLens.length lmax
        ((cells decodeLens).map fun cell => (cell.1 : Int),(cells decodeLens).map fun cell => (cell.2 : Int)) = some out ∧
      (∀ (i : Nat) cell token, (cells decodeLens)[i]? = some cell → tokens[i]? = some token → out cell = token) ∧
      ∀ cell ∉ cells decodeLens, out cell = padValue :=
  put_exact (fun _ => padValue) (cells decodeLens) tokens (counted.trans (cells_length decodeLens).symm)
    (cells_inside fits) (cells_nodup decodeLens)

-- The tensor chain scatters as the model of the decode stage does.
theorem scatter_same {α : Type} (tokens : Nat → α) (padValue : α) (fits : ∀ len ∈ decodeLens, len ≤ lmax) :
    scatterDecodeTokensByRequest ((List.range decodeLens.sum).map tokens) padValue decodeLens.length lmax
        ((cells decodeLens).map fun cell => (cell.1 : Int),(cells decodeLens).map fun cell => (cell.2 : Int)) =
      some (DecodeLayout.scatterDecodeTokensByRequest tokens padValue (cells decodeLens)) := by
  obtain ⟨out,scattered,placed,padded⟩ := scattered_exact ((List.range decodeLens.sum).map tokens) padValue fits (by simp)
  rw [scattered]
  congr 1
  funext cell
  by_cases listed : cell ∈ cells decodeLens
  · obtain ⟨r,k⟩ := cell
    obtain ⟨len,found,inside⟩ := mem_cells.mp listed
    have token : ((List.range decodeLens.sum).map tokens)[Ragged.start decodeLens r + k]? =
        some (tokens (Ragged.start decodeLens r + k)) := by
      rw [List.getElem?_map,List.getElem?_range (DecodeLayout.token_before found inside),Option.map_some]
    rw [placed _ _ _ (cell_exact found inside) token]
    exact (DecodeLayout.scattered_exact tokens padValue found inside).symm
  · rw [padded cell listed]
    unfold DecodeLayout.scatterDecodeTokensByRequest
    refine (StoreWrites.writes_apart (fun _ => padValue) _ cell ?_).symm
    rintro entry member rfl
    obtain ⟨⟨place,i⟩,zipped,rfl⟩ := List.mem_map.mp member
    exact listed (List.mem_of_getElem? (List.mem_zipIdx_iff_getElem?.mp zipped))

theorem padded_rows_exact (some_request : decodeLens ≠ []) (fits : ∀ len ∈ decodeLens, len ≤ nextN)
    (positions : List Int) (counted : decodeLens.sum ≤ positions.length) :
    ∃ rows, decodeTopkSeqLens positions decodeLens decodeLens.sum decodeLens.length nextN true = some rows ∧
      rows.length = decodeLens.length * nextN ∧
      ∀ b len t pos, decodeLens[b]? = some len → t < nextN →
        (t < len → positions[Ragged.start decodeLens b + t]? = some pos →
          rows[b * nextN + t]? = some (int32 (pos + 1))) ∧ (len ≤ t → rows[b * nextN + t]? = some 0) := by
  obtain ⟨out,scattered,placed,padded⟩ := scattered_exact ((positions.take decodeLens.sum).map int32) (-1) fits
    (by rw [List.length_map,List.length_take,Nat.min_eq_left counted])
  refine ⟨(flatten decodeLens.length nextN out).map fun pos => int32 (pos + 1),?_,?_,?_⟩
  · rw [decodeTopkSeqLens,if_pos rfl,indices_exact some_request]
    dsimp only
    rw [scattered]
    rfl
  · rw [List.length_map,flatten_length]
  · intro b len t pos found wide
    have cell := flatten_get out (List.getElem?_eq_some_iff.mp found).1 wide
    rw [List.getElem?_map,cell,Option.map_some]
    constructor
    · intro inside held
      have token : ((positions.take decodeLens.sum).map int32)[Ragged.start decodeLens b + t]? = some (int32 pos) := by
        rw [List.getElem?_map,List.getElem?_take_of_lt (DecodeLayout.token_before found inside),held,Option.map_some]
      rw [placed _ _ _ (cell_exact found inside) token]
      simp only [int32,Int.bmod_add_bmod]
    · intro past
      have unlisted : (b,t) ∉ cells decodeLens := by
        intro member
        obtain ⟨len',found',inside⟩ := mem_cells.mp member
        rw [found] at found'
        cases found'
        omega
      rw [padded _ unlisted]
      rfl

theorem flat_rows_exact (positions : List Int) (request : b < decodeLens.length) (wide : t < nextN)
    (held : positions[b * nextN + t]? = some pos) :
    ∃ rows, decodeTopkSeqLens positions decodeLens decodeLens.sum decodeLens.length nextN false = some rows ∧
      rows[b * nextN + t]? = some (int32 (pos + 1)) := by
  refine ⟨_,rfl,?_⟩
  have bound := Ragged.grid_below request wide
  rw [List.getElem?_map,List.getElem?_take_of_lt bound,held,Option.map_some]
  simp only [int32,Int.bmod_add_bmod]

-- The cells are the real ones of the grid, in the order of the tokens; a
-- scatter fills them and leaves the padding; row b * next_n + t holds the
-- length of token t of request b.
theorem padded_layout_exact (α : Type) (decodeLens : List Nat) (nextN : Nat) (some_request : decodeLens ≠ [])
    (fits : ∀ len ∈ decodeLens, len ≤ nextN) :
    ∃ (cells : List (Nat × Nat)) (indices : List Int × List Int),
      buildDecodeScatterIndices decodeLens decodeLens.length decodeLens.sum = some indices ∧
      indices = (cells.map fun cell => (cell.1 : Int),cells.map fun cell => (cell.2 : Int)) ∧
      cells.length = decodeLens.sum ∧ cells.Pairwise Before ∧
      (∀ r k, (r,k) ∈ cells ↔ ∃ len, decodeLens[r]? = some len ∧ k < len) ∧
      (∀ b len t, decodeLens[b]? = some len → t < len → cells[Ragged.start decodeLens b + t]? = some (b,t)) ∧
      (∀ (tokens : List α) (padValue : α), tokens.length = decodeLens.sum →
        ∃ out, scatterDecodeTokensByRequest tokens padValue decodeLens.length nextN indices = some out ∧
          (∀ (i : Nat) cell token, cells[i]? = some cell → tokens[i]? = some token → out cell = token) ∧
          ∀ cell ∉ cells, out cell = padValue) ∧
      (∀ positions : List Int, decodeLens.sum ≤ positions.length →
        ∃ rows, decodeTopkSeqLens positions decodeLens decodeLens.sum decodeLens.length nextN true = some rows ∧
          rows.length = decodeLens.length * nextN ∧
          ∀ b len t pos, decodeLens[b]? = some len → t < nextN →
            (t < len → positions[Ragged.start decodeLens b + t]? = some pos →
              rows[b * nextN + t]? = some (int32 (pos + 1))) ∧ (len ≤ t → rows[b * nextN + t]? = some 0)) ∧
      (∀ (positions : List Int) b t pos, b < decodeLens.length → t < nextN → positions[b * nextN + t]? = some pos →
        ∃ rows, decodeTopkSeqLens positions decodeLens decodeLens.sum decodeLens.length nextN false = some rows ∧
          rows[b * nextN + t]? = some (int32 (pos + 1))) ∧
      ∀ pos : Int, 0 ≤ pos → pos < 2 ^ 31 - 1 → int32 (pos + 1) = pos + 1 := by
  refine ⟨cells decodeLens,_,indices_exact some_request,rfl,cells_length decodeLens,cells_ordered decodeLens,
    fun _ _ => mem_cells,fun _ _ _ => cell_exact,fun tokens padValue => scattered_exact tokens padValue fits,
    padded_rows_exact some_request fits,fun positions _ _ _ => flat_rows_exact positions,fun pos natural below => ?_⟩
  exact (int32_exact (by omega)).mpr (by omega)

end Cells

-- A request of two tokens, one without any and one of one, in rows of three.
theorem padded_layout_exact_threeRequests :
    ∃ rows, decodeTopkSeqLens [7,8,3] [2,0,1] 3 3 3 true = some rows ∧ rows.length = 9 ∧ rows[0]? = some 8 ∧
      rows[1]? = some 9 ∧ rows[2]? = some 0 ∧ rows[3]? = some 0 ∧ rows[6]? = some 4 := by
  obtain ⟨_,_,_,_,_,_,_,_,_,lens,_⟩ := padded_layout_exact Int [2,0,1] 3 (by decide) (by decide)
  obtain ⟨rows,built,size,entries⟩ := lens [7,8,3] (by decide)
  exact ⟨rows,built,size,(entries 0 2 0 7 rfl (by decide)).1 (by decide) rfl,
    (entries 0 2 1 8 rfl (by decide)).1 (by decide) rfl,(entries 0 2 2 0 rfl (by decide)).2 (by decide),
    (entries 1 0 0 0 rfl (by decide)).2 (by decide),(entries 2 1 0 3 rfl (by decide)).1 (by decide) rfl⟩

-- Without a request the starts have one entry and the counts none. A
-- position from 2^31 - 1 on does not survive as an int32.
theorem no_request_raises : buildDecodeScatterIndices [] ([] : List Nat).length ([] : List Nat).sum = none ∧
    decodeTopkSeqLens [2147483647] [1] 1 1 1 false = some [-2147483648] := by decide

end Glm5Next.DecodeScatter
