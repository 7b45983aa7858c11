import Glm5Next.IndexerChunks
import Mathlib.Data.Set.Lattice
import Mathlib.Order.CompletePartialOrder

namespace Glm5Next.PoolPages
open StoreWrites IndexerChunks

-- A page of the index cache: the keys of its slots, then their float32 scales.
-- Pages lie `stride` bytes apart, which may exceed what they hold.
structure PageLayout where
  pageSize : Nat
  headDim : Nat
  stride : Nat
  slots_pos : 0 < pageSize
  head_words : 4 ∣ headDim
  stride_words : 4 ∣ stride
  fits : pageSize * (headDim + 4) ≤ stride

def PageLayout.sOffsetNbytesInPage (layout : PageLayout) : Nat := layout.pageSize * layout.headDim

-- What is stored for a pool: its key bytes and the four bytes of its scale.
structure PoolRecord (layout : PageLayout) where
  key : List UInt8
  scale : List UInt8
  key_length : key.length = layout.headDim
  scale_length : scale.length = 4

def PoolRecord.entry (record : PoolRecord layout) : PoolEntry := (record.key,record.scale)

-- out_k_offsets counts bytes, out_s_offset counts float32 words.
def outKOffset (layout : PageLayout) (loc d : Nat) : Nat :=
  loc / layout.pageSize * layout.stride + loc % layout.pageSize * layout.headDim + d

def outSOffset (layout : PageLayout) (loc : Nat) : Nat :=
  loc / layout.pageSize * layout.stride / 4 + layout.sOffsetNbytesInPage / 4 + loc % layout.pageSize

def poolStores (layout : PageLayout) (loc : Nat) (record : PoolRecord layout) : List (Nat × UInt8) :=
  (record.key.zipIdx.map fun (byte,d) => (outKOffset layout loc d,byte)) ++
    record.scale.zipIdx.map fun (byte,j) => (4 * outSOffset layout loc + j,byte)

def kpoolSoftmaxRotateWriteCache (layout : PageLayout) (mem : Nat → UInt8) (loc : Nat) (record : PoolRecord layout) :
    Nat → UInt8 := writes mem (poolStores layout loc record)

def kpoolDecodeUpdate (layout : PageLayout) (mem : Nat → UInt8) (cacheLoc : Nat) (record : PoolRecord layout) :
    Nat → UInt8 := writes mem (poolStores layout cacheLoc record)

inductive WriteKernel where
  | prefill
  | decode

structure PoolWrite (layout : PageLayout) where
  kernel : WriteKernel
  loc : Nat
  record : PoolRecord layout

def poolWrite (layout : PageLayout) (mem : Nat → UInt8) (w : PoolWrite layout) : Nat → UInt8 :=
  match w.kernel with
  | .prefill => kpoolSoftmaxRotateWriteCache layout mem w.loc w.record
  | .decode => kpoolDecodeUpdate layout mem w.loc w.record

def poolWrites (layout : PageLayout) (mem : Nat → UInt8) (ws : List (PoolWrite layout)) : Nat → UInt8 :=
  ws.foldl (poolWrite layout) mem

-- kv_cache.view(num_blocks,block_size * row_bytes), which needs a contiguous cache.
def contiguousPages (layout : PageLayout) (mem : Nat → UInt8) : KvCache where
  blockSize := layout.pageSize
  headDim := layout.headDim
  pages := fun blk i => mem (blk * (layout.pageSize * (layout.headDim + 4)) + i)

-- The as_strided key view and the float32 scale view of the paged scorer.
def kvByte (layout : PageLayout) (mem : Nat → UInt8) (block off d : Nat) : UInt8 :=
  mem (block * layout.stride + off * layout.headDim + d)

def kvScale (layout : PageLayout) (mem : Nat → UInt8) (block off : Nat) : List UInt8 :=
  let word := layout.pageSize * layout.headDim / 4 + block * (layout.stride / 4) + off
  (List.range 4).map fun j => mem (4 * word + j)

def pagedEntry (layout : PageLayout) (mem : Nat → UInt8) (block off : Nat) : PoolEntry :=
  ((List.range layout.headDim).map (kvByte layout mem block off),kvScale layout mem block off)

def keyBytes (layout : PageLayout) (loc : Nat) : Set Nat := {a | ∃ d < layout.headDim, a = outKOffset layout loc d}

def scaleBytes (layout : PageLayout) (loc : Nat) : Set Nat := {a | ∃ j < 4, a = 4 * outSOffset layout loc + j}

def slotBytes (layout : PageLayout) (loc : Nat) : Set Nat := keyBytes layout loc ∪ scaleBytes layout loc

def pageBytes (layout : PageLayout) (page : Nat) : Set Nat :=
  {a | page * layout.stride ≤ a ∧ a < (page + 1) * layout.stride}

section Layout
variable {layout : PageLayout} {loc loc' : Nat}

theorem scale_words (layout : PageLayout) (loc : Nat) : 4 * outSOffset layout loc =
    loc / layout.pageSize * layout.stride + layout.pageSize * layout.headDim + 4 * (loc % layout.pageSize) := by
  have page : 4 ∣ loc / layout.pageSize * layout.stride := Dvd.dvd.mul_left layout.stride_words _
  have keys : 4 ∣ layout.pageSize * layout.headDim := Dvd.dvd.mul_left layout.head_words _
  unfold outSOffset PageLayout.sOffsetNbytesInPage
  rw [Nat.mul_add,Nat.mul_add,Nat.mul_div_cancel' page,Nat.mul_div_cancel' keys]

theorem key_inside (layout : PageLayout) (loc : Nat) (inside : d < layout.headDim) :
    loc % layout.pageSize * layout.headDim + d < layout.pageSize * layout.headDim :=
  Ragged.grid_below (Nat.mod_lt loc layout.slots_pos) inside

theorem key_place (layout : PageLayout) (loc : Nat) (inside : d < layout.headDim) :
    outKOffset layout loc d / layout.stride = loc / layout.pageSize ∧
    outKOffset layout loc d % layout.stride = loc % layout.pageSize * layout.headDim + d := by
  have bound := key_inside layout loc inside
  have room := layout.fits
  rw [Nat.mul_add] at room
  unfold outKOffset
  rw [Nat.add_assoc]
  exact ⟨Ragged.grid_row (by omega),Ragged.grid_col (by omega)⟩

theorem scale_place (layout : PageLayout) (loc : Nat) (inside : j < 4) :
    (4 * outSOffset layout loc + j) / layout.stride = loc / layout.pageSize ∧
    (4 * outSOffset layout loc + j) % layout.stride =
      layout.pageSize * layout.headDim + (4 * (loc % layout.pageSize) + j) := by
  have row := Nat.mod_lt loc layout.slots_pos
  have room := layout.fits
  rw [Nat.mul_add] at room
  rw [scale_words,Nat.add_assoc,Nat.add_assoc]
  exact ⟨Ragged.grid_row (by omega),Ragged.grid_col (by omega)⟩

theorem slot_same (page : loc / layout.pageSize = loc' / layout.pageSize)
    (row : loc % layout.pageSize = loc' % layout.pageSize) : loc = loc' := by
  rw [← Nat.div_add_mod loc layout.pageSize,page,row,Nat.div_add_mod]

theorem key_injective (inside : d < layout.headDim) (inside' : d' < layout.headDim)
    (same : outKOffset layout loc d = outKOffset layout loc' d') : loc = loc' ∧ d = d' := by
  obtain ⟨page,place⟩ := key_place layout loc inside
  obtain ⟨page',place'⟩ := key_place layout loc' inside'
  rw [same] at page place
  obtain ⟨row,column⟩ := Ragged.grid_unique inside inside' (place.symm.trans place')
  exact ⟨slot_same (page.symm.trans page') row,column⟩

theorem scale_injective (inside : j < 4) (inside' : j' < 4)
    (same : 4 * outSOffset layout loc + j = 4 * outSOffset layout loc' + j') : loc = loc' ∧ j = j' := by
  obtain ⟨page,place⟩ := scale_place layout loc inside
  obtain ⟨page',place'⟩ := scale_place layout loc' inside'
  rw [same] at page place
  have rows := place.symm.trans place'
  exact ⟨slot_same (page.symm.trans page') (by omega),by omega⟩

theorem key_not_scale (inside : d < layout.headDim) (inside' : j < 4) :
    outKOffset layout loc d ≠ 4 * outSOffset layout loc' + j := by
  intro same
  have place := (key_place layout loc inside).2
  rw [same,(scale_place layout loc' inside').2] at place
  have bound := key_inside layout loc inside
  omega

theorem key_in_page (inside : d < layout.headDim) :
    outKOffset layout loc d ∈ pageBytes layout (loc / layout.pageSize) := by
  have bound := key_inside layout loc inside
  have room := layout.fits
  rw [Nat.mul_add] at room
  show _ * _ ≤ outKOffset layout loc d ∧ outKOffset layout loc d < _ * _
  rw [outKOffset,Nat.succ_mul]
  omega

theorem scale_in_page (inside : j < 4) :
    4 * outSOffset layout loc + j ∈ pageBytes layout (loc / layout.pageSize) := by
  have row := Nat.mod_lt loc layout.slots_pos
  have room := layout.fits
  rw [Nat.mul_add] at room
  have words := scale_words layout loc
  show _ * _ ≤ 4 * outSOffset layout loc + j ∧ 4 * outSOffset layout loc + j < _ * _
  rw [words,Nat.add_mul,Nat.one_mul]
  omega

theorem slots_disjoint (apart : loc ≠ loc') : Disjoint (slotBytes layout loc) (slotBytes layout loc') := by
  rw [Set.disjoint_left]
  rintro a (⟨d,inside,rfl⟩ | ⟨j,inside,rfl⟩) (⟨d',inside',same⟩ | ⟨j',inside',same⟩)
  · exact apart (key_injective inside inside' same).1
  · exact key_not_scale inside inside' same
  · exact key_not_scale inside' inside same.symm
  · exact apart (scale_injective inside inside' same).1

theorem stores_inside (member : entry ∈ poolStores layout loc record) : entry.1 ∈ slotBytes layout loc := by
  rcases List.mem_append.mp member with key | scale
  · obtain ⟨⟨byte,d⟩,listed,rfl⟩ := List.mem_map.mp key
    have bound := (List.getElem?_eq_some_iff.mp (List.mem_zipIdx_iff_getElem?.mp listed)).1
    exact Or.inl ⟨d,record.key_length ▸ bound,rfl⟩
  · obtain ⟨⟨byte,j⟩,listed,rfl⟩ := List.mem_map.mp scale
    have bound := (List.getElem?_eq_some_iff.mp (List.mem_zipIdx_iff_getElem?.mp listed)).1
    exact Or.inr ⟨j,record.scale_length ▸ bound,rfl⟩

-- What a slot's bytes are when the slot holds a record.
structure Holds (layout : PageLayout) (mem : Nat → UInt8) (loc : Nat) (record : PoolRecord layout) : Prop where
  key : ∀ d < layout.headDim, record.key[d]? = some (mem (outKOffset layout loc d))
  scale : ∀ j < 4, record.scale[j]? = some (mem (4 * outSOffset layout loc + j))

theorem stored_holds (mem : Nat → UInt8) (loc : Nat) (record : PoolRecord layout) :
    Holds layout (writes mem (poolStores layout loc record)) loc record := by
  constructor
  · intro d inside
    have bound : d < record.key.length := record.key_length ▸ inside
    rw [List.getElem?_eq_getElem bound,Option.some.injEq,eq_comm]
    apply writes_exact
    · refine List.mem_append_left _ (List.mem_map.mpr ⟨(record.key[d],d),?_,rfl⟩)
      exact List.mem_zipIdx_iff_getElem?.mpr (List.getElem?_eq_getElem bound)
    · intro entry member same
      rcases List.mem_append.mp member with key | scale
      · obtain ⟨⟨byte,d'⟩,listed,rfl⟩ := List.mem_map.mp key
        obtain ⟨bound',found⟩ := List.getElem?_eq_some_iff.mp (List.mem_zipIdx_iff_getElem?.mp listed)
        obtain ⟨_,rfl⟩ := key_injective (record.key_length ▸ bound') inside same
        exact found.symm
      · obtain ⟨⟨byte,j⟩,listed,rfl⟩ := List.mem_map.mp scale
        have bound' := (List.getElem?_eq_some_iff.mp (List.mem_zipIdx_iff_getElem?.mp listed)).1
        exact absurd same.symm (key_not_scale inside (record.scale_length ▸ bound'))
  · intro j inside
    have bound : j < record.scale.length := record.scale_length ▸ inside
    rw [List.getElem?_eq_getElem bound,Option.some.injEq,eq_comm]
    apply writes_exact
    · refine List.mem_append_right _ (List.mem_map.mpr ⟨(record.scale[j],j),?_,rfl⟩)
      exact List.mem_zipIdx_iff_getElem?.mpr (List.getElem?_eq_getElem bound)
    · intro entry member same
      rcases List.mem_append.mp member with key | scale
      · obtain ⟨⟨byte,d⟩,listed,rfl⟩ := List.mem_map.mp key
        have bound' := (List.getElem?_eq_some_iff.mp (List.mem_zipIdx_iff_getElem?.mp listed)).1
        exact absurd same (key_not_scale (record.key_length ▸ bound') inside)
      · obtain ⟨⟨byte,j'⟩,listed,rfl⟩ := List.mem_map.mp scale
        obtain ⟨bound',found⟩ := List.getElem?_eq_some_iff.mp (List.mem_zipIdx_iff_getElem?.mp listed)
        obtain ⟨_,rfl⟩ := scale_injective (record.scale_length ▸ bound') inside same
        exact found.symm

theorem pool_write_holds (mem : Nat → UInt8) (w : PoolWrite layout) :
    Holds layout (poolWrite layout mem w) w.loc w.record := by
  obtain ⟨kernel,loc,record⟩ := w
  cases kernel with
  | prefill => exact stored_holds mem loc record
  | decode => exact stored_holds mem loc record

theorem pool_write_apart (mem : Nat → UInt8) (w : PoolWrite layout) (apart : a ∉ slotBytes layout w.loc) :
    poolWrite layout mem w a = mem a := by
  obtain ⟨kernel,loc,record⟩ := w
  have elsewhere : ∀ entry ∈ poolStores layout loc record, entry.1 ≠ a :=
    fun entry member same => apart (same ▸ stores_inside member)
  cases kernel with
  | prefill => exact writes_apart mem _ a elsewhere
  | decode => exact writes_apart mem _ a elsewhere

theorem pool_writes_apart (mem : Nat → UInt8) (ws : List (PoolWrite layout)) (apart : ∀ w ∈ ws, w.loc ≠ loc)
    (inside : a ∈ slotBytes layout loc) : poolWrites layout mem ws a = mem a := by
  induction ws generalizing mem with
  | nil => rfl
  | cons w rest ih =>
      have other : a ∉ slotBytes layout w.loc := fun own =>
        Set.disjoint_left.mp (slots_disjoint (apart w List.mem_cons_self)) own inside
      have later := ih (poolWrite layout mem w) fun w' member => apart w' (List.mem_cons_of_mem w member)
      exact later.trans (pool_write_apart mem w other)

theorem pool_writes_hold (mem : Nat → UInt8) (before after : List (PoolWrite layout)) (w : PoolWrite layout)
    (last : ∀ later ∈ after, later.loc ≠ w.loc) :
    Holds layout (poolWrites layout mem (before ++ w :: after)) w.loc w.record := by
  have written := pool_write_holds (poolWrites layout mem before) w
  have kept : ∀ a ∈ slotBytes layout w.loc, poolWrites layout mem (before ++ w :: after) a =
      poolWrite layout (poolWrites layout mem before) w a := by
    intro a inside
    rw [poolWrites,List.foldl_append,List.foldl_cons]
    exact pool_writes_apart _ after last inside
  constructor
  · intro d inside
    rw [kept _ (Or.inl ⟨d,inside,rfl⟩)]
    exact written.key d inside
  · intro j inside
    rw [kept _ (Or.inr ⟨j,inside,rfl⟩)]
    exact written.scale j inside

theorem view_exact (length : values.length = n) (read : ∀ i < n, values[i]? = some (f i)) :
    (List.range n).map f = values := by
  apply List.ext_getElem?
  intro i
  by_cases inside : i < n
  · rw [List.getElem?_map,List.getElem?_range inside,read i inside]
    rfl
  · rw [List.getElem?_eq_none (by simpa using inside),List.getElem?_eq_none (by omega)]

theorem paged_entry_exact (held : Holds layout mem (block * layout.pageSize + off) record)
    (inside : off < layout.pageSize) : pagedEntry layout mem block off = record.entry := by
  have keys : (List.range layout.headDim).map (kvByte layout mem block off) = record.key := by
    apply view_exact record.key_length
    intro d bound
    rw [held.key d bound,outKOffset,Ragged.grid_row inside,Ragged.grid_col inside,kvByte]
  have pages : block * layout.stride / 4 = block * (layout.stride / 4) := Nat.mul_div_assoc _ layout.stride_words
  have word : layout.pageSize * layout.headDim / 4 + block * (layout.stride / 4) + off =
      outSOffset layout (block * layout.pageSize + off) := by
    rw [outSOffset,Ragged.grid_row inside,Ragged.grid_col inside,pages,PageLayout.sOffsetNbytesInPage]
    omega
  have scales : kvScale layout mem block off = record.scale := by
    unfold kvScale
    rw [word]
    exact view_exact record.scale_length held.scale
  rw [pagedEntry,keys,scales,PoolRecord.entry]

theorem gathered_entry_exact (contiguous : layout.stride = layout.pageSize * (layout.headDim + 4))
    (held : Holds layout mem (block * layout.pageSize + off) record) (inside : off < layout.pageSize) :
    (contiguousPages layout mem).entry block off = record.entry := by
  have keys : (List.range layout.headDim).map (fun b =>
      mem (block * (layout.pageSize * (layout.headDim + 4)) + (off * layout.headDim + b))) = record.key := by
    apply view_exact record.key_length
    intro d bound
    rw [held.key d bound,outKOffset,Ragged.grid_row inside,Ragged.grid_col inside,contiguous,Nat.add_assoc]
  have scales : (List.range 4).map (fun b => mem (block * (layout.pageSize * (layout.headDim + 4)) +
      (layout.pageSize * layout.headDim + off * 4 + b))) = record.scale := by
    apply view_exact record.scale_length
    intro j bound
    have place : 4 * outSOffset layout (block * layout.pageSize + off) + j =
        block * (layout.pageSize * (layout.headDim + 4)) + (layout.pageSize * layout.headDim + off * 4 + j) := by
      rw [scale_words,Ragged.grid_row inside,Ragged.grid_col inside,contiguous]
      omega
    rw [held.scale j bound,place]
  rw [KvCache.entry,PoolRecord.entry]
  exact Prod.ext keys scales

end Layout

-- No stores of different slots or regions meet, none leaves its page, and both
-- readers see the last write to a slot.
theorem pool_pages_exact (layout : PageLayout) :
    (∀ loc, slotBytes layout loc ⊆ pageBytes layout (loc / layout.pageSize) ∧
      Disjoint (keyBytes layout loc) (scaleBytes layout loc)) ∧
    (∀ loc loc', loc ≠ loc' → Disjoint (slotBytes layout loc) (slotBytes layout loc')) ∧
    ∀ (mem : Nat → UInt8) (before after : List (PoolWrite layout)) (w : PoolWrite layout) (block off : Nat),
      off < layout.pageSize → w.loc = block * layout.pageSize + off → (∀ later ∈ after, later.loc ≠ w.loc) →
      pagedEntry layout (poolWrites layout mem (before ++ w :: after)) block off = w.record.entry ∧
      (layout.stride = layout.pageSize * (layout.headDim + 4) →
        (contiguousPages layout (poolWrites layout mem (before ++ w :: after))).entry block off = w.record.entry) := by
  refine ⟨fun loc => ⟨?_,?_⟩,fun loc loc' apart => slots_disjoint apart,?_⟩
  · rintro a (⟨d,inside,rfl⟩ | ⟨j,inside,rfl⟩)
    · exact key_in_page inside
    · exact scale_in_page inside
  · rw [Set.disjoint_left]
    rintro a ⟨d,inside,rfl⟩ ⟨j,inside',same⟩
    exact key_not_scale inside inside' same
  · intro mem before after w block off inside loc last
    have held := pool_writes_hold mem before after w last
    rw [loc] at held
    exact ⟨paged_entry_exact held inside,fun contiguous => gathered_entry_exact contiguous held inside⟩

def smallPages : PageLayout := ⟨6,4,48,by decide,by decide,by decide,by decide⟩

def firstRecord : PoolRecord smallPages := ⟨[1,2,3,4],[5,6,7,8],rfl,rfl⟩

def secondRecord : PoolRecord smallPages := ⟨[9,10,11,12],[13,14,15,16],rfl,rfl⟩

theorem pool_pages_exact_rewritten :
    pagedEntry smallPages (poolWrites smallPages (fun _ => 0)
      ([⟨.prefill,7,firstRecord⟩] ++ ⟨.decode,7,secondRecord⟩ :: [⟨.prefill,6,firstRecord⟩])) 1 1 = secondRecord.entry :=
  ((pool_pages_exact smallPages).2.2 (fun _ => 0) [⟨.prefill,7,firstRecord⟩] [⟨.prefill,6,firstRecord⟩]
    ⟨.decode,7,secondRecord⟩ 1 1 (by decide) (by decide) (by simp)).1

end Glm5Next.PoolPages
