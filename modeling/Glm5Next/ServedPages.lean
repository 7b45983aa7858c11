import Glm5Next.KpoolServing
import Glm5Next.PoolPages

-- The serving runs on the bytes of the index cache.
namespace Glm5Next.ServedPages
open KpoolCompress CacheRegions KpoolWritePhase KpoolServing PoolPages StoreWrites
open KpoolRing (pool)
open DecodeUpdate (Schedule)

-- The four bytes of a float32.
structure Format (S : Type) where
  float32Bytes : S → List UInt8
  word : ∀ x, (float32Bytes x).length = 4

-- A byte for each lane, and the scale.
def Format.record (format : Format S) (layout : PageLayout) (entry : Entry S) : PoolRecord layout where
  key := (List.range layout.headDim).map fun d => ⟨entry.bytes.getD d 0#8⟩
  scale := format.float32Bytes entry.scale
  key_length := by simp
  scale_length := format.word entry.scale

structure Memory (B : Type) where
  index : Nat → UInt8
  tail : Nat → Row B

section Programs
variable {B S ReqId : Type} {poolSize : Nat} (ops : FloatOps B S) (roundScale : Bool) (ape : List (List S))
  (format : Format S) (layout : PageLayout) (zero : Row B)

def applyBytes (poolSize : Nat) : Effect B S → Memory B → Memory B
  | .idle,m => m
  | .pool slot entry,m => { m with index := poolWrite layout m.index ⟨.prefill,slot,format.record layout entry⟩ }
  | .seed place row,m => { m with tail := write m.tail (place,row) }
  | .token token,m =>
    { index :=
        if completes poolSize token then
          poolWrite layout m.index ⟨.decode,token.slot.toNat,
            format.record layout (compressPool ops roundScale ape (ringPool poolSize m.tail token))⟩
        else m.index
      tail :=
        if token.pos ≥ 0 ∧ token.tailSlot ≥ 0 then write m.tail (place poolSize token,ops.stashed token.row)
        else m.tail }

def writePhaseBytes (batch : Batch poolSize B) (steps : List (Nat × Nat)) (m : Memory B) : Memory B :=
  OwnedRegions.run (fun step => applyBytes ops roundScale ape format layout poolSize
    (effect ops roundScale ape zero batch step)) (phaseSteps batch steps) m

-- Two runs on slots beside the one on bytes. They start from different entries
-- everywhere, so a slot on which they agree has been written.
structure Mirrors (m : Memory B) (a b : Caches B S) : Prop where
  ring : a.tail = m.tail
  twin : b.tail = m.tail
  slots : ∀ slot, a.index slot = b.index slot → Holds layout m.index slot (format.record layout (a.index slot))

variable {format layout} {m : Memory B} {a b : Caches B S}

theorem holds_apart {mem : Nat → UInt8} (held : Holds layout mem loc record) (w : PoolWrite layout)
    (other : w.loc ≠ loc) : Holds layout (poolWrite layout mem w) loc record := by
  have kept : ∀ a ∈ slotBytes layout loc, poolWrite layout mem w a = mem a := fun a inside =>
    pool_write_apart mem w fun own => Set.disjoint_left.mp (slots_disjoint other) own inside
  constructor
  · intro d inside
    rw [kept _ (Or.inl ⟨d,inside,rfl⟩)]
    exact held.key d inside
  · intro j inside
    rw [kept _ (Or.inr ⟨j,inside,rfl⟩)]
    exact held.scale j inside

theorem mirrors_write (kernel : WriteKernel) (slot : Nat) (entry : Entry S)
    (mirrors : ∀ slot, a.index slot = b.index slot → Holds layout m.index slot (format.record layout (a.index slot)))
    (other : Nat) (same : write a.index (slot,entry) other = write b.index (slot,entry) other) :
    Holds layout (poolWrite layout m.index ⟨kernel,slot,format.record layout entry⟩) other
      (format.record layout (write a.index (slot,entry) other)) := by
  by_cases own : other = slot
  · subst own
    rw [write,if_pos rfl]
    exact pool_write_holds m.index ⟨kernel,other,format.record layout entry⟩
  · rw [written_apart own,written_apart own] at same
    rw [written_apart own]
    exact holds_apart (mirrors other same) _ (Ne.symm own)

theorem mirrors_effect (mirrors : Mirrors format layout m a b) (effect : Effect B S) :
    Mirrors format layout (applyBytes ops roundScale ape format layout poolSize effect m)
      (apply ops roundScale ape poolSize effect a) (apply ops roundScale ape poolSize effect b) := by
  obtain ⟨ring,twin,slots⟩ := mirrors
  cases effect with
  | idle => exact ⟨ring,twin,slots⟩
  | pool slot entry => exact ⟨ring,twin,mirrors_write .prefill slot entry slots⟩
  | seed place row =>
      refine ⟨?_,?_,slots⟩
      · exact congrArg (fun tail => write tail (place,row)) ring
      · exact congrArg (fun tail => write tail (place,row)) twin
  | token token =>
      have tails : ∀ c : Caches B S, c.tail = m.tail →
          (decodeToken ops roundScale ape poolSize c token).tail =
            (applyBytes ops roundScale ape format layout poolSize (.token token) m).tail := by
        intro c same
        rw [token_tail,same,← stashed_exact ops token.row]
        simp only [applyBytes,stashed_exact]
      refine ⟨tails a ring,tails b twin,?_⟩
      intro other
      show (decodeToken ops roundScale ape poolSize a token).index other =
        (decodeToken ops roundScale ape poolSize b token).index other → _
      show _ → Holds layout (if _ then _ else _) other
        (format.record layout ((decodeToken ops roundScale ape poolSize a token).index other))
      rw [token_index,token_index,ring,twin]
      split
      · exact mirrors_write .decode _ _ slots other
      · exact slots other

theorem mirrors_run (effects : Step → Effect B S) (steps : List Step) (mirrors : Mirrors format layout m a b) :
    Mirrors format layout
      (OwnedRegions.run (fun step => applyBytes ops roundScale ape format layout poolSize (effects step)) steps m)
      (OwnedRegions.run (fun step => apply ops roundScale ape poolSize (effects step)) steps a)
      (OwnedRegions.run (fun step => apply ops roundScale ape poolSize (effects step)) steps b) := by
  induction steps generalizing m a b with
  | nil => exact mirrors
  | cons step steps ih => exact ih (mirrors_effect ops roundScale ape mirrors (effects step))

theorem mirrors_phase (positive : 0 < poolSize) (batch : Batch poolSize B)
    (scheduled : Schedule batch.numDecodes (launchWidth batch) steps) (mirrors : Mirrors format layout m a b) :
    Mirrors format layout (writePhaseBytes ops roundScale ape format layout zero batch steps m)
      (writePhase zero batch ops roundScale ape steps a) (writePhase zero batch ops roundScale ape steps b) := by
  rw [phase_run ops roundScale ape zero positive batch scheduled,phase_run ops roundScale ape zero positive batch scheduled]
  exact mirrors_run ops roundScale ape _ _ mirrors

-- The bytes of every whole pool, and the ring of every request with tokens.
def Unchanged (layout : PageLayout) (table : Table poolSize ReqId B) (m m' : Memory B) : Prop :=
  ∀ id l, table.live id = some l →
    (∀ p < l.length / poolSize, ∀ a ∈ slotBytes layout (l.pools.getD p 0), m'.index a = m.index a) ∧
    (0 < l.length → ∀ place, place / poolSize = l.tailBlock → m'.tail place = m.tail place)

def Written (table : Table poolSize ReqId B) (slot : Nat) : Prop :=
  ∃ id l, table.live id = some l ∧ ∃ p < l.length / poolSize, l.pools.getD p 0 = slot

include ops in
-- The runs on slots go on with entries that differ wherever nothing is written.
theorem mirrors_rewrite {table : Table poolSize ReqId B} (mirrors : Mirrors format layout m a b)
    (unchanged : Unchanged layout table m m') : ∃ a' b', Mirrors format layout m' a' b' ∧
      ∀ id l, table.live id = some l → Same l a a' ∧ Same l b b' := by
  classical
  let rewritten (c : Caches B S) (bytes : List (BitVec 8)) : Caches B S :=
    ⟨fun slot => if Written table slot then c.index slot else ⟨bytes,ops.zero⟩,m'.tail⟩
  have kept (c : Caches B S) (bytes : List (BitVec 8)) (ring : c.tail = m.tail) (id : ReqId) (l : Live poolSize B)
      (listed : table.live id = some l) : Same l c (rewritten c bytes) := by
    refine ⟨fun p whole => (if_pos ⟨id,l,listed,p,whole,rfl⟩).symm,fun some_token place block => ?_⟩
    rw [ring]
    exact ((unchanged id l listed).2 some_token place block).symm
  refine ⟨rewritten a [],rewritten b [0],⟨rfl,rfl,fun slot same => ?_⟩,fun id l listed =>
    ⟨kept a [] mirrors.ring id l listed,kept b [0] mirrors.twin id l listed⟩⟩
  replace same : (if Written table slot then a.index slot else ⟨[],ops.zero⟩) =
      if Written table slot then b.index slot else ⟨[0],ops.zero⟩ := same
  show Holds layout m'.index slot (format.record layout (if Written table slot then a.index slot else _))
  by_cases written : Written table slot
  · rw [if_pos written,if_pos written] at same
    rw [if_pos written]
    have held := mirrors.slots slot same
    obtain ⟨id,l,listed,p,whole,rfl⟩ := written
    have own := (unchanged id l listed).1 p whole
    constructor
    · intro d inside
      rw [own _ (Or.inl ⟨d,inside,rfl⟩)]
      exact held.key d inside
    · intro j inside
      rw [own _ (Or.inr ⟨j,inside,rfl⟩)]
      exact held.scale j inside
  · rw [if_neg written,if_neg written] at same
    exact absurd (congrArg (fun entry : Entry S => entry.bytes.length) same) Nat.zero_ne_one

end Programs

-- The runner over the bytes of the caches.
structure Paged (poolSize : Nat) (ReqId B : Type) where
  memory : Memory B
  table : Table poolSize ReqId B

section Runs
variable {B S ReqId : Type} {poolSize : Nat} (ops : FloatOps B S) (roundScale : Bool) (ape : List (List S))
  (format : Format S) (layout : PageLayout) (zero : Row B) [DecidableEq ReqId]

inductive PagedStep (s : Paged poolSize ReqId B) : Paged poolSize ReqId B → Prop
  | addRequest (reqId : ReqId) (l : Live poolSize B) (fresh : l.length = 0) (free : Free s.table reqId l) :
      PagedStep s ⟨s.memory,s.table.put reqId l free⟩
  | appendBlockIds (reqId : ReqId) (l : Live poolSize B) (listed : s.table.live reqId = some l) (extra : List Nat)
      (distinct : (l.pools ++ extra).Nodup) (free : Free s.table reqId (l.grown extra distinct)) :
      PagedStep s ⟨s.memory,s.table.put reqId (l.grown extra distinct) free⟩
  | removeRequest (reqId : ReqId) : PagedStep s ⟨s.memory,s.table.drop reqId⟩
  | rewriteFree (memory : Memory B) (unchanged : Unchanged layout s.table s.memory memory) :
      PagedStep s ⟨memory,s.table⟩
  | forward (f : Forward s.table) (safe : f.Safe) (steps : List (Nat × Nat))
      (scheduled : Schedule f.batch.numDecodes (launchWidth f.batch) steps) :
      PagedStep s ⟨writePhaseBytes ops roundScale ape format layout zero f.batch steps s.memory,f.after zero⟩

inductive PagedReached (memory : Memory B) : Paged poolSize ReqId B → Prop
  | start : PagedReached memory ⟨memory,Table.empty⟩
  | step (reached : PagedReached memory s) (step : PagedStep ops roundScale ape format layout zero s s') :
      PagedReached memory s'

-- The runs on slots that go along with a run on bytes.
structure Mirrored (memory : Memory B) (s : Paged poolSize ReqId B) (a b : Caches B S) : Prop where
  first : Reached ops roundScale ape zero ⟨fun _ => ⟨[],ops.zero⟩,memory.tail⟩ ⟨a,s.table⟩
  second : Reached ops roundScale ape zero ⟨fun _ => ⟨[0],ops.zero⟩,memory.tail⟩ ⟨b,s.table⟩
  mirrors : Mirrors format layout s.memory a b

variable {format layout} {memory : Memory B} {s s' : Paged poolSize ReqId B} {a b : Caches B S}

theorem start_mirrored : Mirrored ops roundScale ape format layout zero memory
    (⟨memory,Table.empty⟩ : Paged poolSize ReqId B) ⟨fun _ => ⟨[],ops.zero⟩,memory.tail⟩
    ⟨fun _ => ⟨[0],ops.zero⟩,memory.tail⟩ := by
  refine ⟨.start,.start,rfl,rfl,?_⟩
  intro slot same
  exact absurd (congrArg (fun entry : Entry S => entry.bytes.length) same) Nat.zero_ne_one

theorem step_mirrored (positive : 0 < poolSize)
    (mirrored : Mirrored ops roundScale ape format layout zero memory s a b)
    (step : PagedStep ops roundScale ape format layout zero s s') :
    ∃ a' b', Mirrored ops roundScale ape format layout zero memory s' a' b' := by
  obtain ⟨first,second,mirrors⟩ := mirrored
  cases step with
  | addRequest reqId l fresh free =>
      exact ⟨a,b,.step first (.addRequest reqId l fresh free),.step second (.addRequest reqId l fresh free),mirrors⟩
  | appendBlockIds reqId l listed extra distinct free =>
      exact ⟨a,b,.step first (.appendBlockIds reqId l listed extra distinct free),
        .step second (.appendBlockIds reqId l listed extra distinct free),mirrors⟩
  | removeRequest reqId => exact ⟨a,b,.step first (.removeRequest reqId),.step second (.removeRequest reqId),mirrors⟩
  | rewriteFree memory unchanged =>
      obtain ⟨a',b',mirrors',same⟩ := mirrors_rewrite ops mirrors unchanged
      exact ⟨a',b',.step first (.rewriteFree a' fun id l listed => (same id l listed).1),
        .step second (.rewriteFree b' fun id l listed => (same id l listed).2),mirrors'⟩
  | forward f safe steps scheduled =>
      have stepped : ∀ c : Caches B S, KpoolServing.Step ops roundScale ape zero ⟨c,s.table⟩
          ⟨writePhase zero f.batch ops roundScale ape steps c,f.after zero⟩ :=
        fun c => .forward (s := ⟨c,s.table⟩) f safe steps scheduled
      exact ⟨_,_,.step first (stepped a),.step second (stepped b),
        mirrors_phase ops roundScale ape zero positive f.batch scheduled mirrors⟩

theorem reached_mirrored (positive : 0 < poolSize)
    (reached : PagedReached ops roundScale ape format layout zero memory s) :
    ∃ a b, Mirrored ops roundScale ape format layout zero memory s a b := by
  induction reached with
  | start => exact ⟨_,_,start_mirrored ops roundScale ape zero⟩
  | step _ step ih =>
      obtain ⟨a,b,mirrored⟩ := ih
      exact step_mirrored ops roundScale ape zero positive mirrored step

variable (format layout)

def Stored (mem : Nat → UInt8) (slot : Nat) (rows : List (Row B)) : Prop :=
  pagedEntry layout mem (slot / layout.pageSize) (slot % layout.pageSize) =
    (format.record layout (compressPool ops roundScale ape rows)).entry

variable {format layout}

theorem both_stored {m : Memory B} (mirrors : Mirrors format layout m a b)
    (first : a.index slot = compressPool ops roundScale ape rows)
    (second : b.index slot = compressPool ops roundScale ape rows) :
    Stored ops roundScale ape format layout m.index slot rows := by
  have held := mirrors.slots slot (first.trans second.symm)
  rw [first,← Nat.div_add_mod' slot layout.pageSize] at held
  exact paged_entry_exact held (Nat.mod_lt slot layout.slots_pos)

-- The bytes hold what the runs on slots hold, for a request between steps and
-- for one in a forward.
theorem pages_exact (positive : 0 < poolSize) (reached : PagedReached ops roundScale ape format layout zero memory s) :
    (∀ id l, s.table.live id = some l → ∀ p < l.length / poolSize,
      Stored ops roundScale ape format layout s.memory.index (l.pools.getD p 0) (pool poolSize l.committed p)) ∧
    ∀ (f : Forward s.table) (steps : List (Nat × Nat)), Schedule f.batch.numDecodes (launchWidth f.batch) steps →
      ∀ t ∈ f.turns, ∀ p < (t.request.length + t.rows.length) / poolSize,
        Stored ops roundScale ape format layout
          (writePhaseBytes ops roundScale ape format layout zero f.batch steps s.memory).index
          (t.request.pools.getD p 0) (pool poolSize (t.after zero).committed p) := by
  obtain ⟨a,b,first,second,mirrors⟩ := reached_mirrored ops roundScale ape zero positive reached
  have coherent := reached_coherent ops roundScale ape zero positive first
  have coherent' := reached_coherent ops roundScale ape zero positive second
  constructor
  · intro id l listed p whole
    exact both_stored ops roundScale ape mirrors (held_pool ops roundScale ape positive (coherent id l listed) whole)
      (held_pool ops roundScale ape positive (coherent' id l listed) whole)
  · intro f steps scheduled t member p whole
    exact both_stored ops roundScale ape (mirrors_phase ops roundScale ape zero positive f.batch scheduled mirrors)
      (forward_reads ops roundScale ape zero positive coherent f scheduled member p whole)
      (forward_reads ops roundScale ape zero positive coherent' f scheduled member p whole)

end Runs

end Glm5Next.ServedPages
