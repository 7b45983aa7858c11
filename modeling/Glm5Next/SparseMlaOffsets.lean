import Glm5Next.SparseMlaOutput

namespace Glm5Next.SparseMlaOffsets
open TiledGrid WrappedInts SparseMla
variable {K : Type}

def offsD : List Nat := List.range blockDmodel
def offsDpe (args : MlaArgs K) : List Nat := (List.range (args.dimQk - blockDmodel)).map (blockDmodel + ·)
def offsDv : List Nat := List.range blockDv

def OwnRow (args : MlaArgs K) (strides : KvStrides) (curKvHead : Nat) (index : Int) : Prop :=
  ∀ offs ∈ offsD ++ offsDpe args ++ offsDv, kvOffset strides curKvHead index offs = index * strides.token + offs

-- Every offset that a program forms for a valid index.
def AddressesExact (args : MlaArgs K) (strides : KvStrides) : Prop :=
  ∀ curQ < args.numTokens, ∀ curHeadId < numHeadGroups args, ∀ i < args.indexTopk,
    let curKvHead := curHeadId / cdiv args.numHeadsQ blockH
    let index := args.indices curQ curKvHead i
    0 ≤ index ∧ index < args.seqKv → OwnRow args strides curKvHead index

theorem dims_wide (args : MlaArgs K) : blockDmodel ≤ args.dimQk := by
  rcases args.dims with rope | plain
  · rw [rope]
    exact (by decide : 512 ≤ 576)
  · exact Nat.le_of_eq plain.symm

theorem lane_exact (args : MlaArgs K) : offs ∈ offsD ++ offsDpe args ++ offsDv ↔ offs < args.dimQk := by
  have wide := dims_wide args
  have same : blockDv = blockDmodel := rfl
  unfold offsD offsDpe offsDv
  rw [List.mem_append,List.mem_append,List.mem_range,List.mem_range,List.mem_map,same]
  constructor
  · rintro ((key | ⟨lane,rope,rfl⟩) | value)
    · omega
    · have := List.mem_range.mp rope
      omega
    · omega
  · intro inside
    by_cases key : offs < blockDmodel
    · exact Or.inl (Or.inl key)
    · exact Or.inl (Or.inr ⟨offs - blockDmodel,List.mem_range.mpr (by omega),by omega⟩)

theorem offset_exact (strides : KvStrides) (valid : 0 ≤ index) (offs : Nat) :
    kvOffset strides 0 index offs = index * strides.token + offs ↔ index * strides.token + offs < 2 ^ 31 := by
  have natural : 0 ≤ index * strides.token + offs :=
    Int.add_nonneg (Int.mul_nonneg valid (Int.natCast_nonneg _)) (Int.natCast_nonneg _)
  unfold kvOffset
  rw [int32_sum,Nat.zero_mul,Int.natCast_zero,Int.add_zero]
  exact int32_exact natural

theorem own_row_exact (args : MlaArgs K) (strides : KvStrides) (valid : 0 ≤ index) :
    OwnRow args strides 0 index ↔ index * strides.token + args.dimQk ≤ 2 ^ 31 := by
  have some_lane : 0 < args.dimQk := Nat.lt_of_lt_of_le (by decide : 0 < blockDmodel) (dims_wide args)
  constructor
  · intro own
    have last := own (args.dimQk - 1) ((lane_exact args).mpr (by omega))
    have below := (offset_exact strides valid (args.dimQk - 1)).mp last
    omega
  · intro fits offs lane
    have inside := (lane_exact args).mp lane
    exact (offset_exact strides valid offs).mpr (by omega)

-- The offsets are exact just where the last lane of every attended row lies
-- below 2^31.
theorem addresses_exact_iff (args : MlaArgs K) (strides : KvStrides) :
    AddressesExact args strides ↔ ∀ curQ < args.numTokens, ∀ i < args.indexTopk,
      0 ≤ args.indices curQ 0 i ∧ args.indices curQ 0 i < args.seqKv →
        args.indices curQ 0 i * strides.token + args.dimQk ≤ 2 ^ 31 := by
  have some_group : 0 < numHeadGroups args := by
    rw [head_groups]
    have reach := covered (valid_block_pos args (by decide : 0 < blockH)) args.numHeadsQ
    have some_head := args.someHead
    rcases Nat.eq_zero_or_pos (cdiv args.numHeadsQ (validBlockH args blockH)) with none | some
    · rw [none,Nat.zero_mul] at reach
      omega
    · exact some
  constructor
  · intro exact_addresses curQ row i listed valid
    have own := exact_addresses curQ row 0 some_group i listed
    rw [Nat.zero_div] at own
    exact (own_row_exact args strides valid.1).mp (own valid)
  · intro fits curQ row curHeadId counted i listed
    rw [one_kv_head args counted]
    intro curKvHead index valid
    exact (own_row_exact args strides valid.1).mpr (fits curQ row i listed valid)

-- A pool that ends below 2^31 elements is safe for every index matrix.
theorem small_pool_exact (args : MlaArgs K) (strides : KvStrides) (row : args.dimQk ≤ strides.token)
    (small : args.seqKv * strides.token ≤ 2 ^ 31) : AddressesExact args strides := by
  apply (addresses_exact_iff args strides).mpr
  intro curQ _ i _ valid
  have next : (args.indices curQ 0 i + 1) * strides.token ≤ args.seqKv * strides.token :=
    Int.mul_le_mul_of_nonneg_right valid.2 (Int.natCast_nonneg _)
  rw [Int.add_mul,Int.one_mul] at next
  omega

def largePool : MlaArgs Int where
  numTokens := 1
  numHeadsQ := 1
  dimQk := 512
  seqKv := 4194305
  indexTopk := 16
  q _ _ _ := 0
  kv _ _ _ := 0
  indices _ _ i := if i = 0 then 4194304 else -1
  smScale := 1
  someHead := Nat.one_pos
  dims := plain_dims

theorem large_pool_wraps : ¬ AddressesExact largePool ⟨512,512⟩ := by
  intro exact_addresses
  have own := exact_addresses 0 (by decide) 0 (by decide) 0 (by decide) (by decide)
  have first := own 0 ((lane_exact largePool).mpr (by decide))
  exact absurd first (by decide)

end Glm5Next.SparseMlaOffsets
