import Mathlib.Tactic.Linarith
import WolfInterp.Prov.Machine

/-!
# The address space

A pointer's address is its allocation's base and its offset, and the bases lie a fixed stride apart.
Addresses read back as the pointers they were taken of exactly while every live allocation is
smaller than the stride.
-/

namespace WolfInterp

namespace Provenance

/-- Bytes between one allocation's base and the next. -/
def stride : Int := 0x10000

/-- The integer a cast of a pointer yields. -/
def addressOf (ptr : RawPtr) : Int :=
  match ptr.alloc with
  | none => ptr.offset
  | some alloc => (alloc + 1) * stride + ptr.offset

/-- The allocation an address lands in, if any; an index past the table is in none. -/
def resolveAddress (prov : Provenance) (address : Int) : Option (AllocId × Int) :=
  if address ≤ 0 then none
  else
    let index := address / stride - 1
    if index < 0 then none
    else
      let offset := address % stride
      match prov.allocs[index.toNat]? with
      | none => none
      | some alloc => if offset > alloc.size then none else some (index.toNat, offset)

/-- A pointer into a live allocation, or to its end. -/
structure InBounds (prov : Provenance) (ptr : RawPtr) (id : AllocId) : Prop where
  points : ptr.alloc = some id
  holds : ∃ alloc, prov.allocs[id]? = some alloc ∧ alloc.live = true ∧ ptr.offset ≤ alloc.size
  start : 0 ≤ ptr.offset

/-- Addresses of pointers in bounds read back as the pointers' allocations and offsets, and those of
distinct allocations are distinct. -/
structure AddressSpace (prov : Provenance) : Prop where
  roundTrip : ∀ ptr id, prov.InBounds ptr id →
    prov.resolveAddress (addressOf ptr) = some (id, ptr.offset)
  distinct : ∀ left right leftId rightId, prov.InBounds left leftId →
    prov.InBounds right rightId → leftId ≠ rightId → addressOf left ≠ addressOf right

/-- No live allocation reaches the next one's base. -/
def Spaced (prov : Provenance) : Prop :=
  ∀ (id : AllocId) (alloc : Alloc), prov.allocs[id]? = some alloc →
    alloc.live = true → (alloc.size : Int) < stride

variable {prov : Provenance} {ptr : RawPtr} {id : AllocId}

theorem InBounds.addressOf (inside : prov.InBounds ptr id) :
    Provenance.addressOf ptr = (id + 1) * stride + ptr.offset := by
  rw [Provenance.addressOf, inside.points]

/-- An address names its allocation exactly when the offset is below the stride. -/
theorem index_of_address (inside : prov.InBounds ptr id) :
    Provenance.addressOf ptr / stride - 1 = id + ptr.offset / stride ∧
      Provenance.addressOf ptr % stride = ptr.offset % stride := by
  rw [inside.addressOf]
  constructor
  · rw [Int.add_comm, Int.add_mul_ediv_right _ _ (by decide : stride ≠ 0)]
    omega
  · rw [Int.add_comm, Int.add_mul_emod_self_right]

theorem resolveAddress_of_small (inside : prov.InBounds ptr id) (small : ptr.offset < stride) :
    prov.resolveAddress (Provenance.addressOf ptr) = some (id, ptr.offset) := by
  obtain ⟨alloc, listed, live, within⟩ := inside.holds
  have start := inside.start
  have index := index_of_address inside
  rw [Int.ediv_eq_zero_of_lt start small, Int.emod_eq_of_lt start small] at index
  have positive : ¬ Provenance.addressOf ptr ≤ 0 := by
    rw [inside.addressOf]
    have base : 0 ≤ ((id : Int) + 1) * stride := Int.mul_nonneg (by omega) (by decide)
    have step : ((id : Int) + 1) * stride = id * stride + stride := by rw [Int.add_mul, Int.one_mul]
    have base_id : 0 ≤ (id : Int) * stride := Int.mul_nonneg (by omega) (by decide)
    have stride_positive : 0 < stride := by decide
    omega
  rw [resolveAddress, if_neg positive]
  dsimp only
  rw [index.1, index.2, Int.add_zero, if_neg (by omega), Int.toNat_natCast, listed]
  exact if_neg (by omega)

/-- Past the stride an address names another allocation, or none. -/
theorem resolveAddress_of_large (large : stride ≤ ptr.offset) :
    prov.resolveAddress (Provenance.addressOf ptr) ≠ some (id, ptr.offset) := by
  intro resolves
  have offset_small : Provenance.addressOf ptr % stride < stride :=
    Int.emod_lt_of_pos _ (by decide)
  rw [resolveAddress] at resolves
  split at resolves
  · cases resolves
  · dsimp only at resolves
    split at resolves
    · cases resolves
    · split at resolves
      · cases resolves
      · split at resolves
        · cases resolves
        · have offset := (Prod.mk.inj (Option.some.inj resolves)).2
          omega

theorem spaced_of_addressSpace (space : prov.AddressSpace) : prov.Spaced := by
  intro id alloc listed live
  by_contra large
  let ptr : RawPtr :=
    { alloc := some id, offset := alloc.size, prov := .wildcard, elem := 1 }
  have inside : prov.InBounds ptr id :=
    ⟨rfl, ⟨alloc, listed, live, Int.le_refl _⟩, Int.natCast_nonneg alloc.size⟩
  have reaches : stride ≤ ptr.offset := by
    rw [Int.not_lt] at large
    exact large
  exact resolveAddress_of_large reaches (space.roundTrip ptr id inside)

/-- The address space round-trips exactly while every live allocation is smaller than the stride. -/
theorem addressSpace_iff (prov : Provenance) : prov.AddressSpace ↔ prov.Spaced := by
  constructor
  · exact spaced_of_addressSpace
  · intro spaced
    have small : ∀ ptr id, prov.InBounds ptr id → ptr.offset < stride := by
      intro ptr id inside
      obtain ⟨alloc, listed, live, within⟩ := inside.holds
      exact Int.lt_of_le_of_lt within (spaced id alloc listed live)
    refine ⟨fun ptr id inside => resolveAddress_of_small inside (small ptr id inside), ?_⟩
    intro left right leftId rightId left_inside right_inside differ same
    have left_resolves := resolveAddress_of_small left_inside (small left leftId left_inside)
    rw [same, resolveAddress_of_small right_inside (small right rightId right_inside)]
      at left_resolves
    exact differ (Prod.mk.inj (Option.some.inj left_resolves)).1.symm

/-- One host allocation of the stride's size: the pointer to its end names the next allocation. -/
theorem not_addressSpace_hostAlloc :
    ¬ (new.hostAlloc 65536 0 { start := 0, stop := 0 }).2.AddressSpace := by
  intro space
  have small := spaced_of_addressSpace space 0 _ rfl rfl
  exact absurd small (by decide)

end Provenance

end WolfInterp
