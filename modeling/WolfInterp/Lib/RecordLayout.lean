import Mathlib.Algebra.Order.Ring.Nat
import Mathlib.Data.List.Forall2
import Mathlib.Data.Nat.ModEq

/-!
# Records laid out in memory

The members of a record are placed one after another, each at the next multiple of its alignment,
and the record ends at the next multiple of the strictest alignment. The numbers are unbounded.
-/

namespace RecordLayout

/-! ## Rounding up -/

/-- The least multiple of `align` that is `n` or more. -/
def roundUp (n align : Nat) : Nat := (n + align - 1) / align * align

variable {n align bound : Nat}

theorem dvd_roundUp (n align : Nat) : align ∣ roundUp n align :=
  Nat.dvd_mul_left align _

theorem le_roundUp (positive : 0 < align) : n ≤ roundUp n align := by
  have split := Nat.div_add_mod (n + align - 1) align
  have small := Nat.mod_lt (n + align - 1) positive
  rw [roundUp, Nat.mul_comm]
  omega

theorem roundUp_le (positive : 0 < align) (divides : align ∣ bound) (below : n ≤ bound) :
    roundUp n align ≤ bound := by
  obtain ⟨count, rfl⟩ := divides
  rw [roundUp, Nat.mul_comm align count]
  apply Nat.mul_le_mul_right
  rw [← Nat.lt_succ_iff, Nat.div_lt_iff_lt_mul positive, Nat.succ_mul, Nat.mul_comm count]
  omega

theorem roundUp_of_dvd (positive : 0 < align) (divides : align ∣ n) : roundUp n align = n :=
  Nat.le_antisymm (roundUp_le positive divides (Nat.le_refl n)) (le_roundUp positive)

/-! ## Placing the members -/

structure Member where
  size : Nat
  align : Nat

/-- The offsets of the members from `offset` on. -/
def place : Nat → List Member → List Nat
  | _, [] => []
  | offset, member :: rest =>
    roundUp offset member.align :: place (roundUp offset member.align + member.size) rest

/-- Where the last member ends. -/
def finish : Nat → List Member → Nat
  | offset, [] => offset
  | offset, member :: rest => finish (roundUp offset member.align + member.size) rest

/-- The strictest alignment, from `least` on. -/
def strictest : Nat → List Member → Nat
  | least, [] => least
  | least, member :: rest => strictest (max least member.align) rest

/-- The record's members lie at the offsets, one after another, each at its own alignment and
within the size, and the size and the alignment are the record's own. -/
structure IsRecord (least : Nat) (members : List Member) (offsets : List Nat)
    (size align : Nat) : Prop where
  count : offsets.length = members.length
  apart : (members.zip offsets).Pairwise fun first second => first.2 + first.1.size ≤ second.2
  aligned : ∀ placed ∈ members.zip offsets, placed.1.align ∣ placed.2
  within : ∀ placed ∈ members.zip offsets, placed.2 + placed.1.size ≤ size
  whole : align ∣ size
  strict : align = strictest least members

variable {least offset : Nat} {members : List Member}

theorem length_place (offset : Nat) (members : List Member) :
    (place offset members).length = members.length := by
  induction members generalizing offset with
  | nil => rfl
  | cons member rest induction => rw [place, List.length_cons, List.length_cons, induction]

theorem le_strictest_least (least : Nat) (members : List Member) :
    least ≤ strictest least members := by
  induction members generalizing least with
  | nil => exact Nat.le_refl least
  | cons member rest induction =>
    exact Nat.le_trans (Nat.le_max_left least member.align) (induction _)

theorem max_strictest (least other : Nat) (members : List Member) :
    max (strictest least members) other = strictest (max least other) members := by
  induction members generalizing least with
  | nil => rfl
  | cons head rest induction =>
    have swap : max (max least head.align) other = max (max least other) head.align := by omega
    have rest_max := induction (max least head.align)
    rw [swap] at rest_max
    exact rest_max

variable (positive : ∀ member ∈ members, 0 < member.align)

include positive in
theorem le_finish : offset ≤ finish offset members := by
  induction members generalizing offset with
  | nil => exact Nat.le_refl offset
  | cons member rest induction =>
    have rounded : offset ≤ roundUp offset member.align :=
      le_roundUp (positive member List.mem_cons_self)
    have later : roundUp offset member.align + member.size ≤ finish offset (member :: rest) :=
      induction fun other listed => positive other (List.mem_cons_of_mem member listed)
    omega

variable {placed : Member × Nat} {member : Member}

include positive in
theorem le_of_placed (listed : placed ∈ members.zip (place offset members)) : offset ≤ placed.2
    := by
  induction members generalizing offset with
  | nil => cases listed
  | cons member rest induction =>
    have rounded : offset ≤ roundUp offset member.align :=
      le_roundUp (positive member List.mem_cons_self)
    rw [place, List.zip_cons_cons] at listed
    rcases List.mem_cons.mp listed with rfl | later
    · exact rounded
    · have after := induction
        (fun other listed => positive other (List.mem_cons_of_mem member listed)) later
      omega

include positive in
theorem placed_le_finish (listed : placed ∈ members.zip (place offset members)) :
    placed.2 + placed.1.size ≤ finish offset members := by
  induction members generalizing offset with
  | nil => cases listed
  | cons member rest induction =>
    have positive_rest : ∀ other ∈ rest, 0 < other.align := fun other listed =>
      positive other (List.mem_cons_of_mem member listed)
    rw [place, List.zip_cons_cons] at listed
    rcases List.mem_cons.mp listed with rfl | later
    · exact le_finish positive_rest
    · exact induction positive_rest later

include positive in
theorem place_apart : (members.zip (place offset members)).Pairwise
    fun first second => first.2 + first.1.size ≤ second.2 := by
  induction members generalizing offset with
  | nil => exact List.Pairwise.nil
  | cons member rest induction =>
    have positive_rest : ∀ other ∈ rest, 0 < other.align := fun other listed =>
      positive other (List.mem_cons_of_mem member listed)
    rw [place, List.zip_cons_cons]
    apply List.Pairwise.cons
    · intro placed listed
      exact le_of_placed positive_rest listed
    · exact induction positive_rest

theorem place_aligned (listed : placed ∈ members.zip (place offset members)) :
    placed.1.align ∣ placed.2 := by
  induction members generalizing offset with
  | nil => cases listed
  | cons member rest induction =>
    rw [place, List.zip_cons_cons] at listed
    rcases List.mem_cons.mp listed with rfl | later
    · exact dvd_roundUp offset member.align
    · exact induction later

/-- The record of the members, each placed after the one before it. -/
theorem isRecord (positive : ∀ member ∈ members, 0 < member.align) (start : 0 < least) :
    IsRecord least members (place 0 members)
      (roundUp (finish 0 members) (strictest least members)) (strictest least members) := by
  have strict_positive : 0 < strictest least members :=
    Nat.lt_of_lt_of_le start (le_strictest_least least members)
  refine
    { count := length_place 0 members
      apart := place_apart positive
      aligned := fun placed listed => place_aligned listed
      within := ?_
      whole := dvd_roundUp _ _
      strict := rfl }
  intro placed listed
  exact Nat.le_trans (placed_le_finish positive listed) (le_roundUp strict_positive)

theorem IsRecord.size_le {offsets : List Nat} {size align : Nat}
    (record : IsRecord least members offsets size align) (listed : member ∈ members) :
    member.size ≤ size := by
  have same : (members.zip offsets).map Prod.fst = members :=
    List.map_fst_zip (Nat.le_of_eq record.count.symm)
  rw [← same] at listed
  obtain ⟨placed, placed_listed, rfl⟩ := List.mem_map.mp listed
  exact Nat.le_trans (Nat.le_add_left _ _) (record.within placed placed_listed)

/-- Members of one shape fill a record without a gap. -/
theorem finish_replicate (positive : 0 < member.align) (whole : member.align ∣ member.size)
    (count offset : Nat) (start : member.align ∣ offset) :
    finish offset (List.replicate count member) = offset + count * member.size := by
  induction count generalizing offset with
  | zero => simp [finish]
  | succ count induction =>
    rw [List.replicate_succ, finish, roundUp_of_dvd positive start,
      induction (offset + member.size) (Nat.dvd_add start whole), Nat.succ_mul]
    omega

theorem strictest_replicate (least count : Nat) :
    strictest least (List.replicate (count + 1) member) = max least member.align := by
  induction count generalizing least with
  | zero => rfl
  | succ count induction =>
    rw [List.replicate_succ, strictest, induction]
    omega

end RecordLayout
