import Mathlib.Data.Int.Order.Basic
import Mathlib.Data.List.Basic

/-!
# Cuts of a list by size

The elements of a list have sizes, and a range of sizes names a piece of it where both of its ends
fall between two elements. With the length as the size every position in reach does.
-/

namespace Cuts

variable {α : Type*}

/-- The sizes of lists add up. -/
structure Additive (size : List α → Nat) : Prop where
  nil : size [] = 0
  append (front back : List α) : size (front ++ back) = size front + size back

section

variable {β : Type*} {size : List α → Nat} {first second : β → List α} {items : List β}
  (additive : Additive size) (le : ∀ item ∈ items, size (first item) ≤ size (second item))
include additive le

/-- Lists that are piece by piece no larger than others are together no larger. -/
theorem Additive.flatMap_le :
    size (items.flatMap first) ≤ size (items.flatMap second) := by
  induction items with
  | nil => exact Nat.le_refl _
  | cons item rest induction =>
    rw [List.forall_mem_cons] at le
    rw [List.flatMap_cons, List.flatMap_cons, additive.append, additive.append]
    exact Nat.add_le_add le.1 (induction le.2)

/-- Lists that are piece by piece no larger than others and together as large are as large piece
by piece. -/
theorem Additive.flatMap_eq (total : size (items.flatMap second) ≤ size (items.flatMap first)) :
    ∀ item ∈ items, size (first item) = size (second item) := by
  induction items with
  | nil => nofun
  | cons item rest induction =>
    rw [List.forall_mem_cons] at le ⊢
    rw [List.flatMap_cons, List.flatMap_cons, additive.append, additive.append] at total
    have later := additive.flatMap_le le.2
    exact ⟨by omega, induction le.2 (by omega)⟩

end

/-- A size at which the list can be cut. -/
def Boundary (size : List α → Nat) (whole : List α) (place : Int) : Prop :=
  ∃ before after, whole = before ++ after ∧ (size before : Int) = place

/-- The piece of a list that a range of sizes names. -/
def Cut (size : List α → Nat) (whole : List α) (range : Int × Int) (piece : List α) : Prop :=
  ∃ before after, whole = before ++ (piece ++ after) ∧
    (size before : Int) = range.1 ∧ (size before + size piece : Int) = range.2

/-- A range that is inverted, reaches outside or splits an element. -/
def Misses (size : List α → Nat) (whole : List α) (range : Int × Int) : Prop :=
  range.2 < range.1 ∨ range.1 < 0 ∨ size whole < range.2 ∨
    ¬ Boundary size whole range.1 ∨ ¬ Boundary size whole range.2

variable {size : List α → Nat} {whole piece : List α} {range : Int × Int}

theorem Cut.inside (additive : Additive size) (cut : Cut size whole range piece) :
    0 ≤ range.1 ∧ range.1 ≤ range.2 ∧ range.2 ≤ size whole := by
  obtain ⟨before, after, rfl, first, last⟩ := cut
  rw [additive.append, additive.append]
  omega

/-- A range that does not miss names a piece. -/
theorem exists_cut (additive : Additive size) (hits : ¬ Misses size whole range) :
    ∃ piece, Cut size whole range piece := by
  simp only [Misses, not_or, not_not, not_lt] at hits
  obtain ⟨ordered, -, -, ⟨before, after, split, first⟩, ⟨upTo, rest, split', last⟩⟩ := hits
  have ends : before <+: whole ∧ upTo <+: whole := ⟨⟨after, split.symm⟩, ⟨rest, split'.symm⟩⟩
  rcases List.prefix_or_prefix_of_prefix ends.1 ends.2 with ⟨piece, rfl⟩ | ⟨between, rfl⟩
  · refine ⟨piece, before, rest, by rw [split', List.append_assoc], first, ?_⟩
    rw [additive.append] at last
    exact_mod_cast last
  · -- Both ends fall at one size, so the piece is empty.
    refine ⟨[], upTo ++ between, after, by rw [split, List.nil_append], first, ?_⟩
    rw [additive.append] at first ⊢
    rw [additive.nil]
    push_cast at first ⊢
    omega

theorem length_additive : Additive (List.length (α := α)) := ⟨rfl, fun _ _ => List.length_append⟩

/-- By length a piece is what dropping and taking leave. -/
theorem Cut.drop_take (cut : Cut List.length whole range piece) :
    (whole.drop range.1.toNat).take (range.2.toNat - range.1.toNat) = piece := by
  obtain ⟨before, after, rfl, first, last⟩ := cut
  have start : range.1.toNat = before.length := by omega
  have count : range.2.toNat - range.1.toNat = piece.length := by omega
  rw [count, start, List.drop_left, List.take_left]

/-- By length a range misses only where it is inverted or reaches outside. -/
theorem misses_length : Misses List.length whole range ↔
    range.2 < range.1 ∨ range.1 < 0 ∨ whole.length < range.2 := by
  have boundary {place : Int} (low : 0 ≤ place) (high : place ≤ whole.length) :
      Boundary List.length whole place := by
    refine ⟨whole.take place.toNat, whole.drop place.toNat, (List.take_append_drop _ _).symm, ?_⟩
    rw [List.length_take]
    omega
  constructor
  · rintro (inverted | low | high | split | split)
    · exact .inl inverted
    · exact .inr (.inl low)
    · exact .inr (.inr high)
    · by_contra within
      exact split (boundary (by omega) (by omega))
    · by_contra within
      exact split (boundary (by omega) (by omega))
  · rintro (inverted | low | high)
    · exact .inl inverted
    · exact .inr (.inl low)
    · exact .inr (.inr (.inl high))

end Cuts
