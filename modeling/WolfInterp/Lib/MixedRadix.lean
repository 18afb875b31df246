import Mathlib.Data.List.Basic
import Mathlib.Tactic.Ring

/-!
# Mixed-radix numbers

A number in mixed radix is a list of digits, least significant first, each beside its radix. Zeros
above the last digit spell nothing, and dividing the value of digits below their radices out, radix
by radix, gives the digits back.
-/

namespace MixedRadix

/-- A digit beside its radix. -/
abbrev Place := Nat × Nat

/-- The digit is below its radix. -/
def Place.Fits (place : Place) : Prop := place.2 < place.1

/-- The number that digits spell. -/
def value : List Place → Nat
  | [] => 0
  | place :: places => place.2 + place.1 * value places

/-- The product of the radices. -/
def weight (places : List Place) : Nat := (places.map Prod.fst).prod

/-- Divide a number out, radix by radix. -/
def digits : List Nat → Nat → List Nat
  | [], _ => []
  | radix :: radices, number => number % radix :: digits radices (number / radix)

@[simp]
theorem value_nil : value [] = 0 := rfl

theorem value_cons (place : Place) (places : List Place) :
    value (place :: places) = place.2 + place.1 * value places := rfl

@[simp]
theorem weight_nil : weight [] = 1 := rfl

@[simp]
theorem weight_cons (place : Place) (places : List Place) :
    weight (place :: places) = place.1 * weight places := by
  simp [weight]

theorem value_append (front back : List Place) :
    value (front ++ back) = value front + weight front * value back := by
  induction front with
  | nil => simp
  | cons place front induction =>
    rw [List.cons_append, value_cons, value_cons, induction, weight_cons]
    ring

/-- Zeros above the last digit spell nothing. -/
theorem value_zeros {places : List Place} (zeros : ∀ place ∈ places, place.2 = 0) :
    value places = 0 := by
  induction places with
  | nil => rfl
  | cons place places induction =>
    rw [value_cons, zeros place List.mem_cons_self,
      induction fun other later => zeros other (List.mem_cons_of_mem _ later)]
    simp

/-- Dividing out gives the digits back. -/
theorem digits_value {places : List Place} (fits : ∀ place ∈ places, place.Fits) :
    digits (places.map Prod.fst) (value places) = places.map Prod.snd := by
  induction places with
  | nil => rfl
  | cons place places induction =>
    have here : place.2 < place.1 := fits place List.mem_cons_self
    have rest := induction fun other later => fits other (List.mem_cons_of_mem _ later)
    have digit : value (place :: places) % place.1 = place.2 := by
      rw [value_cons, Nat.add_mul_mod_self_left, Nat.mod_eq_of_lt here]
    have above : value (place :: places) / place.1 = value places := by
      rw [value_cons, Nat.add_mul_div_left _ _ (Nat.zero_lt_of_lt here),
        Nat.div_eq_of_lt here, Nat.zero_add]
    rw [List.map_cons, digits, digit, above, rest, List.map_cons]

end MixedRadix
