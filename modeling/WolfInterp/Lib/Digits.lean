import Mathlib.Data.List.Induction
import Mathlib.Tactic.Ring

/-!
# Numbers of a fixed width

A number is written with a fixed number of digits of one radix, most significant first. Digits of a
power of the radix are groups of digits.
-/

namespace Digits

/-- The number that digits spell. -/
def value (radix : Nat) (digits : List Nat) : Nat :=
  digits.foldl (fun number digit => number * radix + digit) 0

/-- The last digits of a number. -/
def digits (radix : Nat) : Nat → Nat → List Nat
  | 0, _ => []
  | width + 1, number => digits radix width (number / radix) ++ [number % radix]

variable {radix group width number : Nat}

theorem value_snoc (front : List Nat) (digit : Nat) :
    value radix (front ++ [digit]) = value radix front * radix + digit := List.foldl_append

@[simp]
theorem length_digits : (digits radix width number).length = width := by
  induction width generalizing number with
  | zero => rfl
  | succ width induction => rw [digits, List.length_append, induction, List.length_singleton]

theorem value_append (front back : List Nat) :
    value radix (front ++ back) = value radix front * radix ^ back.length + value radix back := by
  induction back using List.reverseRecOn with
  | nil => simp [value]
  | append_singleton back digit induction =>
    rw [← List.append_assoc, value_snoc, induction, value_snoc, List.length_append,
      List.length_singleton]
    ring

theorem value_digits (fits : number < radix ^ width) :
    value radix (digits radix width number) = number := by
  induction width generalizing number with
  | zero => exact (Nat.lt_one_iff.mp fits).symm
  | succ width induction =>
    rw [digits, value_snoc, induction, Nat.div_add_mod']
    exact Nat.div_lt_of_lt_mul (by rwa [Nat.pow_succ'] at fits)

/-- Digits are read back from the number they spell. -/
theorem digits_value {spelled : List Nat} (small : ∀ digit ∈ spelled, digit < radix) :
    digits radix spelled.length (value radix spelled) = spelled := by
  induction spelled using List.reverseRecOn with
  | nil => rfl
  | append_singleton front digit induction =>
    have last : digit < radix := small digit (by simp)
    rw [value_snoc, List.length_append, List.length_singleton, digits, Nat.mul_comm,
      Nat.mul_add_div (by omega), Nat.div_eq_of_lt last, Nat.add_zero,
      induction fun other among => small other (List.mem_append_left _ among), Nat.mul_add_mod,
      Nat.mod_eq_of_lt last]

theorem digits_mod (number : Nat) :
    digits radix width (number % radix ^ width) = digits radix width number := by
  induction width generalizing number with
  | zero => rfl
  | succ width induction =>
    rw [digits, digits, Nat.pow_succ', Nat.mod_mul_right_div_self, induction, Nat.mod_mul_right_mod]

theorem digits_add (width more number : Nat) : digits radix (width + more) number =
    digits radix width (number / radix ^ more) ++ digits radix more number := by
  induction more generalizing number with
  | zero => simp [digits]
  | succ more induction =>
    rw [← Nat.add_assoc, digits, induction, Nat.div_div_eq_div_mul, ← Nat.pow_succ', digits,
      List.append_assoc]

/-- A digit of a power of the radix is a group of digits. -/
theorem digits_group (group width number : Nat) : digits radix (group * width) number =
    (digits (radix ^ group) width number).flatMap (digits radix group) := by
  induction width generalizing number with
  | zero => rfl
  | succ width induction =>
    rw [Nat.mul_succ, digits_add, induction, digits, List.flatMap_append, List.flatMap_singleton,
      digits_mod]

/-- Groups of digits spell what the digits of the power spell. -/
theorem value_group {spelled : List Nat} (small : ∀ digit ∈ spelled, digit < radix ^ group) :
    value radix (spelled.flatMap (digits radix group)) = value (radix ^ group) spelled := by
  induction spelled using List.reverseRecOn with
  | nil => rfl
  | append_singleton front digit induction =>
    rw [List.flatMap_append, List.flatMap_singleton, value_append, value_snoc, length_digits,
      value_digits (small digit (by simp)),
      induction fun other among => small other (List.mem_append_left _ among)]

end Digits
