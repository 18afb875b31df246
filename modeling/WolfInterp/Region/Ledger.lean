import Mathlib.Algebra.Order.Ring.Nat
import Mathlib.Data.Nat.Log

/-!
# The byte ledger

The shadow-memory geometry of a region's byte ledger: what a fresh allocation charges, and the
capacity policy of a growable container. Machine words are natural numbers and the source's
saturating operations saturate at the largest `u64`.
-/

namespace WolfInterp.Ledger

/-- The largest `u64`. -/
def maxWord : Nat := 2 ^ 64 - 1

/-- `u64::saturating_add`. -/
def saturatingAdd (left right : Nat) : Nat := min (left + right) maxWord

/-- `u64::saturating_mul`. -/
def saturatingMul (left right : Nat) : Nat := min (left * right) maxWord

/-- Every charge rounds up to this. -/
def grain : Nat := 16

/-- One value slot: what a struct field or a container element costs. -/
def slotBytes : Nat := 16

/-- The header of a heap allocation. -/
def headerBytes : Nat := 32

/-- Round a charge up to the grain. -/
def roundToGrain (bytes : Nat) : Nat := saturatingMul ((bytes + grain - 1) / grain) grain

/-- `u64::next_power_of_two`, which wraps to zero past the last power a word holds. -/
def nextPowerOfTwo (value : Nat) : Nat := 2 ^ Nat.clog 2 value % 2 ^ 64

/-- Slots a growable container holds for `len` elements. -/
def slotCapacity (len : Nat) : Nat := if len = 0 then 0 else nextPowerOfTwo (max len 4)

/-- A fresh allocation holding `slots` value slots. -/
def allocBytes (slots : Nat) : Nat :=
  roundToGrain (saturatingAdd headerBytes (saturatingMul slotBytes slots))

/-- A fresh growable container holding `len` elements. -/
def containerBytes (len : Nat) : Nat := allocBytes (slotCapacity len)

end WolfInterp.Ledger
