import Mathlib.Tactic.Linarith
import Mathlib.Tactic.Positivity
import WolfInterp.Eval.Containers

/-!
# Integers

Integer types and their ranges, and the arithmetic the evaluator does on a signed word of 128 bits.
-/

namespace WolfInterp.Eval

open WolfInterp.Syntax (BinOp)

/-! ## The carrier -/

def minCarrier : Int := -2 ^ 127

def maxCarrier : Int := 2 ^ 127 - 1

/-- The word that carries every integer holds the value. -/
def Carried (value : Int) : Prop := minCarrier ≤ value ∧ value ≤ maxCarrier

instance (value : Int) : Decidable (Carried value) := inferInstanceAs (Decidable (_ ∧ _))

/-- A result that does not fit the carrier is none. -/
def fit (value : Int) : Option Int := if Carried value then some value else none

/-- The carrier's low 128 bits of a value. -/
def wrapCarrier (value : Int) : Int := (BitVec.ofInt 128 value).toInt

theorem carried_toInt (word : BitVec 128) : Carried word.toInt := by
  have low : -2 ^ 127 ≤ word.toInt := BitVec.le_toInt word
  have high : word.toInt < 2 ^ 127 := BitVec.toInt_lt
  unfold Carried minCarrier maxCarrier
  omega

/-! ## Integer types -/

namespace IntTy

/-- A literal that has passed through arithmetic. -/
def literalWide : IntTy := { bits := 128, signed := true, mode := .checked, literal := true }

variable (ty : IntTy)

/-- Reduce a value into range; a checked type refuses it. -/
def reduce (value : Int) : Option Int :=
  if ty.holds value then some value
  else match ty.mode with
    | .checked => none
    | .saturating => some (if value < ty.range.1 then ty.range.1 else ty.range.2)
    | .wrapping =>
      if 128 ≤ ty.bits then some value
      else
        let wrapped := value % 2 ^ ty.bits
        some (if ty.signed ∧ ty.range.2 < wrapped then wrapped - 2 ^ ty.bits else wrapped)

/-- The type's width is a whole number of bytes that the carrier can hold. -/
def Sized : Prop := 0 < ty.bits ∧ ty.bits ≤ 128

/-- A wrapping type of the carrier's width wraps nothing. -/
def Unwrapped : Prop := ty.mode = .wrapping ∧ ty.bits = 128

instance : Decidable ty.Unwrapped := inferInstanceAs (Decidable (_ ∧ _))

variable {ty}

theorem range_eq (narrow : ty.bits < 128) : ty.range =
      if ty.signed then (-2 ^ (ty.bits - 1), 2 ^ (ty.bits - 1) - 1) else (0, 2 ^ ty.bits - 1) := by
  unfold range
  rw [if_neg (not_le.mpr narrow)]

theorem range_wide (wide : ty.bits = 128) :
    ty.range = (if ty.signed then minCarrier else 0, maxCarrier) := by
  unfold range
  rw [if_pos (by omega)]
  cases ty.signed <;> rfl

theorem holds_iff {value : Int} :
    ty.holds value = true ↔ ty.range.1 ≤ value ∧ value ≤ ty.range.2 := by
  rw [holds, Bool.and_eq_true, decide_eq_true_iff, decide_eq_true_iff]

theorem low_le_high (ty : IntTy) : ty.range.1 ≤ ty.range.2 := by
  have one (bits : Nat) : (1 : Int) ≤ 2 ^ bits := one_le_pow₀ (by norm_num)
  unfold range
  split
  · split <;> norm_num
  · split
    · have half := one (ty.bits - 1)
      dsimp only
      omega
    · have whole := one ty.bits
      dsimp only
      omega

/-- A reduced value is in range, but for what a wrapping type of the carrier's width leaves. -/
theorem holds_of_reduce (sized : ty.Sized) {value reduced : Int}
    (result : ty.reduce value = some reduced) :
    ty.holds reduced ∨ (ty.Unwrapped ∧ reduced = value) := by
  unfold reduce at result
  split at result
  · cases result
    exact .inl (by assumption)
  · cases mode : ty.mode with
    | checked =>
      rw [mode] at result
      cases result
    | saturating =>
      rw [mode] at result
      cases result
      left
      split
      · exact holds_iff.mpr ⟨le_rfl, low_le_high ty⟩
      · exact holds_iff.mpr ⟨low_le_high ty, le_rfl⟩
    | wrapping =>
      rw [mode] at result
      dsimp only at result
      by_cases wide : 128 ≤ ty.bits
      · rw [if_pos wide] at result
        cases result
        exact .inr ⟨⟨mode, le_antisymm sized.2 wide⟩, rfl⟩
      · rw [if_neg wide] at result
        cases result
        left
        have positive : (0 : Int) < 2 ^ ty.bits := by positivity
        have low : 0 ≤ value % 2 ^ ty.bits := Int.emod_nonneg _ positive.ne'
        have high : value % 2 ^ ty.bits < 2 ^ ty.bits := Int.emod_lt_of_pos _ positive
        have double : (2 : Int) ^ ty.bits = 2 * 2 ^ (ty.bits - 1) := by
          rw [← pow_succ', Nat.sub_add_cancel sized.1]
        rw [holds_iff]
        rw [range_eq (not_le.mp wide)]
        generalize value % 2 ^ ty.bits = wrapped at low high
        cases signed : ty.signed with
        | false =>
          simp only [Bool.false_eq_true, false_and, if_false]
          omega
        | true =>
          simp only [true_and, if_true]
          split <;> omega

theorem reduce_of_holds {value : Int} (holds : ty.holds value) : ty.reduce value = some value := by
  unfold reduce
  rw [if_pos holds]

/-- What a type holds, the carrier holds. -/
theorem carried_of_holds {value : Int} (sized : ty.Sized) (holds : ty.holds value) :
    Carried value := by
  obtain ⟨low, high⟩ := holds_iff.mp holds
  unfold Carried minCarrier maxCarrier
  by_cases wide : ty.bits = 128
  · rw [range_wide wide] at low high
    unfold minCarrier maxCarrier at *
    cases signed : ty.signed with
    | false =>
      rw [signed] at low
      exact ⟨le_trans (by norm_num) low, high⟩
    | true =>
      rw [signed] at low
      exact ⟨low, high⟩
  · have narrow : ty.bits < 128 := lt_of_le_of_ne sized.2 wide
    rw [range_eq narrow] at low high
    have whole : (2 : Int) ^ ty.bits ≤ 2 ^ 127 := pow_le_pow_right₀ (by norm_num) (by omega)
    have half : (2 : Int) ^ (ty.bits - 1) ≤ 2 ^ 127 := pow_le_pow_right₀ (by norm_num) (by omega)
    cases signed : ty.signed with
    | false =>
      rw [signed] at low high
      simp only [Bool.false_eq_true, if_false] at low high
      omega
    | true =>
      rw [signed] at low high
      simp only [if_true] at low high
      omega

end IntTy

/-! ## Arithmetic -/
/-- `x << n` on a plain integer: `x * 2^n`, when the shift back answers `x`. -/
def shiftValueLeft (value count : Int) : Option Int :=
  if count < 0 then none
  else if value = 0 then some 0
  else if count < 128 then
    let shifted := (BitVec.ofInt 128 value <<< count.toNat).toInt
    if shifted >>> count.toNat = value then some shifted else none
  else none

/-- `x >> n` on a plain integer: the floor of `x / 2^n`. -/
def shiftValueRight (value count : Int) : Option Int :=
  if count < 0 then none
  else if count < 128 then some (value >>> count.toNat)
  else some (if value < 0 then -1 else 0)

/-- The count of a shift on a wrapping type is masked to the type's width. -/
def shiftCount (ty : IntTy) (count : Int) : Option Nat :=
  let masked := if ty.mode = .wrapping then count % ty.bits else count
  if 0 ≤ masked ∧ masked < 128 then some masked.toNat else none

/-- What an operator computes on the carrier. A divisor is not zero here. -/
def computed (op : BinOp) (ty : IntTy) (left right : Int) : Option Int :=
  match op with
  | .add => fit (left + right)
  | .sub => fit (left - right)
  | .mul =>
    (fit (left * right)).or <| match ty.mode with
      | .wrapping => some (wrapCarrier (left * right))
      | .saturating => some (if left < 0 ↔ right < 0 then maxCarrier else minCarrier)
      | .checked => none
  | .div => fit (left.tdiv right)
  | .rem => if left = minCarrier ∧ right = -1 then none else fit (left.tmod right)
  | .bitAnd => some (BitVec.ofInt 128 left &&& BitVec.ofInt 128 right).toInt
  | .bitOr => some (BitVec.ofInt 128 left ||| BitVec.ofInt 128 right).toInt
  | .bitXor => some (BitVec.ofInt 128 left ^^^ BitVec.ofInt 128 right).toInt
  | .shl =>
    if ty.mode = .wrapping then
      (shiftCount ty right).map fun count => (BitVec.ofInt 128 left <<< count).toInt
    else
      (shiftValueLeft left right).or <|
        if ty.mode = .saturating ∧ 0 ≤ right then
          some (if left < 0 then minCarrier else maxCarrier)
        else none
  | .shr =>
    if ty.mode = .wrapping then (shiftCount ty right).map fun (count : Nat) => left >>> count
    else shiftValueRight left right
  | _ => none

/-- Hold a computed value to a type. -/
def checked (ty : IntTy) (value : Option Int) : Option Value :=
  (value.bind ty.reduce).map (Value.int · ty)

/-- The operators an integer term is formed of. -/
def isIntTermOp : BinOp → Bool
  | .add | .sub | .mul | .div | .rem | .shl | .shr | .bitAnd | .bitOr | .bitXor => true
  | _ => false

def intComplement (value : Int) (ty : IntTy) : Int :=
  if ty.literal ∨ ty.signed then -value - 1 else ty.range.2 - value

theorem carried_shiftRight {left : Int} (carried : Carried left) (count : Nat) :
    Carried (left >>> count) := by
  obtain ⟨low, high⟩ := carried
  unfold minCarrier at low
  unfold maxCarrier at high
  rw [Int.shiftRight_eq_div_pow]
  have positive : (0 : Int) < 2 ^ count := by positivity
  have divisor : ((2 ^ count : Nat) : Int) = 2 ^ count := by push_cast; rfl
  rw [divisor]
  constructor
  · rw [minCarrier, Int.le_ediv_iff_mul_le positive]
    nlinarith
  · unfold maxCarrier
    have bound : left / 2 ^ count < 2 ^ 127 := by
      rw [Int.ediv_lt_iff_lt_mul positive]
      nlinarith
    omega

end WolfInterp.Eval
