import Mathlib.Data.Int.Bitwise
import WolfInterp.Eval.Ints

/-!
# The integer operators against exact arithmetic

What an integer operator answers mathematically, at a type of any width, and where the evaluator's
word of 128 bits answers the same.
-/

namespace WolfInterp.Eval

open WolfInterp.Syntax (BinOp)

/-! ## The operators of the evaluator -/

inductive ArithTrap where
  | divZero | overflow
  deriving DecidableEq

/-- A computed value held to a type, with the trap it ends in. -/
def IntTy.answer (ty : IntTy) (computed : Option Int) : Except ArithTrap Int :=
  match computed.bind ty.reduce with
  | some value => .ok value
  | none => .error .overflow

/-- An operator on two integers at their type, with the trap it ends in. -/
def intBinary (op : BinOp) (ty : IntTy) (left right : Int) : Except ArithTrap Int :=
  if (op = .div ∨ op = .rem) ∧ right = 0 then .error .divZero
  else ty.answer (computed op ty left right)

/-! ## Exact answers -/

namespace IntTy

/-- The values of a type of this width and sign. -/
def exactRange (ty : IntTy) : Int × Int :=
  if ty.signed then (-2 ^ (ty.bits - 1), 2 ^ (ty.bits - 1) - 1) else (0, 2 ^ ty.bits - 1)

/-- The value of the type with the same residue. -/
def residue (ty : IntTy) (value : Int) : Int :=
  if ty.signed then value.bmod (2 ^ ty.bits) else value % 2 ^ ty.bits

/-- A mathematical result at a type: itself where it is in range, and otherwise what the type's mode
makes of it. -/
def settle (ty : IntTy) (value : Int) : Except ArithTrap Int :=
  if ty.exactRange.1 ≤ value ∧ value ≤ ty.exactRange.2 then .ok value
  else match ty.mode with
    | .checked => .error .overflow
    | .wrapping => .ok (ty.residue value)
    | .saturating => .ok (if value < ty.exactRange.1 then ty.exactRange.1 else ty.exactRange.2)

end IntTy

/-- The mathematical result of an operator. -/
def exactResult (op : BinOp) (left right : Int) : Int :=
  match op with
  | .add => left + right
  | .sub => left - right
  | .mul => left * right
  | .div => left.tdiv right
  | .rem => left.tmod right
  | .bitAnd => left.land right
  | .bitOr => left.lor right
  | .bitXor => left.xor right
  | .shl => left * 2 ^ right.toNat
  | .shr => left / 2 ^ right.toNat
  | _ => 0

def isShift (op : BinOp) : Bool := op = .shl || op = .shr

/-- A shift on a wrapping type reads its count modulo the width. -/
def exactRight (op : BinOp) (ty : IntTy) (right : Int) : Int :=
  if isShift op ∧ ty.mode = .wrapping then right % ty.bits else right

/-- What an operator answers at a type. -/
def exactAnswer (op : BinOp) (ty : IntTy) (left right : Int) : Except ArithTrap Int :=
  if (op = .div ∨ op = .rem) ∧ right = 0 then .error .divZero
  else if isShift op ∧ exactRight op ty right < 0 then .error .overflow
  else ty.settle (exactResult op left (exactRight op ty right))

/-! ## What the carrier holds -/

section Carrier

variable {ty : IntTy} {left right value : Int}

theorem wrapCarrier_eq (value : Int) : wrapCarrier value = value.bmod (2 ^ 128) :=
  BitVec.toInt_ofInt value

theorem wrapCarrier_of_carried (carried : Carried value) : wrapCarrier value = value := by
  obtain ⟨low, high⟩ := carried
  unfold minCarrier at low
  unfold maxCarrier at high
  rw [wrapCarrier_eq]
  apply Int.bmod_eq_of_le <;> omega

theorem fit_of_carried (carried : Carried value) : fit value = some value := if_pos carried

theorem fit_eq_none (lost : ¬ Carried value) : fit value = none := if_neg lost

/-- The bits of a word. -/
theorem getLsbD_ofInt (value : Int) {i : Nat} (lt : i < 128) :
    (BitVec.ofInt 128 value).getLsbD i = value.testBit i := by
  cases value with
  | ofNat n =>
    rw [Int.ofNat_eq_natCast, BitVec.ofInt_natCast, BitVec.getLsbD_ofNat, decide_eq_true lt]
    rfl
  | negSucc n =>
    rw [BitVec.ofInt_negSucc_eq_not_ofNat, BitVec.getLsbD_not, BitVec.getLsbD_ofNat,
      decide_eq_true lt]
    rfl

theorem carried_iff_natAbs {n : Nat} : Carried (n : Int) ↔ n < 2 ^ 127 := by
  unfold Carried minCarrier maxCarrier
  omega

theorem carried_negSucc {n : Nat} : Carried (Int.negSucc n) ↔ n < 2 ^ 127 := by
  unfold Carried minCarrier maxCarrier
  omega

theorem carried_natBitwise (f : Bool → Bool → Bool) {m n : Nat} (left : m < 2 ^ 127)
    (right : n < 2 ^ 127) : Carried (Int.natBitwise f m n) := by
  unfold Int.natBitwise
  cases f false false with
  | true => exact carried_negSucc.mpr (Nat.bitwise_lt_two_pow left right)
  | false => exact carried_iff_natAbs.mpr (Nat.bitwise_lt_two_pow left right)

/-- A bitwise operation on carried integers is carried. -/
theorem carried_bitwise (f : Bool → Bool → Bool) (carried : Carried left)
    (carried' : Carried right) :
    Carried (Int.bitwise f left right) := by
  unfold Int.bitwise
  split <;>
    simp only [Int.ofNat_eq_natCast, carried_iff_natAbs, carried_negSucc] at carried carried' <;>
    exact carried_natBitwise _ carried carried'

/-- A bitwise operation on words is the one on integers. -/
theorem toInt_bitwise {f : Bool → Bool → Bool} {word : BitVec 128}
    (bits : ∀ i < 128, word.getLsbD i = f (left.testBit i) (right.testBit i))
    (carried : Carried left) (carried' : Carried right) :
    word.toInt = Int.bitwise f left right := by
  have same : word = BitVec.ofInt 128 (Int.bitwise f left right) := by
    apply BitVec.eq_of_getLsbD_eq
    intro i lt
    rw [bits i lt, getLsbD_ofInt _ lt, Int.testBit_bitwise]
  rw [same]
  exact wrapCarrier_of_carried (carried_bitwise f carried carried')

/-! ## Shifts -/

/-- A word shifted left is the word of the product. -/
theorem toInt_shiftLeft (value : Int) (count : Nat) :
    (BitVec.ofInt 128 value <<< count).toInt = wrapCarrier (value * 2 ^ count) := by
  have power : BitVec.ofInt 128 (2 ^ count) = BitVec.twoPow 128 count := by
    have cast : (2 ^ count : Int) = ((2 ^ count : Nat) : Int) := by push_cast; rfl
    rw [cast, BitVec.ofInt_natCast]
    apply BitVec.eq_of_toNat_eq
    rw [BitVec.toNat_ofNat, BitVec.toNat_twoPow]
  rw [wrapCarrier, BitVec.ofInt_mul, power, BitVec.mul_twoPow_eq_shiftLeft]

theorem shiftRight_eq (value : Int) (count : Nat) : value >>> count = value / 2 ^ count := by
  rw [Int.shiftRight_eq_div_pow]
  push_cast
  rfl

theorem pow_dvd_wrapCarrier (value : Int) {count : Nat} (le : count ≤ 128) :
    (2 : Int) ^ count ∣ wrapCarrier (value * 2 ^ count) := by
  rw [wrapCarrier_eq, Int.bmod_eq_self_sub_mul_bdiv]
  apply dvd_sub
  · exact Dvd.intro_left value rfl
  · apply Dvd.dvd.mul_right
    push_cast
    exact pow_dvd_pow 2 le

/-- A product past the carrier is no product of what is carried by a shorter power. -/
theorem not_carried_mul_pow {count : Nat} (long : 128 ≤ count) (nonzero : value ≠ 0) :
    ¬ Carried (value * 2 ^ count) := by
  intro carried
  obtain ⟨low, high⟩ := carried
  unfold minCarrier at low
  unfold maxCarrier at high
  have power : (2 : Int) ^ 128 ≤ 2 ^ count := pow_le_pow_right₀ (by norm_num) long
  rcases lt_or_gt_of_ne nonzero with negative | positive
  · nlinarith
  · nlinarith

/-- A shift left on a plain integer is the product where that is carried, and nothing elsewhere. -/
theorem shiftValueLeft_eq (count : 0 ≤ right) :
    shiftValueLeft left right = fit (left * 2 ^ right.toNat) := by
  unfold shiftValueLeft
  rw [if_neg (not_lt.mpr count)]
  split
  · rename_i zero
    rw [zero, zero_mul]
    rfl
  · rename_i nonzero
    split
    · dsimp only
      rw [toInt_shiftLeft, shiftRight_eq]
      by_cases product : Carried (left * 2 ^ right.toNat)
      · rw [wrapCarrier_of_carried product, Int.mul_ediv_cancel _ (by positivity), if_pos rfl,
          fit_of_carried product]
      · rw [fit_eq_none product, if_neg]
        intro back
        have same :=
          Int.ediv_mul_cancel (pow_dvd_wrapCarrier left (show right.toNat ≤ 128 by omega))
        rw [back] at same
        apply product
        rw [same]
        exact carried_toInt _
    · have long : 128 ≤ right.toNat := by omega
      rw [fit_eq_none (not_carried_mul_pow long nonzero)]

theorem shiftValueRight_eq (carried : Carried left) (count : 0 ≤ right) :
    shiftValueRight left right = some (left / 2 ^ right.toNat) := by
  unfold shiftValueRight
  rw [if_neg (not_lt.mpr count)]
  split
  · rw [shiftRight_eq]
  · obtain ⟨low, high⟩ := carried
    unfold minCarrier at low
    unfold maxCarrier at high
    have power : (2 : Int) ^ 128 ≤ 2 ^ right.toNat := pow_le_pow_right₀ (by norm_num) (by omega)
    split
    · rename_i negative
      have above : -1 ≤ left / 2 ^ right.toNat :=
        (Int.le_ediv_iff_mul_le (by positivity)).mpr (by omega)
      have below : left / 2 ^ right.toNat < 0 := Int.ediv_neg_of_neg_of_pos negative (by positivity)
      congr 1
      omega
    · rw [Int.ediv_eq_zero_of_lt] <;> omega

end Carrier

/-! ## A computed value and the exact one -/

namespace IntTy

variable {ty : IntTy} {value : Int}

/-- The answer for a mathematical result is one that the carrier holds. -/
def Shown (ty : IntTy) (value : Int) : Prop :=
  ∀ answer, ty.settle value = .ok answer → answer ≤ maxCarrier

theorem answer_some {value reduced : Int} (result : ty.reduce value = some reduced) :
    ty.answer (some value) = .ok reduced := by
  rw [answer, Option.bind_some, result]

theorem answer_none {value : Int} (result : ty.reduce value = none) :
    ty.answer (some value) = .error .overflow := by
  rw [answer, Option.bind_some, result]

theorem exactRange_narrow (narrow : ty.bits < 128) : ty.exactRange = ty.range :=
  (range_eq narrow).symm

theorem exactRange_wide (wide : ty.bits = 128) :
    ty.exactRange = if ty.signed then (minCarrier, maxCarrier) else (0, 2 ^ 128 - 1) := by
  rw [exactRange, wide]
  rfl

/-- A narrow type's values are all carried. -/
theorem carried_narrow (narrow : ty.bits < 128) (low : ty.exactRange.1 ≤ value)
    (high : value ≤ ty.exactRange.2) : Carried value := by
  have whole : (2 : Int) ^ ty.bits ≤ 2 ^ 127 := pow_le_pow_right₀ (by norm_num) (by omega)
  have half : (2 : Int) ^ (ty.bits - 1) ≤ 2 ^ 127 := pow_le_pow_right₀ (by norm_num) (by omega)
  unfold Carried minCarrier maxCarrier
  unfold exactRange at low high
  cases signed : ty.signed with
  | false =>
    simp only [signed, Bool.false_eq_true, if_false] at low high
    omega
  | true =>
    simp only [signed, if_true] at low high
    omega

section

variable (sized : ty.Sized) (narrow : ty.bits < 128) (value : Int)
include sized narrow

/-- A value that wraps is its residue. -/
theorem residue_eq_wrapped :
    ty.residue value =
      let wrapped := value % 2 ^ ty.bits
      if ty.signed ∧ ty.range.2 < wrapped then wrapped - 2 ^ ty.bits else wrapped := by
  have cast : ((2 ^ ty.bits : Nat) : Int) = 2 ^ ty.bits := by push_cast; rfl
  have double : (2 : Int) ^ ty.bits = 2 * 2 ^ (ty.bits - 1) := by
    rw [← pow_succ', Nat.sub_add_cancel sized.1]
  have half : (0 : Int) < 2 ^ (ty.bits - 1) := by positivity
  rw [residue, range_eq narrow]
  cases ty.signed with
  | false => simp only [Bool.false_eq_true, false_and, if_false]
  | true =>
    simp only [if_true, true_and]
    rw [Int.bmod_eq_emod, cast]
    split <;> split <;> omega

/-- On a narrow type the evaluator's answer is the exact one. -/
theorem answer_narrow :
    ty.answer (some value) = ty.settle value := by
  rw [settle, exactRange_narrow narrow, answer, Option.bind_some, reduce]
  by_cases holds : ty.holds value = true
  · rw [if_pos holds, if_pos (holds_iff.mp holds)]
  · rw [if_neg holds, if_neg (fun within => holds (holds_iff.mpr within))]
    cases mode : ty.mode with
    | checked => rfl
    | saturating => rfl
    | wrapping =>
      dsimp only
      rw [if_neg (not_le.mpr narrow), residue_eq_wrapped sized narrow]

theorem shown_narrow : ty.Shown value := by
  intro settled same
  rw [← answer_narrow sized narrow, answer] at same
  split at same
  · rename_i reduced result
    cases same
    rw [Option.bind_some] at result
    rcases holds_of_reduce sized result with holds | ⟨unwrapped, -⟩
    · exact (carried_of_holds sized holds).2
    · exact absurd unwrapped.2 narrow.ne
  · cases same

end

theorem exactRange_zero (ty : IntTy) : ty.exactRange.1 ≤ 0 ∧ 0 ≤ ty.exactRange.2 := by
  have whole : (1 : Int) ≤ 2 ^ ty.bits := one_le_pow₀ (by norm_num)
  have half : (1 : Int) ≤ 2 ^ (ty.bits - 1) := one_le_pow₀ (by norm_num)
  unfold exactRange
  split <;> dsimp only <;> omega

theorem settle_in (low : ty.exactRange.1 ≤ value) (high : value ≤ ty.exactRange.2) :
    ty.settle value = .ok value :=
  if_pos ⟨low, high⟩

theorem shown_of_error {trap : ArithTrap} (settled : ty.settle value = .error trap) :
    ty.Shown value := by
  intro answer same
  rw [settled] at same
  cases same

/-- A carried result is answered exactly where the exact answer is carried: a negative one wraps
into the upper half of an unsigned type of 128 bits. -/
theorem answer_carried (sized : ty.Sized) (carried : Carried value) :
    ty.answer (some value) = ty.settle value ↔ ty.Shown value := by
  by_cases narrow : ty.bits < 128
  · exact iff_of_true (answer_narrow sized narrow value) (shown_narrow sized narrow value)
  have wide : ty.bits = 128 := le_antisymm sized.2 (not_lt.mp narrow)
  obtain ⟨low, high⟩ := carried
  have range := exactRange_wide wide
  have held := range_wide wide
  cases signed : ty.signed with
  | true =>
    rw [signed, if_pos rfl] at range held
    have holds : ty.holds value := holds_iff.mpr (by rw [held]; exact ⟨low, high⟩)
    have settled : ty.settle value = .ok value := settle_in (by rw [range]; exact low)
      (by rw [range]; exact high)
    apply iff_of_true
    · rw [answer_some (reduce_of_holds holds), settled]
    · intro answer same
      rw [settled] at same
      cases same
      exact high
  | false =>
    rw [signed, if_neg nofun] at range held
    by_cases negative : value < 0
    · have out : ¬ ty.holds value = true := by
        rw [holds_iff, held]
        exact fun within => absurd within.1 (not_le.mpr negative)
      have outside : ¬ (ty.exactRange.1 ≤ value ∧ value ≤ ty.exactRange.2) := by
        rw [range]
        exact fun within => absurd within.1 (not_le.mpr negative)
      cases mode : ty.mode with
      | checked =>
        have settled : ty.settle value = .error .overflow := by rw [settle, if_neg outside, mode]
        apply iff_of_true _ (shown_of_error settled)
        rw [settled, answer_none]
        rw [reduce, if_neg out, mode]
      | saturating =>
        have settled : ty.settle value = .ok 0 := by
          rw [settle, if_neg outside, mode, range]
          dsimp only
          rw [if_pos negative]
        apply iff_of_true
        · rw [settled]
          apply answer_some
          rw [reduce, if_neg out, mode, held]
          dsimp only
          rw [if_pos negative]
        · intro answer same
          rw [settled] at same
          cases same
          decide
      | wrapping =>
        unfold minCarrier at low
        have wraps : value % 2 ^ 128 = value + 2 ^ 128 := by omega
        have settled : ty.settle value = .ok (value + 2 ^ 128) := by
          rw [settle, if_neg outside, mode, residue, signed, wide]
          dsimp only
          rw [if_neg nofun, wraps]
        have answered : ty.answer (some value) = .ok value := by
          apply answer_some
          rw [reduce, if_neg out, mode]
          dsimp only
          rw [if_pos (by omega)]
        apply iff_of_false
        · rw [answered, settled]
          intro same
          have equal := Except.ok.inj same
          omega
        · intro shown
          have bound := shown _ settled
          unfold maxCarrier at bound
          omega
    · have holds : ty.holds value := holds_iff.mpr (by rw [held]; exact ⟨not_lt.mp negative, high⟩)
      have settled : ty.settle value = .ok value :=
        settle_in (by rw [range]; exact not_lt.mp negative)
        (by rw [range]; unfold maxCarrier at high; dsimp only; omega)
      apply iff_of_true
      · rw [answer_some (reduce_of_holds holds), settled]
      · intro answer same
        rw [settled] at same
        cases same
        exact high

/-- A result past the carrier that a checked type loses. -/
theorem lost_checked (sized : ty.Sized) (lost : ¬ Carried value) (checked : ty.mode = .checked) :
    .error .overflow = ty.settle value ↔ ty.Shown value := by
  by_cases within : ty.exactRange.1 ≤ value ∧ value ≤ ty.exactRange.2
  · have settled := settle_in within.1 within.2
    have wide : ty.bits = 128 := by
      by_contra narrow
      exact lost (carried_narrow (lt_of_le_of_ne sized.2 narrow) within.1 within.2)
    apply iff_of_false
    · rw [settled]
      nofun
    · intro shown
      have bound := shown _ settled
      have range := exactRange_wide wide
      apply lost
      refine ⟨?_, bound⟩
      rw [range] at within
      cases signed : ty.signed with
      | true =>
        rw [signed] at within
        exact within.1
      | false =>
        rw [signed] at within
        exact le_trans (by decide) within.1
  · have settled : ty.settle value = .error .overflow := by rw [settle, if_neg within, checked]
    exact iff_of_true settled.symm (shown_of_error settled)

/-- A type that is not checked answers every result. -/
theorem settle_ne_overflow (unchecked : ty.mode ≠ .checked) :
    .error .overflow ≠ ty.settle value := by
  rw [settle]
  split
  · nofun
  · cases mode : ty.mode with
    | checked => exact absurd mode unchecked
    | wrapping => nofun
    | saturating => nofun

/-- On a wrapping type a result is its residue. -/
theorem settle_wrapping (sized : ty.Sized) (wrapping : ty.mode = .wrapping) (value : Int) :
    ty.settle value = .ok (ty.residue value) := by
  rw [settle]
  split
  · rename_i within
    obtain ⟨low, high⟩ := within
    have cast : ((2 ^ ty.bits : Nat) : Int) = 2 ^ ty.bits := by push_cast; rfl
    have double : (2 : Int) ^ ty.bits = 2 * 2 ^ (ty.bits - 1) := by
      rw [← pow_succ', Nat.sub_add_cancel sized.1]
    unfold exactRange at low high
    rw [residue]
    cases signed : ty.signed with
    | true =>
      simp only [signed, if_true] at low high ⊢
      rw [Int.bmod_eq_of_le_mul_two] <;> omega
    | false =>
      simp only [signed, Bool.false_eq_true, if_false] at low high ⊢
      rw [Int.emod_eq_of_lt low (by omega)]
  · rw [wrapping]

/-- The carrier's low bits have the residue of the whole. -/
theorem residue_wrapCarrier (sized : ty.Sized) (value : Int) :
    ty.residue (wrapCarrier value) = ty.residue value := by
  have divides : (2 ^ ty.bits : Int) ∣ 2 ^ 128 := pow_dvd_pow 2 sized.2
  have split_ : wrapCarrier value = value - 2 ^ 128 * value.bdiv (2 ^ 128) := by
    rw [wrapCarrier_eq, Int.bmod_eq_self_sub_mul_bdiv]
    push_cast
    rfl
  obtain ⟨rest, whole⟩ := divides
  rw [residue, residue, split_, whole, mul_assoc]
  split
  · have cast : (2 ^ ty.bits : Int) = ((2 ^ ty.bits : Nat) : Int) := by push_cast; rfl
    rw [cast, Int.sub_mul_bmod_self_left]
  · rw [Int.sub_mul_emod_self_left]

/-- A result that a wrapping type is given the low bits of. -/
theorem wrapped (sized : ty.Sized) (wrapping : ty.mode = .wrapping) (value : Int) :
    ty.answer (some (wrapCarrier value)) = ty.settle value ↔ ty.Shown value := by
  have same : ty.settle (wrapCarrier value) = ty.settle value := by
    rw [settle_wrapping sized wrapping, settle_wrapping sized wrapping, residue_wrapCarrier sized]
  have carried : Carried (wrapCarrier value) := carried_toInt _
  rw [← same, answer_carried sized carried, Shown, Shown, same]

theorem minCarrier_le_exactRange (sized : ty.Sized) : minCarrier ≤ ty.exactRange.1 := by
  unfold exactRange minCarrier
  cases ty.signed with
  | false => exact (by norm_num : (-2 ^ 127 : Int) ≤ 0)
  | true =>
    have half : (2 : Int) ^ (ty.bits - 1) ≤ 2 ^ 127 :=
      pow_le_pow_right₀ (by norm_num) (by have := sized.2; omega)
    exact neg_le_neg half

theorem settle_below (saturating : ty.mode = .saturating) (below : value ≤ ty.exactRange.1) :
    ty.settle value = .ok ty.exactRange.1 := by
  rw [settle]
  split
  · rename_i within
    rw [le_antisymm below within.1]
  · rename_i outside
    rw [saturating]
    dsimp only
    rw [if_pos]
    apply lt_of_le_of_ne below
    rintro rfl
    exact outside ⟨le_rfl, (exactRange_zero ty).1.trans (exactRange_zero ty).2⟩

theorem settle_above (saturating : ty.mode = .saturating) (low : ty.exactRange.1 ≤ value)
    (above : ty.exactRange.2 ≤ value) : ty.settle value = .ok ty.exactRange.2 := by
  rw [settle]
  split
  · rename_i within
    rw [le_antisymm within.2 above]
  · rw [saturating]
    dsimp only
    rw [if_neg (not_lt.mpr low)]

/-- A result past the carrier that a saturating type is given a bound for. -/
theorem saturated (sized : ty.Sized) (saturating : ty.mode = .saturating) (lost : ¬ Carried value) :
    ty.answer (some (if value < 0 then minCarrier else maxCarrier)) = ty.settle value ↔
      ty.Shown value := by
  have floor := minCarrier_le_exactRange sized
  by_cases negative : value < 0
  · have below : value < minCarrier := by
      by_contra inside
      exact lost ⟨not_lt.mp inside, le_trans negative.le (by decide)⟩
    have same : ty.settle minCarrier = ty.settle value := by
      rw [settle_below saturating floor, settle_below saturating (below.le.trans floor)]
    rw [if_pos negative, ← same, answer_carried sized ⟨le_rfl, by decide⟩, Shown, Shown, same]
  · have above : maxCarrier < value := by
      by_contra inside
      exact lost ⟨le_trans (by decide) (not_lt.mp negative), not_lt.mp inside⟩
    rw [if_neg negative]
    have bottom := (exactRange_zero ty).1
    by_cases low : ty.exactRange.2 ≤ maxCarrier
    · have same : ty.settle maxCarrier = ty.settle value := by
        rw [settle_above saturating (bottom.trans (by decide)) low,
          settle_above saturating (bottom.trans (not_lt.mp negative)) (low.trans above.le)]
      rw [← same, answer_carried sized ⟨by decide, le_rfl⟩, Shown, Shown, same]
    · -- only the unsigned type of 128 bits reaches past the carrier
      have wide : ty.bits = 128 := by
        by_contra narrow
        have top : ty.exactRange.1 ≤ ty.exactRange.2 :=
          bottom.trans ((by decide : 0 ≤ maxCarrier).trans
          (not_le.mp low).le)
        exact low (carried_narrow (lt_of_le_of_ne sized.2 narrow) top le_rfl).2
      have range := exactRange_wide wide
      have held := range_wide wide
      have unsigned : ty.signed = false := by
        by_contra signed
        rw [Bool.not_eq_false] at signed
        rw [signed, if_pos rfl] at range
        exact low (by rw [range])
      rw [unsigned, if_neg nofun] at range held
      have holds : ty.holds maxCarrier = true := by
        rw [holds_iff, held]
        exact ⟨by decide, le_rfl⟩
      have past : ∀ answer, ty.settle value = .ok answer → maxCarrier < answer := by
        intro answer same
        rw [settle, saturating, range] at same
        by_cases within : (0 : Int) ≤ value ∧ value ≤ 2 ^ 128 - 1
        · rw [if_pos within] at same
          cases same
          exact above
        · rw [if_neg within, if_neg negative] at same
          cases same
          decide
      rw [answer_some (reduce_of_holds holds)]
      apply iff_of_false
      · intro same
        exact absurd (past _ same.symm) (lt_irrefl _)
      · intro shown
        cases settled : ty.settle value with
        | ok answer => exact absurd (past _ settled) (not_lt.mpr (shown _ settled))
        | error trap =>
          rw [settle, saturating] at settled
          split at settled <;> cases settled

end IntTy

/-! ## The operators -/

section Operators

variable {op : BinOp} {ty : IntTy} {left right : Int}

/-- The operators that give a result past the carrier up on a type that is not checked. -/
def givesUp (op : BinOp) : Bool := op = .add || op = .sub || op = .div

/-- The word of 128 bits is enough: the exact answer fits it, a sum, a difference or a quotient on a
wrapping or saturating type does not leave it, and the remainder is not the one its own division
overflows at. -/
structure Suffices (op : BinOp) (ty : IntTy) (left right : Int) : Prop where
  shown : ∀ answer, exactAnswer op ty left right = .ok answer → answer ≤ maxCarrier
  carried : givesUp op → ty.mode ≠ .checked → Carried (exactResult op left right)
  divides : ¬ (op = .rem ∧ left = minCarrier ∧ right = -1)

theorem IntTy.Shown.iff {value : Int} (answers : exactAnswer op ty left right = ty.settle value) :
    (∀ answer, exactAnswer op ty left right = .ok answer → answer ≤ maxCarrier) ↔
      ty.Shown value := by
  rw [answers]
  exact Iff.rfl

/-- An operator that no unchecked type gives a result up for. -/
theorem suffices_iff {value : Int} (answers : exactAnswer op ty left right = ty.settle value)
    (keeps : givesUp op = false) (divides : op ≠ .rem) :
    Suffices op ty left right ↔ ty.Shown value := by
  rw [← IntTy.Shown.iff answers]
  constructor
  · exact Suffices.shown
  · intro shown
    refine ⟨shown, ?_, fun same => divides same.1⟩
    rw [keeps]
    nofun

/-- An operator that traps as it is to trap. -/
theorem suffices_of_error {trap : ArithTrap} (answers : exactAnswer op ty left right = .error trap)
    (carried : givesUp op → Carried (exactResult op left right))
    (divides : right ≠ -1 ∨ op ≠ .rem) :
    Suffices op ty left right := by
  refine ⟨?_, fun gives _ => carried gives, ?_⟩
  · intro answer same
    rw [answers] at same
    cases same
  · rintro ⟨rem, -, same⟩
    rcases divides with differs | differs
    · exact differs same
    · exact differs rem

/-- A result that is lost past the carrier. -/
theorem answer_fit (sized : ty.Sized) (value : Int) : ty.answer (fit value) = ty.settle value ↔
      ty.Shown value ∧ (ty.mode ≠ .checked → Carried value) := by
  by_cases carried : Carried value
  · rw [fit_of_carried carried, IntTy.answer_carried sized carried]
    exact ⟨fun shown => ⟨shown, fun _ => carried⟩, And.left⟩
  · rw [fit_eq_none carried]
    change .error .overflow = ty.settle value ↔ _
    by_cases checked : ty.mode = .checked
    · rw [IntTy.lost_checked sized carried checked]
      exact ⟨fun shown => ⟨shown, fun unchecked => absurd checked unchecked⟩, And.left⟩
    · apply iff_of_false (IntTy.settle_ne_overflow checked)
      exact fun both => carried (both.2 checked)

/-- A result past the carrier that the type's mode makes up for. -/
theorem answer_fit_or (sized : ty.Sized) {value : Int} {rest : Option Int}
    (checked : ty.mode = .checked → rest = none)
    (wrapping : ty.mode = .wrapping → rest = some (wrapCarrier value))
    (saturating : ty.mode = .saturating → ¬ Carried value →
      rest = some (if value < 0 then minCarrier else maxCarrier)) :
    ty.answer ((fit value).or rest) = ty.settle value ↔ ty.Shown value := by
  by_cases carried : Carried value
  · rw [fit_of_carried carried]
    exact IntTy.answer_carried sized carried
  · rw [fit_eq_none carried, Option.none_or]
    cases mode : ty.mode with
    | checked =>
      rw [checked mode]
      exact IntTy.lost_checked sized carried mode
    | wrapping =>
      rw [wrapping mode]
      exact IntTy.wrapped sized mode value
    | saturating =>
      rw [saturating mode carried]
      exact IntTy.saturated sized mode carried

/-- A remainder is carried with its dividend. -/
theorem carried_tmod (carried : Carried left) : Carried (left.tmod right) := by
  obtain ⟨low, high⟩ := carried
  unfold minCarrier at low
  unfold maxCarrier at high
  have bound := Int.natAbs_tmod left right
  have le : left.natAbs % right.natAbs ≤ left.natAbs := Nat.mod_le _ _
  by_cases negative : left < 0
  · have sign : 0 ≤ (-left).tmod right := Int.tmod_nonneg right (by omega)
    rw [Int.neg_tmod] at sign
    unfold Carried minCarrier maxCarrier
    omega
  · have sign : 0 ≤ left.tmod right := Int.tmod_nonneg right (not_lt.mp negative)
    unfold Carried minCarrier maxCarrier
    omega

/-- A bound that a product past the carrier is given by the signs of its factors. -/
theorem mul_bound (lost : ¬ Carried (left * right)) :
    (if left < 0 ↔ right < 0 then maxCarrier else minCarrier) =
      if left * right < 0 then minCarrier else maxCarrier := by
  have nonzero : left * right ≠ 0 := by
    intro zero
    rw [zero] at lost
    exact lost (by decide)
  rw [mul_ne_zero_iff] at nonzero
  rcases lt_or_gt_of_ne nonzero.1 with left_neg | left_pos <;>
    rcases lt_or_gt_of_ne nonzero.2 with right_neg | right_pos
  · rw [if_pos (iff_of_true left_neg right_neg),
      if_neg (not_lt.mpr (mul_nonneg_of_nonpos_of_nonpos left_neg.le right_neg.le))]
  · rw [if_neg (fun same => absurd (same.mp left_neg) (not_lt.mpr right_pos.le)),
      if_pos (mul_neg_of_neg_of_pos left_neg right_pos)]
  · rw [if_neg (fun same => absurd (same.mpr right_neg) (not_lt.mpr left_pos.le)),
      if_pos (mul_neg_of_pos_of_neg left_pos right_neg)]
  · rw [if_pos (iff_of_false (not_lt.mpr left_pos.le) (not_lt.mpr right_pos.le)),
      if_neg (not_lt.mpr (mul_nonneg left_pos.le right_pos.le))]

theorem intBinary_gives (sized : ty.Sized) {value : Int}
    (code : intBinary op ty left right = ty.answer (fit value))
    (answers : exactAnswer op ty left right = ty.settle value)
    (exact_ : exactResult op left right = value) (gives : givesUp op = true) (divides : op ≠ .rem) :
    intBinary op ty left right = exactAnswer op ty left right ↔ Suffices op ty left right := by
  rw [code, answers, answer_fit sized]
  constructor
  · rintro ⟨shown, carried⟩
    refine ⟨(IntTy.Shown.iff answers).mpr shown, fun _ unchecked => ?_, fun same => divides same.1⟩
    rw [exact_]
    exact carried unchecked
  · intro suffices_
    refine ⟨(IntTy.Shown.iff answers).mp suffices_.shown, fun unchecked => ?_⟩
    rw [← exact_]
    exact suffices_.carried gives unchecked

/-- A bitwise operator, which never leaves the carrier. -/
theorem intBinary_bitwise (sized : ty.Sized) {f : Bool → Bool → Bool} {word : BitVec 128}
    (code : intBinary op ty left right = ty.answer (some word.toInt))
    (answers : exactAnswer op ty left right = ty.settle (Int.bitwise f left right))
    (keeps : givesUp op = false) (divides : op ≠ .rem)
    (bits : ∀ i < 128, word.getLsbD i = f (left.testBit i) (right.testBit i))
    (carried : Carried left) (carried' : Carried right) :
    intBinary op ty left right = exactAnswer op ty left right ↔ Suffices op ty left right := by
  rw [suffices_iff answers keeps divides, code, answers, toInt_bitwise bits carried carried']
  exact IntTy.answer_carried sized (carried_bitwise f carried carried')

theorem intBinary_rem (sized : ty.Sized) (carried : Carried left) :
    intBinary .rem ty left right = exactAnswer .rem ty left right ↔
      Suffices .rem ty left right := by
  by_cases zero : right = 0
  · subst zero
    exact iff_of_true rfl (suffices_of_error rfl nofun (.inl (by decide)))
  have answers : exactAnswer .rem ty left right = ty.settle (left.tmod right) := by
    rw [exactAnswer, if_neg (fun both => zero both.2)]
    rfl
  have code : intBinary .rem ty left right =
      ty.answer (if left = minCarrier ∧ right = -1 then none else fit (left.tmod right)) := by
    rw [intBinary, if_neg (fun both => zero both.2)]
    rfl
  by_cases overflows : left = minCarrier ∧ right = -1
  · apply iff_of_false
    · rw [code, answers, if_pos overflows]
      obtain ⟨rfl, rfl⟩ := overflows
      have zero : minCarrier.tmod (-1) = 0 := by decide
      rw [zero, IntTy.settle_in (IntTy.exactRange_zero ty).1 (IntTy.exactRange_zero ty).2]
      nofun
    · exact fun suffices_ => suffices_.divides ⟨rfl, overflows⟩
  · rw [code, answers, if_neg overflows, fit_of_carried (carried_tmod carried),
      IntTy.answer_carried sized (carried_tmod carried), ← IntTy.Shown.iff answers]
    constructor
    · exact fun shown => ⟨shown, nofun, fun same => overflows same.2⟩
    · exact Suffices.shown

theorem intBinary_div (sized : ty.Sized) :
    intBinary .div ty left right = exactAnswer .div ty left right ↔
      Suffices .div ty left right := by
  by_cases zero : right = 0
  · subst zero
    apply iff_of_true rfl
    refine suffices_of_error rfl (fun _ => ?_) (.inr nofun)
    rw [exactResult, Int.tdiv_zero]
    decide
  · refine intBinary_gives sized ?_ ?_ rfl rfl nofun
    · rw [intBinary, if_neg (fun both => zero both.2)]
      rfl
    · rw [exactAnswer, if_neg (fun both => zero both.2)]
      rfl

theorem intBinary_mul (sized : ty.Sized) :
    intBinary .mul ty left right = exactAnswer .mul ty left right ↔
      Suffices .mul ty left right := by
  have answers : exactAnswer .mul ty left right = ty.settle (left * right) := rfl
  rw [suffices_iff answers rfl nofun, answers]
  apply answer_fit_or sized
  · intro checked
    rw [checked]
  · intro wrapping
    rw [wrapping]
  · intro saturating lost
    rw [saturating, ← mul_bound lost]

/-- The count of a shift on a wrapping type. -/
theorem shiftCount_wrapping (right : Int) (sized : ty.Sized) (wrapping : ty.mode = .wrapping) :
    shiftCount ty right = some (right % ty.bits).toNat ∧ 0 ≤ right % ty.bits := by
  have positive : (0 : Int) < ty.bits := by exact_mod_cast sized.1
  have low := Int.emod_nonneg right positive.ne'
  have high := Int.emod_lt_of_pos right positive
  have small := sized.2
  refine ⟨?_, low⟩
  rw [shiftCount, if_pos wrapping]
  exact if_pos ⟨low, by omega⟩

/-- A negative count traps where it is not read modulo the width. -/
theorem exactAnswer_negative (shift : isShift op = true) (divides : ¬ (op = .div ∨ op = .rem))
    (unwrapped : ty.mode ≠ .wrapping) (negative : right < 0) :
    exactAnswer op ty left right = .error .overflow := by
  have plain : exactRight op ty right = right := if_neg fun both => unwrapped both.2
  rw [exactAnswer, if_neg (fun both => divides both.1), plain, if_pos ⟨shift, negative⟩]

theorem exactAnswer_count (divides : ¬ (op = .div ∨ op = .rem))
    (count : 0 ≤ exactRight op ty right) :
    exactAnswer op ty left right = ty.settle (exactResult op left (exactRight op ty right)) := by
  rw [exactAnswer, if_neg (fun both => divides both.1),
    if_neg (fun both => absurd both.2 (not_lt.mpr count))]

theorem intBinary_shl (sized : ty.Sized) :
    intBinary .shl ty left right = exactAnswer .shl ty left right ↔
      Suffices .shl ty left right := by
  have code : intBinary .shl ty left right = ty.answer (computed .shl ty left right) := rfl
  rw [computed] at code
  by_cases wrapping : ty.mode = .wrapping
  · obtain ⟨count, positive⟩ := shiftCount_wrapping right sized wrapping
    have masked : exactRight .shl ty right = right % ty.bits := if_pos ⟨rfl, wrapping⟩
    have answers : exactAnswer .shl ty left right = ty.settle _ :=
      exactAnswer_count nofun (by rw [masked]; exact positive)
    rw [masked] at answers
    rw [if_pos wrapping, count, Option.map_some, toInt_shiftLeft] at code
    rw [suffices_iff answers rfl nofun, code, answers]
    exact IntTy.wrapped sized wrapping _
  · have plain : exactRight .shl ty right = right := if_neg fun both => wrapping both.2
    rw [if_neg wrapping] at code
    by_cases negative : right < 0
    · have answers : exactAnswer .shl ty left right = .error .overflow :=
        exactAnswer_negative rfl nofun wrapping negative
      apply iff_of_true _ (suffices_of_error answers nofun (.inr nofun))
      rw [code, answers, shiftValueLeft, if_pos negative, Option.none_or,
        if_neg (fun both => absurd both.2 (not_le.mpr negative))]
      rfl
    · have answers : exactAnswer .shl ty left right = ty.settle _ :=
        exactAnswer_count nofun (by rw [plain]; exact not_lt.mp negative)
      rw [plain] at answers
      rw [suffices_iff answers rfl nofun, code, answers, shiftValueLeft_eq (not_lt.mp negative)]
      apply answer_fit_or sized
      · intro checked
        rw [if_neg]
        rw [checked]
        exact fun both => by cases both.1
      · exact fun other => absurd other wrapping
      · intro saturating lost
        have power : (0 : Int) < 2 ^ right.toNat := by positivity
        have sign : left < 0 ↔ left * 2 ^ right.toNat < 0 := by
          refine ⟨fun below => mul_neg_of_neg_of_pos below power, fun below => ?_⟩
          by_contra above
          exact absurd below (not_lt.mpr (mul_nonneg (not_lt.mp above) power.le))
        rw [if_pos ⟨saturating, not_lt.mp negative⟩]
        simp only [sign]

theorem intBinary_shr (sized : ty.Sized) (carried : Carried left) :
    intBinary .shr ty left right = exactAnswer .shr ty left right ↔
      Suffices .shr ty left right := by
  have floor (count : Nat) : Carried (left / 2 ^ count) := by
    rw [← shiftRight_eq]
    exact carried_shiftRight carried count
  have code : intBinary .shr ty left right = ty.answer (computed .shr ty left right) := rfl
  rw [computed] at code
  by_cases wrapping : ty.mode = .wrapping
  · obtain ⟨count, positive⟩ := shiftCount_wrapping right sized wrapping
    have masked : exactRight .shr ty right = right % ty.bits := if_pos ⟨rfl, wrapping⟩
    have answers : exactAnswer .shr ty left right = ty.settle _ :=
      exactAnswer_count nofun (by rw [masked]; exact positive)
    rw [masked] at answers
    rw [if_pos wrapping, count, Option.map_some, shiftRight_eq] at code
    rw [suffices_iff answers rfl nofun, code, answers]
    exact IntTy.answer_carried sized (floor _)
  · have plain : exactRight .shr ty right = right := if_neg fun both => wrapping both.2
    rw [if_neg wrapping] at code
    by_cases negative : right < 0
    · have answers : exactAnswer .shr ty left right = .error .overflow :=
        exactAnswer_negative rfl nofun wrapping negative
      apply iff_of_true _ (suffices_of_error answers nofun (.inr nofun))
      rw [code, answers, shiftValueRight, if_pos negative]
      rfl
    · have answers : exactAnswer .shr ty left right = ty.settle _ :=
        exactAnswer_count nofun (by rw [plain]; exact not_lt.mp negative)
      rw [plain] at answers
      rw [suffices_iff answers rfl nofun, code, answers,
        shiftValueRight_eq carried (not_lt.mp negative)]
      exact IntTy.answer_carried sized (floor _)

theorem intBinary_iff (term : isIntTermOp op = true) (sized : ty.Sized) (carried : Carried left)
    (carried' : Carried right) :
    intBinary op ty left right = exactAnswer op ty left right ↔ Suffices op ty left right := by
  cases op with
  | add | sub => exact intBinary_gives sized rfl rfl rfl rfl nofun
  | mul => exact intBinary_mul sized
  | div => exact intBinary_div sized
  | rem => exact intBinary_rem sized carried
  | bitAnd =>
    refine intBinary_bitwise (f := and) sized rfl ?_ rfl nofun ?_ carried carried'
    · rw [Int.bitwise_and]
      rfl
    · intro i lt
      rw [BitVec.getLsbD_and, getLsbD_ofInt _ lt, getLsbD_ofInt _ lt]
  | bitOr =>
    refine intBinary_bitwise (f := or) sized rfl ?_ rfl nofun ?_ carried carried'
    · rw [Int.bitwise_or]
      rfl
    · intro i lt
      rw [BitVec.getLsbD_or, getLsbD_ofInt _ lt, getLsbD_ofInt _ lt]
  | bitXor =>
    refine intBinary_bitwise (f := xor) sized rfl ?_ rfl nofun ?_ carried carried'
    · rw [Int.bitwise_xor]
      rfl
    · intro i lt
      rw [BitVec.getLsbD_xor, getLsbD_ofInt _ lt, getLsbD_ofInt _ lt]
  | shl => exact intBinary_shl sized
  | shr => exact intBinary_shr sized carried
  | eq | ne | lt | gt | le | ge | cmp | and | or => cases term

/-! ## The complement -/

/-- `!` flips every bit at the type's width. -/
def exactComplement (value : Int) (ty : IntTy) : Int :=
  if ty.literal ∨ ty.signed then -value - 1 else 2 ^ ty.bits - 1 - value

theorem intComplement_iff (sized : ty.Sized) (value : Int) :
    intComplement value ty = exactComplement value ty ↔
      ¬ (ty.bits = 128 ∧ ty.signed = false ∧ ty.literal = false) := by
  rw [intComplement, exactComplement]
  by_cases flips : ty.literal = true ∨ ty.signed = true
  · rw [if_pos flips, if_pos flips]
    apply iff_of_true rfl
    rintro ⟨-, unsigned, typed⟩
    rcases flips with literal | signed
    · rw [typed] at literal
      cases literal
    · rw [unsigned] at signed
      cases signed
  · rw [if_neg flips, if_neg flips]
    rw [not_or, Bool.not_eq_true, Bool.not_eq_true] at flips
    by_cases wide : ty.bits = 128
    · rw [IntTy.range_wide wide, wide]
      apply iff_of_false
      · unfold maxCarrier
        dsimp only
        omega
      · exact fun apart => apart ⟨rfl, flips.2, flips.1⟩
    · rw [IntTy.range_eq (lt_of_le_of_ne sized.2 wide), flips.2]
      exact iff_of_true rfl fun same => wide same.1

/-- The evaluator's operators on integers are exact where its word of 128 bits is enough, and
nowhere else. -/
theorem arithmetic_exact (sized : ty.Sized) :
    (∀ op left right, isIntTermOp op = true → Carried left → Carried right →
      (intBinary op ty left right = exactAnswer op ty left right ↔ Suffices op ty left right)) ∧
    ∀ value, intComplement value ty = exactComplement value ty ↔
      ¬ (ty.bits = 128 ∧ ty.signed = false ∧ ty.literal = false) :=
  ⟨fun _ _ _ term carried carried' => intBinary_iff term sized carried carried',
    intComplement_iff sized⟩

/-- `200 + 100` at `u8` is the overflow it is. -/
theorem arithmetic_exact_u8 :
    Suffices .add ⟨8, false, .checked, false⟩ 200 100 ∧
      intComplement 1 ⟨8, false, .checked, false⟩ =
        exactComplement 1 ⟨8, false, .checked, false⟩ := by
  have exact_ :=
    arithmetic_exact (show IntTy.Sized ⟨8, false, .checked, false⟩ from ⟨by decide, by decide⟩)
  exact ⟨(exact_.1 .add 200 100 rfl (by decide) (by decide)).mp (by decide),
    (exact_.2 1).mpr (by decide)⟩

/-- The sum of the greatest `wrapping[i128]` and one traps, where it is to wrap. -/
theorem not_exact_wrapping :
    ¬ ∀ op ty left right, IntTy.Sized ty → isIntTermOp op = true → Carried left → Carried right →
      intBinary op ty left right = exactAnswer op ty left right := by
  intro exact_
  have same := exact_ .add ⟨128, true, .wrapping, false⟩ maxCarrier 1 ⟨by decide, by decide⟩ rfl
    (by decide) (by decide)
  revert same
  decide

end Operators

end WolfInterp.Eval
