import WolfInterp.Fmt.Spec
import WolfInterp.Lex.Spellings
import WolfInterp.Syntax.Items

/-!
# The readers of an integer literal

The token keeps the spelling, and whoever needs the number reads it again: the evaluator for an
expression or a pattern, the parser for a numbered member, the attributes for their arguments. All
but the member refuse what they cannot read.
-/

namespace WolfInterp.Eval

open WolfInterp.Lex
open Syntax hiding Span

/-! ## The readers -/

/-- `from_str_radix`, on digits without a sign, of a type whose values end before `limit`. -/
def fromStrRadix (limit radix : Nat) (digits : Text) : Option Nat :=
  let value := Fmt.digitsValue radix digits
  if digits ≠ [] ∧ (∀ c ∈ digits, (toDigit radix c).isSome) ∧ value < limit then some value
  else none

/-- The base by its prefix, which is read in lower case, and the digits after it. -/
def stripBase : Text → Nat × Text
  | '0' :: 'x' :: rest => (16, rest)
  | '0' :: 'o' :: rest => (8, rest)
  | '0' :: 'b' :: rest => (2, rest)
  | digits => (10, digits)

/-- A literal read as a type whose values end before `limit`. -/
def readLiteral (limit : Nat) (text : Text) : Option Nat :=
  let cleaned := text.filter (· ≠ '_')
  fromStrRadix limit (stripBase cleaned).1 (stripBase cleaned).2

/-- The evaluator's reader, for expressions and for the literals of patterns. -/
def parseInt : Text → Option Nat := readLiteral (2 ^ 127)

/-- The reader of an alignment. -/
def intLiteral : Text → Option Nat := readLiteral (2 ^ 64)

/-- Where an integer literal may stand. -/
inductive Reader where
  | expression
  | pattern
  | member
  /-- `#[repr(align(N))]` -/
  | alignment
  /-- `#[index(N)]` -/
  | origin
  deriving DecidableEq

/-- The number a literal stands for there; `none` where the program is refused. -/
def Reader.read (text : Text) : Reader → Option Nat
  | .expression | .pattern => parseInt text
  | .member => some (memberIndex text)
  | .alignment => intLiteral text
  | .origin =>
    Attr.origin
      (.attr ⟨["index".toList]⟩ (.some (.attrArgs (.cons (.argLiteral (.int text)) .nil))))

/-! ## What a spelling denotes -/

/-- The base a spelling is in, whatever the case of its marker. -/
def radixOf : Text → Nat
  | '0' :: marker :: _ => (baseRadix marker).getD 10
  | _ => 10

/-- The digits of a spelling. -/
def digitsOf (text : Text) : Text :=
  (if radixOf text = 10 then text else text.drop 2).filter (· ≠ '_')

/-- The number that the digits of a spelling denote in its base. -/
def denotes (text : Text) : Nat := Fmt.digitsValue (radixOf text) (digitsOf text)

/-- No reader takes the literal for another number. -/
def Agrees (text : Text) : Prop := ∀ reader n, Reader.read text reader = some n → n = denotes text

theorem fromStrRadix_eq {limit radix n : Nat} {digits : Text}
    (reads : fromStrRadix limit radix digits = some n) : n = Fmt.digitsValue radix digits := by
  rw [fromStrRadix] at reads
  split at reads
  · exact (Option.some.inj reads).symm
  · cases reads

/-! ## Decimal spellings -/

section Decimal

variable {text : Text}

theorem baseRadix_digit {c : Char} (isRun : isRunChar c = true) : baseRadix c = none := by
  cases based : baseRadix c with
  | none => rfl
  | some radix => exact absurd ((marker_apart based).1.symm.trans isRun) nofun

theorem radixOf_decimal (lit : DecLit text) : radixOf text = 10 := by
  obtain ⟨d, rest, rfl, -, inside⟩ := lit
  rw [radixOf.eq_def]
  split
  · next marker rest same =>
      cases same
      rw [baseRadix_digit (inside marker List.mem_cons_self)]
      rfl
  · rfl

/-- Without its underscores a decimal literal is digits. -/
theorem filter_decimal (lit : DecLit text) :
    text.filter (· ≠ '_') ≠ [] ∧ ∀ c ∈ text.filter (· ≠ '_'), isAsciiDigit c = true := by
  constructor
  · obtain ⟨d, rest, rfl, digit, -⟩ := lit
    have other : d ≠ '_' := by
      rintro rfl
      exact absurd digit (by decide)
    rw [List.filter_cons_of_pos (by simpa using other)]
    exact List.cons_ne_nil _ _
  · intro c among
    obtain ⟨among, other⟩ := List.mem_filter.mp among
    have isRun := lit.run c among
    simpa [isRunChar, show c ≠ '_' by simpa using other] using isRun

theorem stripBase_digits {digits : Text} (all : ∀ c ∈ digits, isAsciiDigit c = true) :
    stripBase digits = (10, digits) := by
  rw [stripBase.eq_def]
  split
  · exact absurd (all 'x' (by simp)) (by decide)
  · exact absurd (all 'o' (by simp)) (by decide)
  · exact absurd (all 'b' (by simp)) (by decide)
  · rfl

theorem readLiteral_decimal {limit n : Nat} (lit : DecLit text)
    (reads : readLiteral limit text = some n) : n = denotes text := by
  rw [readLiteral] at reads
  rw [stripBase_digits (filter_decimal lit).2] at reads
  rw [denotes, digitsOf, radixOf_decimal lit, if_pos rfl]
  exact fromStrRadix_eq reads

theorem isAsciiDigit_iff {c : Char} : isAsciiDigit c = true ↔ 48 ≤ c.toNat ∧ c.toNat ≤ 57 := by
  simp only [isAsciiDigit, decide_eq_true_eq, Char.le_def, UInt32.le_iff_toNat_le]
  rfl

theorem toDigit_ten {c : Char} (digit : isAsciiDigit c = true) :
    toDigit 10 c = some (c.toNat - '0'.toNat) := by
  have bounds := isAsciiDigit_iff.mp digit
  have small : c.toNat - '0'.toNat < 10 := by
    have zero : '0'.toNat = 48 := rfl
    omega
  rw [toDigit, if_pos (by simpa [isAsciiDigit] using digit)]
  simpa using small

/-- The decimal digits are the characters that count as such. -/
theorem isSome_toDigit_ten {c : Char} : (toDigit 10 c).isSome ↔ isAsciiDigit c = true := by
  constructor
  · intro isSome
    by_contra other
    have noDigit : ¬ ('0' ≤ c ∧ c ≤ '9') := by simpa [isAsciiDigit] using other
    rw [toDigit, if_neg noDigit] at isSome
    -- A letter stands for ten at least.
    have letter (value : Nat) : ¬ (Option.filter (· < 10) (some (value + 10))).isSome := by simp
    split at isSome
    · exact letter _ isSome
    · split at isSome
      · exact letter _ isSome
      · cases isSome
  · intro digit
    rw [toDigit_ten digit]
    rfl

/-- A numbered member reads its digits in base ten, and anything else as zero. -/
theorem memberIndex_eq (text : Text) :
    memberIndex text = (fromStrRadix (2 ^ 64) 10 (text.filter (· ≠ '_'))).getD 0 := by
  rw [memberIndex, fromStrRadix]
  generalize text.filter (· ≠ '_') = digits
  by_cases all : ∀ c ∈ digits, isAsciiDigit c = true
  · have fold (sofar : Nat) :
        digits.foldl (fun value c => 10 * value + (c.toNat - '0'.toNat)) sofar =
        digits.foldl (fun sofar c => 10 * sofar + (toDigit 10 c).getD 0) sofar := by
      induction digits generalizing sofar with
      | nil => rfl
      | cons c digits ih =>
        rw [List.foldl_cons, List.foldl_cons, toDigit_ten (all c List.mem_cons_self),
          Option.getD_some]
        exact ih (fun c among => all c (List.mem_cons_of_mem _ among)) _
    have tens : ∀ c ∈ digits, (toDigit 10 c).isSome :=
      fun c among => isSome_toDigit_ten.mpr (all c among)
    rw [fold, Fmt.digitsValue]
    by_cases fits : digits ≠ [] ∧
        digits.foldl (fun sofar c => 10 * sofar + (toDigit 10 c).getD 0) 0 < 2 ^ 64
    · rw [if_pos ⟨fits.1, List.all_eq_true.mpr all, fits.2⟩, if_pos ⟨fits.1, tens, fits.2⟩]
      rfl
    · rw [if_neg fun both => fits ⟨both.1, both.2.2⟩, if_neg fun both => fits ⟨both.1, both.2.2⟩]
      rfl
  · rw [if_neg fun both => all (List.all_eq_true.mp both.2.1), if_neg fun both => all fun c among =>
      isSome_toDigit_ten.mp (both.2.1 c among)]
    rfl

/-- A decimal member is exact below the limit of its type, and zero from there on. -/
theorem memberIndex_decimal (lit : DecLit text) :
    memberIndex text = if denotes text < 2 ^ 64 then denotes text else 0 := by
  have digits := filter_decimal lit
  have tens : ∀ c ∈ text.filter (· ≠ '_'), (toDigit 10 c).isSome :=
    fun c among => isSome_toDigit_ten.mpr (digits.2 c among)
  have value : denotes text = Fmt.digitsValue 10 (text.filter (· ≠ '_')) := by
    rw [denotes, digitsOf, radixOf_decimal lit, if_pos rfl]
  rw [memberIndex_eq, fromStrRadix, value]
  by_cases fits : Fmt.digitsValue 10 (text.filter (· ≠ '_')) < 2 ^ 64
  · rw [if_pos ⟨digits.1, tens, fits⟩, if_pos fits]
    rfl
  · rw [if_neg fun both => fits both.2.2, if_neg fits]
    rfl

end Decimal

/-! ## Based spellings -/

section Based

variable {marker : Char} {radix : Nat} {digits : Text}

section

variable (based : baseRadix marker = some radix)
include based

theorem radix_ne_ten : radix ≠ 10 := by
  revert based
  fun_cases baseRadix marker <;> rintro ⟨⟩ <;> decide

theorem filter_based :
    ('0' :: marker :: digits).filter (· ≠ '_') = '0' :: marker :: digits.filter (· ≠ '_') := by
  have other : marker ≠ '_' := by
    rintro rfl
    cases based
  rw [List.filter_cons_of_pos (by decide), List.filter_cons_of_pos (by simpa using other)]

theorem denotes_based :
    denotes ('0' :: marker :: digits) = Fmt.digitsValue radix (digits.filter (· ≠ '_')) := by
  have isRadix : radixOf ('0' :: marker :: digits) = radix := by
    rw [radixOf, based]
    rfl
  rw [denotes, digitsOf, isRadix, if_neg (radix_ne_ten based)]
  rfl

/-- A marker is no decimal digit. -/
theorem fromStrRadix_marker (limit : Nat) (rest : Text) :
    fromStrRadix limit 10 ('0' :: marker :: rest) = none := by
  rw [fromStrRadix, if_neg]
  rintro ⟨-, tens, -⟩
  have digit := isSome_toDigit_ten.mp (tens marker (by simp))
  have noRun := (marker_apart based).1
  rw [isRunChar, digit] at noRun
  cases noRun

end

theorem readLiteral_based {limit n : Nat} (based : baseRadix marker = some radix)
    (reads : readLiteral limit ('0' :: marker :: digits) = some n) :
    n = denotes ('0' :: marker :: digits) := by
  rw [readLiteral] at reads
  rw [filter_based based] at reads
  rw [denotes_based based]
  have capital (same : stripBase ('0' :: marker :: digits.filter (· ≠ '_')) =
      (10, '0' :: marker :: digits.filter (· ≠ '_'))) :
      n = Fmt.digitsValue radix (digits.filter (· ≠ '_')) := by
    rw [same] at reads
    rw [fromStrRadix_marker based] at reads
    cases reads
  have small (same : stripBase ('0' :: marker :: digits.filter (· ≠ '_')) =
      (radix, digits.filter (· ≠ '_'))) : n = Fmt.digitsValue radix (digits.filter (· ≠ '_')) := by
    rw [same] at reads
    exact fromStrRadix_eq reads
  revert based capital small
  fun_cases baseRadix marker with
  | case1 =>
    rintro ⟨⟩ - small
    exact small rfl
  | case2 =>
    rintro ⟨⟩ capital -
    exact capital rfl
  | case3 =>
    rintro ⟨⟩ - small
    exact small rfl
  | case4 =>
    rintro ⟨⟩ capital -
    exact capital rfl
  | case5 =>
    rintro ⟨⟩ - small
    exact small rfl
  | case6 =>
    rintro ⟨⟩ capital -
    exact capital rfl
  | case7 => simp

theorem memberIndex_based (based : baseRadix marker = some radix) :
    memberIndex ('0' :: marker :: digits) = 0 := by
  rw [memberIndex_eq, filter_based based, fromStrRadix_marker based]
  rfl

end Based

/-! ## Every reader against every spelling -/

/-- Only the member ever substitutes another number. -/
theorem reads_denotes {text : Text} (spelled : Spelled text) {reader : Reader}
    (other : reader ≠ .member) {n : Nat} (reads : Reader.read text reader = some n) :
    n = denotes text := by
  have literal {limit : Nat} (reads : readLiteral limit text = some n) : n = denotes text := by
    cases spelled with
    | decimal lit => exact readLiteral_decimal lit reads
    | based based _ _ => exact readLiteral_based based reads
  cases reader with
  | expression | pattern | alignment => exact literal reads
  | member => exact absurd rfl other
  | origin =>
    have reads :
        (if text = "0".toList then some 0 else if text = "1".toList then some 1 else none) =
          some n :=
      reads
    split at reads
    · next zero =>
        cases reads
        rw [zero]
        decide
    · split at reads
      · next one =>
          cases reads
          rw [one]
          decide
      · cases reads

theorem agrees_iff_member {text : Text} (spelled : Spelled text) :
    Agrees text ↔ memberIndex text = denotes text := by
  constructor
  · exact fun agrees => agrees .member _ rfl
  · intro same reader n reads
    by_cases isMember : reader = .member
    · rw [isMember] at reads
      cases reads
      exact same
    · exact reads_denotes spelled isMember reads

/-- A literal of a text without a lexical error is the same number for all its readers exactly if
that number is zero, or its spelling is decimal and the number is below the limit of a member. -/
theorem literal_agrees {u : Unicode} {src : Text} {lexed : Lexed} (lexes : lex u src = some lexed)
    (clean : lexed.errors = []) {text : Text} {span : Lex.Span}
    (among : ⟨.int text, span⟩ ∈ lexed.tokens) :
    Agrees text ↔ denotes text = 0 ∨ radixOf text = 10 ∧ denotes text < 2 ^ 64 := by
  have spelled : Spelled text := lex_spells u src lexes clean _ among text rfl
  rw [agrees_iff_member spelled]
  cases spelled with
  | decimal lit =>
    rw [memberIndex_decimal lit, radixOf_decimal lit]
    split
    · next fits => exact iff_of_true rfl (.inr ⟨rfl, fits⟩)
    · next large =>
        constructor
        · exact fun zero => .inl zero.symm
        · rintro (zero | ⟨-, fits⟩)
          · exact zero.symm
          · exact absurd fits large
  | @based marker radix digits based _ _ =>
    have isRadix : radixOf ('0' :: marker :: digits) = radix := by
      rw [radixOf, based]
      rfl
    rw [memberIndex_based based, isRadix]
    constructor
    · exact fun zero => .inl zero.symm
    · rintro (zero | ⟨ten, -⟩)
      · exact zero.symm
      · exact absurd ten (radix_ne_ten based)

/-- `t.7` -/
theorem literal_agrees_seven :
    Agrees "7".toList ↔
      denotes "7".toList = 0 ∨ radixOf "7".toList = 10 ∧ denotes "7".toList < 2 ^ 64 :=
  @literal_agrees .ascii "t.7".toList
    ⟨[⟨.ident ['t'], ⟨0, 1⟩⟩, ⟨.dot, ⟨1, 2⟩⟩, ⟨.int ['7'], ⟨2, 3⟩⟩, ⟨.term false, ⟨3, 3⟩⟩], [], [],
      0, false⟩
    (by decide) rfl "7".toList ⟨2, 3⟩ (by decide)

/-- `t.0x1` reads the first element. -/
theorem not_agrees_based : ¬ ∀ (u : Unicode) (src : Text) (lexed : Lexed), lex u src = some lexed →
    lexed.errors = [] → ∀ (text : Text) (span : Lex.Span), ⟨.int text, span⟩ ∈ lexed.tokens →
      Agrees text := by
  intro claimed
  have agrees := claimed .ascii "t.0x1".toList
    ⟨[⟨.ident ['t'], ⟨0, 1⟩⟩, ⟨.dot, ⟨1, 2⟩⟩, ⟨.int "0x1".toList, ⟨2, 5⟩⟩, ⟨.term false, ⟨5, 5⟩⟩],
      [], [], 0, false⟩
    (by decide) rfl "0x1".toList ⟨2, 5⟩ (by decide)
  exact absurd (agrees .member 0 (by decide)) (by decide)

end WolfInterp.Eval
