import WolfInterp.Lib.Fallible
import WolfInterp.Lib.Runs
import WolfInterp.Lex.Token

/-!
# The format-spec mini-language

A spec is `[[fill] align] ['+'] ['0'] [width] ['.' precision] [type]`. A `0` in front of the width
is always the flag, so a width that no flag stands before does not begin with one. The parser reads
exactly the specs so written.
-/

namespace WolfInterp.Fmt

open WolfInterp.Lex (Text bytes toDigit isAsciiDigit)
open Fallible Runs

/-- Alignment inside a padded field. -/
inductive Align where
  | left | center | right
  deriving DecidableEq

/-- An integer base or a float notation. -/
inductive Kind where
  | bin | oct | hex | hexUpper | exp | expUpper | fixed
  deriving DecidableEq

/-- The spec character that selects this kind. -/
def Kind.ch : Kind → Char
  | .bin => 'b'
  | .oct => 'o'
  | .hex => 'x'
  | .hexUpper => 'X'
  | .exp => 'e'
  | .expUpper => 'E'
  | .fixed => 'f'

/-- A parsed, shape-valid format spec. -/
structure FormatSpec where
  fill : Option UInt8
  align : Option Align
  sign : Bool
  zero : Bool
  width : Option UInt16
  precision : Option UInt16
  kind : Option Kind
  deriving DecidableEq

/-- Why a spec is malformed. -/
inductive SpecError where
  | unexpected (at_ : Nat) (ch : Char)
  | zeroWithAlign
  | missingPrecision
  | multiByteFill (fill : Char)
  | alignAsFill (fill : Char)
  | tooWide (what : String)
  deriving DecidableEq

/-! ## The parser

One function for each bracket of the grammar. Each returns what it read and the text after it.
-/

def isAlign (c : Char) : Bool := c = '<' ∨ c = '^' ∨ c = '>'

def toAlign : Char → Align
  | '<' => .left
  | '^' => .center
  | _ => .right

/-- `[[fill] align]`. The two-character form is tried first, so `0>4` has a zero fill. -/
def parseAlign : Text → Except SpecError (Option UInt8 × Option Align × Text)
  | [] => .ok (none, none, [])
  | [only] => if isAlign only then .ok (none, some (toAlign only), []) else .ok (none, none, [only])
  | fill :: align :: rest =>
    if isAlign align then
      if isAlign fill then .error (.alignAsFill fill)
      else if fill.utf8Size ≠ 1 then .error (.multiByteFill fill)
      else .ok (some (UInt8.ofNat fill.toNat), some (toAlign align), rest)
    else if isAlign fill then .ok (none, some (toAlign fill), align :: rest)
    else .ok (none, none, fill :: align :: rest)

/-- `[sign]` -/
def parseSign : Text → Bool × Text
  | '+' :: rest => (true, rest)
  | rest => (false, rest)

/-- `['0']`, the flag. -/
def parseZero (align : Option Align) : Text → Except SpecError (Bool × Text)
  | '0' :: rest => if align.isSome then .error .zeroWithAlign else .ok (true, rest)
  | rest => .ok (false, rest)

/-- The value of a run of digits. -/
def digitsValue (radix : Nat) (digits : Text) : Nat :=
  digits.foldl (fun sofar c => radix * sofar + (toDigit radix c).getD 0) 0

/-- The digits go through a `u32` to a `u16`. -/
def parseBounded (digits : Text) (what : String) : Except SpecError UInt16 :=
  let n := digitsValue 10 digits
  if 2 ^ 32 ≤ n then .error (.tooWide what)
  else if 2 ^ 16 ≤ n then .error (.tooWide what)
  else .ok (UInt16.ofNat n)

/-- `[width]` -/
def parseWidth (text : Text) : Except SpecError (Option UInt16 × Text) :=
  let digits := text.takeWhile isAsciiDigit
  let rest := text.dropWhile isAsciiDigit
  if digits = [] then .ok (none, rest)
  else do
    let width ← parseBounded digits "width"
    .ok (some width, rest)

/-- `['.' precision]` -/
def parsePrecision : Text → Except SpecError (Option UInt16 × Text)
  | '.' :: text =>
    let digits := text.takeWhile isAsciiDigit
    let rest := text.dropWhile isAsciiDigit
    if digits = [] then .error .missingPrecision
    else do
      let precision ← parseBounded digits "precision"
      .ok (some precision, rest)
  | text => .ok (none, text)

def toKind : Char → Option Kind
  | 'b' => some .bin
  | 'o' => some .oct
  | 'x' => some .hex
  | 'X' => some .hexUpper
  | 'e' => some .exp
  | 'E' => some .expUpper
  | 'f' => some .fixed
  | _ => none

/-- `byte_offset(&chars, i)`, where `rest` is `chars[i..]`. -/
def byteOffset (text rest : Text) : Nat := bytes (text.take (text.length - rest.length))

/-- `[type]`, of which `text` is the whole spec. -/
def parseKind (text : Text) : Text → Except SpecError (Option Kind × Text)
  | [] => .ok (none, [])
  | ch :: rest =>
    match toKind ch with
    | some kind => .ok (some kind, rest)
    | none => .error (.unexpected (byteOffset text (ch :: rest)) ch)

/-- Parse a spec's text, without the leading `:`. -/
def parse (text : Text) : Except SpecError FormatSpec := do
  let (fill, align, rest) ← parseAlign text
  let sign := (parseSign rest).1
  let rest := (parseSign rest).2
  let (zero, rest) ← parseZero align rest
  let (width, rest) ← parseWidth rest
  let (precision, rest) ← parsePrecision rest
  let (kind, rest) ← parseKind text rest
  match rest with
  | [] => .ok { fill, align, sign, zero, width, precision, kind }
  | ch :: _ => .error (.unexpected (byteOffset text rest) ch)

/-! ## The grammar -/

def Align.ch : Align → Char
  | .left => '<'
  | .center => '^'
  | .right => '>'

/-- A derivation: the parts of a spec in their written order. An absent width has no digits. -/
structure Written where
  aligned : Option (Option Char × Align)
  sign : Bool
  zero : Bool
  width : Text
  precision : Option Text
  kind : Option Kind
  deriving DecidableEq

def alignText : Option (Option Char × Align) → Text
  | none => []
  | some (none, align) => [align.ch]
  | some (some fill, align) => [fill, align.ch]

def flagText (c : Char) (flag : Bool) : Text := if flag then [c] else []

def precisionText : Option Text → Text
  | none => []
  | some digits => '.' :: digits

def kindText : Option Kind → Text
  | none => []
  | some kind => [kind.ch]

/-- A run of digits whose value is at most 65535. -/
def Bounded (digits : Text) : Prop :=
  (∀ c ∈ digits, isAsciiDigit c) ∧ digitsValue 10 digits ≤ 65535

namespace Written

/-- What the derivation spells. -/
def text (written : Written) : Text :=
  alignText written.aligned ++ (flagText '+' written.sign ++ (flagText '0' written.zero ++
    (written.width ++ (precisionText written.precision ++ kindText written.kind))))

/-- A single-byte fill that is not an alignment character, no flag with an alignment, at least one
precision digit, and both numbers at most 65535. -/
structure WellFormed (written : Written) : Prop where
  fill : ∀ fill align, written.aligned = some (some fill, align) →
    fill.utf8Size = 1 ∧ isAlign fill = false
  zero : written.zero → written.aligned = none
  width : Bounded written.width
  precision : ∀ digits, written.precision = some digits → digits ≠ [] ∧ Bounded digits

/-- The first zero is the flag. -/
def ZeroFirst (written : Written) : Prop := written.zero = false → written.width.head? ≠ some '0'

/-- The fields the derivation names. -/
def spec (written : Written) : FormatSpec where
  fill := written.aligned.bind fun (fill, _) => fill.map fun c => UInt8.ofNat c.toNat
  align := written.aligned.map Prod.snd
  sign := written.sign
  zero := written.zero
  width := if written.width = [] then none else some (UInt16.ofNat (digitsValue 10 written.width))
  precision := written.precision.map fun digits => UInt16.ofNat (digitsValue 10 digits)
  kind := written.kind

end Written

/-! ## What the parser reads is written -/

@[simp] theorem toAlign_ch (align : Align) : toAlign align.ch = align := by cases align <;> rfl

@[simp] theorem isAlign_ch (align : Align) : isAlign align.ch = true := by cases align <;> rfl

variable {c : Char} {text rest : Text} {align : Option Align}

theorem ch_toAlign (aligns : isAlign c = true) : (toAlign c).ch = c := by
  simp only [isAlign, decide_eq_true_eq] at aligns
  rcases aligns with rfl | rfl | rfl <;> rfl

@[simp] theorem toKind_ch (kind : Kind) : toKind kind.ch = some kind := by cases kind <;> rfl

theorem ch_of_toKind {kind : Kind} (isKind : toKind c = some kind) : kind.ch = c := by
  unfold toKind at isKind
  split at isKind <;> cases isKind <;> rfl

/-- What `parseAlign` reads, as the derivation has it. -/
def Aligned (aligned : Option (Option Char × Align)) (fill : Option UInt8)
    (align : Option Align) : Prop :=
  (∀ c side, aligned = some (some c, side) → c.utf8Size = 1 ∧ isAlign c = false) ∧
    fill = (aligned.bind fun (fill, _) => fill.map fun c => UInt8.ofNat c.toNat) ∧
    align = aligned.map Prod.snd

theorem parseAlign_sound {fill : Option UInt8} (read : parseAlign text = .ok (fill, align, rest)) :
    ∃ aligned, Aligned aligned fill align ∧ alignText aligned ++ rest = text := by
  unfold parseAlign at read
  split at read
  · cases read
    exact ⟨none, ⟨nofun, rfl, rfl⟩, rfl⟩
  next only =>
    split at read
    next aligns =>
      cases read
      exact ⟨some (none, toAlign only), ⟨nofun, rfl, rfl⟩, by simp [alignText, ch_toAlign aligns]⟩
    · cases read
      exact ⟨none, ⟨nofun, rfl, rfl⟩, rfl⟩
  next first second tail =>
    split at read
    next aligns =>
      split at read
      · cases read
      next plain =>
        split at read
        · cases read
        next single =>
          cases read
          refine ⟨some (some first, toAlign second), ⟨?_, rfl, rfl⟩, ?_⟩
          · rintro c side same
            cases same
            exact ⟨not_not.mp single, by simpa using plain⟩
          · simp [alignText, ch_toAlign aligns]
    · split at read
      next aligns =>
        cases read
        exact ⟨some (none, toAlign first), ⟨nofun, rfl, rfl⟩,
          by simp [alignText, ch_toAlign aligns]⟩
      · cases read
        exact ⟨none, ⟨nofun, rfl, rfl⟩, rfl⟩

theorem parseSign_sound (text : Text) :
    flagText '+' (parseSign text).1 ++ (parseSign text).2 = text := by
  unfold parseSign
  split <;> rfl

theorem parseZero_sound {zero : Bool} (read : parseZero align text = .ok (zero, rest)) :
    (zero → align = none) ∧ (zero = false → rest.head? ≠ some '0') ∧
      flagText '0' zero ++ rest = text := by
  unfold parseZero at read
  split at read
  · split at read
    · cases read
    next absent =>
      cases read
      refine ⟨fun _ => ?_, nofun, rfl⟩
      rwa [Option.not_isSome_iff_eq_none] at absent
  next other =>
    cases read
    refine ⟨nofun, fun _ head => ?_, rfl⟩
    cases text with
    | nil => cases head
    | cons c rest =>
      cases head
      exact other rest rfl

theorem parseBounded_eq_ok {digits : Text} {what : String} {n : UInt16} :
    parseBounded digits what = .ok n ↔
      digitsValue 10 digits ≤ 65535 ∧ n = UInt16.ofNat (digitsValue 10 digits) := by
  simp only [parseBounded]
  split
  next large => exact ⟨nofun, fun small => by omega⟩
  · split
    next large => exact ⟨nofun, fun small => by omega⟩
    next small =>
      constructor
      · intro read
        cases read
        exact ⟨by omega, rfl⟩
      · rintro ⟨-, rfl⟩
        rfl

/-- The run that a scan over digits takes has only digits. -/
theorem digits_takeWhile (text : Text) : ∀ c ∈ text.takeWhile isAsciiDigit, isAsciiDigit c :=
  fun _ taken => mem_takeWhile taken

theorem parseWidth_sound {width : Option UInt16} (read : parseWidth text = .ok (width, rest)) :
    ∃ digits, Bounded digits ∧ digits ++ rest = text ∧
      (if digits = [] then none else some (UInt16.ofNat (digitsValue 10 digits))) = width := by
  simp only [parseWidth] at read
  split at read
  next absent =>
    cases read
    refine ⟨[], ⟨by simp, by decide⟩, ?_, rfl⟩
    have whole := List.takeWhile_append_dropWhile (p := isAsciiDigit) (l := text)
    rwa [absent] at whole
  next present =>
    obtain ⟨n, bounded, read⟩ := bind_eq_ok.mp read
    obtain ⟨small, rfl⟩ := parseBounded_eq_ok.mp bounded
    cases read
    exact ⟨_, ⟨digits_takeWhile text, small⟩, List.takeWhile_append_dropWhile, if_neg present⟩

theorem parsePrecision_sound {precision : Option UInt16}
    (read : parsePrecision text = .ok (precision, rest)) :
    ∃ written : Option Text, (∀ digits, written = some digits → digits ≠ [] ∧ Bounded digits) ∧
      precisionText written ++ rest = text ∧
      (written.map fun digits => UInt16.ofNat (digitsValue 10 digits)) = precision := by
  unfold parsePrecision at read
  split at read
  next text =>
    simp only at read
    split at read
    · cases read
    next present =>
      obtain ⟨n, bounded, read⟩ := bind_eq_ok.mp read
      obtain ⟨small, rfl⟩ := parseBounded_eq_ok.mp bounded
      cases read
      refine ⟨some (text.takeWhile isAsciiDigit), ?_, ?_, rfl⟩
      · rintro digits same
        cases same
        exact ⟨present, digits_takeWhile text, small⟩
      · exact congrArg (List.cons '.') List.takeWhile_append_dropWhile
  · cases read
    exact ⟨none, nofun, rfl, rfl⟩

theorem parseKind_sound {whole : Text} {kind : Option Kind}
    (read : parseKind whole text = .ok (kind, rest)) : kindText kind ++ rest = text := by
  unfold parseKind at read
  split at read
  · cases read
    rfl
  next ch tail =>
    split at read
    next found isKind =>
      cases read
      simp [kindText, ch_of_toKind isKind]
    · cases read

theorem parse_sound {spec : FormatSpec} (read : parse text = .ok spec) :
    ∃ written : Written, written.WellFormed ∧ written.ZeroFirst ∧ written.text = text ∧
      written.spec = spec := by
  obtain ⟨⟨fill, align, afterAlign⟩, readAlign, read⟩ := bind_eq_ok.mp read
  obtain ⟨⟨zero, afterZero⟩, readZero, read⟩ := bind_eq_ok.mp read
  obtain ⟨⟨width, afterWidth⟩, readWidth, read⟩ := bind_eq_ok.mp read
  obtain ⟨⟨precision, afterPrecision⟩, readPrecision, read⟩ := bind_eq_ok.mp read
  obtain ⟨⟨kind, afterKind⟩, readKind, read⟩ := bind_eq_ok.mp read
  obtain ⟨aligned, ⟨filled, rfl, rfl⟩, spellsAlign⟩ := parseAlign_sound readAlign
  have spellsSign := parseSign_sound afterAlign
  obtain ⟨alone, zeroFirst, spellsZero⟩ := parseZero_sound readZero
  obtain ⟨digits, widthBounded, spellsWidth, rfl⟩ := parseWidth_sound readWidth
  obtain ⟨decimals, precisionBounded, spellsPrecision, rfl⟩ := parsePrecision_sound readPrecision
  have spellsKind := parseKind_sound readKind
  cases afterKind with
  | cons c rest => cases read
  | nil =>
    cases read
    rw [List.append_nil] at spellsKind
    refine ⟨⟨aligned, (parseSign afterAlign).1, zero, digits, decimals, kind⟩,
      ⟨filled, fun flagged => Option.map_eq_none_iff.mp (alone flagged), widthBounded,
        precisionBounded⟩, fun absent head => ?_, ?_, rfl⟩
    · apply zeroFirst absent
      rw [← spellsWidth]
      cases digits with
      | nil => cases head
      | cons c rest => exact head
    · rw [Written.text, spellsKind, spellsPrecision, spellsWidth, spellsZero, spellsSign,
        spellsAlign]

/-! ## What is written is read -/

theorem parseAlign_complete {aligned : Option (Option Char × Align)} {fill : Option UInt8}
    (spelled : Aligned aligned fill align) (quiet : ∀ c ∈ rest, isAlign c = false) :
    parseAlign (alignText aligned ++ rest) = .ok (fill, align, rest) := by
  obtain ⟨filled, rfl, rfl⟩ := spelled
  rcases aligned with _ | ⟨_ | first, side⟩
  · rcases rest with _ | ⟨first, _ | ⟨second, rest⟩⟩
    · rfl
    · simp [alignText, parseAlign, quiet first]
    · simp [alignText, parseAlign, quiet first, quiet second]
  · rcases rest with _ | ⟨second, rest⟩
    · simp [alignText, parseAlign]
    · simp [alignText, parseAlign, quiet second]
  · obtain ⟨single, plain⟩ := filled first side rfl
    simp [alignText, parseAlign, single, plain]

theorem parseSign_complete (sign : Bool) (rest : Text)
    (ends : sign = false → rest.head? ≠ some '+') :
    parseSign (flagText '+' sign ++ rest) = (sign, rest) := by
  cases sign with
  | true => rfl
  | false =>
    unfold parseSign
    split
    next tail same =>
      change rest = '+' :: tail at same
      exact absurd (congrArg List.head? same) (ends rfl)
    · rfl

theorem parseZero_complete {zero : Bool} (rest : Text) (alone : zero → align = none)
    (ends : zero = false → rest.head? ≠ some '0') :
    parseZero align (flagText '0' zero ++ rest) = .ok (zero, rest) := by
  cases zero with
  | true =>
    rw [alone rfl]
    rfl
  | false =>
    unfold parseZero
    split
    next tail same =>
      change rest = '0' :: tail at same
      exact absurd (congrArg List.head? same) (ends rfl)
    · rfl

theorem parseWidth_complete {digits : Text} (rest : Text) (bounded : Bounded digits)
    (ends : ∀ c, rest.head? = some c → isAsciiDigit c = false) : parseWidth (digits ++ rest) =
      .ok (if digits = [] then none else some (UInt16.ofNat (digitsValue 10 digits)), rest) := by
  obtain ⟨taken, left⟩ := takeWhile_run bounded.1 ends
  simp only [parseWidth, taken, left]
  split
  · rfl
  · rw [parseBounded_eq_ok.mpr ⟨bounded.2, rfl⟩]
    rfl

theorem parsePrecision_complete {written : Option Text} (rest : Text)
    (bounded : ∀ digits, written = some digits → digits ≠ [] ∧ Bounded digits)
    (dot : rest.head? ≠ some '.') (ends : ∀ c, rest.head? = some c → isAsciiDigit c = false) :
    parsePrecision (precisionText written ++ rest) =
      .ok (written.map fun digits => UInt16.ofNat (digitsValue 10 digits), rest) := by
  cases written with
  | none =>
    unfold parsePrecision
    split
    next text same =>
      change rest = '.' :: text at same
      exact absurd (congrArg List.head? same) dot
    · rfl
  | some digits =>
    obtain ⟨present, all, small⟩ := bounded digits rfl
    obtain ⟨taken, left⟩ := takeWhile_run all ends
    simp only [precisionText, List.cons_append, parsePrecision, taken, left]
    rw [if_neg present, parseBounded_eq_ok.mpr ⟨small, rfl⟩]
    rfl

theorem parseKind_complete (whole : Text) (kind : Option Kind) :
    parseKind whole (kindText kind) = .ok (kind, []) := by
  cases kind with
  | none => rfl
  | some kind => simp [kindText, parseKind]

/-- The type letter is none of the other characters of a spec. -/
theorem kindText_apart {kind : Option Kind} (inside : c ∈ kindText kind) :
    isAlign c = false ∧ isAsciiDigit c = false ∧ c ≠ '+' ∧ c ≠ '.' := by
  cases kind with
  | none => cases inside
  | some kind =>
    rw [kindText, List.mem_singleton] at inside
    subst inside
    cases kind <;> decide

theorem align_not_digit (align : Align) : isAsciiDigit align.ch = false := by cases align <;> rfl

theorem digit_apart (digit : isAsciiDigit c = true) : isAlign c = false ∧ c ≠ '+' := by
  constructor
  · cases aligns : isAlign c with
    | false => rfl
    | true =>
      rw [← ch_toAlign aligns, align_not_digit] at digit
      cases digit
  · rintro rfl
    cases digit

namespace Written

variable {written : Written}

/-- Nothing after the fill and the alignment is an alignment character. -/
theorem WellFormed.quiet (well : written.WellFormed) :
    ∀ c ∈ flagText '+' written.sign ++ (flagText '0' written.zero ++
      (written.width ++ (precisionText written.precision ++ kindText written.kind))),
      isAlign c = false := by
  intro c inside
  simp only [List.mem_append] at inside
  rcases inside with sign | zero | width | precision | kind
  · cases marked : written.sign with
    | false => rw [marked] at sign; cases sign
    | true => rw [marked] at sign; rw [List.mem_singleton.mp sign]; rfl
  · cases marked : written.zero with
    | false => rw [marked] at zero; cases zero
    | true => rw [marked] at zero; rw [List.mem_singleton.mp zero]; rfl
  · exact (digit_apart (well.width.1 c width)).1
  · cases decimals : written.precision with
    | none => rw [decimals] at precision; cases precision
    | some digits =>
      rw [decimals, precisionText, List.mem_cons] at precision
      rcases precision with rfl | digit
      · rfl
      · exact (digit_apart ((well.precision digits decimals).2.1 c digit)).1
  · exact (kindText_apart kind).1

theorem mem_kindText_of_head {kind : Option Kind} {c : Char}
    (head : (kindText kind).head? = some c) :
    c ∈ kindText kind := List.mem_of_mem_head? head

/-- What stands after the width does not begin with a digit or a sign. -/
theorem head_after_width {precision : Option Text} {kind : Option Kind} {c : Char}
    (head : (precisionText precision ++ kindText kind).head? = some c) :
    isAsciiDigit c = false ∧ c ≠ '+' := by
  cases precision with
  | none =>
    have apart := kindText_apart (mem_kindText_of_head head)
    exact ⟨apart.2.1, apart.2.2.1⟩
  | some digits =>
    cases head
    decide

end Written

theorem parse_complete {written : Written} (well : written.WellFormed)
    (zeroFirst : written.ZeroFirst) : parse written.text = .ok written.spec := by
  have readKind := parseKind_complete written.text written.kind
  have readPrecision := parsePrecision_complete (kindText written.kind) well.precision
    (fun head => (kindText_apart (Written.mem_kindText_of_head head)).2.2.2 rfl)
    fun c head => (kindText_apart (Written.mem_kindText_of_head head)).2.1
  have readWidth := parseWidth_complete (precisionText written.precision ++ kindText written.kind)
    well.width fun c head => (Written.head_after_width head).1
  have alone : written.zero → written.aligned.map Prod.snd = none :=
    fun flagged => by rw [well.zero flagged]; rfl
  have readZero := parseZero_complete
    (written.width ++ (precisionText written.precision ++ kindText written.kind)) alone ?_
  have readSign := parseSign_complete written.sign
    (flagText '0' written.zero ++
      (written.width ++ (precisionText written.precision ++ kindText written.kind))) ?_
  have readAlign := parseAlign_complete ⟨well.fill, rfl, rfl⟩ well.quiet
  · refine bind_eq_ok.mpr ⟨_, readAlign, ?_⟩
    simp only [readSign]
    refine bind_eq_ok.mpr ⟨_, readZero, ?_⟩
    refine bind_eq_ok.mpr ⟨_, readWidth, ?_⟩
    refine bind_eq_ok.mpr ⟨_, readPrecision, ?_⟩
    exact bind_eq_ok.mpr ⟨_, readKind, rfl⟩
  · intro _ head
    cases marked : written.zero with
    | true => rw [marked] at head; cases head
    | false =>
      rw [marked] at head
      change (written.width ++ _).head? = some '+' at head
      cases digits : written.width with
      | nil => rw [digits] at head; exact (Written.head_after_width head).2 rfl
      | cons c rest =>
        rw [digits] at head
        cases head
        exact (digit_apart (well.width.1 '+' (by rw [digits]; exact List.mem_cons_self))).2 rfl
  · intro absent head
    cases digits : written.width with
    | nil =>
      rw [digits] at head
      exact absurd (Written.head_after_width head).1 (by decide)
    | cons c rest =>
      rw [digits] at head
      have first := zeroFirst absent
      rw [digits] at first
      exact first head

/-- A text parses exactly when it is written as a spec whose first zero is the flag, and the fields
are the ones the derivation names. -/
theorem parse_eq_ok_iff {spec : FormatSpec} : parse text = .ok spec ↔
      ∃ written : Written, written.WellFormed ∧ written.ZeroFirst ∧ written.text = text ∧
        written.spec = spec := by
  constructor
  · exact parse_sound
  · rintro ⟨written, well, zeroFirst, rfl, rfl⟩
    exact parse_complete well zeroFirst

end WolfInterp.Fmt
