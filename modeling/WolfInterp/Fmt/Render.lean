import WolfInterp.Fmt.Spec
import WolfInterp.Lex.Moves

/-!
# Rendering under a format spec

A value's core is a sign and a body. The width is a minimum in bytes, and what is missing goes to
the sides the alignment says, or between the sign and the body under the zero flag.
-/

namespace WolfInterp.Fmt

open WolfInterp.Lex (Text bytes toDigit bytes_nil bytes_cons bytes_append bytes_pos)

/-- What a spec can apply to. -/
inductive HoleClass where
  | str | bool | int | float
  deriving DecidableEq

/-- A well-formed spec that does not fit the hole's class. -/
inductive Mismatch where
  | signOn (hole : HoleClass)
  | zeroOn (hole : HoleClass)
  | precisionOn (hole : HoleClass)
  | kindOn (kind : Kind) (hole : HoleClass)
  deriving DecidableEq

def HoleClass.numeric (hole : HoleClass) : Bool := hole = .int ∨ hole = .float

/-- The bases are for integers, the notations for floats. -/
def Kind.fits (kind : Kind) (hole : HoleClass) : Bool :=
  match kind with
  | .bin | .oct | .hex | .hexUpper => hole = .int
  | .exp | .expUpper | .fixed => hole = .float

/-- Does a well-formed spec fit a hole of this class? -/
def validate (spec : FormatSpec) (hole : HoleClass) : Except Mismatch Unit :=
  if spec.sign && !hole.numeric then .error (.signOn hole)
  else if spec.zero && !hole.numeric then .error (.zeroOn hole)
  else if spec.precision.isSome && !(hole = .str || hole = .float : Bool) then
    .error (.precisionOn hole)
  else
    match spec.kind with
    | some kind => if kind.fits hole then .ok () else .error (.kindOn kind hole)
    | none => .ok ()

/-- A hole value at rendering time. A float is known by its rendering under each spec and by
whether it is finite. -/
inductive FmtValue where
  | str (text : Text)
  | bool (value : Bool)
  | int (value : Int)
  | f64 (render : FormatSpec → Text) (finite : Bool)

namespace FmtValue

def hole : FmtValue → HoleClass
  | .str _ => .str
  | .bool _ => .bool
  | .int _ => .int
  | .f64 _ _ => .float

def isFinite : FmtValue → Bool
  | .f64 _ finite => finite
  | _ => true

end FmtValue

/-! ## The core -/

/-- `&text[..n]`, which has no answer inside a scalar value or past the end. -/
def takeBytes (n : Nat) : Text → Option Text
  | [] => if n = 0 then some [] else none
  | c :: rest =>
    if n = 0 then some []
    else if c.utf8Size ≤ n then (takeBytes (n - c.utf8Size) rest).map (c :: ·)
    else none

def isCharBoundary (text : Text) (n : Nat) : Bool := (takeBytes n text).isSome

/-- `while !text.is_char_boundary(end) { end -= 1 }` -/
def floorBoundary (text : Text) : Nat → Nat
  | 0 => 0
  | n + 1 => if isCharBoundary text (n + 1) then n + 1 else floorBoundary text n

/-- The base of an integer's digits. -/
def Kind.radix : Option Kind → Nat
  | some .bin => 2
  | some .oct => 8
  | some .hex | some .hexUpper => 16
  | _ => 10

/-- The magnitude in the base of the kind, without a prefix. -/
def magnitude (kind : Option Kind) (mag : Nat) : Text :=
  let digits := Nat.toDigits (Kind.radix kind) mag
  if kind = some .hexUpper then digits.map Char.toUpper else digits

def signText (negative plus : Bool) : Text :=
  if negative then ['-'] else if plus then ['+'] else []

def renderInt (n : Int) (spec : FormatSpec) : Text :=
  signText (n < 0) spec.sign ++ magnitude spec.kind n.natAbs

/-- The text without padding. `none` is a slice inside a scalar value. -/
def core (spec : FormatSpec) : FmtValue → Option Text
  | .str text =>
    match spec.precision with
    | some p => takeBytes (floorBoundary text (min p.toNat (bytes text))) text
    | none => some text
  | .bool value => some (if value then "true".toList else "false".toList)
  | .int n => some (renderInt n spec)
  | .f64 render _ => some (render spec)

/-! ## Padding -/

/-- Where a class stands in a wider field. -/
def HoleClass.align (hole : HoleClass) : Align :=
  match hole with
  | .int | .float => .right
  | .str | .bool => .left

/-- The fill, which is a space unless an alignment names one. -/
def FormatSpec.fillChar (spec : FormatSpec) : Char := Char.ofNat (spec.fill.getD 32).toNat

def FormatSpec.minimum (spec : FormatSpec) : Nat := (spec.width.getD 0).toNat

/-- Width, fill and alignment around a rendered core. -/
def pad (core : Text) (value : FmtValue) (spec : FormatSpec) : Text :=
  if spec.minimum ≤ bytes core then core
  else
    let missing := spec.minimum - bytes core
    if spec.zero then
      if value.isFinite then
        match core with
        | '-' :: rest => '-' :: (List.replicate missing '0' ++ rest)
        | '+' :: rest => '+' :: (List.replicate missing '0' ++ rest)
        | core => List.replicate missing '0' ++ core
      else List.replicate missing ' ' ++ core
    else
      let fills := fun n => List.replicate n spec.fillChar
      match spec.align.getD value.hole.align with
      | .left => core ++ fills missing
      | .right => fills missing ++ core
      | .center => fills (missing / 2) ++ core ++ fills (missing - missing / 2)

/-- Render a value under a spec. -/
def apply (spec : FormatSpec) (value : FmtValue) : Option (Except Mismatch Text) :=
  match validate spec value.hole with
  | .error mismatch => some (.error mismatch)
  | .ok () => (core spec value).map fun core => .ok (pad core value spec)

/-! ## What a rendering is -/

/-- The longest prefix within a number of bytes. A prefix ends on a code point boundary. -/
def LongestPrefix (cap : Nat) (text cut : Text) : Prop :=
  cut <+: text ∧ bytes cut ≤ cap ∧ ∀ other, other <+: text → bytes other ≤ cap → other <+: cut

/-- Digits that read back as a number, with no leading zero. -/
structure Reads (radix : Nat) (digits : Text) (value : Nat) : Prop where
  present : digits ≠ []
  digit : ∀ c ∈ digits, (toDigit radix c).isSome
  value : digitsValue radix digits = value
  plain : digits.head? = some '0' → digits = ['0']

/-- The sign and the body of a value's core. -/
def Core (spec : FormatSpec) (value : FmtValue) (sign body : Text) : Prop :=
  match value with
  | .str text =>
    sign = [] ∧
      match spec.precision with
      | some cap => LongestPrefix cap.toNat text body
      | none => body = text
  | .bool value => sign = [] ∧ body = if value then "true".toList else "false".toList
  | .int n =>
    sign = signText (n < 0) spec.sign ∧ Reads (Kind.radix spec.kind) body n.natAbs ∧
      (spec.kind = some .hex → ∀ c ∈ body, c.isUpper = false) ∧
      (spec.kind = some .hexUpper → ∀ c ∈ body, c.isLower = false)
  | .f64 _ _ => False

/-- How much of the missing padding stands before the sign, between it and the body, and after. -/
def shares (spec : FormatSpec) (hole : HoleClass) (missing : Nat) : Nat × Nat × Nat :=
  if spec.zero then (0, missing, 0)
  else
    match spec.align.getD hole.align with
    | .left => (0, 0, missing)
    | .right => (missing, 0, 0)
    | .center => (missing / 2, 0, missing - missing / 2)

/-- The core, with what its width misses on the sides the spec says. -/
def padded (spec : FormatSpec) (hole : HoleClass) (sign body : Text) : Text :=
  let share := shares spec hole (spec.minimum - bytes (sign ++ body))
  List.replicate share.1 spec.fillChar ++ (sign ++ (List.replicate share.2.1 '0' ++
    (body ++ List.replicate share.2.2 spec.fillChar)))

/-! ## The cut of a text -/

theorem takeBytes_zero (text : Text) : takeBytes 0 text = some [] := by
  cases text with
  | nil => rfl
  | cons c text => rw [takeBytes, if_pos rfl]

theorem takeBytes_append (first second : Text) :
    takeBytes (bytes first) (first ++ second) = some first := by
  induction first with
  | nil => exact takeBytes_zero second
  | cons c first tail =>
    have positive := c.utf8Size_pos
    rw [bytes_cons, List.cons_append, takeBytes, if_neg (by omega), if_pos (by omega),
      Nat.add_sub_cancel_left, tail]
    rfl

variable {text : Text} {spec : FormatSpec} {value : FmtValue}

theorem takeBytes_prefix {other : Text} (isPrefix : other <+: text) :
    takeBytes (bytes other) text = some other := by
  obtain ⟨rest, rfl⟩ := isPrefix
  exact takeBytes_append other rest

theorem takeBytes_sound :
    ∀ {text cut : Text} {n : Nat}, takeBytes n text = some cut → cut <+: text ∧ bytes cut = n := by
  intro text
  induction text with
  | nil =>
    intro cut n taken
    rw [takeBytes] at taken
    split at taken
    next zero => cases taken; exact ⟨List.prefix_refl _, zero.symm⟩
    · cases taken
  | cons c text tail =>
    intro cut n taken
    rw [takeBytes] at taken
    split at taken
    next zero => cases taken; exact ⟨List.nil_prefix, zero.symm⟩
    · split at taken
      next room =>
        obtain ⟨rest, rests, rfl⟩ := Option.map_eq_some_iff.mp taken
        obtain ⟨isPrefix, size⟩ := tail rests
        refine ⟨List.cons_prefix_cons.mpr ⟨rfl, isPrefix⟩, ?_⟩
        rw [bytes_cons]
        omega
      · cases taken

theorem bytes_le_of_prefix {other : Text} (isPrefix : other <+: text) :
    bytes other ≤ bytes text := by
  obtain ⟨rest, rfl⟩ := isPrefix
  rw [bytes_append]
  exact Nat.le_add_right _ _

/-- Of two prefixes, the one with no more bytes is a prefix of the other. -/
theorem prefix_of_bytes_le {first second : Text} (one : first <+: text) (two : second <+: text)
    (le : bytes first ≤ bytes second) : first <+: second := by
  rcases List.prefix_or_prefix_of_prefix one two with shorter | longer
  · exact shorter
  · obtain ⟨rest, rfl⟩ := longer
    rw [bytes_append] at le
    cases rest with
    | nil => simp only [List.append_nil, List.prefix_refl]
    | cons c rest =>
      have positive := bytes_pos (List.cons_ne_nil c rest)
      omega

/-- The loop stops at the longest prefix within its start. -/
theorem takeBytes_floorBoundary (text : Text) (cap : Nat) :
    ∃ cut, takeBytes (floorBoundary text cap) text = some cut ∧ LongestPrefix cap text cut := by
  induction cap with
  | zero =>
    refine ⟨[], takeBytes_zero text, List.nil_prefix, le_rfl, fun other _ none => ?_⟩
    cases other with
    | nil => exact List.prefix_refl _
    | cons c other =>
      have positive := bytes_pos (List.cons_ne_nil c other)
      omega
  | succ n lower =>
    rw [floorBoundary]
    split
    next boundary =>
      obtain ⟨cut, taken⟩ := Option.isSome_iff_exists.mp boundary
      obtain ⟨isPrefix, size⟩ := takeBytes_sound taken
      exact ⟨cut, taken, isPrefix, size.le,
        fun other also small => prefix_of_bytes_le also isPrefix (by omega)⟩
    next inside =>
      obtain ⟨cut, taken, isPrefix, small, longest⟩ := lower
      refine ⟨cut, taken, isPrefix, by omega, fun other also within => longest other also ?_⟩
      have apart : bytes other ≠ n + 1 := by
        intro exactly
        have found := takeBytes_prefix also
        rw [exactly] at found
        exact inside (by rw [isCharBoundary, found]; rfl)
      omega

/-! ## The digits of an integer -/

theorem Kind.radix_bounds (kind : Option Kind) : 1 < Kind.radix kind ∧ Kind.radix kind ≤ 16 := by
  rcases kind with _ | kind
  · decide
  · cases kind <;> decide

theorem digitsValue_append (radix : Nat) (front : Text) (c : Char) :
    digitsValue radix (front ++ [c]) =
      radix * digitsValue radix front + (toDigit radix c).getD 0 := by
  rw [digitsValue, List.foldl_append]
  rfl

/-- A spelling of digit values that reads back. -/
def Spells (radix : Nat) (spell : Nat → Char) : Prop :=
  ∀ d < radix, toDigit radix (spell d) = some d ∧ (spell d = '0' → d = 0)

/-- Digits under any such spelling read back. -/
theorem reads_toDigits {radix : Nat} (large : 1 < radix) {f : Char → Char}
    (spells : Spells radix (f ∘ Nat.digitChar)) (value : Nat) :
    Reads radix ((Nat.toDigits radix value).map f) value := by
  induction value using Nat.strongRecOn with
  | ind value smaller =>
    rw [Nat.toDigits_eq_if large]
    split
    next single =>
      obtain ⟨reads, zero⟩ := spells value single
      rw [List.map_singleton]
      refine ⟨List.cons_ne_nil _ _, fun c inside => ?_, ?_, fun head => ?_⟩
      · rw [List.mem_singleton.mp inside]
        exact Option.isSome_iff_exists.mpr ⟨value, reads⟩
      · change radix * 0 + (toDigit radix (f value.digitChar)).getD 0 = value
        rw [show toDigit radix (f value.digitChar) = some value from reads]
        simp
      · rw [List.head?_cons, Option.some_inj] at head
        rw [head]
    next several =>
      have quotient : value / radix < value := Nat.div_lt_self (by omega) large
      have front := smaller (value / radix) quotient
      have last : value % radix < radix := Nat.mod_lt _ (by omega)
      obtain ⟨reads, -⟩ := spells (value % radix) last
      rw [List.map_append, List.map_singleton]
      refine ⟨by simp, fun c inside => ?_, ?_, fun head => ?_⟩
      · rcases List.mem_append.mp inside with earlier | here
        · exact front.digit c earlier
        · rw [List.mem_singleton.mp here]
          exact Option.isSome_iff_exists.mpr ⟨_, reads⟩
      · rw [digitsValue_append, front.value,
          show toDigit radix (f (value % radix).digitChar) = some (value % radix) from reads]
        exact Nat.div_add_mod value radix
      · -- A leading zero would be the whole quotient, and the quotient is not zero.
        rw [List.head?_append_of_ne_nil _ front.present] at head
        have zero := front.value
        rw [front.plain head] at zero
        have positive : 0 < value / radix := Nat.div_pos (by omega) (by omega)
        have none : digitsValue radix ['0'] = 0 := by
          change radix * 0 + (toDigit radix '0').getD 0 = 0
          have isZero : toDigit radix '0' = some 0 := by
            simp [toDigit, Option.filter, show 0 < radix by omega]
          rw [isZero]
          simp
        omega

theorem spells_lower (kind : Option Kind) : Spells (Kind.radix kind) (id ∘ Nat.digitChar) := by
  rcases kind with _ | kind
  · unfold Spells; decide
  · cases kind <;> unfold Spells <;> decide

theorem spells_upper : Spells 16 (Char.toUpper ∘ Nat.digitChar) := by
  unfold Spells
  decide

/-- The letters of a digit run are those of the digit values below the base. -/
theorem mem_toDigits {radix : Nat} (large : 1 < radix) {value : Nat} {c : Char} :
    c ∈ Nat.toDigits radix value → ∃ d < radix, c = d.digitChar := by
  induction value using Nat.strongRecOn with
  | ind value smaller =>
    intro inside
    rw [Nat.toDigits_eq_if large] at inside
    split at inside
    next single => exact ⟨value, single, List.mem_singleton.mp inside⟩
    · rcases List.mem_append.mp inside with earlier | last
      · exact smaller _ (Nat.div_lt_self (by omega) large) earlier
      · exact ⟨_, Nat.mod_lt _ (by omega), List.mem_singleton.mp last⟩

theorem magnitude_lower {kind : Option Kind} (lower : kind ≠ some .hexUpper) (mag : Nat) :
    magnitude kind mag = Nat.toDigits (Kind.radix kind) mag := if_neg lower

theorem reads_magnitude (kind : Option Kind) (mag : Nat) :
    Reads (Kind.radix kind) (magnitude kind mag) mag := by
  have large := (Kind.radix_bounds kind).1
  by_cases upper : kind = some .hexUpper
  · rw [upper]
    exact reads_toDigits (by decide) spells_upper mag
  · have reads := reads_toDigits large (spells_lower kind) mag
    rw [List.map_id] at reads
    rwa [magnitude_lower upper]

theorem magnitude_hex (mag : Nat) : ∀ c ∈ magnitude (some .hex) mag, c.isUpper = false := by
  intro c inside
  rw [magnitude_lower (by decide)] at inside
  obtain ⟨d, small, rfl⟩ := mem_toDigits (by decide) inside
  change d < 16 at small
  clear inside
  revert d
  decide

theorem magnitude_hexUpper (mag : Nat) :
    ∀ c ∈ magnitude (some .hexUpper) mag, c.isLower = false := by
  intro c inside
  obtain ⟨lower, isDigit, rfl⟩ := List.mem_map.mp inside
  obtain ⟨d, small, rfl⟩ := mem_toDigits (by decide) isDigit
  change d < 16 at small
  clear isDigit inside
  revert d
  decide

/-! ## The padding -/

/-- What a fitting spec asks of an integer, and what it may not ask of text. -/
theorem of_validate {hole : HoleClass} (fits : validate spec hole = .ok ()) :
    (hole.numeric = false → spec.sign = false ∧ spec.zero = false) ∧
      ∀ kind, spec.kind = some kind → kind.fits hole = true := by
  unfold validate at fits
  split at fits
  · cases fits
  next noSign =>
    split at fits
    · cases fits
    next noZero =>
      split at fits
      · cases fits
      · constructor
        · intro text
          rw [text] at noSign noZero
          exact ⟨by simpa using noSign, by simpa using noZero⟩
        · intro kind written
          rw [written] at fits
          simp only at fits
          split at fits
          next fit => exact fit
          · cases fits

/-- The core is a sign and a body as the spec has them. -/
theorem core_cases (spec : FormatSpec) (discrete : value.hole ≠ .float) :
    ∃ sign body, core spec value = some (sign ++ body) ∧ Core spec value sign body := by
  cases value with
  | f64 => exact absurd rfl discrete
  | bool value => exact ⟨[], _, rfl, rfl, rfl⟩
  | int n =>
    refine ⟨_, _, rfl, rfl, reads_magnitude spec.kind n.natAbs, ?_, ?_⟩
    · intro lower
      rw [lower]
      exact magnitude_hex n.natAbs
    · intro upper
      rw [upper]
      exact magnitude_hexUpper n.natAbs
  | str text =>
    cases cap : spec.precision with
    | none => exact ⟨[], text, by simp [core, cap], rfl, by rw [cap]⟩
    | some p =>
      obtain ⟨cut, taken, isPrefix, small, longest⟩ :=
        takeBytes_floorBoundary text (min p.toNat (bytes text))
      refine ⟨[], cut, by simp [core, cap, taken], rfl, ?_⟩
      rw [cap]
      refine ⟨isPrefix, by omega, fun other also within => longest other also ?_⟩
      have inside := bytes_le_of_prefix also
      omega

@[simp] theorem bytes_replicate (count : Nat) (c : Char) :
    bytes (List.replicate count c) = count * c.utf8Size := by
  simp [bytes]

theorem signText_cases (negative plus : Bool) :
    signText negative plus = ['-'] ∨ signText negative plus = ['+'] ∨
      signText negative plus = [] := by
  cases negative <;> cases plus <;> decide

/-- The zero flag puts the zeros behind the sign. -/
theorem pad_zero {sign body : Text} {n : Int} (isInt : value = .int n)
    (isCore : Core spec value sign body) (flagged : spec.zero = true)
    (wide : ¬ spec.minimum ≤ bytes (sign ++ body)) : pad (sign ++ body) value spec =
      sign ++ (List.replicate (spec.minimum - bytes (sign ++ body)) '0' ++ body) := by
  subst isInt
  obtain ⟨isSign, reads, -⟩ := isCore
  unfold pad
  rw [if_neg wide]
  simp only [flagged, if_true, FmtValue.isFinite]
  rcases signText_cases (n < 0) spec.sign with minus | plus | none
  · rw [isSign, minus]
    rfl
  · rw [isSign, plus]
    rfl
  · rw [isSign, none]
    obtain ⟨c, rest, rfl⟩ := List.exists_cons_of_ne_nil reads.present
    have digit := reads.digit c List.mem_cons_self
    split
    next same =>
      cases same
      exact absurd digit (by simp [toDigit])
    next same =>
      cases same
      exact absurd digit (by simp [toDigit])
    · rfl

@[simp] theorem shares_zero (spec : FormatSpec) (hole : HoleClass) :
    shares spec hole 0 = (0, 0, 0) := by
  unfold shares
  split
  · rfl
  · split <;> rfl

/-- The shares are the whole of what is missing. -/
theorem shares_sum (spec : FormatSpec) (hole : HoleClass) (missing : Nat) :
    (shares spec hole missing).1 + (shares spec hole missing).2.1 +
      (shares spec hole missing).2.2 = missing := by
  unfold shares
  split
  · simp
  · split <;> simp only <;> omega

theorem pad_eq {sign body : Text} (discrete : value.hole ≠ .float)
    (fits : validate spec value.hole = .ok ()) (isCore : Core spec value sign body) :
    pad (sign ++ body) value spec = padded spec value.hole sign body := by
  by_cases wide : spec.minimum ≤ bytes (sign ++ body)
  · have none : spec.minimum - bytes (sign ++ body) = 0 := by omega
    rw [pad, if_pos wide]
    simp only [padded, none, shares_zero, List.replicate_zero, List.nil_append, List.append_nil]
  · by_cases flagged : spec.zero = true
    · have isInt : ∃ n, value = .int n := by
        cases value with
        | int n => exact ⟨n, rfl⟩
        | f64 => exact absurd rfl discrete
        | str | bool =>
          have plain := ((of_validate fits).1 rfl).2
          rw [plain] at flagged
          cases flagged
      obtain ⟨n, isInt⟩ := isInt
      rw [pad_zero isInt isCore flagged wide]
      simp [padded, shares, flagged]
    · rw [pad, if_neg wide, padded]
      simp only [shares, if_neg flagged]
      split <;> simp

/-- The fill of a parsed spec takes one byte. -/
theorem fillChar_size (parsed : parse text = .ok spec) : spec.fillChar.utf8Size = 1 := by
  obtain ⟨written, well, -, -, rfl⟩ := parse_eq_ok_iff.mp parsed
  unfold FormatSpec.fillChar Written.spec
  rcases aligned : written.aligned with _ | ⟨_ | fill, side⟩
  · rfl
  · rfl
  · have single := (well.fill fill side aligned).1
    have small : fill.toNat < 128 := by
      have ascii := Char.utf8Size_eq_one_iff.mp single
      exact Nat.lt_succ_of_le (UInt32.le_iff_toNat_le.mp ascii)
    have same : (UInt8.ofNat fill.toNat).toNat = fill.toNat := by
      rw [UInt8.toNat_ofNat']
      omega
    simp only [Option.bind_some, Option.map_some, Option.getD_some, same, Char.ofNat_toNat]
    exact single

/-- A padded core has the larger of the width and its own bytes. -/
theorem bytes_padded (single : spec.fillChar.utf8Size = 1) (hole : HoleClass) (sign body : Text) :
    bytes (padded spec hole sign body) = max spec.minimum (bytes (sign ++ body)) := by
  have zero : ('0').utf8Size = 1 := rfl
  have sum := shares_sum spec hole (spec.minimum - bytes (sign ++ body))
  simp only [padded, bytes_append, bytes_replicate, single, zero, Nat.mul_one] at sum ⊢
  omega

theorem apply_parsed (parsed : parse text = .ok spec) (discrete : value.hole ≠ .float)
    (fits : validate spec value.hole = .ok ()) : ∃ sign body, Core spec value sign body ∧
      apply spec value = some (.ok (padded spec value.hole sign body)) ∧
      bytes (padded spec value.hole sign body) = max spec.minimum (bytes (sign ++ body)) := by
  obtain ⟨sign, body, isCore, described⟩ := core_cases spec discrete
  refine ⟨sign, body, described, ?_, bytes_padded (fillChar_size parsed) value.hole sign body⟩
  rw [← pad_eq discrete fits described]
  simp [apply, fits, isCore]

/-- A spec parses exactly when it is well written, to the fields its derivation names; and under a
parsed spec every text, boolean and integer it fits renders as its core, padded to the width. -/
theorem parse_iff_and_apply : (∀ (text : Text) (spec : FormatSpec), parse text = .ok spec ↔
      ∃ written : Written, written.WellFormed ∧ written.ZeroFirst ∧ written.text = text ∧
        written.spec = spec) ∧
    ∀ (text : Text) (spec : FormatSpec) (value : FmtValue), parse text = .ok spec →
      value.hole ≠ .float → validate spec value.hole = .ok () →
        ∃ sign body, Core spec value sign body ∧
          apply spec value = some (.ok (padded spec value.hole sign body)) ∧
          bytes (padded spec value.hole sign body) = max spec.minimum (bytes (sign ++ body)) :=
  ⟨fun _ _ => parse_eq_ok_iff, fun _ _ _ parsed discrete fits => apply_parsed parsed discrete fits⟩

/-- `+07x` on 255. -/
theorem parse_iff_and_apply_hex : ∃ spec sign body, parse "+07x".toList = .ok spec ∧
    Core spec (.int 255) sign body ∧
      apply spec (.int 255) = some (.ok (padded spec .int sign body)) ∧
      bytes (padded spec .int sign body) = max spec.minimum (bytes (sign ++ body)) := by
  obtain ⟨spec, parsed⟩ : ∃ spec, parse "+07x".toList = .ok spec := ⟨_, rfl⟩
  obtain ⟨sign, body, core, applied, width⟩ :=
    parse_iff_and_apply.2 "+07x".toList spec (.int 255) parsed nofun (by cases parsed; rfl)
  exact ⟨spec, sign, body, parsed, core, applied, width⟩

/-- Read with a width that may begin with a zero, the grammar has specs the parser refuses. -/
theorem zero_width_refused : ¬ ∀ text : Text, (∃ spec, parse text = .ok spec) ↔
      ∃ written : Written, written.WellFormed ∧ written.text = text := by
  intro agree
  have written : ∃ written : Written, written.WellFormed ∧ written.text = "<08".toList := by
    refine ⟨⟨some (none, .left), false, false, ['0', '8'], none, none⟩, ⟨nofun, nofun, ?_, nofun⟩,
      rfl⟩
    exact ⟨List.all_eq_true.mp rfl, by decide⟩
  obtain ⟨spec, parsed⟩ := (agree _).mpr written
  have refused : parse "<08".toList = .error .zeroWithAlign := rfl
  rw [refused] at parsed
  cases parsed

end WolfInterp.Fmt
