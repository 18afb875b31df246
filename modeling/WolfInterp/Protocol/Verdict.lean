import WolfInterp.Differ.Record

/-!
# Verdicts on the wire

The closed vocabularies of a record (phases, trap kinds, clause anchors) and the reader of the
verdict string, with the exact extent to which reading undoes writing.
-/

namespace WolfInterp

/-! ## The closed vocabularies -/

namespace Sched.TrapKind

/-- The whole closed set, in spec order. -/
def all : List TrapKind :=
  [.overflow, .divZero, .bounds, .useAfterMove, .exclusivity, .regionFault, .staleHandle,
    .allocContract, .assert, .race, .ub, .deadlock, .stackOverflow, .argumentUtf8]

def parse (s : String) : Option TrapKind := all.find? fun kind => kind.asStr = s

/-- The closed set rendered for diagnostics. -/
def vocabulary : String := ", ".intercalate (all.map asStr)

theorem parse_asStr (kind : TrapKind) : parse kind.asStr = some kind := by
  cases kind <;> rfl

theorem asStr_of_parse {s : String} {kind : TrapKind} (read : parse s = some kind) :
    kind.asStr = s := by
  simpa using List.find?_some read

end Sched.TrapKind

namespace Differ.Phase

/-- The source's `Phase::parse`; one of the rungs has that name here. -/
def parseStr (s : String) : Option Phase := ladder.find? fun rung => rung.asStr = s

theorem parseStr_asStr (rung : Phase) : parseStr rung.asStr = some rung := by
  cases rung <;> rfl

theorem asStr_of_parseStr {s : String} {rung : Phase} (read : parseStr s = some rung) :
    rung.asStr = s := by
  simpa using List.find?_some read

end Differ.Phase

namespace Protocol

open Sched (TrapKind)
open Differ (Phase Verdict)

/-! ## Clause anchors -/

/-- Namespaces with an owning spec document today. -/
def registeredNamespaces : List String :=
  ["gram", "mem", "conc", "abi", "conf", "proto", "diag", "ct", "type", "pkg", "os", "sched",
    "exec"]

/-- Namespaces reserved for spec documents not yet written. -/
def reservedNamespaces : List String :=
  ["str", "err", "task", "proc", "sync", "generics", "arith", "ffi", "unsafe", "comptime", "perf",
    "mod", "std", "ty", "test", "repl"]

inductive Namespace where
  | registered
  | reserved
  deriving DecidableEq

/-- Why an anchor is not a well-formed clause tag. -/
inductive AnchorError where
  | empty
  | emptySegment (anchor : String)
  | badCharacter (anchor : String) (ch : Char)
  | unknownNamespace (anchor : String) (ns : String)
  deriving DecidableEq

def AnchorError.message : AnchorError → String
  | .empty => "empty anchor"
  | .emptySegment a => s!"anchor `{a}` has an empty dotted segment"
  | .badCharacter anchor ch =>
    s!"anchor `{anchor}` contains `{ch}`; anchors are lowercase letters, digits, `-`, `_` and `.`"
  | .unknownNamespace anchor ns =>
    s!"anchor `{anchor}` is in unknown namespace `{ns}` (neither registered nor reserved)"

/-- The alphabet of anchors. -/
def anchorChar (ch : Char) : Bool :=
  ch.isLower || ch.isDigit || ch = '-' || ch = '_' || ch = '.'

/-- Validates an anchor's shape and namespace, classifying the namespace. -/
def classify (anchor : String) : Except AnchorError Namespace :=
  if anchor.isEmpty then .error .empty
  else match anchor.toList.find? (!anchorChar ·) with
    | some ch => .error (.badCharacter anchor ch)
    | none =>
      let segments := anchor.toList.splitOn '.'
      if segments.any List.isEmpty then .error (.emptySegment anchor)
      else
        let ns := String.ofList (segments.headD [])
        if ns ∈ registeredNamespaces then .ok .registered
        else if ns ∈ reservedNamespaces then .ok .reserved
        else .error (.unknownNamespace anchor ns)

/-! ## Statuses -/

/-- One more digit of a status, refused on overflow. -/
def pushDigit (status : Nat) (c : Char) : Option Nat :=
  if c.isDigit ∧ status * 10 + (c.toNat - '0'.toNat) < 256 then
    some (status * 10 + (c.toNat - '0'.toNat))
  else none

/-- The integer reader of the language at `u8`: an optional plus sign, then decimal digits. -/
def parseU8 : List Char → Option UInt8
  | [] | ['+'] | ['-'] => none
  | '+' :: rest => (rest.foldlM pushDigit 0).map UInt8.ofNat
  | text => (text.foldlM pushDigit 0).map UInt8.ofNat

/-- A status in canonical decimal: no sign, and no leading zero. -/
def PlainStatus (text : List Char) : Prop :=
  text = ['0'] ∨ ∃ c rest, text = c :: rest ∧ c ≠ '0' ∧ c ≠ '+'

instance (text : List Char) : Decidable (PlainStatus text) :=
  match text with
  | [] => .isFalse (by simp [PlainStatus])
  | c :: rest => decidable_of_iff (c :: rest = ['0'] ∨ c ≠ '0' ∧ c ≠ '+') (by simp [PlainStatus])

theorem digitChar_of_isDigit {c : Char} (digit : c.isDigit) :
    c.toNat - '0'.toNat < 10 ∧ Nat.digitChar (c.toNat - '0'.toNat) = c := by
  obtain ⟨low, high⟩ : 48 ≤ c.toNat ∧ c.toNat ≤ 57 := by
    simpa [Char.isDigit, UInt32.le_iff_toNat_le] using digit
  obtain ⟨d, small, code⟩ : ∃ d < 10, c.toNat = 48 + d := ⟨c.toNat - 48, by omega, by omega⟩
  have named : c = Char.ofNat (48 + d) := by rw [← code, Char.ofNat_toNat]
  have digits : ∀ d < 10, (Char.ofNat (48 + d)).toNat - '0'.toNat < 10 ∧
      Nat.digitChar ((Char.ofNat (48 + d)).toNat - '0'.toNat) = Char.ofNat (48 + d) := by
    decide
  rw [named]
  exact digits d small

theorem pushDigit_eq_some {status next : Nat} {c : Char} : pushDigit status c = some next ↔
      c.isDigit ∧ next = status * 10 + (c.toNat - '0'.toNat) ∧ next < 256 := by
  unfold pushDigit
  grind

theorem le_ofDigitChars (text : List Char) (start : Nat) :
    start ≤ Nat.ofDigitChars 10 text start := by
  induction text generalizing start with
  | nil => simp
  | cons c rest ih =>
    rw [Nat.ofDigitChars_cons]
    have := ih (10 * start + (c.toNat - '0'.toNat))
    omega

/-- A status read digit by digit is the number the digits write, when that is small enough. -/
theorem foldlM_pushDigit (text : List Char) {start status : Nat} (small : start < 256) :
    text.foldlM pushDigit start = some status ↔
      (∀ c ∈ text, c.isDigit) ∧ status = Nat.ofDigitChars 10 text start ∧ status < 256 := by
  induction text generalizing start with
  | nil =>
    simp only [List.foldlM_nil, Option.pure_def, Option.some.injEq, Nat.ofDigitChars_nil]
    constructor
    · rintro rfl
      exact ⟨by simp, rfl, small⟩
    · rintro ⟨_, rfl, _⟩
      rfl
  | cons c rest ih =>
    rw [List.foldlM_cons, Option.bind_eq_bind, Option.bind_eq_some_iff, Nat.ofDigitChars_cons]
    constructor
    · rintro ⟨next, pushed, read⟩
      obtain ⟨digit, rfl, room⟩ := pushDigit_eq_some.mp pushed
      obtain ⟨digits, value, bound⟩ := (ih room).mp read
      refine ⟨List.forall_mem_cons.mpr ⟨digit, digits⟩, ?_, bound⟩
      rw [value, Nat.mul_comm]
    · rintro ⟨digits, value, bound⟩
      obtain ⟨digit, digits⟩ := List.forall_mem_cons.mp digits
      have grows := le_ofDigitChars rest (10 * start + (c.toNat - '0'.toNat))
      have room : start * 10 + (c.toNat - '0'.toNat) < 256 := by omega
      refine ⟨_, pushDigit_eq_some.mpr ⟨digit, rfl, room⟩, (ih room).mpr ⟨digits, ?_, bound⟩⟩
      rw [value, Nat.mul_comm]

/-- Digits after a number that is not zero are kept by writing the whole. -/
theorem toDigits_ofDigitChars {text : List Char} {start : Nat} (positive : 0 < start)
    (digits : ∀ c ∈ text, c.isDigit) :
    Nat.toDigits 10 (Nat.ofDigitChars 10 text start) = Nat.toDigits 10 start ++ text := by
  induction text generalizing start with
  | nil => simp
  | cons c rest ih =>
    obtain ⟨digit, digits⟩ := List.forall_mem_cons.mp digits
    obtain ⟨small, name⟩ := digitChar_of_isDigit digit
    rw [Nat.ofDigitChars_cons, ih (by omega) digits,
      ← Nat.toDigits_append_toDigits (by omega) positive small,
      Nat.toDigits_of_lt_base small, name]
    simp

/-- A plain status is what its value is written as. -/
theorem toDigits_of_plain {text : List Char} (plain : PlainStatus text)
    (digits : ∀ c ∈ text, c.isDigit) : Nat.toDigits 10 (Nat.ofDigitChars 10 text 0) = text := by
  obtain rfl | ⟨c, rest, rfl, nonzero, _⟩ := plain
  · rfl
  · obtain ⟨digit, digits⟩ := List.forall_mem_cons.mp digits
    obtain ⟨small, name⟩ := digitChar_of_isDigit digit
    have positive : 0 < c.toNat - '0'.toNat := by
      apply Nat.pos_of_ne_zero
      intro zero
      exact nonzero (by rw [← name, zero]; rfl)
    rw [Nat.ofDigitChars_cons, Nat.mul_zero, Nat.zero_add, toDigits_ofDigitChars positive digits,
      Nat.toDigits_of_lt_base small, name]
    rfl

/-- What a status is written as. -/
def statusText (status : UInt8) : List Char := Nat.toDigits 10 status.toNat

theorem digits_statusText (status : UInt8) : ∀ c ∈ statusText status, c.isDigit :=
  fun _ among => Nat.isDigit_of_mem_toDigits (by omega) (by omega) among

/-- The digits of a positive number start with a digit other than zero. -/
theorem toDigits_head (n : Nat) (positive : 0 < n) :
    ∃ d rest, 0 < d ∧ d < 10 ∧ Nat.toDigits 10 n = Nat.digitChar d :: rest := by
  induction n using Nat.base_induction 10 (by omega) with
  | single d small => exact ⟨d, [], positive, small, Nat.toDigits_of_lt_base small⟩
  | digit n last small leading ih =>
    obtain ⟨d, rest, nonzero, bound, head⟩ := ih leading
    refine ⟨d, rest ++ Nat.toDigits 10 last, nonzero, bound, ?_⟩
    rw [← Nat.toDigits_append_toDigits (by omega) leading small, head, List.cons_append]

theorem plain_statusText (status : UInt8) : PlainStatus (statusText status) := by
  obtain zero | positive := Nat.eq_zero_or_pos status.toNat
  · exact .inl (by rw [statusText, zero]; rfl)
  · obtain ⟨d, rest, nonzero, bound, head⟩ := toDigits_head _ positive
    have leading : ∀ d < 10, 0 < d → Nat.digitChar d ≠ '0' ∧ Nat.digitChar d ≠ '+' := by decide
    exact .inr ⟨_, rest, head, leading d bound nonzero⟩

theorem parseU8_of_plain {text : List Char} (plain : PlainStatus text) :
    parseU8 text = (text.foldlM pushDigit 0).map UInt8.ofNat := by
  obtain rfl | ⟨c, rest, rfl, _, sign⟩ := plain
  · rfl
  · unfold parseU8
    split <;> rename_i shape
    · contradiction
    · exact absurd (List.cons.inj shape).1 sign
    · rw [shape]
      rfl
    · exact absurd (List.cons.inj shape).1 sign
    · rfl

/-- Reading a status undoes writing it. -/
theorem parseU8_statusText (status : UInt8) : parseU8 (statusText status) = some status := by
  have read : (statusText status).foldlM pushDigit 0 = some status.toNat := by
    rw [foldlM_pushDigit _ (by omega)]
    exact ⟨digits_statusText status, (Nat.ofDigitChars_ten_toDigits).symm, status.toNat_lt⟩
  rw [parseU8_of_plain (plain_statusText status), read]
  simp

/-- Writing a status undoes reading a plain one. -/
theorem statusText_of_parse {text : List Char} {status : UInt8} (plain : PlainStatus text)
    (read : parseU8 text = some status) : statusText status = text := by
  rw [parseU8_of_plain plain] at read
  obtain ⟨value, folded, rfl⟩ := Option.map_eq_some_iff.mp read
  obtain ⟨digits, rfl, small⟩ := (foldlM_pushDigit text (by omega)).mp folded
  rw [statusText, UInt8.toNat_ofNat_of_lt' small]
  exact toDigits_of_plain plain digits

/-! ## Verdicts -/

/-- What stands between the brackets of `name(…)`. -/
def args (name text : List Char) : Option (List Char) := do
  let text ← name.isPrefixOf? text
  let text ← ['('].isPrefixOf? text
  [')'].isSuffixOf? text

/-- The reader of the verdict string; the error is the message. -/
def Verdict.fromStr (s : String) : Except String Verdict :=
  if s = "pass" then .ok .pass
  else if s = "unsupported" then .ok .unsupported
  else match args "fail".toList s.toList with
  | some code =>
    if code.isEmpty || !code.all Char.isAlphanum then
      .error s!"verdict `{s}`: `fail(CODE)` takes an alphanumeric diagnostic code"
    else .ok (.fail (String.ofList code))
  | none => match args "exit".toList s.toList with
  | some status => match parseU8 status with
      | some parsed => .ok (.exit parsed)
      | none => .error s!"verdict `{s}`: `exit(N)` takes a status in 0..=255"
  | none => match args "trap".toList s.toList with
  | some kind => match TrapKind.parse (String.ofList kind) with
      | some parsed => .ok (.trap parsed)
      | none => .error (s!"verdict `{s}`: unknown trap kind `{String.ofList kind}`; " ++
          s!"the vocabulary is closed: {TrapKind.vocabulary}")
  | none => match args "ub".toList s.toList with
  | some tag => match classify (String.ofList tag) with
      | .ok _ => .ok (.ub (String.ofList tag))
      | .error e => .error s!"verdict `{s}`: {e.message}"
  | none => .error (s!"unknown verdict `{s}`; " ++
      "expected pass, fail(CODE), exit(N), trap(kind), ub(anchor) or unsupported")

theorem args_eq_some {name text inner : List Char} :
    args name text = some inner ↔ text = name ++ '(' :: (inner ++ [')']) := by
  unfold args
  simp only [Option.bind_eq_bind, Option.bind_eq_some_iff, List.isPrefixOf?_eq_some_iff_append_eq,
    List.isSuffixOf?_eq_some_iff_append_eq]
  constructor
  · rintro ⟨_, rfl, _, rfl, rfl⟩
    simp
  · rintro rfl
    exact ⟨_, rfl, _, rfl, rfl⟩

/-- The verdicts the reader answers. -/
def Verdict.Legal : Verdict → Prop
  | .fail code => code ≠ "" ∧ code.toList.all Char.isAlphanum
  | .ub anchor => ∃ ns, classify anchor = .ok ns
  | _ => True

/-- A verdict string whose status, if it has one, is in canonical decimal. -/
def PlainVerdict (s : String) : Prop :=
  ∀ status, args "exit".toList s.toList = some status → PlainStatus status

theorem toList_toString (verdict : Verdict) : verdict.toString.toList = match verdict with
    | .pass => "pass".toList
    | .fail code => "fail".toList ++ '(' :: (code.toList ++ [')'])
    | .exit status => "exit".toList ++ '(' :: (statusText status ++ [')'])
    | .trap kind => "trap".toList ++ '(' :: (kind.asStr.toList ++ [')'])
    | .ub anchor => "ub".toList ++ '(' :: (anchor.toList ++ [')'])
    | .unsupported => "unsupported".toList := by
  cases verdict <;> simp [Verdict.toString, statusText, ToString.toString]

theorem args_bracketed (name inner : List Char) :
    args name (name ++ '(' :: (inner ++ [')'])) = some inner :=
  args_eq_some.mpr rfl

theorem not_word_of_bracketed {s : String} {name inner : List Char}
    (text : s.toList = name ++ '(' :: (inner ++ [')'])) : s ≠ "pass" ∧ s ≠ "unsupported" := by
  have bracket : '(' ∈ s.toList := by simp [text]
  constructor <;> rintro rfl <;> simp at bracket

section Reader

variable {s : String} {inner : List Char}

theorem fromStr_fail (text : s.toList = "fail".toList ++ '(' :: (inner ++ [')'])) :
    Verdict.fromStr s = if inner.isEmpty || !inner.all Char.isAlphanum then
        .error s!"verdict `{s}`: `fail(CODE)` takes an alphanumeric diagnostic code"
      else .ok (.fail (String.ofList inner)) := by
  obtain ⟨pass, unsupported⟩ := not_word_of_bracketed text
  simp only [Verdict.fromStr, pass, unsupported, if_false, text, args_bracketed]

theorem fromStr_exit (text : s.toList = "exit".toList ++ '(' :: (inner ++ [')'])) :
    Verdict.fromStr s = match parseU8 inner with
      | some parsed => .ok (.exit parsed)
      | none => .error s!"verdict `{s}`: `exit(N)` takes a status in 0..=255" := by
  obtain ⟨pass, unsupported⟩ := not_word_of_bracketed text
  have fail : args "fail".toList s.toList = none := by simp [text, args]
  simp only [Verdict.fromStr, pass, unsupported, if_false, fail]
  simp only [text, args_bracketed]

theorem fromStr_trap (text : s.toList = "trap".toList ++ '(' :: (inner ++ [')'])) :
    Verdict.fromStr s = match TrapKind.parse (String.ofList inner) with
      | some parsed => .ok (.trap parsed)
      | none => .error (s!"verdict `{s}`: unknown trap kind `{String.ofList inner}`; " ++
          s!"the vocabulary is closed: {TrapKind.vocabulary}") := by
  obtain ⟨pass, unsupported⟩ := not_word_of_bracketed text
  have fail : args "fail".toList s.toList = none := by simp [text, args]
  have exit : args "exit".toList s.toList = none := by simp [text, args]
  simp only [Verdict.fromStr, pass, unsupported, if_false, fail, exit]
  simp only [text, args_bracketed]

theorem fromStr_ub (text : s.toList = "ub".toList ++ '(' :: (inner ++ [')'])) :
    Verdict.fromStr s = match classify (String.ofList inner) with
      | .ok _ => .ok (.ub (String.ofList inner))
      | .error e => .error s!"verdict `{s}`: {e.message}" := by
  obtain ⟨pass, unsupported⟩ := not_word_of_bracketed text
  have fail : args "fail".toList s.toList = none := by simp [text, args]
  have exit : args "exit".toList s.toList = none := by simp [text, args]
  have trap : args "trap".toList s.toList = none := by simp [text, args]
  simp only [Verdict.fromStr, pass, unsupported, if_false, fail, exit, trap]
  simp only [text, args_bracketed]

end Reader

/-- Reading undoes writing on the legal verdicts, and refuses what is written of the others. -/
theorem fromStr_toString (verdict : Verdict) :
    (Verdict.Legal verdict → Verdict.fromStr verdict.toString = .ok verdict) ∧
      (¬ Verdict.Legal verdict → ∃ message, Verdict.fromStr verdict.toString = .error message) := by
  have text := toList_toString verdict
  cases verdict with
  | pass | unsupported => simp [Verdict.Legal, Verdict.toString, Verdict.fromStr]
  | fail code =>
    rw [fromStr_fail text, String.ofList_toList]
    constructor
    · rintro ⟨nonempty, alphanumeric⟩
      rw [if_neg]
      simp [nonempty, alphanumeric]
    · intro illegal
      rw [if_pos]
      · exact ⟨_, rfl⟩
      · rw [Verdict.Legal, not_and] at illegal
        grind [String.toList_eq_nil_iff]
  | exit status => simp [fromStr_exit text, parseU8_statusText, Verdict.Legal]
  | trap kind => simp [fromStr_trap text, TrapKind.parse_asStr, Verdict.Legal]
  | ub anchor =>
    rw [fromStr_ub text, String.ofList_toList]
    cases outcome : classify anchor <;> simp [Verdict.Legal, outcome]

/-- An accepted verdict string is one of the two words or one of the four bracketed forms. -/
theorem fromStr_forms {s : String} {verdict : Verdict} (read : Verdict.fromStr s = .ok verdict) :
    s = "pass" ∨ s = "unsupported" ∨ ∃ name ∈ ["fail", "exit", "trap", "ub"], ∃ inner,
      s.toList = name.toList ++ '(' :: (inner ++ [')']) := by
  unfold Verdict.fromStr at read
  split at read
  · exact .inl ‹_›
  split at read
  · exact .inr (.inl ‹_›)
  split at read
  · exact .inr (.inr ⟨"fail", by simp, _, args_eq_some.mp ‹_›⟩)
  split at read
  · exact .inr (.inr ⟨"exit", by simp, _, args_eq_some.mp ‹_›⟩)
  split at read
  · exact .inr (.inr ⟨"trap", by simp, _, args_eq_some.mp ‹_›⟩)
  split at read
  · exact .inr (.inr ⟨"ub", by simp, _, args_eq_some.mp ‹_›⟩)
  · cases read

/-- Writing undoes reading, when a status is read in canonical decimal. -/
theorem toString_of_fromStr {s : String} {verdict : Verdict} (plain : PlainVerdict s)
    (read : Verdict.fromStr s = .ok verdict) : verdict.toString = s := by
  obtain rfl | rfl | ⟨name, among, inner, text⟩ := fromStr_forms read
  · simp only [Verdict.fromStr, if_true, Except.ok.injEq] at read
    rw [← read, Verdict.toString]
  · simp [Verdict.fromStr] at read
    rw [← read, Verdict.toString]
  · apply String.toList_inj.mp
    rw [toList_toString]
    simp only [List.mem_cons, List.not_mem_nil, or_false] at among
    obtain rfl | rfl | rfl | rfl := among
    · rw [fromStr_fail text] at read
      split at read
      · cases read
      · cases read
        rw [text]
        simp only [String.toList_ofList]
    · rw [fromStr_exit text] at read
      cases parsed : parseU8 inner with
      | none => simp [parsed] at read
      | some status =>
        simp only [parsed, Except.ok.injEq] at read
        subst read
        have inside := plain inner (by rw [text, args_bracketed])
        rw [text]
        simp only [statusText_of_parse inside parsed]
    · rw [fromStr_trap text] at read
      cases parsed : TrapKind.parse (String.ofList inner) with
      | none => simp [parsed] at read
      | some kind =>
        simp only [parsed, Except.ok.injEq] at read
        subst read
        rw [text]
        simp only [TrapKind.asStr_of_parse parsed, String.toList_ofList]
    · rw [fromStr_ub text] at read
      cases outcome : classify (String.ofList inner) with
      | error e => simp [outcome] at read
      | ok ns =>
        simp only [outcome, Except.ok.injEq] at read
        subst read
        rw [text]
        simp only [String.toList_ofList]

theorem plain_toString (verdict : Verdict) : PlainVerdict verdict.toString := by
  intro status inside
  have text := toList_toString verdict
  cases verdict with
  | exit value =>
    rw [text, args_bracketed] at inside
    cases inside
    exact plain_statusText value
  | _ => simp [text, args, List.isPrefixOf?] at inside

/-- Writing undoes whatever reading makes of a string. -/
def Faithful (s : String) : Prop := ∀ parsed, Verdict.fromStr s = .ok parsed → parsed.toString = s

/-- No sign and no leading zero, where the string is the verdict of an 8-bit status. -/
def CanonicalVerdict (s : String) : Prop :=
  ∀ status, args "exit".toList s.toList = some status → (parseU8 status).isSome → PlainStatus status

theorem plain_of_faithful {s : String} (faithful : Faithful s) : CanonicalVerdict s := by
  intro status inside number
  obtain ⟨value, parsed⟩ := Option.isSome_iff_exists.mp number
  have text := args_eq_some.mp inside
  have written : (Verdict.exit value).toString = s := faithful _ (by rw [fromStr_exit text, parsed])
  exact plain_toString (.exit value) status (written ▸ inside)

theorem faithful_of_canonical {s : String} (canonical : CanonicalVerdict s) : Faithful s := by
  intro parsed read
  refine toString_of_fromStr (fun status inside => canonical status inside ?_) read
  rw [fromStr_exit (args_eq_some.mp inside)] at read
  cases number : parseU8 status with
  | none => simp [number] at read
  | some value => rfl

/-- Reading undoes writing on the legal verdicts; writing undoes reading on the canonical strings
and on no others, and of these no two are read as one verdict. -/
theorem verdictText_faithful (s : String) :
    (∀ verdict : Verdict, Verdict.Legal verdict → Verdict.fromStr verdict.toString = .ok verdict) ∧
      (Faithful s ↔ CanonicalVerdict s) ∧
        ∀ other parsed, CanonicalVerdict s → CanonicalVerdict other →
          Verdict.fromStr s = .ok parsed → Verdict.fromStr other = .ok parsed → s = other := by
  refine
    ⟨fun verdict => (fromStr_toString verdict).1, ⟨plain_of_faithful, faithful_of_canonical⟩, ?_⟩
  intro other parsed canonical canonicalOther read readOther
  rw [← faithful_of_canonical canonical parsed read,
    ← faithful_of_canonical canonicalOther parsed readOther]

/-- Two strings that are read as one verdict, which is written as only one of them. -/
theorem exit007_unfaithful : ¬ Faithful "exit(007)" ∧
    Verdict.fromStr "exit(007)" = Verdict.fromStr "exit(7)" ∧
      Verdict.fromStr "exit(7)" = .ok (.exit 7) := by
  have text : "exit(007)".toList = "exit".toList ++ '(' :: (['0', '0', '7'] ++ [')']) := by simp
  have padded : Verdict.fromStr "exit(007)" = .ok (.exit 7) := fromStr_exit text
  have plain : Verdict.fromStr "exit(7)" = .ok (.exit 7) := (fromStr_toString (.exit 7)).1 trivial
  refine ⟨fun faithful => ?_, padded.trans plain.symm, plain⟩
  have written := faithful _ padded
  exact absurd written (by decide)

end Protocol

end WolfInterp
