import Mathlib.Data.Bool.AllAny
import Mathlib.Data.List.DropRight
import WolfInterp.Protocol.Verdict
import WolfInterp.Repl.History

/-!
# Test directives

A corpus file opens with a block of `//!` lines, some of which are directives. The strict reader
takes the whole header, two lenient readers answer for module formation; the `check:` directive is
also written. Writing quotes with Rust's Debug form, reading knows four escapes.
-/

namespace WolfInterp.Protocol

open WolfInterp.Lex (Text Unicode)
open Repl (lines)
open Sched (TrapKind)
open Differ (Phase)

/-- The five directive keys. Anything else on a `//!` line is prose. -/
inductive Key where
  | check | phase | conforms | member | warns
  deriving DecidableEq

def Key.asStr : Key → String
  | .check => "check"
  | .phase => "phase"
  | .conforms => "conforms"
  | .member => "member"
  | .warns => "warns"

def keys : List Key := [.check, .phase, .conforms, .member, .warns]

/-- How a `run(…)` program is expected to terminate. -/
inductive ExitSpec where
  | code (status : UInt8)
  | nonzero
  | trap (kind : Option TrapKind)
  deriving DecidableEq

/-- What a corpus file is expected to do. -/
inductive Check where
  | pass
  | fail (code : Text)
  | run (exit : ExitSpec) (stdout : Option Text)
  deriving DecidableEq

/-! ## Writing a check -/

def ExitSpec.display : ExitSpec → Text
  | .code status => "exit=".toList ++ statusText status
  | .nonzero => "exit=nonzero".toList
  | .trap none => "exit=trap".toList
  | .trap (some kind) => "exit=trap(".toList ++ kind.asStr.toList ++ [')']

/-- `char::escape_debug` inside a string. Which characters are printable is Unicode's. -/
def escapeDebug (printable : Char → Bool) (c : Char) : Text :=
  if c = '\x00' then ['\\', '0']
  else if c = '\t' then ['\\', 't']
  else if c = '\r' then ['\\', 'r']
  else if c = '\n' then ['\\', 'n']
  else if c = '"' ∨ c = '\\' then ['\\', c]
  else if printable c then [c]
  else ['\\', 'u', '\x7b'] ++ Nat.toDigits 16 c.toNat ++ ['\x7d']

/-- The Debug form of a string. -/
def debug (printable : Char → Bool) (text : Text) : Text :=
  '"' :: (text.flatMap (escapeDebug printable) ++ ['"'])

def Check.display (printable : Char → Bool) : Check → Text
  | .pass => "pass".toList
  | .fail code => "fail".toList ++ '(' :: (code ++ [')'])
  | .run exit none => "run".toList ++ '(' :: (exit.display ++ [')'])
  | .run exit (some text) =>
    "run".toList ++ '(' :: (exit.display ++ (", stdout=".toList ++ debug printable text) ++ [')'])

/-! ## Reading a check -/

section Reading

variable (u : Unicode)

/-- `str::trim` -/
def trim (text : Text) : Text := (text.dropWhile u.isWhitespace).rdropWhile u.isWhitespace

/-- `str::split_once` -/
def splitOnce (mark : Char) (text : Text) : Option (Text × Text) :=
  match text.dropWhile (· ≠ mark) with
  | [] => none
  | _ :: tail => some (text.takeWhile (· ≠ mark), tail)

def parseExit (value : Text) : Except String ExitSpec :=
  if value = "trap".toList then .ok (.trap none)
  else match args "trap".toList value with
  | some kind => match TrapKind.parse (String.ofList (trim u kind)) with
    | some parsed => .ok (.trap (some parsed))
    | none => .error (s!"unknown trap kind `{String.ofList (trim u kind)}`; " ++
        s!"the vocabulary is closed: {TrapKind.vocabulary}")
  | none =>
    if value = "nonzero".toList then .ok .nonzero
    else match parseU8 value with
      | some code => .ok (.code code)
      | none => .error (s!"`exit={String.ofList value}`: expected an exit status in 0..=255, " ++
          "`nonzero`, `trap`, or `trap(kind)`")

/-- What an escape of a directive string stands for. -/
def escapeOf (ch : Char) : Option Char :=
  if ch = '\\' then some '\\'
  else if ch = '"' then some '"'
  else if ch = 'n' then some '\n'
  else if ch = 't' then some '\t'
  else none

/-- The characters between the quotes, up to the first that is refused. -/
def unquote : Text → Except String Text
  | [] => .ok []
  | '\\' :: [] => .error "directive string ends in a lone `\\`"
  | '\\' :: other :: rest =>
    match escapeOf other with
    | some ch => (ch :: ·) <$> unquote rest
    | none => .error s!"unknown escape `\\{other}` in a directive string"
  | ch :: rest =>
    if ch = '"' then .error "unescaped `\"` inside a directive string"
    else (ch :: ·) <$> unquote rest

/-- A double-quoted directive string with `\\`, `\"`, `\n`, `\t` escapes. -/
def parseQuoted (value : Text) : Except String Text :=
  match (['"'].isPrefixOf? value).bind fun rest => ['"'].isSuffixOf? rest with
  | none => .error s!"expected a double-quoted string, got `{String.ofList value}`"
  | some body => unquote body

/-- The state of `split_args` between two characters. -/
structure Splitting where
  args : List Text := []
  current : Text := []
  depth : Nat := 0
  inString : Bool := false
  escaped : Bool := false

def Splitting.push (s : Splitting) (ch : Char) : Splitting :=
  { s with current := s.current ++ [ch] }

def Splitting.step (s : Splitting) (ch : Char) : Except String Splitting :=
  if s.inString then
    if s.escaped then .ok { s.push ch with escaped := false }
    else if ch = '\\' then .ok { s.push ch with escaped := true }
    else if ch = '"' then .ok { s.push ch with inString := false }
    else .ok (s.push ch)
  else if ch = '"' then .ok { s.push ch with inString := true }
  else if ch = '(' then .ok { s.push ch with depth := s.depth + 1 }
  else if ch = ')' then
    if s.depth = 0 then .error "unbalanced `)` in `run(…)`"
    else .ok { s.push ch with depth := s.depth - 1 }
  else if ch = ',' ∧ s.depth = 0 then .ok { s with args := s.args ++ [s.current], current := [] }
  else .ok (s.push ch)

/-- Splits `run(…)` arguments on top-level commas. -/
def splitArgs (inner : Text) : Except String (List Text) := do
  let s ← inner.foldlM Splitting.step {}
  if s.inString then .error "unterminated string in `run(…)`"
  else if s.depth ≠ 0 then .error "unbalanced `(` in `run(…)`"
  else if trim u s.current ≠ [] ∨ s.args ≠ [] then .ok (s.args ++ [s.current])
  else .ok s.args

/-- One argument of `run(…)`, after what the ones before it said. -/
def runArg (found : Option ExitSpec × Option Text) (arg : Text) :
    Except String (Option ExitSpec × Option Text) :=
  let arg := trim u arg
  if arg = [] then .error "empty argument in `run(…)`"
  else match splitOnce '=' arg with
  | none => .error s!"`run(…)` argument `{String.ofList arg}` is not `key=value`"
  | some (key, value) =>
    if trim u key = "exit".toList then
      if found.1.isSome then .error "duplicate `exit=` in `run(…)`"
      else do .ok (some (← parseExit u (trim u value)), found.2)
    else if trim u key = "stdout".toList then
      if found.2.isSome then .error "duplicate `stdout=` in `run(…)`"
      else do .ok (found.1, some (← parseQuoted (trim u value)))
    else .error (s!"unknown `run(…)` argument `{String.ofList (trim u key)}`; " ++
      "expected `exit` or `stdout`")

def parseRun (inner : Text) : Except String Check := do
  let found ← (← splitArgs u inner).foldlM (runArg u) (none, none)
  match found with
  | (none, _) => .error "`run(…)` requires `exit=`"
  | (some exit, stdout) => .ok (.run exit stdout)

def parseCheck (value : Text) : Except String Check :=
  if value = "pass".toList then .ok .pass
  else match args "fail".toList value with
  | some inner =>
    let code := trim u inner
    if code = [] then .error "`fail()` needs a diagnostic code, e.g. `fail(E1002)`"
    else if !code.all Char.isAlphanum then
      .error s!"`fail({String.ofList code})`: a diagnostic code is alphanumeric, e.g. `E1002`"
    else .ok (.fail code)
  | none => match args "run".toList value with
  | some inner => parseRun u inner
  | none => .error (s!"unknown `check:` value `{String.ofList value}`; " ++
      "expected `pass`, `fail(CODE)` or `run(…)`")

/-! ## What is written is read -/

variable {u}

/-- The characters of the arguments outside brackets and quotes. -/
def wordChars : List Char := "abcdefghijklmnopqrstuvwxyz0123456789-=".toList

variable {c : Char} {text : Text} {printable : Char → Bool}

theorem visible_of_word (word : c ∈ '(' :: ')' :: wordChars) : u.isWhitespace c = false := by
  have ascii : ∀ c ∈ '(' :: ')' :: wordChars, c.toNat < 128 ∧
      (c = ' ' ∨ 9 ≤ c.toNat ∧ c.toNat ≤ 13 : Bool) = false :=
    List.all_iff_forall_prop.mp (by decide)
  exact (u.whitespace_ascii c (ascii c word).1).trans (ascii c word).2

theorem visible_of_words (words : ∀ c ∈ text, c ∈ wordChars) :
    ∀ c ∈ text, u.isWhitespace c = false :=
  fun c among => visible_of_word (by simp [words c among])

theorem word_literal (text : String) (all : text.toList.all (· ∈ wordChars) = true) :
    ∀ c ∈ text.toList, c ∈ wordChars := by
  simpa using all

theorem word_asStr (kind : TrapKind) : ∀ c ∈ kind.asStr.toList, c ∈ wordChars :=
  word_literal kind.asStr (by cases kind <;> decide)

theorem word_statusText (status : UInt8) : ∀ c ∈ statusText status, c ∈ wordChars := by
  intro c among
  obtain ⟨small, name⟩ := digitChar_of_isDigit (digits_statusText status c among)
  have digits : ∀ d < 10, Nat.digitChar d ∈ wordChars := by decide
  exact name ▸ digits _ small

theorem trim_of_ends {d : Char} (first : text.head? = some c) (last : text.getLast? = some d)
    (front : u.isWhitespace c = false) (back : u.isWhitespace d = false) : trim u text = text := by
  have kept : text.dropWhile u.isWhitespace = text := by
    cases text with
    | nil => rfl
    | cons head rest =>
      cases first
      exact List.dropWhile_cons_of_neg (by simp [front])
  rw [trim, kept, List.rdropWhile_eq_self_iff]
  intro some_one
  rw [List.getLast?_eq_some_getLast some_one] at last
  cases last
  simp [back]

theorem trim_of_visible (visible : ∀ c ∈ text, u.isWhitespace c = false) : trim u text = text := by
  cases text with
  | nil => rfl
  | cons c rest =>
    exact trim_of_ends rfl (List.getLast?_eq_some_getLast (List.cons_ne_nil c rest))
      (visible c List.mem_cons_self) (visible _ (List.getLast_mem _))

theorem splitOnce_append {mark : Char} {before : Text} (absent : mark ∉ before) (tail : Text) :
    splitOnce mark (before ++ mark :: tail) = some (before, tail) := by
  have other : ∀ c ∈ before, decide (c ≠ mark) = true := fun c among =>
    decide_eq_true fun same => absent (same ▸ among)
  rw [splitOnce, List.dropWhile_append_of_pos other, List.takeWhile_append_of_pos other]
  simp

/-- What stands after the equals sign. -/
def ExitSpec.value : ExitSpec → Text
  | .code status => statusText status
  | .nonzero => "nonzero".toList
  | .trap none => "trap".toList
  | .trap (some kind) => "trap".toList ++ '(' :: (kind.asStr.toList ++ [')'])

theorem ExitSpec.display_eq (exit : ExitSpec) :
    exit.display = "exit".toList ++ '=' :: exit.value := by
  match exit with
  | .code _ | .nonzero | .trap none | .trap (some _) => rfl

theorem ExitSpec.visible (exit : ExitSpec) : ∀ c ∈ exit.value, u.isWhitespace c = false := by
  match exit with
  | .code status => exact visible_of_words (word_statusText status)
  | .nonzero => exact visible_of_words (word_literal "nonzero" (by decide))
  | .trap none => exact visible_of_words (word_literal "trap" (by decide))
  | .trap (some kind) =>
    have front := visible_of_words (u := u) (word_literal "trap" (by decide))
    have inside := visible_of_words (u := u) (word_asStr kind)
    have opening : u.isWhitespace '(' = false := visible_of_word List.mem_cons_self
    have closing : u.isWhitespace ')' = false :=
      visible_of_word (List.mem_cons_of_mem _ List.mem_cons_self)
    refine List.forall_mem_append.mpr ⟨front, List.forall_mem_cons.mpr ⟨opening, ?_⟩⟩
    exact List.forall_mem_append.mpr ⟨inside, List.forall_mem_singleton.mpr closing⟩

theorem parseExit_value (exit : ExitSpec) : parseExit u exit.value = .ok exit := by
  match exit with
  | .nonzero => rfl
  | .trap none => rfl
  | .trap (some kind) =>
    have word : "trap".toList ++ '(' :: (kind.asStr.toList ++ [')']) ≠ "trap".toList := by simp
    change parseExit u ("trap".toList ++ '(' :: (kind.asStr.toList ++ [')'])) = _
    rw [parseExit, if_neg word, args_bracketed]
    have visible : trim u kind.asStr.toList = kind.asStr.toList :=
      trim_of_visible (visible_of_words (word_asStr kind))
    simp only [visible, String.ofList_toList, TrapKind.parse_asStr]
  | .code status =>
    have digits := digits_statusText status
    have trap : statusText status ≠ "trap".toList := fun same => by
      exact absurd (digits 't' (same ▸ by decide)) (by decide)
    have nonzero : statusText status ≠ "nonzero".toList := fun same => by
      exact absurd (digits 'n' (same ▸ by decide)) (by decide)
    have bare : args "trap".toList (statusText status) = none := by
      cases found : args "trap".toList (statusText status) with
      | none => rfl
      | some inner =>
        exact absurd (digits 't' (args_eq_some.mp found ▸ by simp)) (by decide)
    change parseExit u (statusText status) = _
    simp only [parseExit, if_neg trap, bare, if_neg nonzero, parseU8_statusText]

/-- A character that Debug writes as itself or with an escape of directive strings. -/
def Written (printable : Char → Bool) (c : Char) : Prop :=
  c ∈ ['\\', '"', '\n', '\t'] ∨ c ∉ ['\x00', '\r'] ∧ printable c = true

theorem escapeDebug_of_written (written : Written printable c) :
    (∃ mark, escapeOf mark = some c ∧ escapeDebug printable c = ['\\', mark]) ∨
      c ≠ '\\' ∧ c ≠ '"' ∧ escapeDebug printable c = [c] := by
  by_cases escaped : c ∈ ['\\', '"', '\n', '\t']
  · left
    simp only [List.mem_cons, List.not_mem_nil, or_false] at escaped
    obtain rfl | rfl | rfl | rfl := escaped
    · exact ⟨'\\', rfl, rfl⟩
    · exact ⟨'"', rfl, rfl⟩
    · exact ⟨'n', rfl, rfl⟩
    · exact ⟨'t', rfl, rfl⟩
  · right
    obtain ⟨visible, isPrintable⟩ := written.resolve_left escaped
    simp only [List.mem_cons, List.not_mem_nil, or_false, not_or] at escaped visible
    simp [escapeDebug, escaped, visible, isPrintable]

theorem parseQuoted_debug (written : ∀ c ∈ text, Written printable c) :
    parseQuoted (debug printable text) = .ok text := by
  have read : unquote (text.flatMap (escapeDebug printable)) = .ok text := by
    induction text with
    | nil => rfl
    | cons c rest ih =>
      have tail := ih fun d among => written d (List.mem_cons_of_mem c among)
      rw [List.flatMap_cons]
      obtain ⟨mark, escape, shown⟩ | ⟨slash, quote, shown⟩ :=
        escapeDebug_of_written (written c List.mem_cons_self)
      · rw [shown]
        simp only [List.cons_append, List.nil_append, unquote, escape, tail]
        rfl
      · rw [shown, List.singleton_append, unquote, if_neg quote, tail]
        · rfl
        · exact fun isSlash => absurd isSlash slash
        · exact fun _ _ isSlash => absurd isSlash slash
  have body : (['"'].isPrefixOf? (debug printable text)).bind (['"'].isSuffixOf? ·) =
      some (text.flatMap (escapeDebug printable)) := by
    rw [Option.bind_eq_some_iff]
    exact ⟨_, List.isPrefixOf?_eq_some_iff_append_eq.mpr rfl,
      List.isSuffixOf?_eq_some_iff_append_eq.mpr rfl⟩
  rw [parseQuoted, body]
  exact read

/-! ## The arguments come apart -/

theorem splits_words {s : Splitting} (outside : s.inString = false)
    (word : ∀ c ∈ text, c ∈ wordChars) :
    text.foldlM Splitting.step s = .ok { s with current := s.current ++ text } := by
  induction text generalizing s with
  | nil => simp [pure, Except.pure]
  | cons c rest ih =>
    have quiet : ∀ c ∈ wordChars, c ≠ '"' ∧ c ≠ '(' ∧ c ≠ ')' ∧ c ≠ ',' :=
      List.all_iff_forall_prop.mp (by decide)
    obtain ⟨quote, opening, closing, comma⟩ := quiet c (word c List.mem_cons_self)
    have head : s.step c = .ok (s.push c) := by
      simp [Splitting.step, outside, quote, opening, closing, comma]
    have tail := ih (s := s.push c) outside fun d among => word d (List.mem_cons_of_mem c among)
    rw [List.foldlM_cons, head]
    refine Eq.trans tail ?_
    simp [Splitting.push]

theorem splits_display (exit : ExitSpec) :
    exit.display.foldlM Splitting.step {} = .ok { current := exit.display } := by
  match exit with
  | .code status =>
    refine splits_words rfl fun c among => ?_
    rcases List.mem_append.mp among with among | among
    · exact word_literal "exit=" (by decide) c among
    · exact word_statusText status c among
  | .nonzero => rfl
  | .trap none => rfl
  | .trap (some kind) =>
    have front : "exit=trap(".toList.foldlM Splitting.step {} =
        .ok { current := "exit=trap(".toList, depth := 1 } := rfl
    have back : (kind.asStr.toList ++ [')']).foldlM Splitting.step
        { current := "exit=trap(".toList, depth := 1 } =
          .ok { current := "exit=trap(".toList ++ kind.asStr.toList ++ [')'] } := by
      rw [List.foldlM_append, splits_words rfl (word_asStr kind)]
      rfl
    have whole : (ExitSpec.trap (some kind)).display =
        "exit=trap(".toList ++ (kind.asStr.toList ++ [')']) := List.append_assoc _ _ _
    rw [whole, List.foldlM_append, front]
    rw [List.append_assoc] at back
    exact back

theorem splits_escaped {s : Splitting} (inside : s.inString = true) (fresh : s.escaped = false)
    (written : ∀ c ∈ text, Written printable c) :
    (text.flatMap (escapeDebug printable)).foldlM Splitting.step s =
      .ok { s with current := s.current ++ text.flatMap (escapeDebug printable) } := by
  induction text generalizing s with
  | nil => simp [pure, Except.pure]
  | cons c rest ih =>
    have head : (escapeDebug printable c).foldlM Splitting.step s =
        .ok { s with current := s.current ++ escapeDebug printable c } := by
      obtain ⟨mark, _, shown⟩ | ⟨slash, quote, shown⟩ :=
        escapeDebug_of_written (written c List.mem_cons_self)
      · simp [shown, Splitting.step, Splitting.push, inside, fresh, bind, Except.bind, pure,
          Except.pure]
      · simp [shown, Splitting.step, Splitting.push, inside, fresh, slash, quote]
    have tail := ih (s := { s with current := s.current ++ escapeDebug printable c }) inside fresh
      fun d among => written d (List.mem_cons_of_mem c among)
    rw [List.flatMap_cons, List.foldlM_append, head]
    refine Eq.trans tail ?_
    simp

theorem trim_display (exit : ExitSpec) : trim u exit.display = exit.display := by
  rw [ExitSpec.display_eq]
  refine trim_of_visible fun c among => ?_
  rcases List.mem_append.mp among with among | among
  · exact visible_of_words (word_literal "exit" (by decide)) c among
  · rcases List.mem_cons.mp among with rfl | among
    · exact visible_of_word (by decide)
    · exact exit.visible c among

theorem splitArgs_display (exit : ExitSpec) : splitArgs u exit.display = .ok [exit.display] := by
  have some_one : exit.display ≠ [] := by simp [ExitSpec.display_eq]
  have spoken : trim u exit.display ≠ [] := (trim_display exit).symm ▸ some_one
  rw [splitArgs, splits_display]
  exact if_pos (.inl spoken)

theorem splitArgs_stdout (exit : ExitSpec) (written : ∀ c ∈ text, Written printable c) :
    splitArgs u (exit.display ++ (", stdout=".toList ++ debug printable text)) =
      .ok [exit.display, " stdout=".toList ++ debug printable text] := by
  have key : ", stdout=".toList.foldlM Splitting.step { current := exit.display } =
      .ok { args := [exit.display], current := " stdout=".toList } := rfl
  have quoted : (debug printable text).foldlM Splitting.step
      { args := [exit.display], current := " stdout=".toList } =
        .ok { args := [exit.display], current := " stdout=".toList ++ debug printable text } := by
    have opened : Splitting.step { args := [exit.display], current := " stdout=".toList } '"' =
        .ok { args := [exit.display], current := " stdout=\"".toList, inString := true } := rfl
    have shown : debug printable text =
        '"' :: (text.flatMap (escapeDebug printable) ++ ['"']) := rfl
    rw [shown, List.foldlM_cons, opened]
    change List.foldlM _ _ (_ ++ _) = _
    rw [List.foldlM_append, splits_escaped rfl rfl written]
    change Except.ok _ = _
    simp [Splitting.push]
  have whole : (exit.display ++ (", stdout=".toList ++ debug printable text)).foldlM
      Splitting.step {} =
        .ok { args := [exit.display], current := " stdout=".toList ++ debug printable text } := by
    rw [List.foldlM_append, splits_display]
    change List.foldlM _ _ _ = _
    rw [List.foldlM_append, key]
    exact quoted
  rw [splitArgs, whole]
  exact if_pos (.inr (List.cons_ne_nil _ _))

theorem runArg_exit (exit : ExitSpec) :
    runArg u (none, none) exit.display = .ok (some exit, none) := by
  have word : ∀ c ∈ "exit".toList, u.isWhitespace c = false :=
    visible_of_words (word_literal "exit" (by decide))
  have some_one : exit.display ≠ [] := by simp [ExitSpec.display_eq]
  have split : splitOnce '=' exit.display = some ("exit".toList, exit.value) := by
    rw [ExitSpec.display_eq]
    exact splitOnce_append (by decide) exit.value
  simp only [runArg, trim_display, if_neg some_one, split, trim_of_visible word,
    trim_of_visible exit.visible, parseExit_value]
  rfl

theorem runArg_stdout (exit : ExitSpec) (written : ∀ c ∈ text, Written printable c) :
    runArg u (some exit, none) (" stdout=".toList ++ debug printable text) =
      .ok (some exit, some text) := by
  have quote : u.isWhitespace '"' = false := u.whitespace_ascii '"' (by decide)
  have blank : u.isWhitespace ' ' = true := u.whitespace_ascii ' ' (by decide)
  have letter : u.isWhitespace 's' = false := visible_of_word (by decide)
  have last (front : Text) : (front ++ debug printable text).getLast? = some '"' := by
    rw [debug, ← List.cons_append, ← List.append_assoc, List.getLast?_concat]
  have word : ∀ c ∈ "stdout".toList, u.isWhitespace c = false :=
    visible_of_words (word_literal "stdout" (by decide))
  have whole : trim u (" stdout=".toList ++ debug printable text) =
      "stdout".toList ++ '=' :: debug printable text := by
    have front : trim u (" stdout=".toList ++ debug printable text) =
        trim u ("stdout=".toList ++ debug printable text) := by
      exact congrArg (List.rdropWhile u.isWhitespace) (List.dropWhile_cons_of_pos blank)
    exact front.trans (trim_of_ends rfl (last _) letter quote)
  have quoted : trim u (debug printable text) = debug printable text :=
    trim_of_ends rfl (last []) quote quote
  have split : splitOnce '=' ("stdout".toList ++ '=' :: debug printable text) =
      some ("stdout".toList, debug printable text) := splitOnce_append (by decide) _
  have some_one : "stdout".toList ++ '=' :: debug printable text ≠ [] := List.cons_ne_nil _ _
  have other : "stdout".toList ≠ "exit".toList := by decide
  simp only [runArg, whole, if_neg some_one, split, trim_of_visible word, if_neg other, quoted,
    parseQuoted_debug written]
  rfl

/-- The checks whose code is one and whose text is written with the escapes that are read. -/
def Check.Legal (printable : Char → Bool) : Check → Prop
  | .pass | .run _ none => True
  | .fail code => code ≠ [] ∧ code.all Char.isAlphanum
  | .run _ (some text) => ∀ c ∈ text, Written printable c

theorem visible_of_alphanum (letter : c.isAlphanum = true) : u.isWhitespace c = false := by
  have range : 48 ≤ c.toNat ∧ c.toNat < 123 := by
    delta Char.isAlphanum Char.isAlpha Char.isUpper Char.isLower Char.isDigit at letter
    simp [UInt32.le_iff_toNat_le] at letter
    omega
  have blank : c ≠ ' ' := by
    rintro rfl
    exact absurd range.1 (by decide)
  have late : ¬c.toNat ≤ 13 := by omega
  rw [u.whitespace_ascii c (by omega)]
  simp [blank, late]

/-- A written check is read as the check that was written. -/
theorem parseCheck_display {check : Check} (legal : check.Legal printable) :
    parseCheck u (check.display printable) = .ok check := by
  have notPass {name inner : Text} : name ++ '(' :: (inner ++ [')']) ≠ "pass".toList :=
    fun same => by
    have bracket : '(' ∈ "pass".toList := same ▸ by simp
    exact absurd bracket (by decide)
  have notFail (inner : Text) :
      args "fail".toList ("run".toList ++ '(' :: (inner ++ [')'])) = none := rfl
  match check, legal with
  | .pass, _ => rfl
  | .fail code, ⟨some_one, letters⟩ =>
    have visible := trim_of_visible fun c among =>
      visible_of_alphanum (u := u) (List.all_eq_true.mp letters c among)
    simp only [Check.display, parseCheck, if_neg notPass, args_bracketed, visible,
      if_neg some_one, letters]
    rfl
  | .run exit none, _ =>
    simp only [Check.display, parseCheck, if_neg notPass, notFail, args_bracketed, parseRun,
      splitArgs_display]
    change (runArg u (none, none) exit.display >>= pure) >>= _ = _
    rw [runArg_exit]
    rfl
  | .run exit (some text), written =>
    simp only [Check.display, parseCheck, if_neg notPass, notFail, args_bracketed, parseRun,
      splitArgs_stdout exit written]
    change (runArg u (none, none) exit.display >>= fun found =>
      runArg u found (" stdout=".toList ++ debug printable text) >>= pure) >>= _ = _
    rw [runArg_exit]
    change (runArg u (some exit, none) _ >>= pure) >>= _ = _
    rw [runArg_stdout exit written]
    rfl

end Reading

/-! ## The header -/

/-- The parsed header of one corpus file. -/
structure Directives where
  check : Option Check
  phase : Option Phase
  conforms : List Text
  warns : List Text
  member : Bool
  prose : List Text

/-- A malformed header, located at the offending line where one exists. -/
structure DirectiveError where
  line : Option Nat
  message : String

/-- One `key: value` sighting, kept with its line. -/
structure Seen (α : Type) where
  value : α
  line : Nat

/-- What the strict walk holds between two lines. -/
structure Header where
  check : Option (Seen Check) := none
  phase : Option (Seen Phase) := none
  conforms : Option (Seen (List Text)) := none
  warns : Option (Seen (List Text)) := none
  member : Option (Seen Bool) := none
  prose : List Text := []

section Headers

variable (u : Unicode)

/-- Splits a header line into its key and value when it opens with a known key. -/
def splitDirective (line : Text) : Option (Key × Text) := do
  let (head, tail) ← splitOnce ':' line
  let key ← keys.find? fun key => key.asStr.toList = trim u head
  some (key, trim u tail)

/-- The items between the commas of a value: none empty, each judged, none twice. -/
def parseItems (absent stray : String) (judge : Text → Except String Unit) (twice : Text → String)
    (value : Text) : Except String (List Text) :=
  if trim u value = [] then .error absent
  else (value.splitOn ',').foldlM (fun items raw => do
    let item := trim u raw
    if item = [] then .error stray
    judge item
    if item ∈ items then .error (twice item)
    else .ok (items ++ [item])) []

def parseConforms : Text → Except String (List Text) :=
  parseItems u "`conforms:` needs at least one anchor" "empty anchor in `conforms:` (stray comma?)"
    (fun tag => match classify (String.ofList tag) with
      | .ok _ => .ok ()
      | .error e => .error e.message)
    fun tag => s!"anchor `{String.ofList tag}` listed twice in `conforms:`"

def parseWarns : Text → Except String (List Text) :=
  parseItems u
    "`warns:` needs at least one code; the empty set is spelled by omitting the directive"
    "empty code in `warns:` (stray comma?)"
    (fun code => if code.all Char.isAlphanum then .ok ()
      else .error (s!"`warns:` code `{String.ofList code}` is not alphanumeric; " ++
        "codes look like `W1301` or `E0802`"))
    fun code => s!"code `{String.ofList code}` listed twice in `warns:`"

def parsePhase (value : Text) : Except String Phase :=
  match Phase.parseStr (String.ofList value) with
  | some rung => .ok rung
  | none => .error (s!"unknown phase `{String.ofList value}`; canonical ladder is none, lex, " ++
      "parse, resolve, typecheck, mem, wir, run")

def parseMember (value : Text) : Except String Bool :=
  if value = "true".toList then .ok true
  else if value = "false".toList then .ok false
  else .error s!"`member:` takes `true` or `false`, not `{String.ofList value}`"

/-- A directive the header holds at most once. -/
def sight {α : Type} (existing : Option (Seen α)) (key : Key) (lineno : Nat)
    (parsed : Except String α) : Except DirectiveError (Option (Seen α)) :=
  match existing with
  | some seen =>
    .error ⟨some lineno, s!"duplicate `{key.asStr}:` directive (first seen on line {seen.line})"⟩
  | none => match parsed with
    | .ok value => .ok (some ⟨value, lineno⟩)
    | .error message => .error ⟨some lineno, message⟩

def Header.directive (header : Header) (lineno : Nat) (key : Key) (value : Text) :
    Except DirectiveError Header := do
  match key with
  | .check => .ok { header with check := ← sight header.check key lineno (parseCheck u value) }
  | .phase => .ok { header with phase := ← sight header.phase key lineno (parsePhase value) }
  | .conforms =>
    .ok { header with conforms := ← sight header.conforms key lineno (parseConforms u value) }
  | .warns => .ok { header with warns := ← sight header.warns key lineno (parseWarns u value) }
  | .member => .ok { header with member := ← sight header.member key lineno (parseMember value) }

/-- The source with a leading byte order mark stripped. -/
def withoutBom (source : Text) : Text := (['\ufeff'].isPrefixOf? source).getD source

/-- A `#!` line that does not open the file-wide attribute. -/
def isShebang (raw : Text) : Bool := "#!".toList.isPrefixOf raw && !"#![".toList.isPrefixOf raw

/-- The walk over the leading `//!` block. -/
def Header.walk (header : Header) : List (Text × Nat) → Except DirectiveError Header
  | [] => .ok header
  | (raw, index) :: rest =>
    if index = 0 ∧ isShebang raw then header.walk rest
    else match "//!".toList.isPrefixOf? raw with
    | none => .ok header
    | some line =>
      let line := trim u line
      if line = [] then { header with prose := header.prose ++ [[]] }.walk rest
      else match splitDirective u line with
      | none => { header with prose := header.prose ++ [line] }.walk rest
      | some (key, value) => do (← header.directive u (index + 1) key value).walk rest

/-- An explicit `member:` decides; without one the entry pair does. -/
def Header.isMember (header : Header) : Bool :=
  match header.member with
  | some seen => seen.value
  | none => !(header.check.isSome && header.phase.isSome)

/-- What the end of the block makes of the sightings. -/
def Header.close (header : Header) : Except DirectiveError Directives :=
  let run := "a `member: true` file is exercised through its module's entry file and is never " ++
    "conform-run directly, so it carries no "
  let half (one other : String) := s!"`{one}:` without `{other}:` is half an entry pair " ++
    s!"(`[conf.directive.member]`); add the `{other}:`, or drop the `{one}:` to make the file a " ++
    "plain member (`[conf.directive.standalone]`)"
  let lacks (key : String) := s!"a `member: false` standalone entry has no `{key}:` directive " ++
    "(`[conf.directive.standalone]`)"
  match header.isMember, header.check, header.phase, header.warns with
  | true, some seen, _, _ => .error ⟨some seen.line,
      if header.member.isSome then run ++ "`check:`" else half "check" "phase"⟩
  | true, none, some seen, _ => .error ⟨some seen.line,
      if header.member.isSome then run ++ "`phase:`" else half "phase" "check"⟩
  | false, none, _, _ => .error ⟨none, lacks "check"⟩
  | false, some _, none, _ => .error ⟨none, lacks "phase"⟩
  | true, none, none, some seen => .error ⟨some seen.line, run ++ "`warns:`"⟩
  | _, check, phase, warns => .ok {
      check := check.map Seen.value
      phase := phase.map Seen.value
      conforms := (header.conforms.map Seen.value).getD []
      warns := (warns.map Seen.value).getD []
      member := header.isMember
      prose := header.prose }

/-- Parses the leading `//!` directive block of a corpus source. -/
def parseHeader (source : Text) : Except DirectiveError Directives := do
  (← ({} : Header).walk u (lines (withoutBom source)).zipIdx).close

/-! ## The lenient readers -/

/-- The lines of the leading block, without their marker. -/
def blockLines (entries : List (Text × Nat)) : List Text :=
  (((entries.map Prod.fst).takeWhile fun raw => "//!".toList.isPrefixOf raw).filterMap
    fun raw => "//!".toList.isPrefixOf? raw).map (trim u)

def headerLines (source : Text) : List Text :=
  blockLines u ((lines (withoutBom source)).zipIdx.dropWhile fun entry =>
    entry.2 = 0 ∧ isShebang entry.1)

/-- What one line says of membership. -/
def memberOf (rest : Text) : Option Bool :=
  match splitDirective u rest with
  | some (.member, value) =>
    if value = "true".toList then some true
    else if value = "false".toList then some false
    else none
  | _ => none

def memberKey (source : Text) : Option Bool := (headerLines u source).findSome? (memberOf u)

/-- Whether `check:` and `phase:` have been seen, after one more line. -/
def seePair (seen : Bool × Bool) (rest : Text) : Bool × Bool :=
  match splitDirective u rest with
  | some (.check, _) => (true, seen.2)
  | some (.phase, _) => (seen.1, true)
  | _ => seen

def entryPair (source : Text) : Bool :=
  let seen := (headerLines u source).foldl (seePair u) (false, false)
  seen.1 && seen.2

/-! ## The readers agree -/

/-- The sightings the lenient readers ask for: `check:`, `phase:`, and the value of `member:`. -/
def Header.noted (header : Header) : (Bool × Bool) × Option Bool :=
  ((header.check.isSome, header.phase.isSome), header.member.map Seen.value)

/-- The sightings after one more line of the block. -/
def note (seen : (Bool × Bool) × Option Bool) (line : Text) : (Bool × Bool) × Option Bool :=
  (seePair u seen.1 line, seen.2.or (memberOf u line))

variable {u}

/-- A directive that is taken is the first of its key, and its value parses. -/
theorem sight_bind {α β : Type} {existing : Option (Seen α)} {key : Key} {lineno : Nat}
    {parsed : Except String α} {rest : Option (Seen α) → Except DirectiveError β} {answer : β}
    (taken : (sight existing key lineno parsed >>= rest) = .ok answer) :
    existing = none ∧ ∃ value, parsed = .ok value ∧ rest (some ⟨value, lineno⟩) = .ok answer := by
  cases existing with
  | some seen => cases taken
  | none =>
    cases parsed with
    | error message => cases taken
    | ok value => exact ⟨rfl, value, rfl, taken⟩

theorem note_prose {line : Text} (prose : splitDirective u line = none)
    (seen : (Bool × Bool) × Option Bool) : note u seen line = seen := by
  simp [note, seePair, memberOf, prose]

variable {header : Header}

theorem Header.directive_noted {next : Header} {lineno : Nat} {key : Key} {line value : Text}
    (split : splitDirective u line = some (key, value))
    (sighted : header.directive u lineno key value = .ok next) :
    next.noted = note u header.noted line := by
  rw [note, seePair, memberOf, split]
  cases key with
  | check | phase | conforms | warns =>
    obtain ⟨_, _, _, same⟩ := sight_bind sighted
    cases same
    simp [noted]
  | member =>
    obtain ⟨fresh, flag, parsed, same⟩ := sight_bind sighted
    cases same
    unfold parseMember at parsed
    split at parsed
    · cases parsed
      simp [noted, *]
    · split at parsed <;> cases parsed
      simp [noted, *]

theorem blockLines_cons (entry : Text × Nat) (rest : List (Text × Nat)) :
    blockLines u (entry :: rest) = match "//!".toList.isPrefixOf? entry.1 with
      | none => []
      | some line => trim u line :: blockLines u rest := by
  have marked : "//!".toList.isPrefixOf entry.1 = ("//!".toList.isPrefixOf? entry.1).isSome :=
    (List.isSome_isPrefixOf?_eq_isPrefixOf _ _).symm
  rw [blockLines, List.map_cons, List.takeWhile_cons, marked]
  cases strip : "//!".toList.isPrefixOf? entry.1 with
  | none => rfl
  | some line =>
    rw [Option.isSome_some, if_pos rfl, List.filterMap_cons_some strip]
    rfl

/-- The strict walk has noted what the lenient readers note of the same lines. -/
theorem Header.walk_noted {entries : List (Text × Nat)}
    (code : ∀ entry ∈ entries, ¬(entry.2 = 0 ∧ isShebang entry.1)) {final : Header}
    (walked : header.walk u entries = .ok final) :
    final.noted = (blockLines u entries).foldl (note u) header.noted := by
  induction entries generalizing header with
  | nil =>
    cases walked
    rfl
  | cons entry rest ih =>
    have later : ∀ e ∈ rest, ¬(e.2 = 0 ∧ isShebang e.1) := fun e among =>
      code e (List.mem_cons_of_mem entry among)
    rw [walk, if_neg (code entry List.mem_cons_self)] at walked
    rw [blockLines_cons]
    cases strip : "//!".toList.isPrefixOf? entry.1 with
    | none =>
      simp only [strip] at walked
      cases walked
      rfl
    | some line =>
      simp only [strip] at walked ⊢
      rw [List.foldl_cons]
      split at walked
      · rename_i empty
        rw [empty, note_prose rfl]
        have settled := ih later walked
        exact settled
      · cases directive : splitDirective u (trim u line) with
        | none =>
          simp only [directive] at walked
          rw [note_prose directive]
          have settled := ih later walked
          exact settled
        | some sighting =>
          simp only [directive] at walked
          cases sighted : header.directive u (entry.2 + 1) sighting.1 sighting.2 with
          | error e =>
            rw [sighted] at walked
            cases walked
          | ok next =>
            rw [sighted] at walked
            rw [ih later walked, directive_noted directive sighted]

/-- The two lenient readers, as one walk. -/
theorem foldl_note (block : List Text) (seen : (Bool × Bool) × Option Bool) :
    block.foldl (note u) seen =
      (block.foldl (seePair u) seen.1, seen.2.or (block.findSome? (memberOf u))) := by
  induction block generalizing seen with
  | nil => simp
  | cons line rest ih =>
    rw [List.foldl_cons, ih, List.foldl_cons, List.findSome?_cons, note, Option.or_assoc]
    cases memberOf u line <;> rfl

/-- A header that closes is an entry with both sightings, or a member with neither. -/
theorem Header.close_spec {directives : Directives} (closed : header.close = .ok directives) :
    directives.member = header.isMember ∧
      (header.check.isSome && header.phase.isSome) = !header.isMember := by
  unfold close at closed
  dsimp only at closed
  split at closed <;> cases closed
  rename_i noCheck hasCheck _ hasPhase _
  refine ⟨rfl, ?_⟩
  cases member : header.isMember with
  | true =>
    have absent := Option.eq_none_iff_forall_ne_some.mpr fun seen => noCheck seen member
    rw [absent]
    rfl
  | false =>
    obtain ⟨seen, check⟩ := Option.ne_none_iff_exists'.mp (hasCheck member)
    obtain ⟨rung, phase⟩ := Option.ne_none_iff_exists'.mp (hasPhase seen member check)
    rw [check, phase]
    rfl

/-- The strict walk leaves a shebang out as the lenient readers do. -/
theorem parseHeader_noted {source : Text} {directives : Directives}
    (parsed : parseHeader u source = .ok directives) :
    ∃ header : Header, header.close = .ok directives ∧
      header.noted = (headerLines u source).foldl (note u) ((false, false), none) := by
  cases walked : ({} : Header).walk u (lines (withoutBom source)).zipIdx with
  | error e =>
    rw [parseHeader, walked] at parsed
    cases parsed
  | ok header =>
    rw [parseHeader, walked] at parsed
    refine ⟨header, parsed, ?_⟩
    rw [headerLines]
    cases all : lines (withoutBom source) with
    | nil =>
      rw [all] at walked
      cases walked
      rfl
    | cons raw rest =>
      rw [all, List.zipIdx_cons] at walked
      rw [List.zipIdx_cons, List.dropWhile_cons]
      have later : ∀ entry ∈ rest.zipIdx 1, ¬(entry.2 = 0 ∧ isShebang entry.1) := by
        intro entry among first
        have bound := List.le_snd_of_mem_zipIdx among
        omega
      split
      · rename_i shebang
        rw [Header.walk, if_pos (of_decide_eq_true shebang)] at walked
        have kept : (rest.zipIdx 1).dropWhile (fun entry => entry.2 = 0 ∧ isShebang entry.1) =
            rest.zipIdx 1 := by
          rw [List.dropWhile_eq_self_iff]
          intro some_one
          exact fun shebang => later _ (List.getElem_mem some_one) (of_decide_eq_true shebang)
        rw [kept]
        exact Header.walk_noted later walked
      · rename_i code
        refine Header.walk_noted (fun entry among => ?_) walked
        rcases List.mem_cons.mp among with rfl | among
        · exact fun first => code (decide_eq_true first)
        · exact later entry among

/-- A check that is legal is read back as it was written, and on a source whose header parses the
lenient readers answer as the header does. -/
theorem directives_agree (printable : Char → Bool) (u : Unicode) :
    (∀ check : Check, check.Legal printable →
      parseCheck u (check.display printable) = .ok check) ∧
    ∀ source directives, parseHeader u source = .ok directives →
      (∀ key, memberKey u source = some key → key = directives.member) ∧
        (entryPair u source = true ↔ directives.member = false) := by
  refine ⟨fun check legal => parseCheck_display legal, fun source directives parsed => ?_⟩
  obtain ⟨header, closed, noted⟩ := parseHeader_noted parsed
  obtain ⟨member, pair⟩ := Header.close_spec closed
  rw [foldl_note] at noted
  obtain ⟨seen, key⟩ := Prod.mk.inj noted
  constructor
  · intro flag found
    rw [Option.none_or, ← memberKey, found] at key
    obtain ⟨sighting, held, rfl⟩ := Option.map_eq_some_iff.mp key
    rw [member, Header.isMember, held]
  · rw [entryPair, ← seen, member]
    simp [pair]

end Headers

/-- A check that quotes its text, and the header of an entry. -/
theorem directives_agree_entry :
    let printable : Char → Bool := fun c => 32 ≤ c.toNat ∧ c.toNat < 127
    let check : Check := .run (.code 7) (some "a \"b\"\n".toList)
    let source := "//! check: fail(E0301)\n//! phase: resolve\n//! member: false\n".toList
    parseCheck .ascii (check.display printable) = .ok check ∧
      ∃ directives, parseHeader .ascii source = .ok directives ∧
        (∀ key, memberKey .ascii source = some key → key = directives.member) ∧
        (entryPair .ascii source = true ↔ directives.member = false) := by
  intro printable check source
  obtain ⟨back, readers⟩ := directives_agree printable .ascii
  have legal : check.Legal printable := by
    simp [check, printable, Check.Legal, Written]
  have parses : (parseHeader .ascii source).isOk = true := by decide +kernel
  cases parsed : parseHeader .ascii source with
  | error _ =>
    rw [parsed] at parses
    cases parses
  | ok directives => exact ⟨back check legal, directives, rfl, readers source directives parsed⟩

/-- A carriage return is written with an escape that is not read, and an entry without the key has
no member key. -/
theorem directives_differ :
    (¬∀ check : Check, parseCheck .ascii (check.display fun c => 32 ≤ c.toNat ∧ c.toNat < 127) =
      .ok check) ∧
    ∃ directives, parseHeader .ascii "//! check: pass\n//! phase: run".toList = .ok directives ∧
      directives.member = false ∧
        memberKey .ascii "//! check: pass\n//! phase: run".toList = none := by
  constructor
  · intro back
    have unread := back (.run .nonzero (some ['\r']))
    cases unread
  · exact ⟨_, rfl, rfl, rfl⟩

end WolfInterp.Protocol
