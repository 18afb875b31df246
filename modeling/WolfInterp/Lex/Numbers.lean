import WolfInterp.Lib.Runs
import WolfInterp.Lex.Progress

/-!
# Number literals

The grammar of integer and float literals, and how far the scan of one goes. The scan takes the
longest literal, except that after a base prefix it takes every letter, digit and underscore and
then refuses what is not of the base.
-/

namespace WolfInterp.Lex

open Runs

/-! ## The grammar -/

/-- What `eat_decimal_run` steps over. -/
def isRunChar (c : Char) : Bool := isAsciiDigit c || c = '_'

/-- `DEC_LIT` -/
def DecLit (text : Text) : Prop :=
  ∃ d rest, text = d :: rest ∧ isAsciiDigit d = true ∧ ∀ c ∈ rest, isRunChar c = true

/-- `EXPONENT` -/
def Exponent (text : Text) : Prop :=
  ∃ e sign digits, text = e :: (sign ++ digits) ∧ (e = 'e' ∨ e = 'E') ∧
    (sign = [] ∨ sign = ['+'] ∨ sign = ['-']) ∧ DecLit digits

/-- `FLOAT` -/
inductive FloatLit : Text → Prop where
  | point {whole fraction : Text} : DecLit whole → DecLit fraction →
      FloatLit (whole ++ '.' :: fraction)
  | pointExponent {whole fraction exponent : Text} : DecLit whole → DecLit fraction →
      Exponent exponent → FloatLit (whole ++ '.' :: (fraction ++ exponent))
  | exponent {whole exponent : Text} : DecLit whole → Exponent exponent →
      FloatLit (whole ++ exponent)

/-- `INT`, where `base` gives the markers of the based literals. -/
inductive IntLit (base : Char → Option Nat) : Text → Prop where
  | decimal {text : Text} : DecLit text → IntLit base text
  | based {marker d : Char} {radix : Nat} {rest : Text} : base marker = some radix →
      (toDigit radix d).isSome → (∀ c ∈ rest, c = '_' ∨ (toDigit radix c).isSome) →
      IntLit base ('0' :: marker :: d :: rest)

/-- The markers as the grammar writes them, in lower case. -/
def writtenBase : Char → Option Nat
  | 'x' => some 16
  | 'o' => some 8
  | 'b' => some 2
  | _ => none

/-- A literal and the token for it. -/
def Literal (base : Char → Option Nat) (tok : Tok) (text : Text) : Prop :=
  tok = .int text ∧ IntLit base text ∨ tok = .float text ∧ FloatLit text

/-- The longest prefix of the text that is a literal. -/
def Longest (base : Char → Option Nat) (text : Text) (tok : Tok) (literal : Text) : Prop :=
  Literal base tok literal ∧ literal <+: text ∧
    ∀ tok' other, Literal base tok' other → other <+: text → other <+: literal

/-- What the scan takes after a base prefix. -/
def isBasedChar (c : Char) : Bool := c = '_' || Lexer.isAsciiAlphanumeric c

/-- A base prefix whose run is empty or has a character outside the base. -/
def Spoiled (text : Text) : Prop :=
  ∃ marker tail radix, text = '0' :: marker :: tail ∧ baseRadix marker = some radix ∧
    (tail.takeWhile isBasedChar = [] ∨
      ∃ c ∈ tail.takeWhile isBasedChar, c ≠ '_' ∧ toDigit radix c = none)

/-- A base prefix with an underscore directly after it. -/
def Underscored (text : Text) : Prop :=
  ∃ marker tail, text = '0' :: marker :: '_' :: tail ∧ (baseRadix marker).isSome

/-- The lexer stepped over a literal, pushed its token and reported some errors. -/
def Scanned (start : Lexer) (tok : Tok) (literal rest : Text) (errors : List Diag)
    (l : Lexer) : Prop :=
  start.rest = literal ++ rest ∧
    l = { start.feed literal rest with
      tokens := start.tokens ++ [⟨tok, ⟨start.pos, start.pos + bytes literal⟩⟩]
      errors := start.errors ++ errors }

/-! ## Prefixes of a literal -/

theorem DecLit.run {text : Text} (lit : DecLit text) : ∀ c ∈ text, isRunChar c = true := by
  obtain ⟨d, rest, rfl, digit, inside⟩ := lit
  intro c among
  rcases List.mem_cons.mp among with rfl | among
  · simp [isRunChar, digit]
  · exact inside c among

/-- The run a scan takes from a digit on is a literal. -/
theorem DecLit.of_takeWhile {d : Char} {rest : Text} (digit : isAsciiDigit d = true) :
    DecLit ((d :: rest).takeWhile isRunChar) := by
  refine ⟨d, rest.takeWhile isRunChar, ?_, digit, fun c => mem_takeWhile⟩
  exact List.takeWhile_cons_of_pos (by simp [isRunChar, digit])

/-- A prefix that is a decimal literal ends within the run. -/
theorem DecLit.prefix_run {lit run rest : Text} (isLit : DecLit lit)
    (inside : ∀ c ∈ run, isRunChar c = true) (ends : ∀ c, rest.head? = some c → isRunChar c = false)
    (isPrefix : lit <+: run ++ rest) : lit <+: run := by
  have within := prefix_takeWhile isLit.run isPrefix
  rwa [(takeWhile_run inside ends).1] at within

/-- What follows a decimal literal with no run character is what follows the run. -/
theorem DecLit.split_run {lit run rest tail : Text} {c : Char} (isLit : DecLit lit)
    (stop : isRunChar c = false) (inside : ∀ c ∈ run, isRunChar c = true)
    (ends : ∀ c, rest.head? = some c → isRunChar c = false)
    (isPrefix : lit ++ c :: tail <+: run ++ rest) : lit = run ∧ c :: tail <+: rest := by
  obtain ⟨more, whole⟩ := isPrefix
  rw [List.append_assoc, List.cons_append] at whole
  obtain ⟨same, left⟩ := run_unique isLit.run stop inside ends whole
  exact ⟨same, ⟨more, left⟩⟩

theorem Exponent.head {exponent : Text} (isExponent : Exponent exponent) :
    ∃ c tail, exponent = c :: tail ∧ isRunChar c = false ∧ c ≠ '.' := by
  obtain ⟨e, sign, digits, rfl, rfl | rfl, -, -⟩ := isExponent
  · exact ⟨'e', _, rfl, by decide, by decide⟩
  · exact ⟨'E', _, rfl, by decide, by decide⟩

section

variable {sign digits : Text} (isSign : sign = [] ∨ sign = ['+'] ∨ sign = ['-'])
include isSign

/-- The sign of an exponent is settled by the character after its letter. -/
theorem sign_eq (isLit : DecLit digits) : sign = if (sign ++ digits).head? = some '+' then ['+']
      else if (sign ++ digits).head? = some '-' then ['-'] else [] := by
  rcases isSign with rfl | rfl | rfl
  · obtain ⟨d, rest, rfl, digit, -⟩ := isLit
    have plus : d ≠ '+' := by
      rintro rfl
      exact absurd digit (by decide)
    have minus : d ≠ '-' := by
      rintro rfl
      exact absurd digit (by decide)
    simp [plus, minus]
  · rfl
  · rfl

theorem signs_eq {sign' digits' tail : Text} (isSign' : sign' = [] ∨ sign' = ['+'] ∨ sign' = ['-'])
    (isLit : DecLit digits) (isLit' : DecLit digits')
    (isPrefix : sign ++ digits <+: sign' ++ digits' ++ tail) : sign = sign' := by
  have filled (s t : Text) (lit : DecLit t) : s ++ t ≠ [] := by
    obtain ⟨d, rest, rfl, -⟩ := lit
    simp
  have heads : (sign ++ digits).head? = (sign' ++ digits').head? := by
    obtain ⟨more, whole⟩ := isPrefix
    have same := congrArg List.head? whole
    rwa [List.head?_append_of_ne_nil _ (filled sign digits isLit),
      List.head?_append_of_ne_nil _ (filled sign' digits' isLit')] at same
  rw [sign_eq isSign isLit, sign_eq isSign' isLit', heads]

end

/-- The exponent a scan takes is the longest one. -/
theorem Exponent.prefix_of {exponent taken rest : Text} (isExponent : Exponent exponent)
    (isTaken : Exponent taken) (ends : ∀ c, rest.head? = some c → isRunChar c = false)
    (isPrefix : exponent <+: taken ++ rest) : exponent <+: taken := by
  obtain ⟨e, sign, digits, rfl, -, isSign, isLit⟩ := isExponent
  obtain ⟨e', sign', digits', rfl, -, isSign', isLit'⟩ := isTaken
  rw [List.cons_append, List.cons_prefix_cons] at isPrefix
  obtain ⟨rfl, tail⟩ := isPrefix
  have same := signs_eq isSign isSign' isLit isLit' tail
  subst same
  rw [List.append_assoc, List.prefix_append_right_inj] at tail
  have within := isLit.prefix_run isLit'.run ends tail
  exact List.cons_prefix_cons.mpr ⟨rfl, (List.prefix_append_right_inj sign).mpr within⟩

/-! ## The pieces of a decimal scan -/

namespace Lexer

/-- The test for a dot that joins the literal. -/
def Dot (l : Lexer) : Prop :=
  l.peek = some '.' ∧ l.peekAt 1 ≠ some '.' ∧ (l.peekAt 1).any isAsciiDigit = true

instance (l : Lexer) : Decidable l.Dot := inferInstanceAs (Decidable (_ ∧ _))

/-- The test for an exponent. -/
def Exp (l : Lexer) : Prop :=
  (l.peek = some 'e' ∨ l.peek = some 'E') ∧
    (if l.peekAt 1 = some '+' ∨ l.peekAt 1 = some '-' then l.peekAt 2 else l.peekAt 1).any
      isAsciiDigit = true

instance (l : Lexer) : Decidable l.Exp := inferInstanceAs (Decidable (_ ∧ _))

def eatFraction (l : Lexer) : Lexer := if l.Dot then l.bump.eatDecimalRun else l

def eatExponent (l : Lexer) : Lexer :=
  if l.Exp then
    let l := l.bump
    let l := if l.peek = some '+' ∨ l.peek = some '-' then l.bump else l
    l.eatDecimalRun
  else l

theorem eatDecimalRun_feed (l : Lexer) (text rest : Text) : (l.feed text rest).eatDecimalRun =
      l.feed (text ++ rest.takeWhile isRunChar) (rest.dropWhile isRunChar) := by
  rw [eatDecimalRun, skipWhile_eq, feed_feed]
  rfl

/-- A fraction is taken whole, or there is none. -/
theorem eatFraction_cases (l : Lexer) :
    (∃ fraction rest, DecLit fraction ∧ l.rest = '.' :: (fraction ++ rest) ∧
        (∀ c, rest.head? = some c → isRunChar c = false) ∧ l.Dot ∧
        l.eatFraction = l.feed ('.' :: fraction) rest) ∨ (¬ l.Dot ∧ l.eatFraction = l ∧
        ∀ fraction, DecLit fraction → ¬ '.' :: fraction <+: l.rest) := by
  by_cases dot : l.Dot
  · left
    obtain ⟨point, -, next⟩ := id dot
    obtain ⟨tail, split⟩ : ∃ tail, l.rest = '.' :: tail := List.head?_eq_some_iff.mp point
    have pointed : l.rest = ['.'] ++ tail := split
    have second : l.peekAt 1 = tail.head? := peekAt_eq pointed rfl
    rw [second] at next
    cases tail with
    | nil => cases next
    | cons d tail =>
      have digit : isAsciiDigit d = true := next
      refine ⟨(d :: tail).takeWhile isRunChar, (d :: tail).dropWhile isRunChar,
        DecLit.of_takeWhile digit, ?_, fun c => head_dropWhile, dot, ?_⟩
      · rw [split, List.takeWhile_append_dropWhile]
      · rw [eatFraction, if_pos dot, bump_eq split, eatDecimalRun_feed]
        rfl
  · right
    refine ⟨dot, if_neg dot, ?_⟩
    rintro fraction ⟨d, more, rfl, digit, -⟩ ⟨tail, split⟩
    have pointed : l.rest = ['.'] ++ (d :: (more ++ tail)) := split.symm
    have second : l.peekAt 1 = some d := peekAt_eq pointed rfl
    apply dot
    refine ⟨?_, ?_, ?_⟩
    · rw [peek, ← split]
      rfl
    · rw [second]
      rintro same
      cases same
      exact absurd digit (by decide)
    · rw [second]
      exact digit

/-- An exponent is taken whole, or there is none. -/
theorem eatExponent_cases (l : Lexer) :
    (∃ exponent rest, Exponent exponent ∧ l.rest = exponent ++ rest ∧
        (∀ c, rest.head? = some c → isRunChar c = false) ∧ l.Exp ∧
        l.eatExponent = l.feed exponent rest) ∨
      (¬ l.Exp ∧ l.eatExponent = l ∧ ∀ exponent, Exponent exponent → ¬ exponent <+: l.rest) := by
  by_cases exp : l.Exp
  · left
    obtain ⟨letter, next⟩ := id exp
    obtain ⟨e, tail, split, isE⟩ : ∃ e tail, l.rest = e :: tail ∧ (e = 'e' ∨ e = 'E') := by
      rcases letter with small | large
      · obtain ⟨tail, split⟩ := List.head?_eq_some_iff.mp small
        exact ⟨'e', tail, split, .inl rfl⟩
      · obtain ⟨tail, split⟩ := List.head?_eq_some_iff.mp large
        exact ⟨'E', tail, split, .inr rfl⟩
    have width : e.utf8Size = 1 := by rcases isE with rfl | rfl <;> rfl
    have lettered : l.rest = [e] ++ tail := split
    have second : l.peekAt 1 = tail.head? := peekAt_eq lettered (by simp [width])
    -- With the sign apart, a digit follows.
    obtain ⟨sign, d, more, rfl, isSign, digit⟩ : ∃ sign d more, tail = sign ++ d :: more ∧
        (sign = [] ∨ sign = ['+'] ∨ sign = ['-']) ∧ isAsciiDigit d = true := by
      rw [second] at next
      split at next
      next signed =>
        obtain ⟨s, rest, rfl, isSign⟩ : ∃ s rest, tail = s :: rest ∧ (s = '+' ∨ s = '-') := by
          rcases signed with plus | minus
          · obtain ⟨rest, rfl⟩ := List.head?_eq_some_iff.mp plus
            exact ⟨'+', rest, rfl, .inl rfl⟩
          · obtain ⟨rest, rfl⟩ := List.head?_eq_some_iff.mp minus
            exact ⟨'-', rest, rfl, .inr rfl⟩
        have size : s.utf8Size = 1 := by rcases isSign with rfl | rfl <;> rfl
        have signedRest : l.rest = [e, s] ++ rest := split
        have third : l.peekAt 2 = rest.head? := peekAt_eq signedRest (by simp [width, size])
        rw [third] at next
        cases rest with
        | nil => cases next
        | cons d more =>
          refine ⟨[s], d, more, rfl, ?_, next⟩
          rcases isSign with rfl | rfl
          · exact .inr (.inl rfl)
          · exact .inr (.inr rfl)
      next unsigned =>
        cases tail with
        | nil => cases next
        | cons d more => exact ⟨[], d, more, rfl, .inl rfl, next⟩
    refine ⟨e :: (sign ++ (d :: more).takeWhile isRunChar), (d :: more).dropWhile isRunChar,
      ⟨e, sign, _, rfl, isE, isSign, DecLit.of_takeWhile digit⟩, ?_, fun c => head_dropWhile, exp,
      ?_⟩
    · rw [split, List.cons_append, List.append_assoc, List.takeWhile_append_dropWhile]
    · rw [eatExponent, if_pos exp, bump_eq split]
      rcases isSign with rfl | rfl | rfl
      · have unsigned : ¬ ((l.feed [e] ([] ++ d :: more)).peek = some '+' ∨
            (l.feed [e] ([] ++ d :: more)).peek = some '-') := by
          have head : (l.feed [e] ([] ++ d :: more)).peek = some d := rfl
          rw [head]
          rintro (same | same) <;> (cases same; exact absurd digit (by decide))
        dsimp only
        rw [if_neg unsigned, eatDecimalRun_feed]
        rfl
      · have signed : (l.feed [e] (['+'] ++ d :: more)).bump =
            (l.feed [e] (['+'] ++ d :: more)).feed ['+'] (d :: more) := bump_eq rfl
        dsimp only
        rw [if_pos (.inl rfl), signed, feed_feed, eatDecimalRun_feed]
        rfl
      · have signed : (l.feed [e] (['-'] ++ d :: more)).bump =
            (l.feed [e] (['-'] ++ d :: more)).feed ['-'] (d :: more) := bump_eq rfl
        dsimp only
        rw [if_pos (.inr rfl), signed, feed_feed, eatDecimalRun_feed]
        rfl
  · right
    refine ⟨exp, if_neg exp, ?_⟩
    rintro exponent ⟨e, sign, digits, rfl, isE, isSign, d, more, rfl, digit, -⟩ ⟨tail, split⟩
    have width : e.utf8Size = 1 := by rcases isE with rfl | rfl <;> rfl
    apply exp
    refine ⟨?_, ?_⟩
    · rw [peek, ← split]
      rcases isE with rfl | rfl
      · exact .inl rfl
      · exact .inr rfl
    · have lettered : l.rest = [e] ++ (sign ++ (d :: more) ++ tail) := split.symm
      have second : l.peekAt 1 = (sign ++ (d :: more) ++ tail).head? :=
        peekAt_eq lettered (by simp [width])
      rw [second]
      rcases isSign with rfl | rfl | rfl
      · have unsigned : ¬ (d = '+' ∨ d = '-') := by
          rintro (rfl | rfl) <;> exact absurd digit (by decide)
        simpa [unsigned] using digit
      · have signed : l.rest = [e, '+'] ++ (d :: more ++ tail) := split.symm
        have third : l.peekAt 2 = some d := peekAt_eq signed (by simp [width]; rfl)
        simpa [third] using digit
      · have signed : l.rest = [e, '-'] ++ (d :: more ++ tail) := split.symm
        have third : l.peekAt 2 = some d := peekAt_eq signed (by simp [width]; rfl)
        simpa [third] using digit

/-- Without a base prefix the scan is a run of digits, a fraction and an exponent. -/
theorem scanNumber_plain {start : Lexer}
    (plain : (if start.peek = some '0' then (start.peekAt 1).bind baseRadix else none) = none) :
    start.scanNumber =
      let l := start.eatDecimalRun.eatFraction.eatExponent
      some (l.push
        (if start.eatDecimalRun.Dot ∨ start.eatDecimalRun.eatFraction.Exp then
          .float (slice start l) else .int (slice start l)) ⟨start.pos, l.pos⟩) := by
  rw [scanNumber, plain]
  rfl

theorem slice_feed {start : Lexer} {text rest : Text} (split : start.rest = text ++ rest) :
    slice start (start.feed text rest) = text := by
  have length : start.rest.length - rest.length = text.length := by
    rw [split, List.length_append]
    omega
  change start.rest.take (start.rest.length - rest.length) = text
  rw [length, split, List.take_left]

end Lexer

/-! ## The longest literal -/

section Longest

variable {base : Char → Option Nat} {run fraction exponent rest : Text}

/-- What a decimal scan found: the run, perhaps a fraction, perhaps an exponent, and after each no
more of its kind. -/
structure Pieces (text run fraction exponent rest : Text) : Prop where
  whole : text = run ++ (fraction ++ (exponent ++ rest))
  lit : DecLit run
  runEnds : ∀ c, (fraction ++ (exponent ++ rest)).head? = some c → isRunChar c = false
  point : fraction = [] ∧ (∀ digits, DecLit digits → ¬ '.' :: digits <+: exponent ++ rest) ∨
    ∃ digits, fraction = '.' :: digits ∧ DecLit digits
  fractionEnds : ∀ c, (exponent ++ rest).head? = some c → isRunChar c = false
  exp : exponent = [] ∧ (∀ power, Exponent power → ¬ power <+: rest) ∨ Exponent exponent
  exponentEnds : ∀ c, rest.head? = some c → isRunChar c = false

variable {text : Text}

section

variable (pieces : Pieces text run fraction exponent rest)
include pieces

/-- An exponent that begins where the scan looked for one is within the one it took. -/
theorem Pieces.exponent_prefix {power : Text} (isExponent : Exponent power)
    (isPrefix : power <+: exponent ++ rest) : power <+: exponent := by
  rcases pieces.exp with ⟨rfl, none⟩ | taken
  · exact absurd isPrefix (none power isExponent)
  · exact isExponent.prefix_of taken pieces.exponentEnds isPrefix

/-- A float literal of the text is within the pieces. -/
theorem Pieces.float_prefix {other : Text} (isFloat : FloatLit other) (isPrefix : other <+: text) :
    other <+: run ++ (fraction ++ exponent) := by
  rw [pieces.whole] at isPrefix
  have point : ∀ {whole digits tail : Text}, DecLit whole → DecLit digits →
      whole ++ '.' :: (digits ++ tail) <+: run ++ (fraction ++ (exponent ++ rest)) →
      whole = run ∧ ∃ taken, fraction = '.' :: taken ∧ DecLit taken ∧
        digits ++ tail <+: taken ++ (exponent ++ rest) := by
    intro whole digits tail isWhole isDigits isPrefix
    obtain ⟨same, after⟩ := isWhole.split_run (by decide) pieces.lit.run pieces.runEnds isPrefix
    refine ⟨same, ?_⟩
    rcases pieces.point with ⟨rfl, none⟩ | ⟨taken, rfl, isTaken⟩
    · have shorter : '.' :: digits <+: '.' :: (digits ++ tail) := by
        rw [← List.cons_append]
        exact List.prefix_append _ _
      exact absurd (shorter.trans after) (none digits isDigits)
    · rw [List.cons_append, List.cons_prefix_cons] at after
      exact ⟨taken, rfl, isTaken, after.2⟩
  cases isFloat with
  | @point whole digits isWhole isDigits =>
    rw [← List.append_nil digits] at isPrefix
    obtain ⟨rfl, taken, rfl, isTaken, after⟩ := point isWhole isDigits isPrefix
    rw [List.append_nil] at after
    have within := isDigits.prefix_run isTaken.run pieces.fractionEnds after
    rw [List.prefix_append_right_inj, List.cons_append, List.cons_prefix_cons]
    exact ⟨rfl, within.trans (List.prefix_append _ _)⟩
  | @pointExponent whole digits power isWhole isDigits isExponent =>
    obtain ⟨rfl, taken, rfl, isTaken, after⟩ := point isWhole isDigits isPrefix
    obtain ⟨e, tail, rfl, stop, -⟩ := isExponent.head
    obtain ⟨rfl, left⟩ := isDigits.split_run stop isTaken.run pieces.fractionEnds after
    have within := pieces.exponent_prefix isExponent left
    rw [List.prefix_append_right_inj, List.cons_append, List.cons_prefix_cons,
      List.prefix_append_right_inj]
    exact ⟨rfl, within⟩
  | @exponent whole power isWhole isExponent =>
    obtain ⟨e, tail, rfl, stop, noPoint⟩ := isExponent.head
    obtain ⟨rfl, after⟩ := isWhole.split_run stop pieces.lit.run pieces.runEnds isPrefix
    rw [List.prefix_append_right_inj]
    rcases pieces.point with ⟨rfl, -⟩ | ⟨taken, rfl, -⟩
    · exact pieces.exponent_prefix isExponent after
    · rw [List.cons_append, List.cons_prefix_cons] at after
      exact absurd after.1 noPoint

theorem Pieces.float (some_piece : fraction ≠ [] ∨ exponent ≠ []) :
    FloatLit (run ++ (fraction ++ exponent)) := by
  rcases pieces.point with ⟨rfl, -⟩ | ⟨digits, rfl, isDigits⟩
  · rcases pieces.exp with ⟨rfl, -⟩ | isExponent
    · simp at some_piece
    · exact .exponent pieces.lit isExponent
  · rcases pieces.exp with ⟨rfl, -⟩ | isExponent
    · rw [List.append_nil]
      exact .point pieces.lit isDigits
    · exact .pointExponent pieces.lit isDigits isExponent

theorem Pieces.literal_prefix
    (apart : ∀ marker tail, text = '0' :: marker :: tail → base marker = none) {tok : Tok}
    {other : Text} (isLit : Literal base tok other) (isPrefix : other <+: text) :
    other <+: run ++ (fraction ++ exponent) := by
  rcases isLit with ⟨-, isInt⟩ | ⟨-, isFloat⟩
  · cases isInt with
    | decimal isDec =>
      rw [pieces.whole] at isPrefix
      exact (isDec.prefix_run pieces.lit.run pieces.runEnds isPrefix).trans
        (List.prefix_append _ _)
    | based isBase =>
      obtain ⟨more, whole⟩ := isPrefix
      have none := apart _ _ whole.symm
      rw [none] at isBase
      cases isBase
  · exact pieces.float_prefix isFloat isPrefix

end

end Longest

namespace Lexer

/-- The scan of a number without a base prefix leaves its pieces behind. -/
theorem scanNumber_pieces {start : Lexer} {c : Char} {tail : Text} (split : start.rest = c :: tail)
    (digit : isAsciiDigit c = true)
    (plain : (if start.peek = some '0' then (start.peekAt 1).bind baseRadix else none) = none) :
    ∃ run fraction exponent rest, Pieces start.rest run fraction exponent rest ∧
        start.scanNumber = some ((start.feed (run ++ (fraction ++ exponent)) rest).push
          (if fraction ≠ [] ∨ exponent ≠ [] then .float (run ++ (fraction ++ exponent))
            else .int (run ++ (fraction ++ exponent)))
          ⟨start.pos, start.pos + bytes (run ++ (fraction ++ exponent))⟩) := by
  have isRun : DecLit (start.rest.takeWhile isRunChar) := by
    rw [split]
    exact .of_takeWhile digit
  have whole : start.rest = start.rest.takeWhile isRunChar ++ start.rest.dropWhile isRunChar :=
    List.takeWhile_append_dropWhile.symm
  have ate : start.eatDecimalRun =
      start.feed (start.rest.takeWhile isRunChar) (start.rest.dropWhile isRunChar) := rfl
  have runEnds : ∀ c, (start.rest.dropWhile isRunChar).head? = some c → isRunChar c = false :=
    fun c => head_dropWhile
  rw [scanNumber_plain plain, ate]
  revert isRun whole runEnds
  generalize start.rest.takeWhile isRunChar = run
  generalize start.rest.dropWhile isRunChar = afterRun
  intro isRun whole runEnds
  -- What the fraction takes, and what it leaves to the exponent.
  obtain ⟨fraction, afterFraction, rfl, fractionEnds, point, dot, ateFraction⟩ :
      ∃ fraction afterFraction, afterRun = fraction ++ afterFraction ∧
        (∀ c, afterFraction.head? = some c → isRunChar c = false) ∧
        (fraction = [] ∧ (∀ digits, DecLit digits → ¬ '.' :: digits <+: afterFraction) ∨
          ∃ digits, fraction = '.' :: digits ∧ DecLit digits) ∧
        ((start.feed run afterRun).Dot ↔ fraction ≠ []) ∧
        (start.feed run afterRun).eatFraction = start.feed (run ++ fraction) afterFraction := by
    rcases eatFraction_cases (start.feed run afterRun) with
      ⟨digits, rest, isDigits, here, ends, dot, eaten⟩ | ⟨noDot, eaten, none⟩
    · refine ⟨'.' :: digits, rest, here, ends, .inr ⟨digits, rfl, isDigits⟩, ?_, ?_⟩
      · simp [dot]
      · rw [eaten, feed_feed]
    · refine ⟨[], afterRun, rfl, runEnds, .inl ⟨rfl, none⟩, ?_, ?_⟩
      · simp [noDot]
      · rw [eaten, List.append_nil]
  rw [ateFraction]
  obtain ⟨exponent, rest, rfl, exponentEnds, power, exp, ateExponent⟩ :
      ∃ exponent rest, afterFraction = exponent ++ rest ∧
        (∀ c, rest.head? = some c → isRunChar c = false) ∧
        (exponent = [] ∧ (∀ power, Exponent power → ¬ power <+: rest) ∨ Exponent exponent) ∧
        ((start.feed (run ++ fraction) afterFraction).Exp ↔ exponent ≠ []) ∧
        (start.feed (run ++ fraction) afterFraction).eatExponent =
          start.feed (run ++ (fraction ++ exponent)) rest := by
    rcases eatExponent_cases (start.feed (run ++ fraction) afterFraction) with
      ⟨power, rest, isPower, here, ends, exp, eaten⟩ | ⟨noExp, eaten, none⟩
    · refine ⟨power, rest, here, ends, .inr isPower, ?_, ?_⟩
      · obtain ⟨e, tail, rfl, -⟩ := isPower.head
        simp [exp]
      · rw [eaten, feed_feed, List.append_assoc]
    · refine ⟨[], afterFraction, rfl, fractionEnds, .inl ⟨rfl, none⟩, ?_, ?_⟩
      · simp [noExp]
      · rw [eaten, List.append_nil]
  have spelled : start.rest = (run ++ (fraction ++ exponent)) ++ rest := by
    rw [whole, List.append_assoc, List.append_assoc]
  refine ⟨run, fraction, exponent, rest, ⟨?_, isRun, runEnds, point, fractionEnds, power,
    exponentEnds⟩, ?_⟩
  · exact whole
  · simp only [ateExponent, slice_feed spelled, dot, exp]
    rfl

/-! ## Based literals -/

/-- After a base prefix the scan takes the whole run of letters, digits and underscores. -/
theorem scanNumber_based {start : Lexer} {marker : Char} {tail : Text} {radix : Nat}
    (split : start.rest = '0' :: marker :: tail) (based : baseRadix marker = some radix) :
    start.scanNumber =
      let literal := '0' :: marker :: tail.takeWhile isBasedChar
      let span := ⟨start.pos, start.pos + bytes literal⟩
      let l := start.feed literal (tail.dropWhile isBasedChar)
      let wellFormed := tail.takeWhile isBasedChar ≠ [] ∧
        (tail.takeWhile isBasedChar).all fun c => c = '_' || (toDigit radix c).isSome
      some ((if wellFormed then l else l.error "E0106" span "gram.lex.number").push
        (.int literal) span) := by
  have marked : start.rest = ['0'] ++ marker :: tail := split
  have second : start.peekAt 1 = some marker := peekAt_eq marked rfl
  have first : start.peek = some '0' := by rw [peek, split]; rfl
  have width := baseRadix_ascii based
  have skipped : start.skip 2 = some (start.feed ['0', marker] tail) := by
    have two : bytes ['0', marker] = 2 := by simp [width]; rfl
    rw [← two]
    exact skip_eq split
  have whole : start.rest =
      ('0' :: marker :: tail.takeWhile isBasedChar) ++ tail.dropWhile isBasedChar := by
    rw [split, List.cons_append, List.cons_append, List.takeWhile_append_dropWhile]
  have inner : (start.feed ['0', marker] tail).rest =
      tail.takeWhile isBasedChar ++ tail.dropWhile isBasedChar :=
    List.takeWhile_append_dropWhile.symm
  have ate : (start.feed ['0', marker] tail).skipWhile (fun c => c = '_' || isAsciiAlphanumeric c) =
      start.feed ('0' :: marker :: tail.takeWhile isBasedChar) (tail.dropWhile isBasedChar) := by
    rw [skipWhile_eq, feed_feed]
    rfl
  have digits : slice (start.feed ['0', marker] tail)
      (start.feed ('0' :: marker :: tail.takeWhile isBasedChar) (tail.dropWhile isBasedChar)) =
        tail.takeWhile isBasedChar := by
    have cut := slice_feed inner
    rwa [feed_feed] at cut
  rw [scanNumber, first, if_pos rfl, second, Option.bind_some, based]
  simp only [skipped, Option.bind_eq_bind, Option.bind_some, ate, digits]
  split
  · rw [slice_feed whole]
    rfl
  · have same : slice start ((start.feed ('0' :: marker :: tail.takeWhile isBasedChar)
        (tail.dropWhile isBasedChar)).error "E0106"
          ⟨start.pos, start.pos + bytes ('0' :: marker :: tail.takeWhile isBasedChar)⟩
          "gram.lex.number") = '0' :: marker :: tail.takeWhile isBasedChar := slice_feed whole
    rw [← same]
    rfl

end Lexer

/-- A digit of any base is a letter or a digit. -/
theorem isBasedChar_of_toDigit {radix : Nat} {c : Char} (digit : (toDigit radix c).isSome) :
    isBasedChar c = true := by
  by_contra none
  simp only [isBasedChar, Lexer.isAsciiAlphanumeric, isAsciiDigit, Bool.or_eq_true,
    decide_eq_true_eq, not_or] at none
  obtain ⟨-, ⟨noDigit, noSmall⟩, noLarge⟩ := none
  rw [toDigit, if_neg noDigit, if_neg noSmall, if_neg noLarge] at digit
  cases digit

/-- The characters a decimal literal, a fraction or an exponent goes on with are no markers. -/
theorem marker_apart {marker : Char} {radix : Nat} (based : baseRadix marker = some radix) :
    isRunChar marker = false ∧ marker ≠ '.' ∧ marker ≠ 'e' ∧ marker ≠ 'E' := by
  revert based
  fun_cases baseRadix marker with
  | case7 => simp
  | _ => exact fun _ => by decide

/-- A literal that begins with a base prefix is a based literal or the zero alone. -/
theorem literal_of_based {marker : Char} {tail other : Text} {radix : Nat} {tok : Tok}
    (based : baseRadix marker = some radix) (isLit : Literal baseRadix tok other)
    (isPrefix : other <+: '0' :: marker :: tail) :
    other = ['0'] ∨ ∃ digits, other = '0' :: marker :: digits ∧
      ∀ c ∈ digits, isBasedChar c = true := by
  obtain ⟨noRun, noPoint, noSmall, noLarge⟩ := marker_apart based
  have alone : ∀ {lit : Text}, DecLit lit → ∀ {more : Text}, lit ++ more <+: '0' :: marker :: tail →
      lit = ['0'] ∧ (∀ c, more.head? = some c → c = marker) := by
    rintro lit ⟨d, rest, rfl, -, inside⟩ more isPrefix
    rw [List.cons_append, List.cons_prefix_cons] at isPrefix
    obtain ⟨rfl, isPrefix⟩ := isPrefix
    cases rest with
    | nil =>
      refine ⟨rfl, fun c head => ?_⟩
      obtain ⟨more, rfl⟩ := List.head?_eq_some_iff.mp head
      rw [List.nil_append, List.cons_prefix_cons] at isPrefix
      exact isPrefix.1
    | cons c rest =>
      rw [List.cons_append, List.cons_prefix_cons] at isPrefix
      have isRun := inside c List.mem_cons_self
      rw [isPrefix.1, noRun] at isRun
      cases isRun
  rcases isLit with ⟨-, isInt⟩ | ⟨-, isFloat⟩
  · cases isInt with
    | decimal isDec =>
      rw [← List.append_nil other] at isPrefix
      exact .inl (alone isDec isPrefix).1
    | @based marker' d radix' rest _ first inside =>
      rw [List.cons_prefix_cons, List.cons_prefix_cons] at isPrefix
      obtain ⟨-, rfl, -⟩ := isPrefix
      refine .inr ⟨d :: rest, rfl, fun c among => ?_⟩
      rcases List.mem_cons.mp among with rfl | among
      · exact isBasedChar_of_toDigit first
      · rcases inside c among with rfl | digit
        · rfl
        · exact isBasedChar_of_toDigit digit
  · cases isFloat with
    | point isWhole | pointExponent isWhole =>
      exact absurd ((alone isWhole isPrefix).2 '.' rfl).symm noPoint
    | exponent isWhole isExponent =>
      obtain ⟨e, sign, digits, rfl, isE, -⟩ := isExponent
      have same := (alone isWhole isPrefix).2 e rfl
      rcases isE with rfl | rfl
      · exact absurd same.symm noSmall
      · exact absurd same.symm noLarge

/-- The scan of a text that begins with a digit. A spoiled based literal is taken with its whole run
and refused once; any other literal, but for a based one that begins with an underscore, is the
longest prefix the grammar has, with the markers in either case, and goes through. -/
theorem scanNumber_longest (start : Lexer) {c : Char} {rest : Text} (split : start.rest = c :: rest)
    (digit : isAsciiDigit c = true) : ∃ tok literal after errors l, start.scanNumber = some l ∧
      Scanned start tok literal after errors l ∧ (Spoiled start.rest → tok = .int literal ∧
        (∃ marker tail, start.rest = '0' :: marker :: tail ∧
          literal = '0' :: marker :: tail.takeWhile isBasedChar) ∧
        errors = [⟨"E0106", ⟨start.pos, start.pos + bytes literal⟩, "gram.lex.number"⟩]) ∧
      (¬ Spoiled start.rest → ¬ Underscored start.rest →
        errors = [] ∧ Longest baseRadix start.rest tok literal) := by
  by_cases based : ∃ marker tail radix, start.rest = '0' :: marker :: tail ∧
      baseRadix marker = some radix
  · obtain ⟨marker, tail, radix, prefixed, isBase⟩ := based
    have scanned := Lexer.scanNumber_based prefixed isBase
    have whole : start.rest =
        ('0' :: marker :: tail.takeWhile isBasedChar) ++ tail.dropWhile isBasedChar := by
      rw [prefixed, List.cons_append, List.cons_append, List.takeWhile_append_dropWhile]
    by_cases wellFormed : tail.takeWhile isBasedChar ≠ [] ∧
        ((tail.takeWhile isBasedChar).all fun c => c = '_' || (toDigit radix c).isSome) = true
    · have sound : ¬ Spoiled start.rest := by
        rintro ⟨marker', tail', radix', prefixed', isBase', spoiled⟩
        rw [prefixed] at prefixed'
        cases prefixed'
        rw [isBase] at isBase'
        cases isBase'
        rcases spoiled with empty | ⟨c, among, noScore, noDigit⟩
        · exact wellFormed.1 empty
        · have inBase := List.all_eq_true.mp wellFormed.2 c among
          simp [noScore, noDigit] at inBase
      simp only [if_pos wellFormed] at scanned
      refine ⟨_, _, _, [], _, scanned, ⟨whole, by rw [List.append_nil]; rfl⟩,
        fun spoiled => absurd spoiled sound, fun _ noScore => ⟨rfl, ?_, ⟨_, whole.symm⟩, ?_⟩⟩
      · -- The run begins with a digit, since it does not begin with an underscore.
        obtain ⟨d, more, isRun⟩ := List.exists_cons_of_ne_nil wellFormed.1
        have inBase := List.all_eq_true.mp wellFormed.2
        rw [isRun] at inBase ⊢
        refine .inl ⟨rfl, .based isBase ?_ fun c among => ?_⟩
        · have first := inBase d List.mem_cons_self
          have other : d ≠ '_' := by
            rintro rfl
            obtain ⟨left, cut⟩ := List.takeWhile_prefix (l := tail) isBasedChar
            rw [isRun] at cut
            apply noScore
            exact ⟨marker, more ++ left, by rw [prefixed, ← cut]; rfl, by rw [isBase]; rfl⟩
          simpa [other] using first
        · simpa using inBase c (List.mem_cons_of_mem _ among)
      · intro tok other isLit isPrefix
        rw [prefixed] at isPrefix
        rcases literal_of_based isBase isLit isPrefix with rfl | ⟨digits, rfl, inside⟩
        · exact ⟨_, rfl⟩
        · rw [List.cons_prefix_cons, List.cons_prefix_cons] at isPrefix ⊢
          exact ⟨rfl, rfl, prefix_takeWhile inside isPrefix.2.2⟩
    · have spoiled : Spoiled start.rest := by
        refine ⟨marker, tail, radix, prefixed, isBase, ?_⟩
        by_cases empty : tail.takeWhile isBasedChar = []
        · exact .inl empty
        · right
          by_contra none
          apply wellFormed
          refine ⟨empty, List.all_eq_true.mpr fun c among => ?_⟩
          by_contra outside
          simp only [Bool.or_eq_true, decide_eq_true_eq, not_or, Bool.not_eq_true,
            Option.isSome_eq_false_iff, Option.isNone_iff_eq_none] at outside
          exact none ⟨c, among, outside⟩
      simp only [if_neg wellFormed] at scanned
      exact ⟨_, _, _, [_], _, scanned, ⟨whole, rfl⟩, fun _ =>
        ⟨rfl, ⟨marker, tail, prefixed, rfl⟩, rfl⟩,
        fun sound => absurd spoiled sound⟩
  · have apart : ∀ marker tail, start.rest = '0' :: marker :: tail → baseRadix marker = none := by
      intro marker tail prefixed
      cases isBase : baseRadix marker with
      | none => rfl
      | some radix => exact absurd ⟨marker, tail, radix, prefixed, isBase⟩ based
    have plain : (if start.peek = some '0' then (start.peekAt 1).bind baseRadix else none) =
        none := by
      split
      next zero =>
        obtain ⟨tail, isZero⟩ := List.head?_eq_some_iff.mp zero
        have marked : start.rest = ['0'] ++ tail := isZero
        have second : start.peekAt 1 = tail.head? := Lexer.peekAt_eq marked rfl
        rw [second]
        cases tail with
        | nil => rfl
        | cons marker tail => exact apart marker tail isZero
      · rfl
    obtain ⟨run, fraction, exponent, after, pieces, scanned⟩ :=
      Lexer.scanNumber_pieces split digit plain
    have whole : start.rest = (run ++ (fraction ++ exponent)) ++ after := by
      rw [pieces.whole, List.append_assoc, List.append_assoc]
    refine ⟨_, _, after, [], _, scanned, ⟨whole, by rw [List.append_nil]; rfl⟩, ?_,
      fun _ _ => ⟨rfl, ?_, ⟨after, whole.symm⟩,
        fun _ _ isLit isPrefix => pieces.literal_prefix apart isLit isPrefix⟩⟩
    · rintro ⟨marker, tail, radix, prefixed, isBase, -⟩
      exact absurd ⟨marker, tail, radix, prefixed, isBase⟩ based
    · by_cases some_piece : fraction ≠ [] ∨ exponent ≠ []
      · rw [if_pos some_piece]
        exact .inr ⟨rfl, pieces.float some_piece⟩
      · rw [if_neg some_piece]
        simp only [not_or, not_not] at some_piece
        rw [some_piece.1, some_piece.2, List.append_nil, List.append_nil]
        exact .inl ⟨rfl, .decimal pieces.lit⟩

/-- A lexer that stands at the start of a text. -/
def Lexer.atStart (src : Text) : Lexer where
  src := src
  rest := src
  pos := 0
  tokens := []
  ctx := []
  errors := []
  deferred := []
  maxStrDepth := 0
  depthReported := false
  attrClose := none
  openAtEof := false

theorem scanNumber_longest_exponent :
    ∃ tok literal after errors l, (Lexer.atStart "1.5e-3..".toList).scanNumber = some l ∧
      Scanned (Lexer.atStart "1.5e-3..".toList) tok literal after errors l ∧
      (Spoiled "1.5e-3..".toList → tok = .int literal ∧
        (∃ marker tail, "1.5e-3..".toList = '0' :: marker :: tail ∧
          literal = '0' :: marker :: tail.takeWhile isBasedChar) ∧
        errors = [⟨"E0106", ⟨0, 0 + bytes literal⟩, "gram.lex.number"⟩]) ∧
      (¬ Spoiled "1.5e-3..".toList → ¬ Underscored "1.5e-3..".toList →
        errors = [] ∧ Longest baseRadix "1.5e-3..".toList tok literal) :=
  scanNumber_longest (Lexer.atStart "1.5e-3..".toList) rfl rfl

/-- After `0b` the scan does not stop at the last binary digit. -/
theorem scanNumber_not_longest :
    ¬ ∀ (start : Lexer) (c : Char) (rest : Text), start.rest = c :: rest → isAsciiDigit c = true →
      ∃ tok literal after errors l, start.scanNumber = some l ∧
        Scanned start tok literal after errors l ∧ Longest writtenBase start.rest tok literal ∧
        (errors ≠ [] ↔ ∃ marker tail radix, start.rest = '0' :: marker :: tail ∧
          writtenBase marker = some radix ∧ ¬ tail.head?.any fun d => (toDigit radix d).isSome)
    := by
  intro claimed
  obtain ⟨tok, literal, after, errors, l, scanned, ⟨-, rfl⟩, -, reported⟩ :=
    claimed (Lexer.atStart "0b12".toList) '0' "b12".toList rfl rfl
  have refused : (Lexer.atStart "0b12".toList).scanNumber.map Lexer.errors =
      some [⟨"E0106", ⟨0, 4⟩, "gram.lex.number"⟩] := by decide
  rw [scanned] at refused
  have some_error : errors ≠ [] := by
    rintro rfl
    cases refused
  obtain ⟨marker, tail, radix, prefixed, isBase, noDigit⟩ := reported.mp some_error
  cases prefixed
  cases isBase
  exact noDigit (by decide)

end WolfInterp.Lex
