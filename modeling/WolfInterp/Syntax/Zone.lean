import WolfInterp.Lex.Newlines
import WolfInterp.Lib.Contracts
import WolfInterp.Syntax.Operators

/-!
# The struct-literal restriction across a parse

A zone is a stretch of a parse that begins at some token. The contract of a zone says that outside
of every delimiter opened in it the restriction is in force whenever an expression is called for,
that a production closes what it opens, and that it leaves the restriction and the pending queues
as it finds them. Programs are followed by the number of delimiters that are open at least.
-/

namespace WolfInterp.Syntax

open WolfInterp.Lex (Text Tok Token Diag Keyword Delim)
open Descent (Prog Contract)
open Descent.Prog (meets_bind)

/-! ## Delimiters -/

def isOpener : Tok → Bool
  | .lParen | .lBracket | .lBrace | .hashBracket | .hashBangBracket | .interpStart => true
  | _ => false

def isCloser : Tok → Bool
  | .rParen | .rBracket | .rBrace | .interpEnd => true
  | _ => false

theorem length_step_opener (delims : List Delim) {tok : Tok} (opens : isOpener tok = true) :
    (Delim.step delims tok).length = delims.length + 1 := by
  revert opens
  fun_cases isOpener tok <;> rintro ⟨⟩ <;> rfl

theorem length_step_ge (delims : List Delim) (tok : Tok) :
    delims.length ≤ (Delim.step delims tok).length + 1 := by
  fun_cases Delim.step delims tok <;> grind

theorem length_step_plain (delims : List Delim) {tok : Tok} (plain : isCloser tok = false) :
    delims.length ≤ (Delim.step delims tok).length := by
  fun_cases Delim.step delims tok <;>
    first
      | exact Nat.le_refl _
      | exact Nat.le_succ _
      | cases plain

namespace Parser

/-- The delimiters that are open at the current token, of those opened from a token on. -/
def openSince (p : Parser) (start : Nat) : List Delim :=
  Lex.Newlines.delims (((p.tokens.drop start).take (p.pos - start)).map Token.tok)

def prevTok (p : Parser) : Option Tok :=
  if p.pos = 0 then none else (p.tokens[p.pos - 1]?).map Token.tok

theorem openSince_skip {p : Parser} {start : Nat} (le : start ≤ p.pos) :
    (p.skip 1).openSince start =
      match p.tok with
      | some tok => Delim.step (p.openSince start) tok
      | none => p.openSince start := by
  have next : p.pos + 1 - start = (p.pos - start) + 1 := by omega
  have place : start + (p.pos - start) = p.pos := by omega
  simp only [openSince, skip_tokens, skip_pos, next, List.take_add_one, List.getElem?_drop, place,
    tok, tokAt, Nat.add_zero]
  cases p.tokens[p.pos]? with
  | none => simp only [Option.toList_none, List.append_nil, Option.map_none]
  | some token =>
    simp only [Option.toList_some, List.map_append, List.map_cons, List.map_nil, Option.map_some]
    rw [Lex.Newlines.delims, List.foldl_append]
    rfl

theorem ahead_eq {p : Parser} {tok : Tok} (at_ : p.tok = some tok) :
    p.ahead = tok :: (p.skip 1).ahead := by
  obtain ⟨token, found, rfl⟩ := Option.map_eq_some_iff.1 at_
  obtain ⟨lt, rfl⟩ := List.getElem?_eq_some_iff.1 found
  rw [ahead, List.drop_eq_getElem_cons (show p.pos < p.tokens.length from lt)]
  rfl

/-- The calls before which the restriction is lifted with no delimiter opened: the branch of an `if`
without braces, the body of a closure, and the handler of a defaulting `else`. -/
def lifts (p : Parser) : Call → Prop
  | .rangeExpr | .elseExpr => True
  | .expr => p.prevTok = some (.kw .else_) ∨ p.prevTok = some .pipe
  | _ => False

end Parser

/-! ## Zones -/

/-- No struct literal stands where an expression is not enclosed by a delimiter of its own. -/
def Node.plain : {kind : Kind} → Node kind → Bool
  | _, .structLit _ _ => false
  | _, .binary _ lhs rhs => lhs.plain && rhs.plain
  | _, .cast expr _ => expr.plain
  | _, .call callee _ => callee.plain
  | _, .bracketApply base _ _ => base.plain
  | _, .member base _ => base.plain
  | _, .try_ expr => expr.plain
  | _, .range start stop _ => start.plain && stop.plain
  | _, .fromEnd expr => expr.plain
  | _, .elseDefault expr _ => expr.plain
  | _, .some value => value.plain
  | _, _ => true

/-- What a production that returns an expression gives under the restriction. -/
def Call.plain : (target : Call) → Answer target → Prop
  | .expr, answer | .prefix_, answer | .if_, answer | .rangeExpr, answer | .elseExpr, answer =>
    Node.plain answer = true
  | _, _ => True

/-- The parser is behind the first interpolation in the string of an `extern` binding. -/
def Parser.inAbi (p : Parser) : Prop :=
  ∃ (q : Parser) (kind : Lex.StrKind) (texts : List Text), q.tokens = p.tokens ∧
    q.externBindingAhead = true ∧
    q.ahead = .kw .extern_ :: .strStart kind :: (texts.map Tok.strText ++ .interpStart :: p.ahead)

/-- A call is made where the restriction is lifted by no delimiter opened since a token, or inside
of the string of an `extern` binding. -/
def Parser.strays (p : Parser) (start : Nat) (target : Call) : Prop :=
  p.lifts target ∧ p.openSince start = [] ∨ p.inAbi

/-- A stretch of a parse. -/
structure Zone where
  tokens : List Token
  start : Nat
  /-- The restriction is in force where no delimiter is open. -/
  guarded : Prop
  /-- What may be pending between the productions. -/
  items : List Item → Prop
  stmts : List Stmt → Prop

namespace Zone

/-- The parser is in the zone, with so many delimiters of the zone open and the restriction so. -/
structure At (z : Zone) (n : Nat) (restricted : Bool) (p : Parser) : Prop where
  tokens : p.tokens = z.tokens
  start : z.start ≤ p.pos
  level : z.guarded → n ≤ (p.openSince z.start).length
  restricted : p.noStructLit = restricted
  items : z.items p.pendingItems
  stmts : z.stmts p.pendingStmts

/-- The zone behind an item, whose tail may be pending. -/
def past (z : Zone) : Zone := { z with items := fun _ => True }

/-- Expressions may be called for. -/
def Ready (z : Zone) (n : Nat) (restricted : Bool) : Prop :=
  z.guarded → restricted = true ∨ 1 ≤ n

def level (z : Zone) (p : Parser) : Nat := (p.openSince z.start).length

def contract (z : Zone) : Contract Parser Call Answer where
  covers target p := z.guarded → ¬ p.strays z.start target
  pre target p :=
    z.At 0 p.noStructLit p ∧
      match target with
      | .block => True
      | .item => z.Ready (z.level p) false
      | _ => z.Ready (z.level p) p.noStructLit
  post target p answer q :=
    (p.noStructLit = true → target.plain answer) ∧
      match target with
      | .item => z.past.At (z.level p) p.noStructLit q
      | _ => z.At (z.level p) p.noStructLit q

variable {z : Zone} {n m k : Nat} {b : Bool} {p q : Parser}

theorem At.mono (here : z.At n b p) (le : m ≤ n) : z.At m b p :=
  { here with level := fun guarded => le.trans (here.level guarded) }

theorem At.past (here : z.At n b p) : z.past.At n b p := { here with items := trivial }

/-- What is open where a call is made is open where it is answered. -/
theorem At.raise (here : z.At n b p) {b' : Bool} (reached : z.At (z.level p) b' q) : z.At n b' q :=
  { reached with level := fun guarded => (here.level guarded).trans (reached.level guarded) }

theorem Ready.free (ready : z.Ready n false) : z.Ready n b :=
  fun guarded => .inr ((ready guarded).resolve_left nofun)

theorem ready_true : z.Ready n true := fun _ => .inl rfl

theorem ready_succ : z.Ready (n + 1) b := fun _ => .inr (Nat.succ_pos n)

theorem At.ready (here : z.At n b p) (ready : z.Ready n b) : z.Ready (z.level p) p.noStructLit := by
  rw [here.restricted]
  exact fun guarded => (ready guarded).imp_right (here.level guarded).trans'

/-! ## Moving over a token -/

theorem At.skip_plain (here : z.At n b p) (plain : ∀ tok, p.tok = some tok → isCloser tok = false) :
    z.At n b (p.skip 1) := by
  refine { here with start := here.start.trans (Nat.le_succ _), level := fun guarded => ?_ }
  rw [Parser.openSince_skip here.start]
  cases at_ : p.tok with
  | none => exact here.level guarded
  | some tok => exact (here.level guarded).trans (length_step_plain _ (plain tok at_))

variable {tok : Tok} {next : Bool → P α} {c : Prop} {γ : Type}
  {contract : Contract Parser Call Answer} {test : Parser → Bool} {anchor : String}
  {keyword : Keyword}

theorem At.skip_known (here : z.At n b p) (at_ : p.tok = some tok) (plain : isCloser tok = false) :
    z.At n b (p.skip 1) := by
  apply here.skip_plain
  intro other same
  rw [at_] at same
  rwa [← Option.some.inj same]

theorem At.skip_opener (here : z.At n b p) (at_ : p.tok = some tok) (opens : isOpener tok = true) :
    z.At (n + 1) b (p.skip 1) := by
  refine { here with start := here.start.trans (Nat.le_succ _), level := fun guarded => ?_ }
  rw [Parser.openSince_skip here.start, at_]
  have level := here.level guarded
  simp only [length_step_opener _ opens]
  omega

theorem At.skip_any (here : z.At (n + 1) b p) : z.At n b (p.skip 1) := by
  refine { here with start := here.start.trans (Nat.le_succ _), level := fun guarded => ?_ }
  rw [Parser.openSince_skip here.start]
  have level := here.level guarded
  cases p.tok with
  | none => exact Nat.le_of_succ_le level
  | some tok =>
    have lowers := length_step_ge (p.openSince z.start) tok
    simp only
    omega

/-- Where nothing is guarded, what is open does not matter. -/
theorem At.skip_free (here : z.At n b p) (free : ¬ z.guarded) : z.At n b (p.skip 1) :=
  { here with start := here.start.trans (Nat.le_succ _), level :=
    fun guarded => absurd guarded free }

theorem At.restrict (here : z.At n b p) (restricted : Bool) :
    z.At n restricted { p with noStructLit := restricted } :=
  { here with restricted := rfl }

/-! ## The rules -/

variable {α β σ : Type} {program : P α} {goal goal' : α → Prop}

/-- From so many open delimiters the program comes to so many, with an answer of this kind. -/
def Gives (z : Zone) (b : Bool) (m n : Nat) (program : P α) (goal : α → Prop) : Prop :=
  ∀ ⦃p⦄, z.At m b p → program.Meets z.contract (fun value q => z.At n b q ∧ goal value) p

/-- From so many open delimiters the program comes to so many. -/
def Runs (z : Zone) (b : Bool) (m n : Nat) (program : P α) : Prop :=
  ∀ ⦃p⦄, z.At m b p → program.Meets z.contract (fun _ q => z.At n b q) p

theorem Gives.runs (gives : z.Gives b m n program goal) : z.Runs b m n program :=
  fun _ here => (gives here).mono fun _ _ => And.left

theorem Runs.gives_yields (runs : z.Runs b m n program) (yields : program.Yields goal) :
    z.Gives b m n program goal :=
  fun _ here => (runs here).and_yields yields

theorem Gives.mono (gives : z.Gives b m n program goal) (le : ∀ value, goal value → goal' value) :
    z.Gives b m n program goal' :=
  fun _ here => (gives here).mono fun value _ => And.imp_right (le value)

theorem Gives.bind {next : α → P β} {goal' : β → Prop} (first : z.Gives b m k program goal)
    (second : ∀ value, goal value → z.Gives b k n (next value) goal') :
    z.Gives b m n (program >>= next) goal' :=
  fun _ here => (first here).bind fun value _ reached => second value reached.2 reached.1

theorem Runs.bind {next : α → P β} (first : z.Runs b m k program)
    (second : ∀ value, z.Runs b k n (next value)) : z.Runs b m n (program >>= next) :=
  fun _ here => (first here).bind fun value _ reached => second value reached

theorem Runs.gives {next : α → P β} {goal : β → Prop} (first : z.Runs b m k program)
    (second : ∀ value, z.Gives b k n (next value) goal) : z.Gives b m n (program >>= next) goal :=
  fun _ here => (first here).bind fun value _ reached => second value reached

theorem Gives.pure {value : α} (holds : goal value) : z.Gives b n n (Pure.pure value : P α) goal :=
  fun _ here => ⟨here, holds⟩

theorem Runs.pure {value : α} : z.Runs b n n (Pure.pure value : P α) := fun _ here => here

theorem Runs.refuse {diag : Parser → Diag} : z.Runs b m n (Syntax.refuse diag : P α) :=
  fun _ _ => trivial

theorem Gives.ite [Decidable c] {other : P α} (yes : z.Gives b m n program goal)
    (no : z.Gives b m n other goal) : z.Gives b m n (if c then program else other) goal := by
  split
  · exact yes
  · exact no

theorem Runs.ite [Decidable c] {other : P α} (yes : z.Runs b m n program)
    (no : z.Runs b m n other) :
    z.Runs b m n (if c then program else other) := by
  split
  · exact yes
  · exact no

/-- Two branches that go on with the same rest, the second with nothing in between. -/
theorem Runs.joinElse [Decidable c] {yes : P β} {no : P γ} {next : γ → P β}
    (rest : ∀ value, z.Runs b k n (next value)) (left : z.Runs b m k no)
    (taken : (∀ value, z.Runs b k n (next value)) → z.Runs b m n yes) :
    z.Runs b m n (if c then yes else no >>= next) :=
  .ite (taken rest) (left.bind rest)

/-- Two branches that go on with the same rest, the first with nothing in between. -/
theorem Runs.joinThen [Decidable c] {yes : P γ} {no : P β} {next : γ → P β}
    (rest : ∀ value, z.Runs b k n (next value)) (taken : z.Runs b m k yes)
    (left : (∀ value, z.Runs b k n (next value)) → z.Runs b m n no) :
    z.Runs b m n (if c then yes >>= next else no) :=
  .ite (taken.bind rest) (left rest)

/-- A read of the state. -/
theorem Runs.get {next : Parser → P α}
    (reads : ∀ p, z.At m b p → (next p).Meets z.contract (fun _ q => z.At n b q) p) :
    z.Runs b m n (Syntax.get >>= next) :=
  fun p here => reads p here

theorem Gives.get {next : Parser → P α} (reads : ∀ p, z.At m b p →
      (next p).Meets z.contract (fun value q => z.At n b q ∧ goal value) p) :
    z.Gives b m n (Syntax.get >>= next) goal :=
  fun p here => reads p here

theorem Runs.loop {start : σ} {round : σ → P (σ ⊕ β)}
    (keeps : ∀ carried, z.Runs b n n (round carried)) : z.Runs b n n (Syntax.loop start round) := by
  intro p here
  apply Prog.Meets.loop (fun _ q => z.At n b q) _ _ here
  intro carried q reached
  apply (keeps carried reached).mono
  rintro (carried | result) q reached <;> exact reached

/-- The rule of loops, with an invariant of what a loop carries. -/
theorem Gives.loop {start : σ} {round : σ → P (σ ⊕ β)} {goal : β → Prop} (invariant : σ → Prop)
    (keeps : ∀ carried, invariant carried →
      z.Gives b n n (round carried) fun out => out.elim invariant goal)
    (holds : invariant start) : z.Gives b n n (Syntax.loop start round) goal := by
  intro p here
  apply Prog.Meets.loop (fun carried q => z.At n b q ∧ invariant carried) _ _ ⟨here, holds⟩
  rintro carried q ⟨reached, holds⟩
  apply (keeps carried holds reached).mono
  rintro (carried | result) q reached <;> exact reached

/-! ## Tokens -/

theorem meets_eatIf {goal : Bool → Parser → Prop} : (Syntax.eatIf test).Meets contract goal p ↔
      if test p then goal true (p.skip 1) else goal false p := by
  change (if test p then _ else _ : P Bool).Meets contract goal p ↔ _
  cases test p <;> exact Iff.rfl

theorem meets_expectIf {goal : Span → Parser → Prop} :
    (Syntax.expectIf test anchor).Meets contract goal p ↔ (test p → goal p.span (p.skip 1)) := by
  change (if test p then _ else _ : P Span).Meets contract goal p ↔ _
  cases test p with
  | false => exact ⟨fun _ => nofun, fun _ => trivial⟩
  | true => exact ⟨fun holds _ => holds, fun holds => holds rfl⟩

theorem Runs.at_ : z.Runs b n n (Syntax.at_ tok) := fun _ here => here

theorem Runs.atKw : z.Runs b n n (Syntax.atKw keyword) := fun _ here => here

/-- A token that is known, or not there. -/
theorem Runs.ifAt (yes : ∀ p, z.At m b p → p.tok = some tok →
      (next true).Meets z.contract (fun _ q => z.At n b q) p) (no : z.Runs b m n (next false)) :
    z.Runs b m n (Syntax.at_ tok >>= next) := by
  intro p here
  by_cases at_ : p.tok = some tok
  · have same : (next (decide (p.tok = some tok))).Meets z.contract (fun _ q => z.At n b q) p := by
      rw [decide_eq_true at_]
      exact yes p here at_
    exact same
  · have same : (next (decide (p.tok = some tok))).Meets z.contract (fun _ q => z.At n b q) p := by
      rw [decide_eq_false at_]
      exact no here
    exact same

theorem Runs.ifAtKw (yes : ∀ p, z.At m b p → p.tok = some (.kw keyword) →
      (next true).Meets z.contract (fun _ q => z.At n b q) p) (no : z.Runs b m n (next false)) :
    z.Runs b m n (Syntax.atKw keyword >>= next) :=
  Runs.ifAt yes no

theorem meets_get {contract : Contract Parser Call Answer} {next : Parser → P α}
    {goal : α → Parser → Prop} :
    (Syntax.get >>= next).Meets contract goal p ↔ (next p).Meets contract goal p := Iff.rfl

theorem meets_advance {next : Span → P α} {goal : α → Parser → Prop} :
    (Syntax.advance >>= next).Meets contract goal p ↔
      (next p.span).Meets contract goal (p.skip 1) := Iff.rfl

/-- Past a token. -/
theorem Runs.advanced {next : Span → P α} (moved : z.At k b (p.skip 1))
    (rest : z.Runs b k n (next p.span)) :
    (Syntax.advance >>= next).Meets z.contract (fun _ q => z.At n b q) p :=
  rest moved

theorem At.advanced (here : z.At n b p) (at_ : p.tok = some tok) (plain : isCloser tok = false)
    {next : Span → P α} (rest : z.Runs b n m (next p.span)) :
    (Syntax.advance >>= next).Meets z.contract (fun _ q => z.At m b q) p :=
  Runs.advanced (here.skip_known at_ plain) rest

theorem Gives.advanced {next : Span → P α} (moved : z.At k b (p.skip 1))
    (rest : z.Gives b k n (next p.span) goal) :
    (Syntax.advance >>= next).Meets z.contract (fun value q => z.At n b q ∧ goal value) p :=
  rest moved

/-- A token is taken where a test holds, and the test holds at no closer. -/
theorem Runs.eatIf (plain : ∀ p tok, test p = true → p.tok = some tok → isCloser tok = false) :
    z.Runs b n n (Syntax.eatIf test) := by
  intro p here
  rw [meets_eatIf]
  split
  · exact here.skip_plain fun tok at_ => plain p tok ‹_› at_
  · exact here

theorem Runs.eat (plain : isCloser tok = false) : z.Runs b n n (Syntax.eat tok) := by
  apply Runs.eatIf
  intro p tok' test at_
  rw [of_decide_eq_true test] at at_
  rwa [← Option.some.inj at_]

theorem Runs.eatKw : z.Runs b n n (Syntax.eatKw keyword) :=
  Runs.eat rfl

theorem Runs.eatCtx {word : String} : z.Runs b n n (Syntax.eatCtx word) :=
  Runs.eat rfl

theorem Runs.eatTerm : z.Runs b n n Syntax.eatTerm := by
  apply Runs.eatIf
  intro p tok test at_
  rw [at_] at test
  cases tok <;> first | rfl | cases test

/-- An opener is taken where it stands. -/
theorem Runs.eat_opener (opens : isOpener tok = true) (yes : z.Runs b (n + 1) m (next true))
    (no : z.Runs b n m (next false)) : z.Runs b n m (Syntax.eat tok >>= next) := by
  intro p here
  rw [meets_bind, Syntax.eat, meets_eatIf]
  split
  · exact yes (here.skip_opener (of_decide_eq_true ‹_›) opens)
  · exact no here

/-- An opener is taken where it stands, and both branches go on with the same rest. -/
theorem Runs.eat_openerJoin (opens : isOpener tok = true) {yes : P β} {no : P γ} {next : γ → P β}
    (rest : ∀ value, z.Runs b k m (next value)) (left : z.Runs b n k no)
    (taken : (∀ value, z.Runs b k m (next value)) → z.Runs b (n + 1) m yes) :
    z.Runs b n m (Syntax.eat tok >>= fun ate => if ate then yes else no >>= next) := by
  apply Runs.eat_opener opens
  · rw [if_pos rfl]
    exact taken rest
  · rw [if_neg nofun]
    exact left.bind rest

theorem Runs.expect_opener (opens : isOpener tok = true) :
    z.Runs b n (n + 1) (Syntax.expect tok anchor) := by
  intro p here
  rw [Syntax.expect, meets_expectIf]
  intro at_
  exact here.skip_opener (of_decide_eq_true at_) opens

theorem Runs.expect_closer : z.Runs b (n + 1) n (Syntax.expect tok anchor) := by
  intro p here
  rw [Syntax.expect, meets_expectIf]
  exact fun _ => here.skip_any

/-- A token is asked for by a test that holds at no closer. -/
theorem Runs.expectIf (plain : ∀ p tok, test p = true → p.tok = some tok → isCloser tok = false) :
    z.Runs b n n (Syntax.expectIf test anchor) := by
  intro p here
  rw [meets_expectIf]
  exact fun holds => here.skip_plain fun tok at_ => plain p tok holds at_

theorem Runs.expect (plain : isCloser tok = false) : z.Runs b n n (Syntax.expect tok anchor) := by
  apply Runs.expectIf
  intro p tok' test at_
  rw [of_decide_eq_true test] at at_
  rwa [← Option.some.inj at_]

theorem Runs.expectKw : z.Runs b n n (Syntax.expectKw keyword anchor) :=
  Runs.expect rfl

theorem Runs.expectCtx {word : String} :
    z.Runs b n n (Syntax.expectIf (fun p => p.atCtx word) anchor) :=
  Runs.expect rfl

theorem Runs.expectIdent : z.Runs b n n (Syntax.expectIdent anchor) := by
  apply Runs.get
  intro p here
  split
  · exact here.skip_known ‹_› rfl
  · trivial
  · trivial

/-- A name that stands here is what the parser takes. -/
theorem meets_expectIdent {goal : Ident → Parser → Prop} (taken : ∀ name, goal name (p.skip 1)) :
    (Syntax.expectIdent anchor).Meets contract goal p := by
  apply meets_get.2
  split
  · exact taken _
  · trivial
  · trivial

theorem Runs.skipWhile {test : Option Tok → Bool}
    (plain : ∀ tok, test (some tok) = true → isCloser tok = false) :
    z.Runs b n n (Syntax.skipWhile test) := by
  apply Runs.loop
  intro _
  apply (Runs.eatIf _).bind fun _ => .ite .pure .pure
  intro p tok holds at_
  rw [at_] at holds
  exact plain tok holds

theorem Runs.skipInsertedTerms : z.Runs b n n Syntax.skipInsertedTerms := by
  apply Runs.skipWhile
  intro tok holds
  cases tok <;> first | rfl | cases holds

theorem Runs.skipTerms : z.Runs b n n Syntax.skipTerms := by
  apply Runs.skipWhile
  intro tok holds
  cases tok <;> first | rfl | cases holds

theorem Runs.expectTerm : z.Runs b n n (Syntax.expectTerm anchor) := by
  apply Runs.get
  intro p here
  split
  · exact here.skip_known ‹_› rfl
  · exact here
  · exact here
  · trivial

/-! ## Programs in a known state -/

theorem meets_withStructLit {allowed : Bool} {goal : α → Parser → Prop} :
    (Syntax.withStructLit allowed program).Meets contract goal p ↔
      program.Meets contract (fun value q => goal value { q with noStructLit := p.noStructLit })
        { p with noStructLit := !allowed } := by
  change (program >>= _).Meets contract goal { p with noStructLit := !allowed } ↔ _
  rw [meets_bind]
  exact Iff.rfl

theorem Runs.withStructLit {allowed : Bool} (inner : z.Runs (!allowed) m n program) :
    z.Runs b m n (Syntax.withStructLit allowed program) := by
  intro p here
  rw [meets_withStructLit]
  apply (inner (here.restrict _)).mono
  intro value q reached
  exact { reached with restricted := here.restricted }

/-- A change of the parser that the zone does not see. -/
def Unseen (change : Parser → Parser) : Prop :=
  ∀ p, (change p).tokens = p.tokens ∧ (change p).pos = p.pos ∧
    (change p).noStructLit = p.noStructLit ∧ (change p).pendingItems = p.pendingItems ∧
    (change p).pendingStmts = p.pendingStmts

theorem At.unseen (here : z.At n b p) {change : Parser → Parser} (unseen : Unseen change) :
    z.At n b (change p) := by
  obtain ⟨tokens, pos, restricted, items, stmts⟩ := unseen p
  have since : (change p).openSince z.start = p.openSince z.start := by
    rw [Parser.openSince, Parser.openSince, tokens, pos]
  exact ⟨tokens.trans here.tokens, pos ▸ here.start, since ▸ here.level,
    restricted.trans here.restricted, items ▸ here.items, stmts ▸ here.stmts⟩

theorem Runs.modify {change : Parser → Parser} (unseen : Unseen change) :
    z.Runs b n n (Syntax.modify change) :=
  fun _ here => here.unseen unseen

theorem Runs.withTraitBody {inside : Bool} (inner : z.Runs b m n program) :
    z.Runs b m n (Syntax.withTraitBody inside program) := by
  apply Runs.get
  intro p here
  apply ((Runs.modify _).bind fun _ => inner.bind fun _ => (Runs.modify _).bind fun _ => .pure) here
  all_goals
    intros
    exact fun p => ⟨rfl, rfl, rfl, rfl, rfl⟩

theorem Runs.withOrigin {origin : Option Nat} (inner : z.Runs b m n program) :
    z.Runs b m n (Syntax.withOrigin origin program) := by
  apply Runs.get
  intro p here
  apply ((Runs.modify _).bind fun _ => inner.bind fun _ => (Runs.modify _).bind fun _ => .pure) here
  all_goals
    intros
    exact fun p => ⟨rfl, rfl, rfl, rfl, rfl⟩

/-! ## Lists -/

theorem Runs.commaList {closer : Tok} (item : z.Runs b n n program) :
    z.Runs b n n (Syntax.commaList closer program) := by
  apply Runs.loop
  intro out
  apply item.bind
  intro value
  apply (Runs.eat rfl).bind
  intro comma
  apply Runs.ite .pure
  exact Runs.at_.bind fun _ => .ite .pure .pure

theorem Runs.separated {closer : Tok} (item : z.Runs b n n program) :
    z.Runs b n n (Syntax.separated closer program) := by
  apply Runs.loop
  intro out
  apply Runs.skipInsertedTerms.bind
  intro _
  apply Runs.at_.bind
  intro closed
  apply Runs.ite .pure
  apply item.bind
  intro value
  exact (Runs.eat rfl).bind fun _ => .ite .pure .pure

/-! ## Calls -/

/-- What a call of anything but an item may rely on is enough for its answer. -/
theorem At.asks (here : z.At n b p) (target : Call) (ordinary : target ≠ .item)
    (ready : z.contract.covers target p → z.contract.pre target p) :
    z.contract.Asks target p fun answer q => z.At n b q ∧ (b = true → target.plain answer) := by
  intro covered
  refine ⟨ready covered, fun answer q post => ?_⟩
  have reached : z.At (z.level p) p.noStructLit q := by
    cases target <;> first | exact post.2 | exact absurd rfl ordinary
  have plain := post.1
  rw [here.restricted] at reached plain
  exact ⟨here.raise reached, plain⟩

theorem At.base (here : z.At n b p) : z.At 0 p.noStructLit p :=
  { here with restricted := rfl, level := fun _ => Nat.zero_le _ }

section

variable (target : Call) (ordinary : target ≠ .item)
  (allowed : ∀ p, z.At n b p → z.contract.covers target p → z.contract.pre target p)
include ordinary allowed

/-- A railed call, of a production that may be called here. -/
theorem Gives.rail :
    z.Gives b n n (.rail target .pure : P (Answer target)) fun answer =>
      b = true → target.plain answer :=
  fun p here => here.asks target ordinary (allowed p here)

/-- An unrailed call, of a production that may be called here. -/
theorem Gives.call :
    z.Gives b n n (.call target .pure : P (Answer target)) fun answer =>
      b = true → target.plain answer :=
  fun p here => here.asks target ordinary (allowed p here)

end

theorem Gives.parseExpr (ready : z.Ready n b) :
    z.Gives b n n Syntax.parseExpr fun expr => b = true → expr.plain = true :=
  .rail .expr nofun fun _ here _ => ⟨here.base, here.ready ready⟩

theorem Runs.parseExpr (ready : z.Ready n b) : z.Runs b n n Syntax.parseExpr :=
  (Gives.parseExpr ready).runs

theorem Runs.parseType (ready : z.Ready n b) : z.Runs b n n Syntax.parseType :=
  (Gives.rail .type nofun fun _ here _ => ⟨here.base, here.ready ready⟩).runs

theorem Runs.parseClosedPattern (ready : z.Ready n b) : z.Runs b n n Syntax.parseClosedPattern :=
  (Gives.rail .closedPattern nofun fun _ here _ => ⟨here.base, here.ready ready⟩).runs

/-- A block opens with a delimiter, and so may begin anywhere. -/
theorem Runs.parseBlock : z.Runs b n n Syntax.parseBlock :=
  (Gives.rail .block nofun fun _ here _ => ⟨here.base, trivial⟩).runs

end Zone

end WolfInterp.Syntax
