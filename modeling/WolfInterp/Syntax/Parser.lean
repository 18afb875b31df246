import WolfInterp.Lib.Descent
import WolfInterp.Syntax.Ast

/-!
# The parser's plumbing

The parser is a program over the productions of its grammar. A production that can come back to
itself is a call: through `nested`, where the rail counts it, or below it. The nesting depth is
the descent's and no field of the parser. The first refusal ends the parse, so what the source
restores on the way out of an error is restored only where a production succeeds.
-/

namespace WolfInterp.Syntax

open WolfInterp.Lex (Text Tok Token Diag Keyword)
open Descent (Prog)

/-- How deep syntactic nesting may go before the parser refuses. -/
def maxNesting : Nat := 256

structure Parser where
  tokens : List Token
  pos : Nat
  eof : Span
  /-- A `{` here begins a block: no struct literal. -/
  noStructLit : Bool
  inTraitBody : Bool
  inMembers : Bool
  /-- The tail of a comma group, which the item loops drain before anything new. -/
  pendingItems : List Item
  pendingStmts : List Stmt
  /-- The subscript origin in force. -/
  origin : Nat
  /-- The target that `cfg` reads. -/
  buildTarget : String

/-- The productions that are called back. -/
inductive Call where
  | type | closedPattern | block | expr | prefix_
  | if_ | rangeExpr | elseExpr | attr | literalOnly | item

/-- What a production returns. -/
abbrev Answer : Call → Type
  | .type => Ty
  | .closedPattern => Pattern
  | .block => Block
  | .attr => Attr
  | .item => Item
  | .expr | .prefix_ | .if_ | .rangeExpr | .elseExpr | .literalOnly => Expr

abbrev P := Prog Parser Diag Call Answer

namespace Parser

variable (p : Parser)

def tokAt (offset : Nat) : Option Tok := (p.tokens[p.pos + offset]?).map Token.tok

def tok : Option Tok := p.tokAt 0

def span : Span := (p.tokens[p.pos]?).elim p.eof Token.span

def prevSpan : Span := (p.tokens[p.pos - 1]?).elim p.eof Token.span

def atKw (keyword : Keyword) : Bool := p.tok = some (.kw keyword)

def atCtx (word : String) : Bool := p.tok = some (.ident word.toList)

def skip (n : Nat) : Parser := { p with pos := p.pos + n }

/-! ## Diagnostics -/

def error (code anchor : String) : Diag := ⟨code, p.span, anchor⟩

/-- The file ends here, or a token that was not wanted stands here. -/
def unexpected (anchor : String) : Diag :=
  match p.tok with
  | none => ⟨"E0202", p.eof, anchor⟩
  | some _ => ⟨"E0201", p.span, anchor⟩

/-- A token that cannot begin a pattern. -/
def expectedPattern (anchor : String) : Diag :=
  match p.tok with
  | some _ => ⟨"E0207", p.span, anchor⟩
  | none => p.unexpected anchor

/-- A token that cannot begin a type. -/
def expectedType (anchor : String) : Diag :=
  match p.tok with
  | none => p.unexpected anchor
  | some _ => ⟨"E0206", p.span, anchor⟩

def innerAttrMisplaced : Diag := p.error "E0211" "gram.attr.index"

def emptyStatement : Diag := p.error "E0002" "gram.lex.newline"

def leadingOperator : Diag := p.error "E0001" "gram.amb.newline"

/-- The rail's own diagnostic. -/
def nestingRail : Diag := p.error "E0207" "gram.expr"

/-- Enough rounds for every loop of the parser: a round that does not end its loop takes a token
or one of the pending nodes, and no token makes two of these. -/
def rounds : Nat :=
  2 * p.tokens.length + p.pendingItems.length + p.pendingStmts.length + 1

end Parser

section Plumbing

variable {α β σ : Type}

def get : P Parser := .read .pure

def modify (change : Parser → Parser) : P PUnit := .read fun p => .write (change p) (.pure ())

/-- Stop with a diagnostic of the current state. -/
def refuse (diag : Parser → Diag) : P α := .read fun p => .refuse (diag p)

def loop (start : σ) (round : σ → P (σ ⊕ β)) : P β :=
  .read fun p => Prog.loop round p.rounds start

def advance : P Span := do
  let p ← get
  modify fun p => p.skip 1
  return p.span

/-- Whether the current token is this one. -/
def at_ (tok : Tok) : P Bool := return (← get).tok = some tok

def atKw (keyword : Keyword) : P Bool := return (← get).atKw keyword

/-- Take one token where a test of the current state holds. -/
def eatIf (here : Parser → Bool) : P Bool := do
  if here (← get) then
    modify fun p => p.skip 1
    return true
  else
    return false

def eat (tok : Tok) : P Bool := eatIf fun p => p.tok = some tok

def eatKw (keyword : Keyword) : P Bool := eatIf fun p => p.atKw keyword

def eatCtx (word : String) : P Bool := eatIf fun p => p.atCtx word

def expectIf (here : Parser → Bool) (anchor : String) : P Span := do
  if here (← get) then advance else refuse fun p => p.unexpected anchor

def expect (tok : Tok) (anchor : String) : P Span := expectIf (fun p => p.tok = some tok) anchor

def expectKw (keyword : Keyword) (anchor : String) : P Span :=
  expectIf (fun p => p.atKw keyword) anchor

/-- A name; a reserved keyword here has its own diagnostic. -/
def expectIdent (anchor : String) : P Ident := do
  match (← get).tok with
  | some (.ident name) =>
    let _ ← advance
    return name
  | some (.kw _) => refuse fun p => p.error "E0008" anchor
  | _ => refuse fun p => p.unexpected anchor

def isTerm : Option Tok → Bool
  | some (.term _) => true
  | _ => false

def isInsertedTerm : Option Tok → Bool
  | some (.term false) => true
  | _ => false

/-- Take tokens while a test of them holds. -/
def skipWhile (test : Option Tok → Bool) : P PUnit :=
  loop () fun _ => do
    if ← eatIf fun p => test p.tok then return .inl () else return .inr ()

def skipInsertedTerms : P PUnit := skipWhile isInsertedTerm

def skipTerms : P PUnit := skipWhile isTerm

/-- A terminator; none is needed before a `}` or the end of the file. -/
def expectTerm (anchor : String) : P PUnit := do
  match (← get).tok with
  | some (.term _) => modify fun p => p.skip 1
  | none | some .rBrace => return ()
  | _ => refuse fun p => p.unexpected anchor

/-- Run a program with the struct-literal restriction in a known state. -/
def withStructLit (allowed : Bool) (f : P α) : P α := do
  let saved := (← get).noStructLit
  modify fun p => { p with noStructLit := !allowed }
  let out ← f
  modify fun p => { p with noStructLit := saved }
  return out

def withTraitBody (inside : Bool) (f : P α) : P α := do
  let saved := (← get).inTraitBody
  modify fun p => { p with inTraitBody := inside }
  let out ← f
  modify fun p => { p with inTraitBody := saved }
  return out

/-- Run a program with an origin in force, if there is one to put. -/
def withOrigin (origin : Option Nat) (f : P α) : P α := do
  let saved := (← get).origin
  modify fun p => { p with origin := origin.getD p.origin }
  let out ← f
  modify fun p => { p with origin := saved }
  return out

/-! ## Lists -/

/-- `item (',' item)* ','?` with at least one item, up to a closer that stays. -/
def commaList (closer : Tok) (item : P α) : P (List α) :=
  loop [] fun out => do
    let out := out ++ [← item]
    if !(← eat .comma) then return .inr out
    else if ← at_ closer then return .inr out
    else return .inl out

/-- A list that may be empty, whose items may stand on lines of their own. -/
def separated (closer : Tok) (item : P α) : P (List α) :=
  loop [] fun out => do
    skipInsertedTerms
    if ← at_ closer then return .inr out
    else
      let out := out ++ [← item]
      if ← eat .comma then return .inl out else return .inr out

/-! ## Railed and unrailed calls -/

def parseType : P Ty := .rail .type .pure

def parseClosedPattern : P Pattern := .rail .closedPattern .pure

def parseBlock : P Block := .rail .block .pure

def parseExpr : P Expr := .rail .expr .pure

end Plumbing

end WolfInterp.Syntax
