import WolfInterp.Syntax.Run

/-!
# Operator trees

Trees of operators over operands, types, blocks and patterns that the parser reads by other
productions, and the tokens such a tree is written as, with parentheses exactly where the table's
tiers and associativity require them.
-/

namespace WolfInterp.Syntax

open WolfInterp.Lex (Text Tok Token Diag Keyword)
open Descent (Prog Outcome exec exec_bind)

/-- The tokens ahead of the parser. -/
def Parser.ahead (p : Parser) : List Tok := (p.tokens.drop p.pos).map Token.tok

/-! ## Tokens of operators -/

/-- A token that goes on with an operand or a type that it follows: a postfix form, the brace of a
struct literal, or the row of a type. -/
def continuesOperand : Option Tok → Bool
  | some .lParen | some .lBracket | some .dot | some .question | some .lBrace | some .bang => true
  | _ => false

/-- A token that goes on with an expression of a tier that it follows. -/
def continues (tier : Nat) (tok : Option Tok) : Bool :=
  continuesOperand tok ||
    (4 ≤ tier && tok = some (.kw .as_)) ||
    (List.range (min tier 13 + 1)).any (fun lower => (binaryOpAtTier lower tok).isSome) ||
    (14 ≤ tier && (rangeOp tok).isSome) ||
    (15 ≤ tier && tok = some (.kw .else_))

/-- A token that begins a primary. -/
def startsPrimary : Tok → Bool
  | .int _ | .float _ | .char _ | .strStart _ | .underscore | .ident _ => true
  | .lParen | .lBrace | .lBracket => true
  | .kw keyword =>
    keyword ∈ [.true_, .false_, .if_, .match_, .for_, .while_, .loop, .fn, .region, .in_,
      .freeze, .scope, .spawn, .select, .when_, .unsafe_, .asm, .borrow]
  | _ => false

def UnOp.tokens : UnOp → List Tok
  | .not => [.bang]
  | .neg => [.minus]
  | .borrow => [.amp]
  | .borrowMut => [.amp, .kw .mut_]
  | .deref => [.star]
  | .move => [.kw .move]
  | .copy => [.kw .copy]
  | .shared => [.kw .shared]

def BinOp.tok : BinOp → Tok
  | .mul => .star | .div => .slash | .rem => .percent
  | .add => .plus | .sub => .minus
  | .shl => .shl | .shr => .shr
  | .bitAnd => .amp | .bitXor => .caret | .bitOr => .pipe
  | .eq => .eqEq | .ne => .ne | .lt => .lt | .gt => .gt | .le => .le | .ge => .ge
  | .cmp => .spaceship
  | .and => .andAnd | .or => .orOr

def BinOp.tier : BinOp → Nat
  | .mul | .div | .rem => 5
  | .add | .sub => 6
  | .shl | .shr => 7
  | .bitAnd => 8
  | .bitXor => 9
  | .bitOr => 10
  | .eq | .ne | .lt | .gt | .le | .ge | .cmp => 11
  | .and => 12
  | .or => 13

def rangeTok (inclusive : Bool) : Tok := if inclusive then .dotDotEq else .dotDot

/-! ## Trees -/

/-- An expression may be read here: nothing is pending between the productions, and where a `{`
begins a block the expression is plain. -/
def Parser.Admits (p : Parser) (plain : Bool) : Prop :=
  (p.noStructLit = true → plain = true) ∧ p.pendingItems = [] ∧ p.pendingStmts = []

namespace Parser.Admits

variable {p : Parser} {plain plain' : Bool}

theorem left (admits : p.Admits (plain && plain')) : p.Admits plain :=
  ⟨fun restricted => (Bool.and_eq_true_iff.1 (admits.1 restricted)).1, admits.2⟩

theorem right (admits : p.Admits (plain && plain')) : p.Admits plain' :=
  ⟨fun restricted => (Bool.and_eq_true_iff.1 (admits.1 restricted)).2, admits.2⟩

/-- Where struct literals are legal again, any expression may be read. -/
theorem free (admits : p.Admits plain) : { p with noStructLit := false }.Admits plain' :=
  ⟨nofun, admits.2⟩

end Parser.Admits

/-- Tokens that a production reads, whatever may follow them, as a value that depends on nothing
but the origin in force. `height` is how many railed calls deep that goes, and `plain` whether the
production reads them also where a `{` begins a block. -/
structure Fragment {Value : Type} (production : P Value) (stops : Option Tok → Prop) where
  tokens : List Tok
  value : Nat → Value
  height : Nat
  plain : Bool
  reads : ∀ depth p rest, p.ahead = tokens ++ rest → stops rest.head? →
    depth + height ≤ maxNesting → p.Admits plain →
    grammar.Ends depth production p (.ok (value p.origin, p.skip tokens.length))

/-- An operand: a postfix expression, up to a token that does not go on with it. -/
structure Operand extends Fragment parsePostfix fun tok => continuesOperand tok = false where
  starts : ∃ head, tokens.head? = some head ∧ startsPrimary head = true

/-- The type of a cast. -/
abbrev CastType := Fragment parseType fun tok => continuesOperand tok = false

/-- The block of a handler. -/
structure HandlerBlock extends Fragment parseBlock fun _ => True where
  starts : tokens.head? = some .lBrace

/-- The pattern of a handler, between its bars. -/
abbrev HandlerPattern := Fragment parseClosedPattern fun tok => tok = some .pipe

/-- An expression built by the operators. The `Bool` of a range is its inclusiveness. -/
inductive Tree where
  | operand (leaf : Operand)
  | unary (op : UnOp) (operand : Tree)
  | cast (expr : Tree) (ty : CastType)
  | binary (op : BinOp) (lhs rhs : Tree)
  | fromEnd (expr : Tree)
  | rangeTo (inclusive : Bool) (stop : Tree)
  | rangeFrom (inclusive : Bool) (start : Tree)
  | range (inclusive : Bool) (start stop : Tree)
  | elseBlock (expr : Tree) (block : HandlerBlock)
  | elseExpr (expr handler : Tree)
  | elseCatch (expr : Tree) (pattern : HandlerPattern) (body : Tree)
  | elseCatchBlock (expr : Tree) (pattern : HandlerPattern) (body : HandlerBlock)

namespace Tree

/-- The tier of a tree's root. -/
def tier : Tree → Nat
  | operand _ => 2
  | unary .. => 3
  | cast .. => 4
  | binary op .. => op.tier
  | fromEnd _ | rangeTo .. | rangeFrom .. | range .. => 14
  | elseBlock .. | elseExpr .. | elseCatch .. | elseCatchBlock .. => 15

/-- `r_end ::= or_expr | '^' or_expr` -/
def isRangeEnd : Tree → Bool
  | fromEnd _ => true
  | tree => tree.tier ≤ 13

/-- Whether a tree may be the left operand of a binary operator without parentheses. -/
def fitsLeft (op : BinOp) (tree : Tree) : Bool :=
  if tierAssoc op.tier = .none then tree.tier < op.tier else tree.tier ≤ op.tier

/-- Tokens in their place, in parentheses where they do not fit. -/
def place (fits : Bool) (tokens : List Tok) : List Tok :=
  if fits then tokens else .lParen :: (tokens ++ [.rParen])

/-- A handler that begins with a `{` would be read as a block. -/
def opensBlock (tokens : List Tok) : Bool := tokens.head? = some .lBrace

/-- The tokens a tree is written as. -/
def tokens : Tree → List Tok
  | operand leaf => leaf.tokens
  | unary op tree => op.tokens ++ place (tree.tier ≤ 3) tree.tokens
  | cast tree ty => place (tree.tier ≤ 4) tree.tokens ++ .kw .as_ :: ty.tokens
  | binary op lhs rhs =>
    place (lhs.fitsLeft op) lhs.tokens ++ op.tok :: place (rhs.tier < op.tier) rhs.tokens
  | fromEnd tree => .caret :: place (tree.tier ≤ 13) tree.tokens
  | rangeTo inclusive stop => rangeTok inclusive :: place stop.isRangeEnd stop.tokens
  | rangeFrom inclusive start => place start.isRangeEnd start.tokens ++ [rangeTok inclusive]
  | range inclusive start stop =>
    place start.isRangeEnd start.tokens ++
      rangeTok inclusive :: place stop.isRangeEnd stop.tokens
  | elseBlock tree block => place (tree.tier ≤ 14) tree.tokens ++ .kw .else_ :: block.tokens
  | elseExpr tree handler =>
    place (tree.tier ≤ 14) tree.tokens ++
      .kw .else_ :: place (!opensBlock handler.tokens) handler.tokens
  | elseCatch tree pattern body =>
    place (tree.tier ≤ 14) tree.tokens ++
      .kw .else_ :: .pipe :: (pattern.tokens ++
        .pipe :: place (!opensBlock body.tokens) body.tokens)
  | elseCatchBlock tree pattern body =>
    place (tree.tier ≤ 14) tree.tokens ++
      .kw .else_ :: .pipe :: (pattern.tokens ++ .pipe :: body.tokens)

/-- The railed calls that a tree's tokens open in their place: one for a parenthesis. -/
def placed (fits : Bool) (height : Nat) : Nat := if fits then height else height + 1

/-- How many railed calls deep the parser goes into a tree. -/
def height : Tree → Nat
  | operand leaf => leaf.height
  | unary _ tree => placed (tree.tier ≤ 3) tree.height + 1
  | cast tree ty => max (placed (tree.tier ≤ 4) tree.height) ty.height
  | binary op lhs rhs =>
    max (placed (lhs.fitsLeft op) lhs.height) (placed (rhs.tier < op.tier) rhs.height)
  | fromEnd tree => placed (tree.tier ≤ 13) tree.height
  | rangeTo _ stop => placed stop.isRangeEnd stop.height
  | rangeFrom _ start => placed start.isRangeEnd start.height
  | range _ start stop =>
    max (placed start.isRangeEnd start.height) (placed stop.isRangeEnd stop.height)
  | elseBlock tree block => max (placed (tree.tier ≤ 14) tree.height) block.height
  | elseExpr tree handler =>
    max (placed (tree.tier ≤ 14) tree.height)
      (placed (!opensBlock handler.tokens) handler.height + 1)
  | elseCatch tree pattern body =>
    max (placed (tree.tier ≤ 14) tree.height)
      (max pattern.height (placed (!opensBlock body.tokens) body.height + 1))
  | elseCatchBlock tree pattern body =>
    max (placed (tree.tier ≤ 14) tree.height) (max pattern.height body.height)

/-- Whether a tree can be read where a `{` begins a block: the fragments that stand there, outside
of parentheses and handlers, can. -/
def plain : Tree → Bool
  | operand leaf => leaf.plain
  | unary _ tree => !(tree.tier ≤ 3 : Bool) || tree.plain
  | cast tree ty => (!(tree.tier ≤ 4 : Bool) || tree.plain) && ty.plain
  | binary op lhs rhs =>
    (!lhs.fitsLeft op || lhs.plain) && (!(rhs.tier < op.tier : Bool) || rhs.plain)
  | fromEnd tree => !(tree.tier ≤ 13 : Bool) || tree.plain
  | rangeTo _ stop => !stop.isRangeEnd || stop.plain
  | rangeFrom _ start => !start.isRangeEnd || start.plain
  | range _ start stop => (!start.isRangeEnd || start.plain) && (!stop.isRangeEnd || stop.plain)
  | elseBlock tree _ | elseExpr tree _ => !(tree.tier ≤ 14 : Bool) || tree.plain
  | elseCatch tree pattern _ | elseCatchBlock tree pattern _ =>
    (!(tree.tier ≤ 14 : Bool) || tree.plain) && pattern.plain

/-- A range without an end that closes a tree. -/
def endsOpen : Tree → Bool
  | rangeFrom .. => true
  | elseExpr _ handler => !opensBlock handler.tokens && handler.endsOpen
  | elseCatch _ _ body => !opensBlock body.tokens && body.endsOpen
  | _ => false

/-- The tree as an expression, without groups. -/
def expr (origin : Nat) : Tree → Expr
  | operand leaf => leaf.value origin
  | unary op tree => .unary op (tree.expr origin)
  | cast tree ty => .cast (tree.expr origin) (ty.value origin)
  | binary op lhs rhs => .binary op (lhs.expr origin) (rhs.expr origin)
  | fromEnd tree => .fromEnd (tree.expr origin)
  | rangeTo inclusive stop => .range .none (.some (stop.expr origin)) inclusive
  | rangeFrom inclusive start => .range (.some (start.expr origin)) .none inclusive
  | range inclusive start stop =>
    .range (.some (start.expr origin)) (.some (stop.expr origin)) inclusive
  | elseBlock tree block => .elseDefault (tree.expr origin) (.elseBlock (block.value origin))
  | elseExpr tree handler => .elseDefault (tree.expr origin) (.elseExpr (handler.expr origin))
  | elseCatch tree pattern body =>
    .elseDefault (tree.expr origin) (.elseHandler (pattern.value origin) (body.expr origin))
  | elseCatchBlock tree pattern body =>
    .elseDefault (tree.expr origin)
      (.elseHandler (pattern.value origin) (.blockExpr (body.value origin)))

end Tree

/-- An expression without the groups among its operators. -/
def Node.ungroup : {kind : Kind} → Node kind → Node kind
  | _, .group expr => expr.ungroup
  | _, .unary op operand => .unary op operand.ungroup
  | _, .binary op lhs rhs => .binary op lhs.ungroup rhs.ungroup
  | _, .cast expr ty => .cast expr.ungroup ty
  | _, .fromEnd expr => .fromEnd expr.ungroup
  | _, .range start stop inclusive => .range start.ungroup stop.ungroup inclusive
  | _, .some value => .some value.ungroup
  | _, .elseDefault expr handler => .elseDefault expr.ungroup handler.ungroup
  | _, .elseExpr expr => .elseExpr expr.ungroup
  | _, .elseHandler pattern body => .elseHandler pattern body.ungroup
  | _, node => node

end WolfInterp.Syntax
