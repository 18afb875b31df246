import WolfInterp.Syntax.Types

/-!
# Expressions

The primaries, the postfix forms and the precedence climb. The productions that this file calls
back without the rail are the operand of `freeze`, both operands of `borrow`, the `if` of an
`else if`, the bare branch of an `if` and the expression body of a closure.
-/

namespace WolfInterp.Syntax

open WolfInterp.Lex (Text Tok Token Diag Keyword)
open Descent (Prog)

/-! ## The operator table -/

/-- Associativity; `none` does not chain. -/
inductive Assoc where
  | left | right | none
  deriving DecidableEq

/-- `PRECEDENCE`, tightest first. -/
def precedence : List (Nat × List String × Assoc) :=
  [(2, ["(", "[", ".", "?"], .left),
   (4, ["as"], .left),
   (5, ["*", "/", "%"], .left),
   (6, ["+", "-"], .left),
   (7, ["<<", ">>"], .left),
   (8, ["&"], .left),
   (9, ["^"], .left),
   (10, ["|"], .left),
   (11, ["==", "!=", "<", ">", "<=", ">=", "<=>"], .none),
   (12, ["&&"], .left),
   (13, ["||"], .left),
   (14, ["..", "..="], .none),
   (15, ["else"], .right)]

/-- The associativity of a tier, read out of `precedence`. -/
def tierAssoc (tier : Nat) : Assoc :=
  ((precedence.find? fun row => row.1 = tier).map fun row => row.2.2).getD .left

/-- The binary operator of a tier that a token spells. -/
def binaryOpAtTier (tier : Nat) (tok : Option Tok) : Option BinOp :=
  match tier, tok with
  | 5, some .star => some .mul
  | 5, some .slash => some .div
  | 5, some .percent => some .rem
  | 6, some .plus => some .add
  | 6, some .minus => some .sub
  | 7, some .shl => some .shl
  | 7, some .shr => some .shr
  | 8, some .amp => some .bitAnd
  | 9, some .caret => some .bitXor
  | 10, some .pipe => some .bitOr
  | 11, some .eqEq => some .eq
  | 11, some .ne => some .ne
  | 11, some .lt => some .lt
  | 11, some .gt => some .gt
  | 11, some .le => some .le
  | 11, some .ge => some .ge
  | 11, some .spaceship => some .cmp
  | 12, some .andAnd => some .and
  | 13, some .orOr => some .or
  | _, _ => none

/-! ## Calls without the rail -/

/-- `parse_prefix`, as `freeze` and `borrow` call it. -/
def callPrefix : P Expr := .call .prefix_ .pure

/-- `parse_if`, as an `else if` calls it. -/
def callIf : P Expr := .call .if_ .pure

/-- `parse_range_expr`, as a bare branch calls it. -/
def callRangeExpr : P Expr := .call .rangeExpr .pure

/-- `parse_else_expr`, as the body of a closure calls it. -/
def callElseExpr : P Expr := .call .elseExpr .pure

/-! ## Patterns, blocks and arguments -/

/-- `pattern ::= closed_pattern ('|' closed_pattern)*` -/
def parsePattern : P Pattern := do
  let first ← parseClosedPattern
  if !(← at_ .pipe) then return first
  else
    loop [first] fun alts => do
      if ← eat .pipe then return .inl (alts ++ [← parseClosedPattern])
      else return .inr (.orPat alts)

/-- A block where struct literals are legal again. -/
def parseBlockFreely : P Block := withStructLit true parseBlock

def parseArg : P (Node .arg) := do
  let mode ← parseParamMode
  return .arg mode (← parseExpr)

/-- Call arguments, past the `(` and through the `)`. -/
def parseCallArgs : P (List (Node .arg)) := do
  let args ← withStructLit true <| separated .rParen do
    let arg ← parseArg
    skipInsertedTerms
    return arg
  skipInsertedTerms
  let _ ← expect .rParen "gram.expr.primary"
  return args

/-- Index arguments, past the `[` and through the `]`. -/
def parseIndexArgs : P (List (Node .indexArg)) := do
  let args ← withStructLit true <| separated .rBracket do
    let p ← get
    let arg ←
      if p.prefixTypeKw.isSome || p.atKw .region then do pure (.typeIndex (← parseType))
      else do pure (Node.valueArg (← parseArg))
    skipInsertedTerms
    return arg
  skipInsertedTerms
  let _ ← expect .rBracket "gram.amb.brackets"
  return args

/-! ## Primaries -/

/-- `[e, …]` -/
def parseListLiteral : P Expr := do
  let anchor := "gram.expr.list"
  let _ ← expect .lBracket anchor
  let items ← withStructLit true <| separated .rBracket do
    let item ← parseExpr
    skipInsertedTerms
    return item
  skipInsertedTerms
  let _ ← expect .rBracket anchor
  return .list items

/-- `(e)`, a tuple, or the one-tuple `(e,)`. -/
def parseParenOrTuple : P Expr := do
  let anchor := "gram.expr.primary"
  let _ ← expect .lParen anchor
  let (items, sawComma) ← withStructLit true <| loop ([], false) fun (items, sawComma) => do
    skipInsertedTerms
    if ← at_ .rParen then return .inr (items, sawComma)
    else
      let items := items ++ [← parseExpr]
      skipInsertedTerms
      if ← eat .comma then return .inl (items, true) else return .inr (items, sawComma)
  skipInsertedTerms
  let _ ← expect .rParen anchor
  match items, sawComma with
  | [item], false => return .group item
  | _, _ => return .tuple items

/-- The body of an arm, and whether it is a block. -/
def parseArmBody : P (Expr × Bool) := do
  if ← at_ .lBrace then
    return (.blockExpr (← parseBlockFreely), true)
  else
    return (← parseExpr, false)

/-- Whether another arm may follow. -/
def consumeArmSeparator (blockBodied : Bool) (anchor : String) : P Bool := do
  if ← eat .comma then return true
  else if !isTerm (← get).tok then return false
  else if blockBodied then
    skipTerms
    return true
  else
    let save := (← get).pos
    skipTerms
    let p ← get
    if p.tok = some .rBrace ∨ p.tok = none then return false
    else
      modify fun p => { p with pos := save }
      refuse fun p => p.unexpected anchor

/-- Arms up to the `}` or the end of the file. -/
def parseArms {α : Type} (anchor : String) (arm : P (α × Bool)) : P (List α) := do
  let arms ← withStructLit true <| loop [] fun (arms : List α) => do
    skipInsertedTerms
    let p ← get
    if p.tok = some .rBrace ∨ p.tok = none then return .inr arms
    else
      let (arm, blockBodied) ← arm
      if ← consumeArmSeparator blockBodied anchor then return .inl (arms ++ [arm])
      else return .inr (arms ++ [arm])
  skipInsertedTerms
  let _ ← expect .rBrace anchor
  return arms

def parseMatch : P Expr := do
  let anchor := "gram.expr.flow"
  let _ ← expectKw .match_ anchor
  let scrutinee ← withStructLit false parseExpr
  let _ ← expect .lBrace anchor
  let arms ← parseArms anchor do
    let pattern ← parsePattern
    let guard : Node (.opt .expr) ←
      if ← eatKw .if_ then do pure (.some (← withStructLit false parseExpr)) else pure .none
    let _ ← expect .fatArrow anchor
    let (body, blockBodied) ← parseArmBody
    return (Node.matchArm pattern guard body blockBodied, blockBodied)
  return .match_ scrutinee arms

def parseSelect : P Expr := do
  let anchor := "gram.expr.conc"
  let _ ← expectKw .select anchor
  let _ ← expect .lBrace anchor
  let arms ← parseArms anchor do
    let p ← get
    let kind ←
      if p.atCtx "timeout" ∧ p.tokAt 1 = some .lParen then do
        let _ ← advance
        let _ ← advance
        let deadline ← parseExpr
        let _ ← expect .rParen anchor
        pure (Node.timeout deadline)
      else do
        let pattern ← parsePattern
        let _ ← expectIf (fun p => p.atCtx "from") anchor
        pure (Node.recv pattern (← parseExpr))
    let _ ← expect .fatArrow anchor
    let (body, blockBodied) ← parseArmBody
    return (Node.selectArm kind body blockBodied, blockBodied)
  return .select arms

/-- Tokens that cannot begin an expression. -/
def isExprEnd : Option Tok → Bool
  | none => true
  | some (.term _) | some .rBrace | some .rParen | some .rBracket => true
  | some .comma | some .interpEnd | some .fmtStart | some .fatArrow => true
  | _ => false

/-- One bare branch of an `if`: a single expression at tier 14, or a jump with its operand there. -/
def parseBareBranch : P Block := do
  let anchor := "gram.expr.flow"
  match (← get).tok with
  | some (.kw .let_) | some (.kw .var) | some (.kw .const) =>
    refuse fun p => p.error "E0201" anchor
  | _ =>
    let operand : P (Node (.opt .expr)) := do
      let p ← get
      if isExprEnd p.tok ∨ p.atKw .else_ then return .none
      else return .some (← callRangeExpr)
    let expr ← withStructLit true do
      match (← get).tok with
      | some (.kw .return_) =>
        let _ ← advance
        return .return_ (← operand)
      | some (.kw .break_) =>
        let _ ← advance
        return .break_ (← operand)
      | some (.kw .continue_) =>
        let _ ← advance
        return .continue_
      | _ => callRangeExpr
    return .block .nil (.some expr)

def parseIf : P Expr := do
  let anchor := "gram.expr.flow"
  let _ ← expectKw .if_ anchor
  let cond ← withStructLit false parseExpr
  let thenKw ← eatCtx "then"
  if ← at_ .lBrace then
    let then_ ← parseBlockFreely
    let p ← get
    -- `} else b` is the defaulting operator on this `if`, and stays.
    if p.atKw .else_ ∧ p.tokAt 1 = some (.kw .if_) then
      let _ ← advance
      return .if_ cond then_ (.some (← callIf))
    else if p.atKw .else_ ∧ p.tokAt 1 = some .lBrace then
      let _ ← advance
      return .if_ cond then_ (.some (.blockExpr (← parseBlockFreely)))
    else
      return .if_ cond then_ .none
  else if thenKw then
    let then_ ← parseBareBranch
    if ← eatKw .else_ then
      if ← atKw .if_ then
        return .if_ cond then_ (.some (← callIf))
      else if ← at_ .lBrace then
        refuse fun p => p.error "E0201" anchor
      else
        return .if_ cond then_ (.some (.blockExpr (← parseBareBranch)))
    else
      return .if_ cond then_ .none
  else
    refuse fun p => p.unexpected anchor

def parseWhile : P Expr := do
  let _ ← expectKw .while_ "gram.expr.flow"
  let cond ← withStructLit false parseExpr
  return .while_ cond (← parseBlockFreely)

def parseFor : P Expr := do
  let anchor := "gram.expr.flow"
  let _ ← expectKw .for_ anchor
  let pattern ← parsePattern
  let _ ← expectKw .in_ anchor
  let iter ← withStructLit false parseExpr
  return .for_ pattern iter (← parseBlockFreely)

def parseClosure : P Expr := do
  let anchor := "gram.expr.closure"
  let _ ← expectKw .fn anchor
  let _ ← expect .lParen anchor
  let params ← withStructLit true <| separated .rParen do
    let mode ← parseParamMode
    let name ← expectIdent anchor
    if ← eat .colon then return .closureParam mode name (.some (← parseType))
    else return Node.closureParam mode name .none
  let _ ← expect .rParen anchor
  if ← at_ .lBrace then
    return .closure params (.blockExpr (← parseBlockFreely)) true
  else
    return .closure params (← withStructLit true callElseExpr) false

def Parser.atRegionCap (p : Parser) : Bool := p.atCtx "cap" ∧ p.tokAt 1 = some .colon

def parseRegionCap : P Expr := do
  let anchor := "gram.expr.region"
  if (← get).atRegionCap then
    let _ ← advance
    let _ ← expect .colon anchor
    withStructLit true parseExpr
  else
    refuse fun p => p.unexpected anchor

def parseRegionStrategy : P (Node .regionStrategy) := do
  let anchor := "gram.expr.region"
  let p ← get
  if p.atCtx "rc" then
    let _ ← advance
    return .rc
  else if p.atCtx "pool" then
    let _ ← advance
    let _ ← expect .lParen anchor
    let ty ← parseType
    let _ ← expect .rParen anchor
    return .pool ty
  else
    refuse fun p => p.unexpected anchor

def parseRegion : P Expr := do
  let anchor := "gram.expr.region"
  let _ ← expectKw .region anchor
  let p ← get
  if p.tok = some .lParen then
    let _ ← advance
    let q ← get
    let value ←
      if q.tok = some .rParen then pure (.regionValue .none .none)
      else if q.atRegionCap then do pure (.regionValue .none (.some (← parseRegionCap)))
      else do
        let strategy ← parseRegionStrategy
        if ← eat .comma then pure (.regionValue (.some strategy) (.some (← parseRegionCap)))
        else pure (Node.regionValue (.some strategy) .none)
    let _ ← expect .rParen anchor
    return value
  else
    let name ← if isIdent p.tok then do pure (some (← expectIdent anchor)) else pure none
    let cap : Node (.opt .expr) ←
      if name.isSome && (← at_ .lParen) then do
        let _ ← advance
        let cap ← parseRegionCap
        let _ ← expect .rParen anchor
        pure (.some cap)
      else pure .none
    let strategy : Node (.opt .regionStrategy) ←
      if ← eat .colon then do pure (.some (← parseRegionStrategy)) else pure .none
    return .regionSugar name cap strategy (← parseBlockFreely)

def parseWhen : P Expr := do
  let anchor := "gram.expr.conc"
  let start := (← get).span
  let _ ← expectKw .when_ anchor
  let _ ← expect .lParen anchor
  let operands ← withStructLit true <| separated .rParen parseExpr
  let close ← expect .rParen anchor
  if operands.length < 2 then
    refuse fun _ => ⟨"E0201", ⟨start.start, close.stop⟩, anchor⟩
  else
    return .when_ operands (← parseBlockFreely)

/-- The tokens of an inline C body, through the `}` that closes it. -/
def skipCBody (anchor : String) : P PUnit :=
  loop 1 fun (depth : Nat) => do
    if depth = 0 then return .inr ()
    else
      match (← get).tok with
      | none => refuse fun p => p.unexpected anchor
      | some .lBrace =>
        let _ ← advance
        return .inl (depth + 1)
      | some .rBrace =>
        let _ ← advance
        return .inl (depth - 1)
      | _ =>
        let _ ← advance
        return .inl depth

def parseUnsafe : P Expr := do
  let anchor := "gram.expr.unsafe"
  let _ ← expectKw .unsafe_ anchor
  if ← eatCtx "c" then
    let captures ←
      if ← eat .lBracket then do
        let captures ← loop [] fun (captures : List Ident) => do
          if ← at_ .rBracket then return .inr captures
          else
            let captures := captures ++ [← expectIdent anchor]
            if ← eat .comma then return .inl captures else return .inr captures
        let _ ← expect .rBracket anchor
        pure captures
      else pure []
    let opener ← expect .lBrace anchor
    skipCBody anchor
    let p ← get
    return .unsafeC captures ⟨opener.stop, p.prevSpan.start⟩
  else
    return .unsafe_ (← parseBlockFreely)

def parseAsmOperand : P (Node .asmOperand) := do
  let anchor := "gram.expr.unsafe"
  let p ← get
  let name ←
    if isIdent p.tok ∧ p.tokAt 1 = some .assign then do
      let ident ← expectIdent anchor
      let _ ← advance
      pure (some ident)
    else pure none
  let direction ← do
    if ← eatKw .in_ then pure AsmDir.in_
    else if ← eatCtx "out" then pure .out
    else if ← eatCtx "inout" then pure .inOut
    else if ← eatCtx "lateout" then pure .lateOut
    else refuse fun p => p.unexpected anchor
  let _ ← expect .lParen anchor
  let constraint ← expectIdent anchor
  let _ ← expect .rParen anchor
  return .asmOperand name direction constraint (← parseExpr)

def parseAsm : P Expr := do
  let anchor := "gram.expr.unsafe"
  let _ ← expectKw .asm anchor
  let _ ← expect .lBrace anchor
  skipInsertedTerms
  let template ← parseStringLiteral anchor
  let operands ← loop [] fun (operands : List (Node .asmOperand)) => do
    skipInsertedTerms
    if !(← eat .comma) then return .inr operands
    else
      skipInsertedTerms
      if ← at_ .rBrace then return .inr operands
      else return .inl (operands ++ [← parseAsmOperand])
  skipInsertedTerms
  let _ ← expect .rBrace anchor
  return .asm template operands

def parsePrimary : P Expr := do
  let anchor := "gram.expr.primary"
  match (← get).tok with
  | some (.int text) =>
    let _ ← advance
    return .int text
  | some (.float text) =>
    let _ ← advance
    return .float text
  | some (.char c) =>
    let _ ← advance
    return .char c
  | some (.kw .true_) =>
    let _ ← advance
    return .bool true
  | some (.kw .false_) =>
    let _ ← advance
    return .bool false
  | some (.strStart _) => return .str (← parseStringLiteral anchor)
  | some .underscore =>
    let _ ← advance
    return .wildcard
  | some (.ident _) => return .path (← parsePath anchor)
  | some .lParen => parseParenOrTuple
  | some .lBrace => return .blockExpr (← parseBlockFreely)
  | some (.kw .if_) => parseIf
  | some (.kw .match_) => parseMatch
  | some (.kw .for_) => parseFor
  | some (.kw .while_) => parseWhile
  | some (.kw .loop) =>
    let _ ← advance
    return .loop (← parseBlockFreely)
  | some (.kw .fn) => parseClosure
  | some (.kw .region) => parseRegion
  | some (.kw .in_) =>
    let _ ← advance
    let region ← withStructLit false parseExpr
    return .in_ region (← parseBlockFreely)
  | some (.kw .freeze) =>
    let _ ← advance
    return .freeze (← callPrefix)
  | some (.kw .scope) =>
    let _ ← advance
    let name ←
      if isIdent (← get).tok then do pure (some (← expectIdent "gram.expr.conc")) else pure none
    return .scope name (← parseBlockFreely)
  | some (.kw .spawn) =>
    let _ ← advance
    let _ ← expectKw .proc "gram.expr.conc"
    let path ← parsePath "gram.expr.conc"
    let _ ← expect .lParen "gram.expr.conc"
    return .spawnProc path (← parseCallArgs)
  | some (.kw .select) => parseSelect
  | some (.kw .when_) => parseWhen
  | some (.kw .unsafe_) => parseUnsafe
  | some (.kw .asm) => parseAsm
  | some (.kw .borrow) =>
    let _ ← advance
    let place ← callPrefix
    let _ ← expectIf (fun p => p.atCtx "from") "gram.expr.unsafe"
    return .borrow place (← callPrefix)
  | some .lBracket => parseListLiteral
  | _ => refuse fun p => p.unexpected anchor

/-! ## Postfix forms -/

/-- `(mut e)` or `(take e)`, legal only before a `.` member. -/
def parseModedReceiver : P Expr := do
  let anchor := "gram.expr.primary"
  let start ← expect .lParen anchor
  -- The caller has seen the mode.
  let mode := (← parseParamMode).getD .mut_
  let place ← withStructLit true parseExpr
  skipInsertedTerms
  let close ← expect .rParen anchor
  if ← at_ .dot then return .modedReceiver mode place
  else refuse fun _ => ⟨"E0210", ⟨start.start, close.stop⟩, anchor⟩

/-- `text.replace('_', "").parse::<u64>().unwrap_or(0)` -/
def memberIndex (text : Text) : Nat :=
  let digits := text.filter (· ≠ '_')
  let value := digits.foldl (fun value c => 10 * value + (c.toNat - '0'.toNat)) 0
  if digits ≠ [] ∧ digits.all Lex.isAsciiDigit ∧ value < 2 ^ 64 then value else 0

def parseMember : P Member := do
  match (← get).tok with
  | some (.ident name) =>
    let _ ← advance
    return .named name
  | some (.kw keyword) =>
    let _ ← advance
    return .named keyword.spelling.toList
  | some (.int text) =>
    let _ ← advance
    return .index (memberIndex text)
  | _ => refuse fun p => p.unexpected "gram.expr.primary"

/-- The `{` after a path in condition position holds what no block can begin with. -/
def Parser.structLitInCondition (p : Parser) : Bool :=
  isIdent (p.tokAt 1) && (p.tokAt 2 = some .colon ∨ p.tokAt 2 = some .comma : Bool)

def parseStructLitBody (path : Path) : P Expr := do
  let anchor := "gram.expr.primary"
  let _ ← expect .lBrace anchor
  let fields ← withStructLit true <| separated .rBrace do
    let name ← expectIdent anchor
    let value ← if ← eat .colon then parseExpr else pure (.path ⟨[name]⟩)
    skipInsertedTerms
    return Node.fieldInit name value
  skipInsertedTerms
  let _ ← expect .rBrace anchor
  return .structLit path fields

/-- The postfix chain of a receiver. -/
def parsePostfixChain (receiver : Expr) : P Expr :=
  loop receiver fun expr => do
    match (← get).tok with
    | some .lParen =>
      let _ ← advance
      return .inl (.call expr (← parseCallArgs))
    | some .lBracket =>
      let _ ← advance
      let args ← parseIndexArgs
      return .inl (.bracketApply expr args (← get).origin)
    | some .dot =>
      let _ ← advance
      return .inl (.member expr (← parseMember))
    | some .question =>
      let _ ← advance
      return .inl (.try_ expr)
    | _ => return .inr expr

/-- Tier 2, and the struct literal of a path. -/
def parsePostfix : P Expr := do
  let p ← get
  let moded := p.tokAt 1 = some (.kw .mut_) ∨ p.tokAt 1 = some (.kw .take)
  let receiver ← if p.tok = some .lParen ∧ moded then parseModedReceiver else parsePrimary
  let expr ← parsePostfixChain receiver
  let p ← get
  match expr with
  | .path path =>
    if p.tok = some .lBrace then
      if p.noStructLit then
        if p.structLitInCondition then refuse fun p => p.error "E0006" "gram.amb.structlit"
        else return expr
      else parseStructLitBody path
    else return expr
  | _ => return expr

/-! ## The climb -/

/-- The operator of a prefix token, `&mut` apart. -/
def prefixOp : Option Tok → Option UnOp
  | some .bang => some .not
  | some .minus => some .neg
  | some .star => some .deref
  | some .amp => some .borrow
  | some (.kw .move) => some .move
  | some (.kw .copy) => some .copy
  | some (.kw .shared) => some .shared
  | _ => none

/-- The operand of a prefix operator: `nested(parse_prefix)`. -/
def parsePrefixOperand : P Expr := .rail .prefix_ .pure

/-- Tier 3. -/
def parsePrefix : P Expr := do
  let p ← get
  match prefixOp p.tok with
  | none => parsePostfix
  | some op =>
    if p.tok = some .amp ∧ p.tokAt 1 = some (.kw .mut_) then
      let _ ← advance
      let _ ← advance
      return .unary .borrowMut (← parsePrefixOperand)
    else
      let _ ← advance
      return .unary op (← parsePrefixOperand)

/-- One more `as` of a cast. -/
def castRound (expr : Expr) : P (Expr ⊕ Expr) := do
  if ← eatKw .as_ then return .inl (.cast expr (← parseType)) else return .inr expr

/-- Tier 4. -/
def parseCast : P Expr := do
  let expr ← parsePrefix
  loop expr castRound

/-- One more operator of a tier, given what reads the tier below. -/
def binaryRound (tier : Nat) (below : P Expr) (lhs : Expr) : P (Expr ⊕ Expr) := do
  match binaryOpAtTier tier (← get).tok with
  | none => return .inr lhs
  | some op =>
    let _ ← advance
    let rhs ← below
    let expr := Node.binary op lhs rhs
    if tierAssoc tier = .none then
      if (binaryOpAtTier tier (← get).tok).isSome then
        refuse fun p => p.error "E0003" "gram.expr.prec"
      else return .inr expr
    else return .inl expr

/-- Tiers 13 down to 5; below them the casts. -/
def parseBinary : Nat → P Expr
  | 0 => parseCast
  | tier + 1 =>
    if tier + 1 < 5 then parseCast
    else do
      let lhs ← parseBinary tier
      loop lhs (binaryRound (tier + 1) (parseBinary tier))

/-- `r_end ::= or_expr | '^' or_expr` -/
def parseRangeEnd : P Expr := do
  if ← eat .caret then return .fromEnd (← parseBinary 13)
  else parseBinary 13

/-- `some inclusive` at a range operator. -/
def rangeOp : Option Tok → Option Bool
  | some .dotDot => some false
  | some .dotDotEq => some true
  | _ => none

/-- Whether the token after a range operator begins its end. -/
def rangeEndFollows (tok : Option Tok) : Bool := !(isExprEnd tok || tok = some (.kw .else_))

/-- The end of a range, past its operator, if there is one. -/
def parseRangeStop : P (Node (.opt .expr)) := do
  if rangeEndFollows (← get).tok then return .some (← parseRangeEnd) else return .none

/-- Tier 14. -/
def parseRangeExpr : P Expr := do
  match rangeOp (← get).tok with
  | some inclusive =>
    let _ ← advance
    return .range .none (.some (← parseRangeEnd)) inclusive
  | none =>
    let lhs ← parseRangeEnd
    match rangeOp (← get).tok with
    | none => return lhs
    | some inclusive =>
      let _ ← advance
      let stop ← parseRangeStop
      if (rangeOp (← get).tok).isSome then
        refuse fun p => p.error "E0205" "gram.expr.prec"
      else
        return .range (.some lhs) stop inclusive

/-- The body of a handler with a pattern. -/
def parseHandlerBody : P Expr := do
  if ← at_ .lBrace then return .blockExpr (← parseBlockFreely)
  else withStructLit true parseExpr

/-- The right-hand side of a defaulting `else`. -/
def parseElseHandler : P (Node .elseHandler) := do
  let p ← get
  if p.tok = some .lBrace then
    return .elseBlock (← parseBlockFreely)
  else if p.tok = some .pipe then
    let _ ← advance
    let pattern ← parseClosedPattern
    let _ ← expect .pipe "gram.expr.primary"
    return .elseHandler pattern (← parseHandlerBody)
  else
    return .elseExpr (← withStructLit true parseExpr)

/-- Tier 15. -/
def parseElseExpr : P Expr := do
  let lhs ← parseRangeExpr
  if ← eatKw .else_ then return .elseDefault lhs (← parseElseHandler)
  else return lhs

/-- The operand of a jump, if there is one. -/
def parseJumpOperand : P (Node (.opt .expr)) := do
  if isExprEnd (← get).tok then return .none else return .some (← parseExpr)

/-- `expr ::= else_expr | jump_expr` -/
def parseExprInner : P Expr := do
  match (← get).tok with
  | some (.kw .return_) =>
    let _ ← advance
    return .return_ (← parseJumpOperand)
  | some (.kw .break_) =>
    let _ ← advance
    return .break_ (← parseJumpOperand)
  | some (.kw .continue_) =>
    let _ ← advance
    return .continue_
  | _ => parseElseExpr

end WolfInterp.Syntax
