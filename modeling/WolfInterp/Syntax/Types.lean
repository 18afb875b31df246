import WolfInterp.Syntax.Parser

/-!
# Paths, string literals and types
-/

namespace WolfInterp.Syntax

open WolfInterp.Lex (Text Tok Token Diag Keyword)
open Descent (Prog)

/-! ## Names -/

def isIdent : Option Tok → Bool
  | some (.ident _) => true
  | _ => false

def parsePath (anchor : String) : P Path := do
  let first ← expectIdent anchor
  loop [first] fun segments => do
    let p ← get
    if p.tok = some .dot ∧ isIdent (p.tokAt 1) then
      let _ ← advance
      return .inl (segments ++ [← expectIdent anchor])
    else
      return .inr ⟨segments⟩

/-- `path ('+' path)*` -/
def parseBoundPaths (anchor : String) : P (List Path) := do
  let first ← parsePath anchor
  loop [first] fun paths => do
    if ← eat .plus then return .inl (paths ++ [← parsePath anchor]) else return .inr paths

def parseGenerics : P (List GenericParam) := do
  let anchor := "gram.item.fn"
  if !(← at_ .lBracket) then
    return []
  else
    let _ ← advance
    let out ← separated .rBracket do
      let name ← expectIdent anchor
      if ← eat .colon then
        if ← atKw .type then
          let _ ← advance
          return ⟨name, some .typeOfTypes⟩
        else
          return ⟨name, some (.paths (← parseBoundPaths anchor))⟩
      else
        return ⟨name, none⟩
    let _ ← expect .rBracket anchor
    return out

def parseParamMode : P (Option ParamMode) := do
  if ← eatKw .mut_ then return some .mut_
  else if ← eatKw .take then return some .take
  else return none

/-! ## String literals -/

/-- The parts of a format spec, up to the token that is neither text nor an interpolation. -/
def parseFormat : P (Node (.many .fmtPart)) :=
  loop [] fun (fmt : List (Node .fmtPart)) => do
    match (← get).tok with
    | some (.fmtText text) =>
      let _ ← advance
      return .inl (fmt ++ [.fmtText text])
    | some .interpStart =>
      let _ ← advance
      let inner ← withStructLit true parseExpr
      let _ ← expect .interpEnd "gram.lex.str"
      return .inl (fmt ++ [.fmtInterp inner])
    | _ => return .inr fmt

def parseInterpolation : P (Node .interpolation) := do
  let _ ← expect .interpStart "gram.lex.str"
  let expr ← withStructLit true parseExpr
  let format : Node (.opt (.many .fmtPart)) ←
    if ← at_ .fmtStart then do
      let _ ← advance
      pure (.some (← parseFormat))
    else pure .none
  let _ ← expect .interpEnd "gram.lex.str"
  return .interpolation expr format

def parseStringLiteral (anchor : String) : P StrLit := do
  match (← get).tok with
  | some (.strStart kind) =>
    let _ ← advance
    loop [] fun (parts : List (Node .strPart)) => do
      match (← get).tok with
      | some (.strText text) =>
        let _ ← advance
        return .inl (parts ++ [.strText text])
      | some .interpStart => return .inl (parts ++ [.strInterp (← parseInterpolation)])
      | some .strEnd =>
        let _ ← advance
        return .inr (.strLit kind parts)
      | _ => refuse fun p => p.unexpected "gram.lex.str"
  | _ => refuse fun p => p.unexpected anchor

/-! ## Error rows -/

/-- A keyword that begins a declaration, where a tag should stand. -/
def isDeclarationKw : Option Tok → Bool
  | some (.kw keyword) =>
    keyword ∈ [.fn, .let_, .var, .const, .struct, .enum, .type, .trait, .impl, .use, .import_,
      .pub, .extern_, .export_, .comptime]
  | _ => false

def parseErrorRow : P ErrorRow := do
  let anchor := "gram.type.row"
  let start ← expect .lBrace anchor
  let (entries, openAt) ← loop [] fun (entries : List (Node .rowEntry)) => do
    skipInsertedTerms
    let p ← get
    if p.tok = some .rBrace then
      return .inr (entries, none)
    else if p.tok = some .dotDot then
      let _ ← advance
      let _ ← eat .comma
      return .inr (entries, some p.span)
    else if isDeclarationKw p.tok then
      refuse fun _ => ⟨"E0202", ⟨start.start, start.start + 1⟩, anchor⟩
    else
      let path ← parsePath anchor
      let payload ←
        if ← eat .lParen then do
          let payload ← commaList .rParen parseType
          let _ ← expect .rParen anchor
          pure payload
        else pure []
      let entries := entries ++ [.rowEntry path payload]
      if ← eat .comma then return .inl entries else return .inr (entries, none)
  skipInsertedTerms
  let _ ← expect .rBrace anchor
  return .errorRow entries openAt false

/-- A row, or the bare path that is short for a row of one entry. -/
def parseRowOrBarePath : P ErrorRow := do
  let p ← get
  if p.tok = some .lBrace then parseErrorRow
  else if !isIdent p.tok then refuse fun p => p.unexpected "gram.type.row"
  else
    let path ← parsePath "gram.item.error"
    return .errorRow [Node.rowEntry path .nil] none true

/-! ## Types -/

def parseRetType : P (Node .retType) := do
  let ty ← parseType
  if ← at_ .bang then
    let _ ← advance
    return .retType ty (.some (← parseRowOrBarePath))
  else
    return .retType ty .none

def Parser.prefixTypeKw (p : Parser) : Option PrefixTypeKw :=
  match p.tok with
  | some (.kw .shared) => some .shared
  | some (.kw .handle) => some .handle
  | some (.kw .weak) => some .weak
  | some (.kw .distinct) => some .distinct
  | _ => none

/-- The scan of `type_arg_is_const_expr` from an offset on, at a bracket depth and with the previous
token able to end an operand or not. -/
def constExprScan : List Tok → Int → Bool → Bool
  | [], _, _ => false
  | tok :: rest, depth, operand =>
    match tok with
    | .lBracket | .lParen | .lBrace => constExprScan rest (depth + 1) false
    | .rParen | .rBrace => constExprScan rest (depth - 1) true
    | .rBracket => if depth = 0 then false else constExprScan rest (depth - 1) true
    | .comma => if depth = 0 then false else constExprScan rest depth false
    | .ident _ | .int _ | .float _ => constExprScan rest depth true
    | .plus | .minus | .star | .slash | .percent =>
      if depth = 0 && operand then true else constExprScan rest depth false
    | _ => constExprScan rest depth false

/-- Whether a type argument carries a binary arithmetic operator, and so reads as an expression. -/
def Parser.typeArgIsConstExpr (p : Parser) : Bool :=
  constExprScan ((p.tokens.drop p.pos).map Token.tok) 0 false

/-- A token that begins a literal. -/
def startsLiteral : Option Tok → Bool
  | some (.int _) | some (.float _) | some (.char _) | some (.strStart _) => true
  | some (.kw .true_) | some (.kw .false_) => true
  | _ => false

def parseTypeArgs : P (List (Node .typeArg)) := do
  let anchor := "gram.type"
  let _ ← expect .lBracket anchor
  let args ← withStructLit true <| separated .rBracket do
    let p ← get
    if startsLiteral p.tok || p.typeArgIsConstExpr then return .exprArg (← parseExpr)
    else return .typeArg (← parseType)
  let _ ← expect .rBracket anchor
  return args

/-- The types of a parenthesis, past its opener and through its closer. -/
def parseTypeList (anchor : String) : P (List Ty) := do
  let types ← if ← at_ .rParen then pure [] else commaList .rParen parseType
  let _ ← expect .rParen anchor
  return types

def parseTypeKind (anchor : String) : P Ty := do
  match (← get).tok with
  | some .bang =>
    let _ ← advance
    return .errorUnion (← parseType)
  | some .star =>
    let _ ← advance
    return .rawPointer (← parseType)
  | some (.kw .dyn) =>
    let _ ← advance
    return .dyn (← parsePath anchor)
  | some (.kw .type) =>
    let _ ← advance
    return .typeOfTypes
  | some (.kw .region) =>
    let _ ← advance
    return .regionType
  | some (.kw .fn) =>
    let _ ← advance
    let _ ← expect .lParen anchor
    let params ← parseTypeList anchor
    if ← eat .arrow then return .fnType params (.some (← parseRetType))
    else return .fnType params .none
  | some .lParen =>
    let _ ← advance
    return .tupleType (← parseTypeList anchor)
  | some (.ident _) =>
    let path ← parsePath anchor
    let args ← if ← at_ .lBracket then parseTypeArgs else pure []
    return .pathType path args
  | _ => refuse fun p => p.expectedType anchor

/-- The postfix rows of a type. -/
def parseFallible (ty : Ty) : P Ty :=
  loop ty fun ty => do
    let p ← get
    if p.tok = some .bang ∧ (p.tokAt 1 = some .lBrace ∨ isIdent (p.tokAt 1)) then
      let _ ← advance
      return .inl (.fallible ty (← parseRowOrBarePath))
    else
      return .inr ty

def parseTypeInner : P Ty := do
  match (← get).prefixTypeKw with
  | some kw =>
    let _ ← advance
    return .prefixed kw (← parseType)
  | none => parseFallible (← parseTypeKind "gram.type")

end WolfInterp.Syntax
