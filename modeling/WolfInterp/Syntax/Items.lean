import WolfInterp.Syntax.Exprs

/-!
# Patterns, attributes, items and statements

The rest of the grammar, and the grammar itself: the body of every production that is called back.
-/

namespace WolfInterp.Syntax

open WolfInterp.Lex (Text Tok Token Diag Keyword)
open Descent (Prog)

/-! ## Patterns -/

/-- `parse_literal_only`, as its own negation calls it. -/
def callLiteralOnly : P Expr := .call .literalOnly .pure

/-- A literal, or a negated one. -/
def parseLiteralOnly : P Expr := do
  let p ← get
  if startsLiteral p.tok then parsePrimary
  else if p.tok = some .minus then
    let _ ← advance
    return .unary .neg (← callLiteralOnly)
  else
    refuse fun p => p.unexpected "gram.item.attr"

/-- What follows a literal that begins a pattern. -/
def literalOrRange (lo : Expr) : P Pattern := do
  match rangeOp (← get).tok with
  | none => return .literalPat lo
  | some inclusive =>
    let _ ← advance
    let p ← get
    if startsLiteral p.tok then return .rangePat lo (← parsePrimary) inclusive
    else if p.tok = some .minus then return .rangePat lo (← parseLiteralOnly) inclusive
    else refuse fun p => p.error "E0201" "gram.pat.range"

/-- The patterns of a parenthesis, past its opener and through its closer. -/
def parsePatternList (anchor : String) : P (List Pattern) := do
  let items ← if ← at_ .rParen then pure [] else commaList .rParen parsePattern
  let _ ← expect .rParen anchor
  return items

def parseStructPattern (path : Path) : P Pattern := do
  let anchor := "gram.pat.struct"
  let _ ← expect .lBrace anchor
  let (fields, rest) ← loop [] fun (fields : List (Node .fieldPat)) => do
    if ← at_ .rBrace then return .inr (fields, false)
    else if ← eat .dotDot then return .inr (fields, true)
    else
      let name ← expectIdent anchor
      let pattern : Node (.opt .pattern) ←
        if ← eat .colon then do pure (.some (← parsePattern)) else pure .none
      let fields := fields ++ [.fieldPat name pattern]
      if ← eat .comma then return .inl fields else return .inr (fields, false)
  let _ ← expect .rBrace anchor
  return .structPat path fields rest

def parseClosedPatternInner : P Pattern := do
  let anchor := "gram.pat"
  let p ← get
  if startsLiteral p.tok then literalOrRange (← parsePrimary)
  else
    match p.tok with
    | some .underscore =>
      let _ ← advance
      return .wildcardPat
    | some .minus => literalOrRange (← parseLiteralOnly)
    | some .dotDot | some .dotDotEq => refuse fun p => p.error "E0201" "gram.pat.range"
    | some .lParen =>
      let _ ← advance
      return .tuplePat (← parsePatternList anchor)
    | some (.ident _) =>
      let path ← parsePath anchor
      if ← at_ .lBrace then parseStructPattern path
      else if ← eat .lParen then return .variantPat path (← parsePatternList anchor)
      else
        match path.segments with
        | [name] =>
          if ← eat .at_ then return .atPat name (← parseClosedPattern)
          else return .bindingPat name
        | _ => return .pathPat path
    | _ => refuse fun p => p.expectedPattern anchor

/-! ## Attributes -/

/-- `parse_attr`, as an attribute's argument calls it. -/
def callAttr : P Attr := .call .attr .pure

def parseAttrArg : P (Node .attrArg) := do
  if isIdent (← get).tok then return .argNested (← callAttr)
  else return .argLiteral (← parseLiteralOnly)

def parseAttr : P Attr := do
  let path ← parsePath "gram.item.attr"
  if ← eat .lParen then
    let args ← if ← at_ .rParen then pure [] else commaList .rParen parseAttrArg
    let _ ← expect .rParen "gram.item.attr"
    return .attr path (.some (.attrArgs args))
  else if ← eat .assign then
    return .attr path (.some (.attrLiteral (← parseLiteralOnly)))
  else
    return .attr path .none

/-- The attributes of one bracket, past its opener and through its closer. -/
def parseAttrGroup (anchor : String) : P Attribute := do
  let attrs ← commaList .rBracket parseAttr
  let _ ← expect .rBracket anchor
  return .attribute attrs

def parseAttributes : P (List Attribute) :=
  loop [] fun out => do
    skipInsertedTerms
    if ← eat .hashBracket then return .inl (out ++ [← parseAttrGroup "gram.item.attr"])
    else return .inr out

/-- The file-wide group; a second one is misplaced already. -/
def parseInnerAttributes : P (List Attribute) :=
  loop [] fun (out : List Attribute) => do
    skipInsertedTerms
    if !(← at_ .hashBangBracket) then return .inr out
    else if out ≠ [] then refuse Parser.innerAttrMisplaced
    else
      let _ ← advance
      return .inl (out ++ [← parseAttrGroup "gram.attr.index"])

def Attr.isNamed (attr : Attr) (name : String) : Bool :=
  match attr with
  | .attr path _ => path.segments = [name.toList]

/-- The origin one `index` attribute names; `none` for one that is not well formed. -/
def Attr.origin : Attr → Option Nat
  | .attr _ (.some (.attrArgs (.cons (.argLiteral (.int text)) .nil))) =>
    if text = "0".toList then some 0
    else if text = "1".toList then some 1
    else none
  | _ => none

/-- The origin that the attributes of a node put in force. -/
def indexOriginOf (attrs : List Attribute) : Option Nat :=
  match (attrs.flatMap Attribute.attrs).filter fun attr => attr.isNamed "index" with
  | [attr] => attr.origin
  | _ => none

/-! ## Conditional compilation -/

/-- The targets a `cfg` may name. -/
def knownTargets : List String :=
  ["x86_64-unknown-linux-gnu", "aarch64-unknown-linux-gnu", "aarch64-apple-darwin",
   "x86_64-pc-windows-msvc", "x86_64-unknown-freebsd", "x86_64-unknown-none", "x86_64", "aarch64"]

/-- The known target that one `cfg` attribute names, if it is well formed. -/
def readCfg : Attr → Option String
  | .attr _ (.some (.attrArgs (.cons (.argNested predicate) .nil))) =>
    match predicate with
    | .attr path (.some (.attrLiteral (.str literal))) =>
      if path.segments = ["target".toList] then
        (StrLit.asPlainText literal).bind fun text =>
          knownTargets.find? fun known => known.toList = text
      else none
    | _ => none
  | _ => none

/-- Whether a target is the build's, or its architecture. -/
def targetHolds (buildTarget target : String) : Bool :=
  target = buildTarget || target.toList = buildTarget.toList.takeWhile (· ≠ '-')

/-- Whether a node with these attributes survives conditional compilation. -/
def cfgKeeps (buildTarget : String) (attrs : List Attribute) : Bool :=
  ((attrs.flatMap Attribute.attrs).filter fun attr => attr.isNamed "cfg").all fun attr =>
    match readCfg attr with
    | some target => targetHolds buildTarget target
    | none => true

/-! ## Items -/

/-- `parse_item`, as the members of an `impl` or a `trait` call it. -/
def callItem : P Item := .call .item .pure

def parseVisibility : P (Option Visibility) := do
  if ← eatKw .pub then
    if ← eat .lParen then
      let _ ← expectIf (fun p => p.atCtx "pkg") "gram.item.unit"
      let _ ← expect .rParen "gram.item.unit"
      return some ⟨true⟩
    else
      return some ⟨false⟩
  else
    return none

/-- A keyword that begins an item. -/
def isItemStart : Option Tok → Bool
  | some .hashBracket => true
  | tok => isDeclarationKw tok

/-- The token after the string literal whose opener heads a list, if the literal ends. -/
def afterString : List Tok → Nat → Option Tok
  | [], _ => none
  | .strStart _ :: rest, depth => afterString rest (depth + 1)
  | .strEnd :: rest, depth => if depth ≤ 1 then rest.head? else afterString rest (depth - 1)
  | _ :: rest, depth => afterString rest depth

/-- The binding keyword a token is. -/
def bindingKind : Option Tok → Option BindingKind
  | some (.kw .let_) => some .let_
  | some (.kw .var) => some .var
  | some (.kw .const) => some .const
  | _ => none

/-- At `extern`: whether the string after it is followed by `let`, `var` or `const`. -/
def Parser.externBindingAhead (p : Parser) : Bool :=
  match (p.tokens.drop (p.pos + 1)).map Token.tok with
  | .strStart kind :: rest => (bindingKind (afterString (.strStart kind :: rest) 0)).isSome
  | _ => false

/-- `: type`, if it is there. -/
def parseTypeAnnotation : P (Node (.opt .ty)) := do
  if ← eat .colon then return .some (← parseType) else return .none

def parseExternLet : P (Node .itemKind) := do
  let anchor := "gram.item.let"
  let _ ← expectKw .extern_ anchor
  let abi ← parseStringLiteral anchor
  let kind := (bindingKind (← get).tok).getD .let_
  let _ ← advance
  let name ← expectIdent anchor
  let ty ← parseTypeAnnotation
  let value : Node (.opt .expr) ←
    if ← eat .assign then do pure (.some (← withStructLit true parseExpr)) else pure .none
  expectTerm anchor
  return .externLet abi kind name ty value

/-- A `..` that is no ellipsis, with the `.` that stands right behind it. -/
def misplacedEllipsis {α : Type} : P α := do
  let first ← advance
  let p ← get
  let stop := if p.tok = some .dot ∧ p.span.start = first.stop then p.span.stop else first.stop
  refuse fun _ => ⟨"E0822", ⟨first.start, stop⟩, "abi.c.variadic.syntax"⟩

/-- The `...` at the head of a parameter, after its mode: the end of the list, or a refusal. -/
def parseEllipsis (membrane : Bool) (params : List (Node .param)) (mode : Option ParamMode) :
    P (List (Node .param) × Bool) := do
  let dots ← advance
  let p ← get
  let contiguous : Bool := p.tok = some .dot ∧ p.span.start = dots.stop
  let stop := if contiguous then p.span.stop else dots.stop
  if contiguous then
    let _ ← advance
  if !contiguous ∨ !membrane ∨ params = [] ∨ mode.isSome ∨ (← get).tok ≠ some .rParen then
    refuse fun _ => ⟨"E0822", ⟨dots.start, stop⟩, "abi.c.variadic.syntax"⟩
  else
    return (params, true)

/-- A parameter after its mode. -/
def parseParamKind (anchor : String) : P (Node .paramKind) := do
  if ← eatCtx "self" then
    let p ← get
    if p.tok = some .dot ∧ p.tokAt 1 = some .lBrace then
      let _ ← advance
      let _ ← advance
      let viewSet ← loop [] fun (viewSet : List Ident) => do
        let viewSet := viewSet ++ [← expectIdent anchor]
        if ← eat .comma then return .inl viewSet else return .inr viewSet
      let _ ← expect .rBrace anchor
      return .selfParam viewSet
    else
      return .selfParam []
  else
    let name ← expectIdent anchor
    let _ ← expect .colon anchor
    if ← at_ .dotDot then misplacedEllipsis
    else return .namedParam name (← parseType)

/-- The parameters of a function, and whether they end with the C tail. -/
def parseParams (membrane : Bool) : P (List (Node .param) × Bool) := do
  let anchor := "gram.item.fn"
  if ← at_ .rParen then return ([], false)
  else
    loop [] fun params => do
      skipInsertedTerms
      let mode ← parseParamMode
      if ← at_ .dotDot then return .inr (← parseEllipsis membrane params mode)
      else
        let params := params ++ [.param mode (← parseParamKind anchor)]
        skipInsertedTerms
        if !(← eat .comma) then
          if ← at_ .dotDot then misplacedEllipsis else return .inr (params, false)
        else
          skipInsertedTerms
          if ← at_ .rParen then return .inr (params, false) else return .inl params

def isExternQual : Node .fnQual → Bool
  | .externQual _ => true
  | _ => false

/-- A qualifier under which a function may end with the C tail. -/
def isMembrane : Node .fnQual → Bool
  | .exportQual => true
  | .externQual abi => StrLit.asPlainText abi = some "c".toList
  | .comptimeQual => false

def parseFnQuals (anchor : String) : P (List (Node .fnQual)) :=
  loop [] fun quals => do
    if ← eatKw .comptime then return .inl (quals ++ [.comptimeQual])
    else if ← eatKw .export_ then return .inl (quals ++ [.exportQual])
    else if ← eatKw .extern_ then return .inl (quals ++ [.externQual (← parseStringLiteral anchor)])
    else return .inr quals

def parseFnDecl : P FnDecl := do
  let anchor := "gram.item.fn"
  let quals ← parseFnQuals anchor
  let _ ← expectKw .fn anchor
  let name ← expectIdent anchor
  let generics ← parseGenerics
  let _ ← expect .lParen anchor
  let (params, variadic) ← withStructLit true (parseParams (quals.any isMembrane))
  let _ ← expect .rParen anchor
  let ret : Node (.opt .retType) ←
    if ← eat .arrow then do pure (.some (← parseRetType)) else pure .none
  if ← at_ .lBrace then
    let body ← withTraitBody false parseBlockFreely
    return .fnDecl quals name generics params variadic ret (.some body)
  else if !quals.any isExternQual ∧ !(← get).inTraitBody then
    refuse fun p => p.error "E0204" anchor
  else
    expectTerm anchor
    return .fnDecl quals name generics params variadic ret .none

/-- A binder without an initializer stops at its end. -/
def isBinderEnd : Option Tok → Bool
  | none | some .comma => true
  | tok => isTerm tok

/-- One binder of a group: `pattern (':' type)? '=' expr`; a `const` binds a name. -/
def parseBinder (kind : BindingKind) : P Binding := do
  let anchor := "gram.item.let"
  let pattern ←
    if kind = .const then do pure (.bindingPat (← expectIdent anchor)) else parsePattern
  let ty ← parseTypeAnnotation
  if isBinderEnd (← get).tok then
    refuse fun p => p.error "E0201" anchor
  else
    let _ ← expect .assign anchor
    return .binding kind pattern ty (← withStructLit true parseExpr)

/-- `let_item ::= 'let' binder (',' binder)* TERM`: at least one binding. -/
def parseBindingGroup : P (Binding × List Binding) := do
  let anchor := "gram.item.let"
  let kind ← do
    if ← eatKw .let_ then pure BindingKind.let_
    else if ← eatKw .var then pure .var
    else
      let _ ← expectKw .const anchor
      pure .const
  let first ← parseBinder kind
  let rest ← loop [] fun rest => do
    if kind = .const then return .inr rest
    else if ← eat .comma then return .inl (rest ++ [← parseBinder kind])
    else return .inr rest
  expectTerm anchor
  return (first, rest)

/-- `field ::= attribute* visibility? IDENT ':' type ','?` -/
def parseField (anchor : String) : P (Node .field) := do
  let attrs ← parseAttributes
  skipTerms
  let visibility ← parseVisibility
  let name ← expectIdent anchor
  let _ ← expect .colon anchor
  let ty ← withStructLit true parseType
  let _ ← eat .comma
  return .field attrs visibility name ty

def fieldAttrs : Node .field → List Attribute
  | .field attrs _ _ _ => attrs.toList

/-- The name and the generics of a definition that has them. -/
def parseDefHead (named : Bool) (anchor : String) : P (Option Ident × List GenericParam) := do
  if named then
    let name ← expectIdent anchor
    return (some name, ← parseGenerics)
  else
    return (none, [])

def parseStructDef (named : Bool) : P (Node .structDef) := do
  let anchor := "gram.item.type"
  let _ ← expectKw .struct anchor
  let (name, generics) ← parseDefHead named anchor
  let _ ← expect .lBrace anchor
  let fields ← loop [] fun (fields : List (Node .field)) => do
    skipTerms
    let p ← get
    if p.tok = some .rBrace ∨ p.tok = none then return .inr fields
    else return .inl (fields ++ [← parseField anchor])
  let _ ← expect .rBrace anchor
  let buildTarget := (← get).buildTarget
  return .structDef name generics
    (fields.filter fun field => cfgKeeps buildTarget (fieldAttrs field))

def parseEnumDef (named : Bool) : P (Node .enumDef) := do
  let anchor := "gram.item.type"
  let _ ← expectKw .enum anchor
  let (name, generics) ← parseDefHead named anchor
  let _ ← expect .lBrace anchor
  let variants ← loop [] fun (variants : List (Node .variant)) => do
    skipTerms
    let p ← get
    if p.tok = some .rBrace ∨ p.tok = none then return .inr variants
    else
      let name ← expectIdent anchor
      let payload ←
        if ← eat .lParen then do
          let payload ← commaList .rParen (withStructLit true parseType)
          let _ ← expect .rParen anchor
          pure payload
        else pure []
      let variants := variants ++ [.variant name payload]
      skipTerms
      if ← eat .comma then return .inl variants else return .inr variants
  skipTerms
  let _ ← expect .rBrace anchor
  return .enumDef name generics variants

/-- An optional terminator. -/
def eatTerm : P Bool := eatIf fun p => isTerm p.tok

def parseTypeAlias : P (Node .itemKind) := do
  let anchor := "gram.item.type"
  let _ ← expectKw .type anchor
  let name ← expectIdent anchor
  let generics ← parseGenerics
  let _ ← expect .assign anchor
  let p ← get
  let def_ ←
    if p.atKw .struct then do pure (Node.structDefType (← parseStructDef false))
    else if p.atKw .enum then do pure (Node.enumDefType (← parseEnumDef false))
    else do pure (Node.aliasType (← parseType))
  let _ ← eatTerm
  return .typeAlias name generics def_

/-- An alias names a closed set of tags: an open row is refused where its `..` is. -/
def parseErrorAlias : P (Node .itemKind) := do
  let anchor := "gram.item.error"
  let _ ← expectIf (fun p => p.atCtx "error") anchor
  let name ← expectIdent anchor
  let _ ← expect .assign anchor
  let row ← parseErrorRow
  match row with
  | .errorRow _ (some openAt) _ => refuse fun _ => ⟨"E0201", openAt, anchor⟩
  | .errorRow _ none _ =>
    let _ ← eatTerm
    return .errorAlias name row

/-- The items of a unit or of a member list, those of a comma group one after another. -/
def parseItemsUntil (ended : Parser → Option (P (List Item))) (skip : P PUnit) (item : P Item) :
    P (List Item) :=
  loop [] fun items => do
    match (← get).pendingItems with
    | pending :: rest =>
      modify fun p => { p with pendingItems := rest }
      return .inl (items ++ [pending])
    | [] =>
      skip
      match ended (← get) with
      | some ending => return .inr (items ++ (← ending))
      | none => return .inl (items ++ [← item])

def parseMembersInner : P (List Item) := do
  let members ← parseItemsUntil
    (fun p => if p.tok = some .rBrace ∨ p.tok = none then some (return []) else none)
    skipTerms callItem
  let buildTarget := (← get).buildTarget
  return members.filter fun member => cfgKeeps buildTarget (Item.attrs member)

def parseMembers : P (List Item) := do
  let outer := (← get).inMembers
  modify fun p => { p with inMembers := true }
  let members ← parseMembersInner
  modify fun p => { p with inMembers := outer }
  return members

def parseTraitDef : P (Node .itemKind) := do
  let anchor := "gram.item.trait"
  let _ ← expectKw .trait anchor
  let name ← expectIdent anchor
  let generics ← parseGenerics
  if ← eat .assign then
    let paths ← parseBoundPaths anchor
    let _ ← eatTerm
    return .traitItem name generics .nil (some (.paths paths))
  else
    let _ ← expect .lBrace anchor
    let members ← withTraitBody true parseMembers
    let _ ← expect .rBrace anchor
    return .traitItem name generics members none

def parseImplDef : P (Node .itemKind) := do
  let anchor := "gram.item.trait"
  let _ ← expectKw .impl anchor
  let generics ← parseGenerics
  let first ← withStructLit false parseType
  let subject : Node (.opt .ty) ←
    if ← eatKw .for_ then do pure (.some (← withStructLit false parseType)) else pure .none
  let _ ← expect .lBrace anchor
  let members ← withTraitBody false parseMembers
  let _ ← expect .rBrace anchor
  return .implItem generics first subject members

/-- The names in the braces of a `use`. -/
def parseUseList (anchor : String) : P (List Ident) := do
  let list ← loop [] fun list => do
    skipInsertedTerms
    let list := list ++ [← expectIdent anchor]
    if !(← eat .comma) then return .inr list
    else
      skipInsertedTerms
      if ← at_ .rBrace then return .inr list else return .inl list
  let _ ← expect .rBrace anchor
  return list

def parseUseDecl : P (Node .itemKind) := do
  let anchor := "gram.item.use"
  let _ ← expectKw .use anchor
  let first ← expectIdent anchor
  let (segments, list) ← loop [first] fun (segments : List Ident) => do
    let p ← get
    if p.tok ≠ some .dot then return .inr (segments, [])
    else if p.tokAt 1 = some .lBrace then
      let _ ← advance
      let _ ← advance
      return .inr (segments, ← parseUseList anchor)
    else
      let _ ← advance
      return .inl (segments ++ [← expectIdent anchor])
  let alias_ ← if ← eatKw .as_ then do pure (some (← expectIdent anchor)) else pure none
  expectTerm anchor
  return .useItem ⟨segments⟩ list alias_

/-- `error` in item position, before a name and a `=`. -/
def Parser.atErrorAlias (p : Parser) : Bool :=
  p.atCtx "error" ∧ isIdent (p.tokAt 1) ∧ p.tokAt 2 = some .assign

def parseItemKind (attrs : List Attribute) (visibility : Option Visibility) :
    P (Node .itemKind) := do
  let p ← get
  match p.tok with
  | some (.kw .extern_) =>
    if p.externBindingAhead then parseExternLet else return .fnItem (← parseFnDecl)
  | some (.kw .comptime) | some (.kw .export_) | some (.kw .fn) => return .fnItem (← parseFnDecl)
  | some (.kw .let_) | some (.kw .var) | some (.kw .const) =>
    let (first, rest) ← parseBindingGroup
    modify fun p => { p with
      pendingItems := p.pendingItems ++
        rest.map fun binding => .item attrs visibility (.bindingItem binding) }
    return .bindingItem first
  | some (.kw .type) => parseTypeAlias
  | some (.kw .struct) => return .structItem (← parseStructDef true)
  | some (.kw .enum) => return .enumItem (← parseEnumDef true)
  | some (.kw .trait) => parseTraitDef
  | some (.kw .impl) => parseImplDef
  | some (.kw .use) => parseUseDecl
  | some (.kw .import_) =>
    let _ ← advance
    let _ ← expectIf (fun p => p.atCtx "c") "gram.item.use"
    let literal ← parseStringLiteral "gram.item.use"
    expectTerm "gram.item.use"
    return .importC literal
  | tok =>
    if p.atErrorAlias then parseErrorAlias
    else if !p.inMembers ∧ tok.isSome then refuse fun p => p.error "E0203" "gram.item.unit"
    else refuse fun p => p.unexpected "gram.item.unit"

def parseItemInner (attrs : List Attribute) : P Item := do
  skipInsertedTerms
  let visibility ← parseVisibility
  if ← at_ .hashBangBracket then refuse Parser.innerAttrMisplaced
  else return .item attrs visibility (← parseItemKind attrs visibility)

def parseItem : P Item := do
  let attrs ← parseAttributes
  withOrigin (indexOriginOf attrs) (parseItemInner attrs)

/-! ## Statements and blocks -/

def assignOp : Option Tok → Option AssignOp
  | some .assign => some .assign
  | some .plusEq => some .add
  | some .minusEq => some .sub
  | some .starEq => some .mul
  | some .slashEq => some .div
  | some .percentEq => some .rem
  | some .ampEq => some .bitAnd
  | some .pipeEq => some .bitOr
  | some .caretEq => some .bitXor
  | some .shlEq => some .shl
  | some .shrEq => some .shr
  | _ => none

def parseAssume : P (Node .stmtKind) := do
  let anchor := "gram.expr.unsafe"
  let start ← expectKw .assume anchor
  let _ ← expectIf (fun p => p.atCtx "noalias") anchor
  let first ← parseExpr
  let operands ← loop [first] fun operands => do
    if ← eat .comma then return .inl (operands ++ [← parseExpr]) else return .inr operands
  if operands.length < 2 then
    refuse fun p => ⟨"E0212", ⟨start.start, p.prevSpan.stop⟩, anchor⟩
  else
    expectTerm anchor
    return .assumeNoalias operands

/-- `fn` is an item only before a name. -/
def Parser.atStmtItem (p : Parser) : Bool :=
  if p.atKw .fn then isIdent (p.tokAt 1) else isItemStart p.tok

/-- An expression statement or an assignment; `take` is read only after a plain `=` at an
element. -/
def parseExprStmt : P (Node .stmtKind) := do
  let expr ← parseExpr
  match assignOp (← get).tok with
  | some op =>
    let _ ← advance
    let take ← if op = .assign ∧ Expr.isIndexPlace expr then eatKw .take else pure false
    let value ← parseExpr
    expectTerm "gram.expr.assign"
    return .assign expr op value take
  | none =>
    expectTerm "gram.expr.block"
    return .exprStmt expr

def parseStmtInner (attrs : List Attribute) : P Stmt := do
  skipInsertedTerms
  let p ← get
  if p.tok = some .hashBangBracket then refuse Parser.innerAttrMisplaced
  else if p.atKw .assume then return .stmt attrs (← parseAssume)
  else if p.atKw .defer ∨ p.atKw .errdefer then
    let _ ← advance
    let expr ← parseExpr
    expectTerm "gram.expr.block"
    return .stmt attrs (.defer (p.atKw .errdefer) expr)
  else if (bindingKind p.tok).isSome then
    let (first, rest) ← parseBindingGroup
    modify fun p => { p with
      pendingStmts := p.pendingStmts ++
        rest.map fun binding => .stmt attrs (.bindingStmt binding) }
    return .stmt attrs (.bindingStmt first)
  else if p.atStmtItem then return .stmt attrs (.itemStmt (← parseItem))
  else return .stmt attrs (← parseExprStmt)

def parseStmt : P Stmt := do
  let attrs ← parseAttributes
  withOrigin (indexOriginOf attrs) (parseStmtInner attrs)

/-- The token `is_binary_only` names: one that only continues an expression. -/
def isBinaryOnly : Option Tok → Bool
  | some .plus | some .slash | some .percent | some .shl | some .shr => true
  | some .caret | some .pipe | some .andAnd | some .orOr => true
  | some .eqEq | some .ne | some .lt | some .gt | some .le | some .ge | some .spaceship => true
  | some .dot | some .dotDot | some .dotDotEq | some (.kw .as_) => true
  | _ => false

/-- How a list of statements or items stops: at its end, or in a refusal. -/
def stopsAt {α : Type} (ended : Option Tok → Bool) (p : Parser) : Option (P (List α)) :=
  if ended p.tok then some (return [])
  else if p.tok = some (.term true) then some (refuse Parser.emptyStatement)
  else if isBinaryOnly p.tok then some (refuse Parser.leadingOperator)
  else none

def parseStmts : P (List Stmt) :=
  loop [] fun stmts => do
    match (← get).pendingStmts with
    | pending :: rest =>
      modify fun p => { p with pendingStmts := rest }
      return .inl (stmts ++ [pending])
    | [] =>
      skipInsertedTerms
      match @stopsAt Stmt (fun tok => tok = none ∨ tok = some .rBrace) (← get) with
      | some ending => return .inr (stmts ++ (← ending))
      | none => return .inl (stmts ++ [← parseStmt])

/-- A trailing expression without attributes is the block's value. -/
def splitTail (stmts : List Stmt) : List Stmt × Node (.opt .expr) :=
  match stmts.getLast? with
  | some (.stmt .nil (.exprStmt expr)) => (stmts.dropLast, .some expr)
  | _ => (stmts, .none)

/-- Whether a statement survives conditional compilation, its item's attributes too. -/
def stmtKeeps (buildTarget : String) (stmt : Stmt) : Bool :=
  cfgKeeps buildTarget (Stmt.attrs stmt) &&
    match stmt with
    | .stmt _ (.itemStmt item) => cfgKeeps buildTarget (Item.attrs item)
    | _ => true

def parseBlockInner : P Block := do
  let anchor := "gram.expr.block"
  let _ ← expect .lBrace anchor
  let (stmts, tail) := splitTail (← parseStmts)
  let _ ← expect .rBrace anchor
  let buildTarget := (← get).buildTarget
  return .block (stmts.filter (stmtKeeps buildTarget)) tail

/-! ## The grammar -/

def parseUnit : P Unit := do
  let innerAttrs ← parseInnerAttributes
  modify fun p => { p with origin := (indexOriginOf innerAttrs).getD p.origin }
  let items ← parseItemsUntil (stopsAt fun tok => tok = none) skipInsertedTerms parseItem
  let buildTarget := (← get).buildTarget
  return ⟨innerAttrs, items.filter fun item => cfgKeeps buildTarget (Item.attrs item)⟩

/-- The body of a production that is called back. -/
def body : (call : Call) → P (Answer call)
  | .type => parseTypeInner
  | .closedPattern => parseClosedPatternInner
  | .block => parseBlockInner
  | .expr => parseExprInner
  | .prefix_ => parsePrefix
  | .if_ => parseIf
  | .rangeExpr => parseRangeExpr
  | .elseExpr => parseElseExpr
  | .attr => parseAttr
  | .literalOnly => parseLiteralOnly
  | .item => parseItem

/-- The grammar, under the nesting rail. -/
def grammar : Descent.Grammar Parser Diag Call Answer := ⟨body, maxNesting, Parser.nestingRail⟩

/-- The parser at the head of a token stream. -/
def Parser.start (tokens : List Token) (buildTarget : String) : Parser where
  tokens
  pos := 0
  eof := (tokens.getLast?).elim (Lex.Span.empty 0) fun t => Lex.Span.empty t.span.stop
  noStructLit := false
  inTraitBody := false
  inMembers := false
  pendingItems := []
  pendingStmts := []
  origin := 0
  buildTarget

end WolfInterp.Syntax
