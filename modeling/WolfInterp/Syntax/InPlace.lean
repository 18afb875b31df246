import WolfInterp.Syntax.Items

/-!
# Comma groups in place

What a comma group stands for: the single bindings one after another, where the group stands. In
this grammar every list takes the bindings of a group as soon as it has read the group, so that
nothing is ever pending between two nodes of a list. The strict grammar refuses where a statement of
a block is a group with a visibility.
-/

namespace WolfInterp.Syntax

open WolfInterp.Lex (Tok Token Diag)
open Descent (Prog)

/-! ## Items, over what reads their members -/

def traitDefOf (members : P (List Item)) : P (Node .itemKind) := do
  let anchor := "gram.item.trait"
  let _ ← expectKw .trait anchor
  let name ← expectIdent anchor
  let generics ← parseGenerics
  if ← eat .assign then
    let paths ← parseBoundPaths anchor
    let _ ← eatTerm
    return .traitItem name generics .nil (some (.paths paths))
  else
    let _ ← expect .lBrace anchor
    let members ← withTraitBody true members
    let _ ← expect .rBrace anchor
    return .traitItem name generics members none

def implDefOf (members : P (List Item)) : P (Node .itemKind) := do
  let anchor := "gram.item.trait"
  let _ ← expectKw .impl anchor
  let generics ← parseGenerics
  let first ← withStructLit false parseType
  let subject : Node (.opt .ty) ←
    if ← eatKw .for_ then do pure (.some (← withStructLit false parseType)) else pure .none
  let _ ← expect .lBrace anchor
  let members ← withTraitBody false members
  let _ ← expect .rBrace anchor
  return .implItem generics first subject members

/-- An item, with its members read so. -/
def itemKindOf (members : P (List Item)) (attrs : List Attribute) (visibility : Option Visibility) :
    P (Node .itemKind) := do
  match (← get).tok with
  | some (.kw .trait) => traitDefOf members
  | some (.kw .impl) => implDefOf members
  | _ => parseItemKind attrs visibility

def itemInnerOf (members : P (List Item)) (attrs : List Attribute) : P Item := do
  skipInsertedTerms
  let visibility ← parseVisibility
  if ← at_ .hashBangBracket then refuse Parser.innerAttrMisplaced
  else return .item attrs visibility (← itemKindOf members attrs visibility)

def itemOf (members : P (List Item)) : P Item := do
  let attrs ← parseAttributes
  withOrigin (indexOriginOf attrs) (itemInnerOf members attrs)

/-! ## Lists in place -/

/-- What an item that was just read left of its group. -/
def takeItems : P (List Item) := do
  let items := (← get).pendingItems
  modify fun p => { p with pendingItems := [] }
  return items

def placedItemsUntil (ended : Parser → Option (P (List Item))) (skip : P PUnit) (item : P Item) :
    P (List Item) :=
  loop [] fun items => do
    skip
    match ended (← get) with
    | some ending => return .inr (items ++ (← ending))
    | none =>
      let first ← item
      return .inl (items ++ first :: (← takeItems))

def placedMembersInner : P (List Item) := do
  let members ← placedItemsUntil
    (fun p => if p.tok = some .rBrace ∨ p.tok = none then some (return []) else none)
    skipTerms callItem
  let buildTarget := (← get).buildTarget
  return members.filter fun member => cfgKeeps buildTarget (Item.attrs member)

def placedMembers : P (List Item) := do
  let outer := (← get).inMembers
  modify fun p => { p with inMembers := true }
  let members ← placedMembersInner
  modify fun p => { p with inMembers := outer }
  return members

/-- An item, which leaves the rest of its group to whoever has read it. -/
def placedItem : P Item := itemOf placedMembers

/-- What the strict grammar refuses a group with a visibility with: no diagnostic of the parser. -/
def visibleGroup : Diag := ⟨"visible group", Lex.Span.empty 0, "gram.item.let"⟩

/-- A statement, with what its group holds behind it. -/
def placedStmtInner (strict : Bool) (attrs : List Attribute) : P (Stmt × List Stmt) := do
  skipInsertedTerms
  let p ← get
  if p.tok = some .hashBangBracket then refuse Parser.innerAttrMisplaced
  else if p.atKw .assume then return (.stmt attrs (← parseAssume), [])
  else if p.atKw .defer ∨ p.atKw .errdefer then
    let _ ← advance
    let expr ← parseExpr
    expectTerm "gram.expr.block"
    return (.stmt attrs (.defer (p.atKw .errdefer) expr), [])
  else if (bindingKind p.tok).isSome then
    let (first, rest) ← parseBindingGroup
    return (.stmt attrs (.bindingStmt first),
      rest.map fun binding => .stmt attrs (.bindingStmt binding))
  else if p.atStmtItem then
    let first ← placedItem
    let rest ← takeItems
    if strict ∧ rest ≠ [] then refuse fun _ => visibleGroup
    else return (.stmt attrs (.itemStmt first), rest.map fun item => .stmt attrs (.itemStmt item))
  else return (.stmt attrs (← parseExprStmt), [])

def placedStmt (strict : Bool) : P (Stmt × List Stmt) := do
  let attrs ← parseAttributes
  withOrigin (indexOriginOf attrs) (placedStmtInner strict attrs)

def placedStmts (strict : Bool) : P (List Stmt) :=
  loop [] fun stmts => do
    skipInsertedTerms
    match @stopsAt Stmt (fun tok => tok = none ∨ tok = some .rBrace) (← get) with
    | some ending => return .inr (stmts ++ (← ending))
    | none =>
      let (first, rest) ← placedStmt strict
      return .inl (stmts ++ first :: rest)

def placedBlock (strict : Bool) : P Block := do
  let anchor := "gram.expr.block"
  let _ ← expect .lBrace anchor
  let (stmts, tail) := splitTail (← placedStmts strict)
  let _ ← expect .rBrace anchor
  let buildTarget := (← get).buildTarget
  return .block (stmts.filter (stmtKeeps buildTarget)) tail

def placedUnit : P Unit := do
  let innerAttrs ← parseInnerAttributes
  modify fun p => { p with origin := (indexOriginOf innerAttrs).getD p.origin }
  let items ← placedItemsUntil (stopsAt fun tok => tok = none) skipInsertedTerms placedItem
  let buildTarget := (← get).buildTarget
  return ⟨innerAttrs, items.filter fun item => cfgKeeps buildTarget (Item.attrs item)⟩

def placedBody (strict : Bool) : (call : Call) → P (Answer call)
  | .block => placedBlock strict
  | .item => placedItem
  | call => body call

/-- The grammar in which a comma group is its single bindings in place. -/
def inPlace (strict : Bool) : Descent.Grammar Parser Diag Call Answer :=
  ⟨placedBody strict, maxNesting, Parser.nestingRail⟩

end WolfInterp.Syntax
