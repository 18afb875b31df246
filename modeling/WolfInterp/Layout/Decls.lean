import WolfInterp.Syntax.Ast

/-!
# Representations and declarations

What the layout reads of a module: the struct items with the representation their attributes spell,
and what each name of the module denotes.
-/

namespace WolfInterp.Layout

open WolfInterp.Lex (Text)
open WolfInterp.Syntax

/-- The largest `align(N)`: 2^28. -/
def maxAlign : Nat := 2 ^ 28

/-- A power of two from 1 to 2^28. -/
def admissibleAlign (n : Nat) : Bool := 2 ^ n.log2 == n && n ≤ maxAlign

/-- An alignment the clause admits. -/
abbrev Alignment := {n : Nat // admissibleAlign n = true}

/-- A struct's representation, as its well-formed `repr` items spell it. -/
structure Repr where
  c : Bool
  packed : Bool
  align : Option Alignment

/-! ## Integer literals -/

def digitValue (radix : Nat) (char : Char) : Option Nat :=
  let value :=
    if char.isDigit then some (char.toNat - '0'.toNat)
    else if 'a' ≤ char ∧ char ≤ 'z' then some (char.toNat - 'a'.toNat + 10)
    else if 'A' ≤ char ∧ char ≤ 'Z' then some (char.toNat - 'A'.toNat + 10)
    else none
  value.filter (· < radix)

/-- `u64::from_str_radix`: a leading plus is read over, an empty body and a value past 64 bits are
none. -/
def fromStrRadix (radix : Nat) (text : Text) : Option Nat :=
  let body := if text.head? = some '+' then text.tail else text
  if body.isEmpty then none
  else
    (body.foldl
      (fun value char => do return (← value) * radix + (← digitValue radix char)) (some 0)).filter
        (· < 2 ^ 64)

/-- The value of an integer literal, its separators and its prefix read. -/
def intLiteral : Expr → Option Nat
  | .int spelling =>
    match spelling.filter (· ≠ '_') with
    | '0' :: 'x' :: rest => fromStrRadix 16 rest
    | '0' :: 'o' :: rest => fromStrRadix 8 rest
    | '0' :: 'b' :: rest => fromStrRadix 2 rest
    | digits => fromStrRadix 10 digits
  | _ => none

/-- The `N` of `align(N)`, when the item is exactly one integer literal. -/
def alignValue : Node (.opt .attrInput) → Option Nat
  | .some (.attrArgs (.cons (.argLiteral literal) .nil)) => intLiteral literal
  | _ => none

/-! ## The `repr` items -/

def admitted (n : Nat) : Option Alignment :=
  if admissible : admissibleAlign n = true then some ⟨n, admissible⟩ else none

/-- One item of a `repr` attribute, read into the representation. -/
def readItem (repr : Repr) : Node .attrArg → Repr
  | .argNested (.attr path input) =>
    match path.segments, input with
    | [word], .none =>
      if word = "c".toList then { repr with c := true }
      else if word = "packed".toList then { repr with packed := true }
      else repr
    | [word], input =>
      if word = "align".toList then
        match (alignValue input).bind admitted with
        | some n => { repr with align := some n }
        | none => repr
      else repr
    | _, _ => repr
  | _ => repr

def readAttr (repr : Repr) : Attr → Repr
  | .attr path (.some (.attrArgs args)) =>
    if path.segments = ["repr".toList] then args.toList.foldl readItem repr else repr
  | _ => repr

/-- Every `repr` item on a node, read across all its attributes. -/
def reprOf (attrs : List Attribute) : Repr :=
  (attrs.flatMap Attribute.attrs).foldl readAttr { c := false, packed := false, align := none }

/-! ## The module -/

/-- A field of a struct: its name and its type. -/
structure Field where
  name : Ident
  ty : Ty

def readField : Node .field → Field
  | .field _ _ name ty => { name, ty }

/-- A struct declared in a module, with the representation it was written with. -/
structure StructDecl where
  generics : List GenericParam
  fields : List Field
  repr : Repr

/-- What a name of a module denotes, as far as the layout tells them apart. -/
inductive Def where
  | struct | enum | other
  /-- Defined more than once. -/
  | ambiguous
  deriving DecidableEq

/-- A module, as the items of its units in order. -/
structure Module where
  items : List Item

/-- The named `struct` item a module's item is. -/
def structItem : Item → Option (Ident × StructDecl)
  | .item attrs _ (.structItem (.structDef (some name) generics fields)) =>
    some (name, { generics, fields := fields.toList.map readField, repr := reprOf attrs.toList })
  | _ => none

/-- The name an item defines, and what as. -/
def definition : Item → Option (Ident × Def)
  | .item _ _ (.fnItem (.fnDecl _ name _ _ _ _ _)) => some (name, .other)
  | .item _ _ (.structItem (.structDef (some name) _ _)) => some (name, .struct)
  | .item _ _ (.bindingItem (.binding _ (.bindingPat name) _ _)) => some (name, .other)
  | .item _ _ (.externLet _ _ name _ _) => some (name, .other)
  | .item _ _ (.errorAlias name _) => some (name, .other)
  | .item _ _ (.typeAlias name _ (.structDefType _)) => some (name, .struct)
  | .item _ _ (.typeAlias name _ _) => some (name, .other)
  | .item _ _ (.enumItem (.enumDef (some name) _ _)) => some (name, .enum)
  | .item _ _ (.traitItem name _ _ _) => some (name, .other)
  | _ => none

namespace Module

/-- The module's struct of a name: the first that is declared. -/
def structs (module : Module) (name : Ident) : Option StructDecl :=
  (module.items.filterMap structItem).lookup name

def definitions (module : Module) (name : Ident) : List Def :=
  ((module.items.filterMap definition).filter fun entry => entry.1 = name).map Prod.snd

/-- What a name of the module denotes. -/
def lookup (module : Module) (name : Ident) : Option Def :=
  match module.definitions name with
  | [] => none
  | [single] => some single
  | _ => some .ambiguous

def contains (module : Module) (name : Ident) : Bool := (module.lookup name).isSome

/-- A struct's name is one of the module's names. -/
theorem contains_of_structs {module : Module} {name : Ident} {decl : StructDecl}
    (declared : module.structs name = some decl) : module.contains name = true := by
  have listed : (name, decl) ∈ module.items.filterMap structItem := by
    rw [structs, List.lookup_eq_some_iff] at declared
    obtain ⟨front, back, split, -⟩ := declared
    rw [split]
    simp
  obtain ⟨item, item_listed, reads⟩ := List.mem_filterMap.mp listed
  have defines : ∃ denoted, definition item = some (name, denoted) := by
    unfold structItem at reads
    split at reads
    · cases reads
      exact ⟨.struct, rfl⟩
    · cases reads
  obtain ⟨denoted, defines⟩ := defines
  have found : denoted ∈ module.definitions name := by
    apply List.mem_map.mpr
    refine ⟨(name, denoted), List.mem_filter.mpr ⟨?_, by simp⟩, rfl⟩
    exact List.mem_filterMap.mpr ⟨item, item_listed, defines⟩
  unfold contains lookup
  split
  next none_defined => rw [none_defined] at found; cases found
  next => rfl
  next => rfl

end Module

end WolfInterp.Layout
