import WolfInterp.Lex.Token

/-!
# The syntax tree

The nodes the parser builds, without their spans and clause anchors. All of them are one family,
indexed by the kind of node, so that a walk over the tree is one recursion; a boxed kind and its
node are one here. Lists and options of nodes are nodes too, and are made from Lean's.
-/

namespace WolfInterp.Syntax

open WolfInterp.Lex (Text StrKind)

abbrev Span := Lex.Span

/-- A name. -/
abbrev Ident := Text

/-- `path ::= IDENT ('.' IDENT)*` -/
structure Path where
  segments : List Ident
  deriving DecidableEq

/-- `visibility ::= 'pub' ('(' 'pkg' ')')?` -/
structure Visibility where
  packageOnly : Bool
  deriving DecidableEq

/-- `param_mode ::= 'mut' | 'take'`; its absence is `read`. -/
inductive ParamMode where
  | mut_ | take
  deriving DecidableEq

inductive BindingKind where
  | let_ | var | const
  deriving DecidableEq

/-- `prefix_type_kw ::= 'shared' | 'handle' | 'weak' | 'distinct'` -/
inductive PrefixTypeKw where
  | shared | handle | weak | distinct
  deriving DecidableEq

inductive AssignOp where
  | assign | add | sub | mul | div | rem | bitAnd | bitOr | bitXor | shl | shr
  deriving DecidableEq

inductive UnOp where
  | not | neg | borrow | borrowMut | deref | move | copy | shared
  deriving DecidableEq

inductive BinOp where
  | mul | div | rem | add | sub | shl | shr | bitAnd | bitXor | bitOr
  | eq | ne | lt | gt | le | ge
  | cmp
  | and | or
  deriving DecidableEq

/-- `member ::= IDENT | INT | reserved_kw` -/
inductive Member where
  | named (name : Ident)
  | index (value : Nat)
  deriving DecidableEq

inductive AsmDir where
  | in_ | out | inOut | lateOut
  deriving DecidableEq

/-- `bound ::= path ('+' path)*`, or `type` for a comptime type parameter. -/
inductive Bound where
  | paths (paths : List Path)
  | typeOfTypes
  deriving DecidableEq

structure GenericParam where
  name : Ident
  bound : Option Bound
  deriving DecidableEq

structure UseDecl where
  path : Path
  list : List Ident
  alias_ : Option Ident
  deriving DecidableEq

/-- The kinds of nodes. -/
inductive Kind where
  | many (kind : Kind) | opt (kind : Kind)
  | strLit | strPart | interpolation | fmtPart
  | attribute | attr | attrInput | attrArg
  | item | itemKind | fnQual | fnDecl | param | paramKind | retType | errorRow | rowEntry
  | binding | typeDef | structDef | field | enumDef | variant
  | ty | typeArg | pattern | fieldPat | block | stmt | stmtKind
  | expr | arg | indexArg | fieldInit | closureParam | regionStrategy | matchArm | selectArm
  | selectArmKind | asmOperand | elseHandler
  deriving DecidableEq

/-- The nodes of a kind. A kind that is a record in the source has one constructor. -/
inductive Node : Kind → Type where
  | nil {kind : Kind} : Node (.many kind)
  | cons {kind : Kind} (head : Node kind) (tail : Node (.many kind)) : Node (.many kind)
  | none {kind : Kind} : Node (.opt kind)
  | some {kind : Kind} (value : Node kind) : Node (.opt kind)
  -- String literals, their text decoded and their interpolations parsed.
  | strLit (kind : StrKind) (parts : Node (.many .strPart)) : Node .strLit
  | strText (text : Text) : Node .strPart
  | strInterp (interpolation : Node .interpolation) : Node .strPart
  | interpolation (expr : Node .expr) (format : Node (.opt (.many .fmtPart))) : Node .interpolation
  | fmtText (text : Text) : Node .fmtPart
  | fmtInterp (expr : Node .expr) : Node .fmtPart
  -- Attributes; an `attribute` is one bracketed group.
  | attribute (attrs : Node (.many .attr)) : Node .attribute
  | attr (path : Path) (input : Node (.opt .attrInput)) : Node .attr
  | attrArgs (args : Node (.many .attrArg)) : Node .attrInput
  | attrLiteral (value : Node .expr) : Node .attrInput
  | argNested (attr : Node .attr) : Node .attrArg
  | argLiteral (value : Node .expr) : Node .attrArg
  -- Items.
  | item (attrs : Node (.many .attribute)) (visibility : Option Visibility)
      (kind : Node .itemKind) : Node .item
  | fnItem (decl : Node .fnDecl) : Node .itemKind
  | bindingItem (binding : Node .binding) : Node .itemKind
  | typeAlias (name : Ident) (generics : List GenericParam) (def_ : Node .typeDef) : Node .itemKind
  | structItem (def_ : Node .structDef) : Node .itemKind
  | enumItem (def_ : Node .enumDef) : Node .itemKind
  | traitItem (name : Ident) (generics : List GenericParam) (members : Node (.many .item))
      (alias_ : Option Bound) : Node .itemKind
  | implItem (generics : List GenericParam) (traitOrSubject : Node .ty) (subject : Node (.opt .ty))
      (members : Node (.many .item)) : Node .itemKind
  | useItem (path : Path) (list : List Ident) (alias_ : Option Ident) : Node .itemKind
  | importC (header : Node .strLit) : Node .itemKind
  | errorAlias (name : Ident) (row : Node .errorRow) : Node .itemKind
  | externLet (abi : Node .strLit) (kind : BindingKind) (name : Ident) (ty : Node (.opt .ty))
      (value : Node (.opt .expr)) : Node .itemKind
  | comptimeQual : Node .fnQual
  | externQual (abi : Node .strLit) : Node .fnQual
  | exportQual : Node .fnQual
  | fnDecl (quals : Node (.many .fnQual)) (name : Ident) (generics : List GenericParam)
      (params : Node (.many .param)) (variadic : Bool) (ret : Node (.opt .retType))
      (body : Node (.opt .block)) : Node .fnDecl
  | param (mode : Option ParamMode) (kind : Node .paramKind) : Node .param
  | namedParam (name : Ident) (ty : Node .ty) : Node .paramKind
  | selfParam (viewSet : List Ident) : Node .paramKind
  | retType (ty : Node .ty) (row : Node (.opt .errorRow)) : Node .retType
  /-- `openAt` is where the `..` of an open row is written. -/
  | errorRow (entries : Node (.many .rowEntry)) (openAt : Option Span) (bare : Bool) :
      Node .errorRow
  | rowEntry (path : Path) (payload : Node (.many .ty)) : Node .rowEntry
  | binding (kind : BindingKind) (pattern : Node .pattern) (ty : Node (.opt .ty))
      (value : Node .expr) : Node .binding
  | structDefType (def_ : Node .structDef) : Node .typeDef
  | enumDefType (def_ : Node .enumDef) : Node .typeDef
  | aliasType (ty : Node .ty) : Node .typeDef
  | structDef (name : Option Ident) (generics : List GenericParam) (fields : Node (.many .field)) :
      Node .structDef
  | field (attrs : Node (.many .attribute)) (visibility : Option Visibility) (name : Ident)
      (ty : Node .ty) : Node .field
  | enumDef (name : Option Ident) (generics : List GenericParam)
      (variants : Node (.many .variant)) : Node .enumDef
  | variant (name : Ident) (payload : Node (.many .ty)) : Node .variant
  -- Types.
  | pathType (path : Path) (args : Node (.many .typeArg)) : Node .ty
  | errorUnion (ty : Node .ty) : Node .ty
  | fallible (ty : Node .ty) (row : Node .errorRow) : Node .ty
  | prefixed (kw : PrefixTypeKw) (ty : Node .ty) : Node .ty
  | rawPointer (ty : Node .ty) : Node .ty
  | dyn (path : Path) : Node .ty
  | tupleType (types : Node (.many .ty)) : Node .ty
  | fnType (params : Node (.many .ty)) (ret : Node (.opt .retType)) : Node .ty
  | typeOfTypes : Node .ty
  | regionType : Node .ty
  | typeArg (ty : Node .ty) : Node .typeArg
  | exprArg (value : Node .expr) : Node .typeArg
  -- Patterns.
  | wildcardPat : Node .pattern
  | literalPat (value : Node .expr) : Node .pattern
  | bindingPat (name : Ident) : Node .pattern
  | pathPat (path : Path) : Node .pattern
  | variantPat (path : Path) (fields : Node (.many .pattern)) : Node .pattern
  | tuplePat (items : Node (.many .pattern)) : Node .pattern
  | structPat (path : Path) (fields : Node (.many .fieldPat)) (rest : Bool) : Node .pattern
  | atPat (name : Ident) (pattern : Node .pattern) : Node .pattern
  | orPat (alternatives : Node (.many .pattern)) : Node .pattern
  | rangePat (lo hi : Node .expr) (inclusive : Bool) : Node .pattern
  | fieldPat (name : Ident) (pattern : Node (.opt .pattern)) : Node .fieldPat
  -- Statements and blocks.
  | block (stmts : Node (.many .stmt)) (tail : Node (.opt .expr)) : Node .block
  | stmt (attrs : Node (.many .attribute)) (kind : Node .stmtKind) : Node .stmt
  | bindingStmt (binding : Node .binding) : Node .stmtKind
  | assign (place : Node .expr) (op : AssignOp) (value : Node .expr) (take : Bool) :
      Node .stmtKind
  | defer (onError : Bool) (expr : Node .expr) : Node .stmtKind
  | assumeNoalias (operands : Node (.many .expr)) : Node .stmtKind
  | exprStmt (expr : Node .expr) : Node .stmtKind
  | itemStmt (item : Node .item) : Node .stmtKind
  -- Expressions.
  | int (spelling : Text) : Node .expr
  | float (spelling : Text) : Node .expr
  | bool (value : Bool) : Node .expr
  | char (value : Char) : Node .expr
  | str (literal : Node .strLit) : Node .expr
  | path (path : Path) : Node .expr
  | wildcard : Node .expr
  | structLit (path : Path) (fields : Node (.many .fieldInit)) : Node .expr
  | tuple (items : Node (.many .expr)) : Node .expr
  /-- `(e)`, which is not the one-tuple `(e,)`. -/
  | group (expr : Node .expr) : Node .expr
  | blockExpr (block : Node .block) : Node .expr
  | unary (op : UnOp) (operand : Node .expr) : Node .expr
  | binary (op : BinOp) (lhs rhs : Node .expr) : Node .expr
  | cast (expr : Node .expr) (ty : Node .ty) : Node .expr
  | call (callee : Node .expr) (args : Node (.many .arg)) : Node .expr
  /-- Index or generic application, with the subscript origin in force at the site. -/
  | bracketApply (base : Node .expr) (args : Node (.many .indexArg)) (origin : Nat) : Node .expr
  | member (base : Node .expr) (member : Member) : Node .expr
  | modedReceiver (mode : ParamMode) (place : Node .expr) : Node .expr
  | try_ (expr : Node .expr) : Node .expr
  | list (items : Node (.many .expr)) : Node .expr
  | range (start stop : Node (.opt .expr)) (inclusive : Bool) : Node .expr
  | fromEnd (expr : Node .expr) : Node .expr
  | elseDefault (expr : Node .expr) (handler : Node .elseHandler) : Node .expr
  | if_ (cond : Node .expr) (then_ : Node .block) (otherwise : Node (.opt .expr)) : Node .expr
  | match_ (scrutinee : Node .expr) (arms : Node (.many .matchArm)) : Node .expr
  | for_ (pattern : Node .pattern) (iter : Node .expr) (body : Node .block) : Node .expr
  | while_ (cond : Node .expr) (body : Node .block) : Node .expr
  | loop (body : Node .block) : Node .expr
  | return_ (value : Node (.opt .expr)) : Node .expr
  | break_ (value : Node (.opt .expr)) : Node .expr
  | continue_ : Node .expr
  | closure (params : Node (.many .closureParam)) (body : Node .expr) (blockBodied : Bool) :
      Node .expr
  | regionSugar (name : Option Ident) (cap : Node (.opt .expr))
      (strategy : Node (.opt .regionStrategy)) (body : Node .block) : Node .expr
  | regionValue (strategy : Node (.opt .regionStrategy)) (cap : Node (.opt .expr)) : Node .expr
  | in_ (region : Node .expr) (body : Node .block) : Node .expr
  | freeze (expr : Node .expr) : Node .expr
  | scope (name : Option Ident) (body : Node .block) : Node .expr
  | spawnProc (path : Path) (args : Node (.many .arg)) : Node .expr
  | select (arms : Node (.many .selectArm)) : Node .expr
  | when_ (operands : Node (.many .expr)) (body : Node .block) : Node .expr
  | unsafe_ (body : Node .block) : Node .expr
  | unsafeC (captures : List Ident) (bodySpan : Span) : Node .expr
  | asm (template : Node .strLit) (operands : Node (.many .asmOperand)) : Node .expr
  | borrow (place source : Node .expr) : Node .expr
  | arg (mode : Option ParamMode) (expr : Node .expr) : Node .arg
  | valueArg (arg : Node .arg) : Node .indexArg
  | typeIndex (ty : Node .ty) : Node .indexArg
  | fieldInit (name : Ident) (value : Node .expr) : Node .fieldInit
  | closureParam (mode : Option ParamMode) (name : Ident) (ty : Node (.opt .ty)) :
      Node .closureParam
  | rc : Node .regionStrategy
  | pool (ty : Node .ty) : Node .regionStrategy
  | matchArm (pattern : Node .pattern) (guard : Node (.opt .expr)) (body : Node .expr)
      (blockBodied : Bool) : Node .matchArm
  | selectArm (kind : Node .selectArmKind) (body : Node .expr) (blockBodied : Bool) :
      Node .selectArm
  | recv (pattern : Node .pattern) (channel : Node .expr) : Node .selectArmKind
  | timeout (deadline : Node .expr) : Node .selectArmKind
  | asmOperand (name : Option Ident) (direction : AsmDir) (constraint : Ident)
      (value : Node .expr) : Node .asmOperand
  | elseBlock (block : Node .block) : Node .elseHandler
  | elseExpr (expr : Node .expr) : Node .elseHandler
  | elseHandler (pattern : Node .pattern) (body : Node .expr) : Node .elseHandler

abbrev StrLit := Node .strLit
abbrev Attribute := Node .attribute
abbrev Attr := Node .attr
abbrev Item := Node .item
abbrev FnDecl := Node .fnDecl
abbrev ErrorRow := Node .errorRow
abbrev Binding := Node .binding
abbrev Ty := Node .ty
abbrev Pattern := Node .pattern
abbrev Block := Node .block
abbrev Stmt := Node .stmt
abbrev Expr := Node .expr

namespace Node

variable {kind : Kind}

def ofList : List (Node kind) → Node (.many kind)
  | [] => .nil
  | head :: tail => .cons head (ofList tail)

/-- The nodes of a list, whose kind is `many` of theirs. -/
def listed {target : Kind} : {kind : Kind} → Node kind → kind = .many target → List (Node target)
  | _, .nil, _ => []
  | _, .cons head tail, same => (Kind.many.inj same ▸ head) :: listed tail same
  | _, _, _ => []

def toList (nodes : Node (.many kind)) : List (Node kind) := listed nodes rfl

@[simp]
theorem toList_nil : (Node.nil : Node (.many kind)).toList = [] := rfl

@[simp]
theorem toList_cons (head : Node kind) (tail : Node (.many kind)) :
    (Node.cons head tail).toList = head :: tail.toList := rfl

def ofOption : Option (Node kind) → Node (.opt kind)
  | Option.none => .none
  | Option.some value => .some value

instance : Coe (List (Node kind)) (Node (.many kind)) := ⟨ofList⟩

instance : Coe (Option (Node kind)) (Node (.opt kind)) := ⟨ofOption⟩

@[simp]
theorem toList_ofList (nodes : List (Node kind)) : (ofList nodes).toList = nodes := by
  induction nodes with
  | nil => rfl
  | cons head tail induction => rw [ofList, toList_cons, induction]

end Node

/-- A compilation unit. -/
structure Unit where
  innerAttrs : List Attribute
  items : List Item

def Attribute.attrs : Attribute → List Attr
  | .attribute attrs => attrs.toList

def Item.attrs : Item → List Attribute
  | .item attrs _ _ => attrs.toList

def Stmt.attrs : Stmt → List Attribute
  | .stmt attrs _ => attrs.toList

/-- The literal text, when the literal has no interpolations. -/
def StrLit.asPlainText : StrLit → Option Text
  | .strLit _ parts =>
    parts.toList.foldl
      (fun out part =>
        match out, part with
        | Option.some out, .strText text => Option.some (out ++ text)
        | _, _ => Option.none)
      (Option.some [])

/-- `index_place ::= expr '[' expr ']'`, the one place a moded store is spelled at. -/
def Expr.isIndexPlace : Expr → Bool
  | .bracketApply _ (.cons (.valueArg (.arg mode _)) .nil) _ => mode.isNone
  | _ => false

end WolfInterp.Syntax
