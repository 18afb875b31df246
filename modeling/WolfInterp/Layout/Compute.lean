import WolfInterp.Layout.Decls
import WolfInterp.Lib.RecordLayout

/-!
# The C layout

`layoutOfName` computes a type's size, alignment and offsets with the arithmetic of a `u64`. What an
operation does with a result past 64 bits is the build's: a release build wraps it, and a checked
build panics. In unbounded numbers the same computation is the layout C gives.
-/

namespace WolfInterp.Layout

open WolfInterp.Syntax

/-- The layout the clause gives a type, in bytes; `fields` are the offsets in declaration order. -/
structure TypeLayout where
  size : Nat
  align : Nat
  fields : List (Ident × Nat)

/-- Why a type has no layout. -/
inductive NoLayout where
  | native | unknown
  deriving DecidableEq

/-- How a computation ends without an answer. -/
inductive Stop where
  | noLayout (why : NoLayout)
  | overflow
  deriving DecidableEq

/-- What a build makes of the exact result of an operation. -/
abbrev Word := Nat → Except Stop Nat

def release : Word := fun n => .ok (n % 2 ^ 64)

def checked : Word := fun n => if n < 2 ^ 64 then .ok n else .error .overflow

def unbounded : Word := .ok

/-- A scalar's natural size, which is its alignment too. -/
def scalars : List (Ident × Nat) :=
  [("i8".toList, 1), ("u8".toList, 1), ("byte".toList, 1), ("bool".toList, 1), ("i16".toList, 2),
    ("u16".toList, 2), ("i32".toList, 4), ("u32".toList, 4), ("f32".toList, 4), ("char".toList, 4),
    ("i64".toList, 8), ("u64".toList, 8), ("int".toList, 8), ("uint".toList, 8), ("f64".toList, 8)]

def scalar (name : Ident) : Option Nat := scalars.lookup name

def vaList : TypeLayout :=
  { size := 24
    align := 8
    fields := [("gp_offset".toList, 0), ("fp_offset".toList, 4), ("overflow_arg_area".toList, 8),
      ("reg_save_area".toList, 16)] }

def roundUp (word : Word) (n align : Nat) : Except Stop Nat := word (RecordLayout.roundUp n align)

section

variable (word : Word) (named : Ident → Except Stop TypeLayout)

/-- The layout of a field, where `named` is that of a type's name. -/
def fieldLayout : Ty → Except Stop TypeLayout
  | .rawPointer _ => .ok { size := 8, align := 8, fields := [] }
  | .pathType path .nil =>
    match path.segments with
    | [name] =>
      match named name with
      | .error (.noLayout _) => .error (.noLayout .native)
      | layout => layout
    | _ => .error (.noLayout .native)
  | _ => .error (.noLayout .native)

/-- The fields from an offset and an alignment on: the last one's end, the strictest alignment, and
the offsets. -/
def placeFields (packed : Bool) :
    List Field → Nat → Nat → Except Stop (Nat × Nat × List (Ident × Nat))
  | [], offset, strictest => .ok (offset, strictest, [])
  | field :: rest, offset, strictest => do
    let inner ← fieldLayout named field.ty
    let align := if packed then 1 else inner.align
    let start ← roundUp word offset align
    let next ← word (start + inner.size)
    let (finish, strict, fields) ← placeFields packed rest next (max strictest align)
    return (finish, strict, (field.name, start) :: fields)

/-- The alignment of a struct whose strictest field is aligned to `strictest`. -/
def declaredAlign (decl : StructDecl) (strictest : Nat) : Nat :=
  match decl.repr.align with
  | none => strictest
  | some n => max strictest n.val

def structLayout (decl : StructDecl) : Except Stop TypeLayout := do
  let (offset, strictest, fields) ← placeFields word named decl.repr.packed decl.fields 0 1
  let align := declaredAlign decl strictest
  let size ← roundUp word offset align
  return { size, align, fields }

end

/-- The layout of a type's name, which is met at a depth of nesting. -/
def layoutNamed (word : Word) (module : Module) (name : Ident) (depth : Nat) :
    Except Stop TypeLayout :=
  match scalar name with
  | some n => .ok { size := n, align := n, fields := [] }
  | none =>
    if name = "VaList".toList ∧ module.contains name = false then .ok vaList
    else if name = "str".toList then .error (.noLayout .native)
    else match module.structs name with
      | some decl =>
        if deep : decl.repr.c = false ∨ decl.generics ≠ [] ∨ depth > 64 then
          .error (.noLayout .native)
        else
          structLayout word (fun inner => layoutNamed word module inner (depth + 1)) decl
      | none =>
        match module.lookup name with
        | some .struct | some .enum => .error (.noLayout .native)
        | _ => .error (.noLayout .unknown)
termination_by 65 - depth
decreasing_by omega

def layoutOfName (word : Word) (module : Module) (name : Ident) : Except Stop TypeLayout :=
  layoutNamed word module name 0

end WolfInterp.Layout
