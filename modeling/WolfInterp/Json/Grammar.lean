import WolfInterp.Json.Parse

/-!
# The grammar of RFC 8259

The texts that are one JSON value, with the value they name. Nesting is counted, a `\u` escape has
four hexadecimal digits and a surrogate escape comes in a high-low pair.
-/

namespace WolfInterp.Json

/-- Insignificant whitespace and nothing else. -/
def Blank (text : Text) : Prop := ∀ c ∈ text, isWs c = true

/-! ## Numbers -/

/-- One digit or more. -/
def Digits (text : Text) : Prop := text ≠ [] ∧ ∀ c ∈ text, isDigit c = true

/-- `int = zero / ( digit1-9 *DIGIT )` -/
def IntPart (text : Text) : Prop := text = ['0'] ∨ Digits text ∧ text.head? ≠ some '0'

/-- `frac = decimal-point 1*DIGIT` -/
def FracPart (text : Text) : Prop := text = [] ∨ ∃ ds, text = '.' :: ds ∧ Digits ds

/-- `exp = e [ minus / plus ] 1*DIGIT` -/
def ExpPart (text : Text) : Prop :=
  text = [] ∨ ∃ e sign ds, text = e :: sign ++ ds ∧ (e = 'e' ∨ e = 'E') ∧
    (sign = [] ∨ sign = ['+'] ∨ sign = ['-']) ∧ Digits ds

/-- `number = [ minus ] int [ frac ] [ exp ]` -/
def Number (text : Text) : Prop :=
  ∃ sign int frac exp, text = sign ++ int ++ frac ++ exp ∧ (sign = [] ∨ sign = ['-']) ∧
    IntPart int ∧ FracPart frac ∧ ExpPart exp

/-! ## Strings -/

/-- Four hexadecimal digits and their value. -/
inductive Quad : Text → Nat → Prop
  | digits {a b c d : Char} {w x y z : Nat} (first : toDigit a = some w)
      (second : toDigit b = some x) (third : toDigit c = some y) (fourth : toDigit d = some z) :
      Quad [a, b, c, d] (16 * (16 * (16 * w + x) + y) + z)

/-- One character of a string and the scalar value it stands for. -/
inductive Piece : Text → Char → Prop
  | plain {c : Char} (visible : 0x20 ≤ c.toNat) (unquoted : c ≠ '"') (unescaped : c ≠ '\\') :
      Piece [c] c
  | short {letter c : Char} (escape : shortEscape letter = some c) : Piece ['\\', letter] c
  | unicode {digits : Text} {value : Nat} (quad : Quad digits value)
      (high : isHigh value = false) (low : isLow value = false) :
      Piece ('\\' :: 'u' :: digits) (Char.ofNat value)
  | pair {first second : Text} {high low : Nat} (quad : Quad first high) (quad' : Quad second low)
      (isHigh : isHigh high = true) (isLow : isLow low = true) :
      Piece ('\\' :: 'u' :: first ++ '\\' :: 'u' :: second) (Char.ofNat (combine high low))

/-- What stands between the quotes. -/
inductive Body : Text → Text → Prop
  | nil : Body [] []
  | cons {piece rest decoded : Text} {c : Char} (first : Piece piece c)
    (later : Body rest decoded) :
      Body (piece ++ rest) (c :: decoded)

/-! ## Values -/

/-- One entry of an array, with the whitespace around it. -/
structure Entry where
  before : Text
  text : Text
  after : Text
  node : Node

def Entry.spelling (entry : Entry) : Text := entry.before ++ entry.text ++ entry.after

def Entry.Blanks (entry : Entry) : Prop := Blank entry.before ∧ Blank entry.after

/-- The name of a member, with the whitespace around it. -/
structure Name where
  before : Text
  text : Text
  after : Text
  decoded : Text

def Name.spelling (name : Name) : Text :=
  name.before ++ '"' :: name.text ++ '"' :: name.after ++ [':']

/-- A name is a string with whitespace around it. -/
def Name.Spells (name : Name) : Prop :=
  Blank name.before ∧ Body name.text name.decoded ∧ Blank name.after

/-- The entries of an object in source order; a repeated name keeps its first place and its last
value. -/
def lastWins (pairs : List (Text × Node)) : List (Text × Node) :=
  pairs.foldl (fun members pair => insert members pair.1 pair.2) []

/-- A value with at most `depth` containers inside one another. -/
inductive Value : Nat → Text → Node → Prop
  | null {depth : Nat} : Value depth ['n', 'u', 'l', 'l'] .null
  | true_ {depth : Nat} : Value depth ['t', 'r', 'u', 'e'] (.bool true)
  | false_ {depth : Nat} : Value depth ['f', 'a', 'l', 's', 'e'] (.bool false)
  | number {depth : Nat} {text : Text} (number : Number text) : Value depth text (.num text)
  | string {depth : Nat} {text decoded : Text} (body : Body text decoded) :
      Value depth ('"' :: text ++ ['"']) (.str decoded)
  | emptyArray {depth : Nat} {text : Text} (blank : Blank text) :
      Value (depth + 1) ('[' :: text ++ [']']) (.array [])
  | array {depth : Nat} {entries : List Entry} (some_one : entries ≠ [])
      (blanks : ∀ entry ∈ entries, entry.Blanks)
      (values : ∀ entry ∈ entries, Value depth entry.text entry.node) :
      Value (depth + 1) ('[' :: commas (entries.map Entry.spelling) ++ [']'])
        (.array (entries.map Entry.node))
  | emptyObject {depth : Nat} {text : Text} (blank : Blank text) :
      Value (depth + 1) ('{' :: text ++ ['}']) (.object [])
  | object {depth : Nat} {members : List (Name × Entry)} (some_one : members ≠ [])
      (names : ∀ member ∈ members, member.1.Spells)
      (blanks : ∀ member ∈ members, member.2.Blanks)
      (values : ∀ member ∈ members, Value depth member.2.text member.2.node) :
      Value (depth + 1)
        ('{' :: commas (members.map fun member => member.1.spelling ++ member.2.spelling) ++ ['}'])
        (.object (lastWins (members.map fun member => (member.1.decoded, member.2.node))))

/-- `JSON-text = ws value ws`, nested at most as deep as the reader accepts. -/
def Spells (text : Text) (node : Node) : Prop :=
  ∃ before inner after, text = before ++ inner ++ after ∧ Blank before ∧ Blank after ∧
    Value maxDepth inner node

/-- A JSON text. -/
def Rfc (text : Text) : Prop := ∃ node, Spells text node

end WolfInterp.Json
