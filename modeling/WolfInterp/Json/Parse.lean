import Mathlib.Algebra.Order.Ring.Nat
import Mathlib.Data.List.Basic
import Mathlib.Data.Char

/-!
# Reading JSON

The reader of the `json_*` builtins and the three queries over it. A text is the list of its
Unicode scalar values, so a reader takes the text that is left and answers the text it leaves; the
bytes the source looks at are all ASCII, where bytes and scalar values agree. A number keeps its
spelling, which is what the source's span is used for.
-/

namespace WolfInterp.Json

/-- A text, one scalar value after the other. -/
abbrev Text := List Char

/-- Deepest container nesting accepted; one past it is a parse error. -/
def maxDepth : Nat := 129

/-- The three failure kinds. -/
inductive Error where
  | parse
  | missing
  | kind
  deriving DecidableEq

/-- One parsed value. An object has one entry per distinct name, ordered by the name's first
appearance, holding its last value. -/
inductive Node where
  | object (members : List (Text × Node))
  | array (items : List Node)
  | str (decoded : Text)
  | num (spelling : Text)
  | bool (value : Bool)
  | null

/-! ## Scanning -/

/-- Insignificant whitespace. -/
def isWs (c : Char) : Bool := c = ' ' ∨ c = '\t' ∨ c = '\n' ∨ c = '\r'

def isDigit (c : Char) : Bool := '0' ≤ c ∧ c ≤ '9'

def skipWs (text : Text) : Text := text.dropWhile isWs

/-- Take one expected byte. -/
def eat (byte : Char) : Text → Option Text
  | [] => none
  | c :: rest => if c = byte then some rest else none

/-- The text between two positions. -/
def span (start rest : Text) : Text := start.take (start.length - rest.length)

def literal (word : Text) (node : Node) (text : Text) : Except Error (Node × Text) :=
  if word.isPrefixOf text then .ok (node, text.drop word.length) else .error .parse

/-- At least one digit. -/
def digits : Text → Except Error Text
  | [] => .error .parse
  | c :: rest => if isDigit c then .ok (rest.dropWhile isDigit) else .error .parse

/-- `0`, or digits that do not start with it. -/
def intPart : Text → Except Error Text
  | [] => .error .parse
  | c :: rest => if c = '0' then .ok rest else digits (c :: rest)

def fracPart (text : Text) : Except Error Text :=
  match eat '.' text with
  | some rest => digits rest
  | none => .ok text

def expPart (text : Text) : Except Error Text :=
  match (eat 'e' text).or (eat 'E' text) with
  | some rest => digits (((eat '+' rest).or (eat '-' rest)).getD rest)
  | none => .ok text

def number (start : Text) : Except Error (Node × Text) := do
  let rest ← intPart ((eat '-' start).getD start)
  let rest ← fracPart rest
  let rest ← expPart rest
  return (.num (span start rest), rest)

/-! ## Strings -/

/-- `char::to_digit(16)`. -/
def toDigit (c : Char) : Option Nat :=
  if '0' ≤ c ∧ c ≤ '9' then some (c.toNat - '0'.toNat)
  else if 'a' ≤ c ∧ c ≤ 'f' then some (c.toNat - 'a'.toNat + 10)
  else if 'A' ≤ c ∧ c ≤ 'F' then some (c.toNat - 'A'.toNat + 10)
  else none

/-- The value of hexadecimal digits, most significant first. -/
def fromDigits (digits : Text) : Option Nat :=
  digits.foldlM (fun value c => (toDigit c).map fun digit => 16 * value + digit) 0

/-- `u32::from_str_radix(digits, 16)`, which takes a leading plus sign. -/
def fromStrRadix : Text → Option Nat
  | [] => none
  | ['+'] => none
  | '+' :: digits => fromDigits digits
  | digits => fromDigits digits

/-- `char::from_u32`. -/
def fromU32 (value : Nat) : Except Error Char :=
  if value.isValidChar then .ok (Char.ofNat value) else .error .parse

def hex4 : Text → Except Error (Nat × Text)
  | a :: b :: c :: d :: rest =>
    match fromStrRadix [a, b, c, d] with
    | some value => .ok (value, rest)
    | none => .error .parse
  | _ => .error .parse

def isHigh (value : Nat) : Bool := 0xD800 ≤ value ∧ value ≤ 0xDBFF

def isLow (value : Nat) : Bool := 0xDC00 ≤ value ∧ value ≤ 0xDFFF

/-- The scalar value of a surrogate pair. -/
def combine (high low : Nat) : Nat := 0x10000 + (high - 0xD800) * 2 ^ 10 + (low - 0xDC00)

/-- The escape after `\u`. -/
def unicode (text : Text) : Except Error (Char × Text) := do
  let (first, rest) ← hex4 text
  if isLow first then .error .parse
  else if isHigh first then
    match (eat '\\' rest).bind (eat 'u') with
    | none => .error .parse
    | some rest =>
      let (second, rest) ← hex4 rest
      if isLow second then
        let scalar ← fromU32 (combine first second)
        return (scalar, rest)
      else .error .parse
  else
    let scalar ← fromU32 first
    return (scalar, rest)

/-- The one-letter escapes. -/
def shortEscape (c : Char) : Option Char :=
  match c with
  | '"' => some '"'
  | '\\' => some '\\'
  | '/' => some '/'
  | 'b' => some (Char.ofNat 0x8)
  | 'f' => some (Char.ofNat 0xc)
  | 'n' => some '\n'
  | 'r' => some '\r'
  | 't' => some '\t'
  | _ => none

/-- The escape after a backslash. -/
def escape : Text → Except Error (Char × Text)
  | [] => .error .parse
  | c :: rest =>
    if c = 'u' then unicode rest
    else match shortEscape c with
      | some decoded => .ok (decoded, rest)
      | none => .error .parse

/-- The rest of a string after its opening quote. Every round takes a character, so the length of
the text bounds the rounds. -/
def stringLoop : Nat → Text → Text → Except Error (Text × Text)
  | 0, _, _ => .error .parse
  | _ + 1, _, [] => .error .parse
  | fuel + 1, out, c :: rest =>
    if c = '"' then .ok (out, rest)
    else if c = '\\' then do
      let (decoded, rest) ← escape rest
      stringLoop fuel (out ++ [decoded]) rest
    else if c.toNat < 0x20 then .error .parse
    else stringLoop fuel (out ++ [c]) rest

def string (text : Text) : Except Error (Text × Text) := stringLoop text.length [] text

/-! ## Values -/

/-- A repeated name keeps its first slot and takes the later value. -/
def insert (members : List (Text × Node)) (key : Text) (value : Node) : List (Text × Node) :=
  match members.findIdx? fun member => member.1 = key with
  | some slot => members.modify slot fun member => (member.1, value)
  | none => members ++ [(key, value)]

/-- A container after its opening bracket: empty, or the loop over its entries. -/
def container (close : Char) (empty : Node) (loop : Text → Except Error (Node × Text))
    (depth : Nat) (text : Text) : Except Error (Node × Text) :=
  if maxDepth < depth then .error .parse
  else match eat close (skipWs text) with
    | some rest => .ok (empty, rest)
    | none => loop (skipWs text)

mutual

/-- One value inside `depth` containers. A value and its loops take at most two calls for every
character, which bounds the calls. -/
def value : Nat → Nat → Text → Except Error (Node × Text)
  | 0, _, _ => .error .parse
  | _ + 1, _, [] => .error .parse
  | fuel + 1, depth, c :: rest =>
    if c = '{' then container '}' (.object []) (members fuel (depth + 1) []) (depth + 1) rest
    else if c = '[' then container ']' (.array []) (items fuel (depth + 1) []) (depth + 1) rest
    else if c = '"' then do
      let (decoded, rest) ← string rest
      return (.str decoded, rest)
    else if c = 't' then literal ['t', 'r', 'u', 'e'] (.bool true) (c :: rest)
    else if c = 'f' then literal ['f', 'a', 'l', 's', 'e'] (.bool false) (c :: rest)
    else if c = 'n' then literal ['n', 'u', 'l', 'l'] .null (c :: rest)
    else if c = '-' ∨ isDigit c then number (c :: rest)
    else .error .parse

/-- The loop of an object. -/
def members : Nat → Nat → List (Text × Node) → Text → Except Error (Node × Text)
  | 0, _, _, _ => .error .parse
  | fuel + 1, depth, entries, text =>
    match eat '"' (skipWs text) with
    | none => .error .parse
    | some rest => do
      let (key, rest) ← string rest
      match eat ':' (skipWs rest) with
      | none => .error .parse
      | some rest =>
        let (node, rest) ← value fuel depth (skipWs rest)
        let entries := insert entries key node
        match eat ',' (skipWs rest) with
        | some rest => members fuel depth entries rest
        | none =>
          match eat '}' (skipWs rest) with
          | some rest => .ok (.object entries, rest)
          | none => .error .parse

/-- The loop of an array. -/
def items : Nat → Nat → List Node → Text → Except Error (Node × Text)
  | 0, _, _, _ => .error .parse
  | fuel + 1, depth, nodes, text => do
    let (node, rest) ← value fuel depth (skipWs text)
    let nodes := nodes ++ [node]
    match eat ',' (skipWs rest) with
    | some rest => items fuel depth nodes rest
    | none =>
      match eat ']' (skipWs rest) with
      | some rest => .ok (.array nodes, rest)
      | none => .error .parse

end

/-- One value with whitespace around it and nothing else. -/
def parse (text : Text) : Except Error Node := do
  let (node, rest) ← value (2 * text.length + 1) 0 (skipWs text)
  if skipWs rest = [] then return node else .error .parse

/-- `json_valid`. -/
def valid (text : Text) : Bool := (parse text).isOk

/-! ## Queries -/

/-- `json_type`'s names. -/
def Node.kind : Node → String
  | .object _ => "object"
  | .array _ => "array"
  | .str _ => "str"
  | .num _ => "num"
  | .bool _ => "bool"
  | .null => "null"

/-- An array index: ASCII digits that fit a `usize`. -/
def index (segment : Text) : Except Error Nat :=
  if segment = [] ∨ ¬ segment.all isDigit then .error .missing
  else
    let value := segment.foldl (fun value c => 10 * value + (c.toNat - '0'.toNat)) 0
    if value < 2 ^ 64 then .ok value else .error .missing

/-- One step of a path. -/
def Node.child (node : Node) (segment : Text) : Except Error Node :=
  match node with
  | .array items => do
    let at_ ← index segment
    match items[at_]? with
    | some item => return item
    | none => .error .missing
  | .object members =>
    match members.find? fun member => member.1 = segment with
    | some member => .ok member.2
    | none => .error .missing
  | _ => .error .missing

/-- The node a dotted path addresses. -/
def resolve (root : Node) (path : Text) : Except Error Node :=
  if path = [] then .ok root else (path.splitOn '.').foldlM Node.child root

/-- Two lowercase hexadecimal digits. -/
def hexByte (value : Nat) : Text := [Nat.digitChar (value / 16), Nat.digitChar (value % 16)]

/-- One character of an encoded string. -/
def encodeChar (c : Char) : Text :=
  if c = '"' then ['\\', '"']
  else if c = '\\' then ['\\', '\\']
  else if c = '\t' then ['\\', 't']
  else if c = '\n' then ['\\', 'n']
  else if c = '\r' then ['\\', 'r']
  else if c.toNat < 0x20 then ['\\', 'u', '0', '0'] ++ hexByte c.toNat
  else [c]

def encodeStr (decoded : Text) : Text := ['"'] ++ decoded.flatMap encodeChar ++ ['"']

/-- Entries with a comma between them. -/
def commas : List Text → Text
  | [] => []
  | [entry] => entry
  | entry :: entries => entry ++ ',' :: commas entries

mutual

/-- A node without whitespace. -/
def compact : Node → Text
  | .object members => ['{'] ++ commas (compactMembers members) ++ ['}']
  | .array items => ['['] ++ commas (compactItems items) ++ [']']
  | .str decoded => encodeStr decoded
  | .num spelling => spelling
  | .bool value => if value then ['t', 'r', 'u', 'e'] else ['f', 'a', 'l', 's', 'e']
  | .null => ['n', 'u', 'l', 'l']

def compactMembers : List (Text × Node) → List Text
  | [] => []
  | (key, value) :: members => (encodeStr key ++ ':' :: compact value) :: compactMembers members

def compactItems : List Node → List Text
  | [] => []
  | item :: items => compact item :: compactItems items

end

/-- `str::trim_matches` with the four whitespace characters. -/
def trim (text : Text) : Text := ((skipWs text).reverse.dropWhile isWs).reverse

/-- A resolved node as text: a string decoded, the root container as the trimmed source. -/
def render (text path : Text) : Node → Text
  | .str decoded => decoded
  | .object members => if path = [] then trim text else compact (.object members)
  | .array items => if path = [] then trim text else compact (.array items)
  | node => compact node

/-- `json_get`. -/
def get (text path : Text) : Except Error Text := do
  let root ← parse text
  let node ← resolve root path
  return render text path node

/-- `json_type`. -/
def kind (text path : Text) : Except Error String := do
  let root ← parse text
  let node ← resolve root path
  return node.kind

/-- `json_len`. -/
def len (text path : Text) : Except Error Nat := do
  let root ← parse text
  match ← resolve root path with
  | .array items => return items.length
  | .object members => return members.length
  | _ => .error .kind

end WolfInterp.Json
