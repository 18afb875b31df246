import Mathlib.Algebra.Order.Ring.Nat
import Mathlib.Data.List.Basic
import Mathlib.Data.Char

/-!
# Tokens

The tokens of the language, their spans in bytes, and the reserved words. A source text is the list
of its scalar values; a byte offset that the source slices at is one where a prefix of this list
ends.
-/

namespace WolfInterp.Lex

/-- A source text. -/
abbrev Text := List Char

instance : LawfulBEq Text := inferInstance

/-- What holds of every character is decided along the text. -/
instance (text : Text) (p : Char → Prop) [DecidablePred p] : Decidable (∀ c ∈ text, p c) :=
  List.decidableBAll p text

/-- Length in bytes of UTF-8. -/
def bytes (text : Text) : Nat := (text.map Char.utf8Size).sum

/-- `&text[n..]`, which has no answer inside a scalar value or past the end. -/
def dropBytes (n : Nat) : Text → Option Text
  | [] => if n = 0 then some [] else none
  | c :: rest =>
    if n = 0 then some (c :: rest)
    else if c.utf8Size ≤ n then dropBytes (n - c.utf8Size) rest
    else none

/-- A byte-offset half-open span. -/
structure Span where
  start : Nat
  stop : Nat
  deriving DecidableEq

/-- A zero-width span. -/
def Span.empty (at_ : Nat) : Span := ⟨at_, at_⟩

/-- A diagnostic, without its message. -/
structure Diag where
  code : String
  span : Span
  anchor : String
  deriving DecidableEq

/-! ## Words -/

/-- The reserved keywords. -/
inductive Keyword where
  | as_ | asm | assume | borrow | break_ | comptime | const | continue_ | copy | defer
  | distinct | dyn | else_ | enum | errdefer | export_ | extern_ | false_ | fn | for_
  | freeze | handle | if_ | impl | import_ | in_ | let_ | loop | match_ | move | mut_
  | proc | pub | region | return_ | scope | select | shared | spawn | struct | take
  | trait | true_ | type | unsafe_ | use | var | weak | when_ | while_
  deriving DecidableEq

/-- A keyword's spelling. -/
def Keyword.spelling : Keyword → String
  | .as_ => "as" | .asm => "asm" | .assume => "assume" | .borrow => "borrow" | .break_ => "break"
  | .comptime => "comptime" | .const => "const" | .continue_ => "continue" | .copy => "copy"
  | .defer => "defer" | .distinct => "distinct" | .dyn => "dyn" | .else_ => "else"
  | .enum => "enum" | .errdefer => "errdefer" | .export_ => "export" | .extern_ => "extern"
  | .false_ => "false" | .fn => "fn" | .for_ => "for" | .freeze => "freeze" | .handle => "handle"
  | .if_ => "if" | .impl => "impl" | .import_ => "import" | .in_ => "in" | .let_ => "let"
  | .loop => "loop" | .match_ => "match" | .move => "move" | .mut_ => "mut" | .proc => "proc"
  | .pub => "pub" | .region => "region" | .return_ => "return" | .scope => "scope"
  | .select => "select" | .shared => "shared" | .spawn => "spawn" | .struct => "struct"
  | .take => "take" | .trait => "trait" | .true_ => "true" | .type => "type"
  | .unsafe_ => "unsafe" | .use => "use" | .var => "var" | .weak => "weak" | .when_ => "when"
  | .while_ => "while"

/-- `KEYWORDS`, in its alphabetical order. -/
def keywords : List Keyword :=
  [.as_, .asm, .assume, .borrow, .break_, .comptime, .const, .continue_, .copy, .defer,
   .distinct, .dyn, .else_, .enum, .errdefer, .export_, .extern_, .false_, .fn, .for_,
   .freeze, .handle, .if_, .impl, .import_, .in_, .let_, .loop, .match_, .move, .mut_,
   .proc, .pub, .region, .return_, .scope, .select, .shared, .spawn, .struct, .take,
   .trait, .true_, .type, .unsafe_, .use, .var, .weak, .when_, .while_]

/-- The keyword a word spells, the source's binary search in the sorted table. -/
def keyword? (word : Text) : Option Keyword :=
  keywords.find? fun keyword => keyword.spelling.toList = word

def isKeyword (word : Text) : Bool := (keyword? word).isSome

/-! ## Tokens -/

/-- Which flavour of string literal a start token opened. -/
inductive StrKind where
  | plain
  | multiline
  | raw (hashes : Nat)
  | generalized (pre : Text)
  deriving DecidableEq

/-- A lexical token; a string literal is several. -/
inductive Tok where
  | ident (name : Text) | underscore | kw (keyword : Keyword)
  | int (spelling : Text) | float (spelling : Text) | char (value : Char)
  | strStart (kind : StrKind) | strText (text : Text) | interpStart | interpEnd
  | fmtStart | fmtText (text : Text) | strEnd
  | term (explicit : Bool)
  | lParen | rParen | lBracket | rBracket | lBrace | rBrace | hashBracket | hashBangBracket
  | bang | plus | minus | star | slash | percent | shl | shr | amp | caret | pipe | andAnd | orOr
  | eqEq | ne | lt | gt | le | ge | spaceship
  | assign | plusEq | minusEq | starEq | slashEq | percentEq | ampEq | pipeEq | caretEq
  | shlEq | shrEq
  | dot | dotDot | dotDotEq | arrow | fatArrow | question | colon | comma | at_
  | error
  deriving DecidableEq

/-- No character token, told without trying every character. -/
instance (tok : Option Tok) : Decidable (∀ c : Char, tok = some (.char c) → False) :=
  decidable_of_iff (tok.all (fun | .char _ => false | _ => true) = true) (by
    cases tok with
    | none => simp
    | some tok => cases tok <;> simp)

/-- The statement-ending token class. -/
def Tok.endsAStatement : Tok → Bool
  | .ident _ | .underscore => true
  | .int _ | .float _ | .char _ | .strEnd => true
  | .kw keyword => keyword ∈ [.true_, .false_, .return_, .break_, .continue_]
  | .rParen | .rBracket | .rBrace => true
  | .question => true
  | _ => false

/-- A token and its span. -/
structure Token where
  tok : Tok
  span : Span
  deriving DecidableEq

/-- The longest-match table of multi-character operators, in the source's order. -/
def operators : List (String × Tok) :=
  [("<<=", .shlEq), (">>=", .shrEq), ("<=>", .spaceship), ("..=", .dotDotEq), ("<<", .shl),
   (">>", .shr), ("<=", .le), (">=", .ge), ("==", .eqEq), ("!=", .ne), ("&&", .andAnd),
   ("||", .orOr), ("+=", .plusEq), ("-=", .minusEq), ("*=", .starEq), ("/=", .slashEq),
   ("%=", .percentEq), ("&=", .ampEq), ("|=", .pipeEq), ("^=", .caretEq), ("->", .arrow),
   ("=>", .fatArrow), ("..", .dotDot)]

/-! ## Scalar values -/

/-- The Unicode properties of `char` that the lexer asks for. On ASCII they are the usual ones. -/
structure Unicode where
  isAlphabetic : Char → Bool
  isNumeric : Char → Bool
  isWhitespace : Char → Bool
  alphabetic_ascii : ∀ c : Char, c.toNat < 128 → isAlphabetic c = c.isAlpha
  numeric_ascii : ∀ c : Char, c.toNat < 128 → isNumeric c = c.isDigit
  whitespace_ascii : ∀ c : Char, c.toNat < 128 →
    isWhitespace c = (c = ' ' ∨ 9 ≤ c.toNat ∧ c.toNat ≤ 13 : Bool)

namespace Unicode

variable (u : Unicode)

def isXidStart (c : Char) : Bool := u.isAlphabetic c

/-- `is_alphanumeric`, or an underscore. -/
def isXidContinue (c : Char) : Bool := u.isAlphabetic c || u.isNumeric c || c = '_'

end Unicode

/-- The properties with nothing beyond ASCII. -/
def Unicode.ascii : Unicode where
  isAlphabetic := Char.isAlpha
  isNumeric := Char.isDigit
  isWhitespace c := c = ' ' ∨ 9 ≤ c.toNat ∧ c.toNat ≤ 13
  alphabetic_ascii _ _ := rfl
  numeric_ascii _ _ := rfl
  whitespace_ascii _ _ := rfl

def isAsciiDigit (c : Char) : Bool := '0' ≤ c ∧ c ≤ '9'

/-- `char::to_digit`. -/
def toDigit (radix : Nat) (c : Char) : Option Nat :=
  let value :=
    if '0' ≤ c ∧ c ≤ '9' then some (c.toNat - '0'.toNat)
    else if 'a' ≤ c ∧ c ≤ 'z' then some (c.toNat - 'a'.toNat + 10)
    else if 'A' ≤ c ∧ c ≤ 'Z' then some (c.toNat - 'A'.toNat + 10)
    else none
  value.filter (· < radix)

/-- The radix a `0x`, `0o` or `0b` prefix introduces. -/
def baseRadix (marker : Char) : Option Nat :=
  match marker with
  | 'x' | 'X' => some 16
  | 'o' | 'O' => some 8
  | 'b' | 'B' => some 2
  | _ => none

end WolfInterp.Lex
