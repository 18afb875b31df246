import WolfInterp.Lex.Token

/-!
# The lexer

One stack holds delimiters, interpolations, format specs and string frames; its top is the head of
the list. The lexer keeps the text that is left beside its byte offset. `none` is a panic of the
source (a slice inside a scalar value, a missing frame, an index past the end) or a loop that ran
out of the rounds it is given.
-/

namespace WolfInterp.Lex

/-- A piece of a multiline literal: the index of one of its text tokens, or an interpolation. -/
inductive Piece where
  | text (index : Nat)
  | interp
  deriving DecidableEq

/-- An open string literal. -/
structure StrFrame where
  kind : StrKind
  bodyStart : Nat
  pending : Text
  pendingStart : Nat
  pieces : List Piece
  lineStarts : List Nat
  deriving DecidableEq

/-- The mode and delimiter stack. -/
inductive Ctx where
  | paren | bracket | attrBracket | brace | interp
  | str (frame : StrFrame)
  | fmt
  deriving DecidableEq

structure Lexer where
  src : Text
  /-- `&src[pos..]` -/
  rest : Text
  pos : Nat
  tokens : List Token
  ctx : List Ctx
  errors : List Diag
  deferred : List Diag
  maxStrDepth : Nat
  depthReported : Bool
  attrClose : Option Nat
  openAtEof : Bool
  deriving DecidableEq

/-- Everything one run produced. -/
structure Lexed where
  tokens : List Token
  errors : List Diag
  deferred : List Diag
  maxStrDepth : Nat
  openAtEof : Bool
  deriving DecidableEq

def nestingFriendlyLimit : Nat := 8

def nestingHardRail : Nat := 32

namespace Lexer

/-! ## Plumbing -/

def peek (l : Lexer) : Option Char := l.rest.head?

def peekAt (l : Lexer) (offset : Nat) : Option Char := (dropBytes offset l.rest).bind List.head?

def startsWith (l : Lexer) (s : String) : Bool := s.toList.isPrefixOf l.rest

/-- `pos += n` -/
def skip (l : Lexer) (n : Nat) : Option Lexer :=
  (dropBytes n l.rest).map fun rest => { l with rest, pos := l.pos + n }

/-- `pos += c.len_utf8()` for the next character. -/
def bump (l : Lexer) : Lexer :=
  match l.rest with
  | [] => l
  | c :: rest => { l with rest, pos := l.pos + c.utf8Size }

/-- Step over characters while they satisfy the test. -/
def skipWhile (l : Lexer) (p : Char → Bool) : Lexer :=
  { l with rest := l.rest.dropWhile p, pos := l.pos + bytes (l.rest.takeWhile p) }

/-- `&src[start..pos]`, from an earlier state to this one. -/
def slice (start now : Lexer) : Text := start.rest.take (start.rest.length - now.rest.length)

def push (l : Lexer) (tok : Tok) (span : Span) : Lexer :=
  { l with tokens := l.tokens ++ [⟨tok, span⟩] }

def error (l : Lexer) (code : String) (span : Span) (anchor : String) : Lexer :=
  { l with errors := l.errors ++ [⟨code, span, anchor⟩] }

def pushCtx (l : Lexer) (ctx : Ctx) : Lexer := { l with ctx := ctx :: l.ctx }

def popCtx (l : Lexer) : Lexer := { l with ctx := l.ctx.tail }

/-- The innermost delimiter, past string and format frames. -/
def innermostDelimiter (l : Lexer) : Option Ctx :=
  l.ctx.find? fun
    | .str _ | .fmt => false
    | _ => true

def stringDepth (l : Lexer) : Nat :=
  l.ctx.countP fun
    | .str _ => true
    | _ => false

/-- The span of the innermost open string when it is a plain one. -/
def openPlainString (l : Lexer) (stop : Nat) : Option Span :=
  match l.ctx.findSome? fun | .str frame => some frame | _ => none with
  | some frame => if frame.kind = .plain then some ⟨frame.bodyStart - 1, stop⟩ else none
  | none => none

/-- Pop up to and including the innermost string frame, closing what is popped. -/
def unwind : List Ctx → Lexer → Lexer
  | [], l => { l with ctx := [] }
  | .str _ :: ctx, l => { l with ctx }.push .strEnd (.empty l.pos)
  | .interp :: ctx, l => unwind ctx (l.push .interpEnd (.empty l.pos))
  | .fmt :: ctx, l => unwind ctx (l.push .interpEnd (.empty l.pos))
  | _ :: ctx, l => unwind ctx l

def unwindPlainString (l : Lexer) : Lexer := unwind l.ctx l

/-! ## Terminators -/

/-- Whitespace of `else_follows` and of token mode, the newline included. -/
def isBlank (c : Char) : Bool :=
  c = ' ' ∨ c = '\t' ∨ c = '\r' ∨ c = '\n' ∨ c = Char.ofNat 0x0b ∨ c = Char.ofNat 0x0c

/-- The text after whitespace and comments. `comment` says that the scan is inside a comment. -/
def skipTrivia : Bool → Text → Text
  | _, [] => []
  | true, c :: rest => if c = '\n' then skipTrivia false rest else skipTrivia true rest
  | false, c :: rest =>
    if isBlank c then skipTrivia false rest
    else if c = '/' ∧ rest.head? = some '/' then skipTrivia true rest
    else c :: rest

/-- Is the next token the keyword `else`? -/
def elseFollows (u : Unicode) (text : Text) : Bool :=
  match skipTrivia false text with
  | 'e' :: 'l' :: 's' :: 'e' :: rest => rest.head?.all fun c => !(u.isXidContinue c || c = '_')
  | _ => false

/-- Does the innermost delimiter allow a terminator? -/
def terminates (l : Lexer) : Bool :=
  match l.innermostDelimiter with
  | none | some .brace => true
  | some _ => false

/-- The terminator of a newline at `at_`; the text after the newline is left. -/
def insertTerminator (u : Unicode) (l : Lexer) (at_ : Nat) : Lexer :=
  if ¬ l.terminates then l
  else match l.tokens.getLast? with
    | none => l
    | some last =>
      if ¬ last.tok.endsAStatement then l
      else if l.attrClose = some (l.tokens.length - 1) then l
      else if elseFollows u l.rest then l
      else l.push (.term false) (.empty at_)

def insertTerminatorAtEof (l : Lexer) : Lexer :=
  if ¬ l.terminates then l
  else if l.attrClose = some (l.tokens.length - 1) then l
  else if l.tokens.getLast?.any fun last => last.tok.endsAStatement then
    l.push (.term false) (.empty (bytes l.src))
  else l

/-! ## Words and numbers -/

def isAsciiAlphanumeric (c : Char) : Bool :=
  isAsciiDigit c || ('a' ≤ c ∧ c ≤ 'z') || ('A' ≤ c ∧ c ≤ 'Z')

def eatDecimalRun (l : Lexer) : Lexer := l.skipWhile fun c => isAsciiDigit c || c = '_'

def scanNumber (start : Lexer) : Option Lexer :=
  match if start.peek = some '0' then (start.peekAt 1).bind baseRadix else none with
  | some radix => do
    let afterPrefix ← start.skip 2
    -- Alphanumerics outside the base are consumed too, for the diagnostic's span.
    let l := afterPrefix.skipWhile fun c => c = '_' || isAsciiAlphanumeric c
    let digits := slice afterPrefix l
    let span := ⟨start.pos, l.pos⟩
    let wellFormed := digits ≠ [] ∧ digits.all fun c => c = '_' || (toDigit radix c).isSome
    let l := if wellFormed then l else l.error "E0106" span "gram.lex.number"
    return l.push (.int (slice start l)) span
  | none => do
    let l := start.eatDecimalRun
    -- A dot joins the literal only when a digit follows it.
    let dot := l.peek = some '.' ∧ l.peekAt 1 ≠ some '.' ∧ (l.peekAt 1).any isAsciiDigit
    let l := if dot then l.bump.eatDecimalRun else l
    let after := l.peekAt 1
    let exponentDigits :=
      if after = some '+' ∨ after = some '-' then l.peekAt 2 else after
    let exponent := (l.peek = some 'e' ∨ l.peek = some 'E') ∧ exponentDigits.any isAsciiDigit
    let l :=
      if exponent then
        let l := l.bump
        let l := if l.peek = some '+' ∨ l.peek = some '-' then l.bump else l
        l.eatDecimalRun
      else l
    let text := slice start l
    return l.push (if dot ∨ exponent then .float text else .int text) ⟨start.pos, l.pos⟩

/-! ## Char literals -/

/-- Why an escape of a char literal was refused. -/
inductive CharEscapeError where
  | shape
  | digitCount (span : Span)
  deriving DecidableEq

/-- Hexadecimal digits, at most `limit` of them, onto a value and a count. -/
def hexDigits : Nat → Nat → Nat → Lexer → Nat × Nat × Lexer
  | 0, value, digits, l => (value, digits, l)
  | limit + 1, value, digits, l =>
    match l.peek.bind (toDigit 16) with
    | some d => hexDigits limit (min (min (value * 16) (2 ^ 32 - 1) + d) (2 ^ 32 - 1))
        (digits + 1) l.bump
    | none => (value, digits, l)

/-- The `\u{…}` arm of a char escape that began at `escape`. -/
def scanCharUnicodeEscape (l : Lexer) (escape : Nat) : Except CharEscapeError Char × Lexer :=
  if l.peek ≠ some '{' then (.error .shape, l)
  else
    let (value, digits, l) := hexDigits l.bump.rest.length 0 0 l.bump
    if l.peek ≠ some '}' then (.error .shape, l)
    else
      let l := l.bump
      if digits = 0 ∨ 6 < digits then (.error (.digitCount ⟨escape, l.pos⟩), l)
      else if value.isValidChar then (.ok (Char.ofNat value), l)
      else (.error .shape, l)

/-- One escape of a char literal, at its backslash. -/
def scanCharEscape (start : Lexer) : Except CharEscapeError Char × Lexer :=
  let l := start.bump
  match l.peek with
  | none => (.error .shape, l)
  | some c =>
    let l := l.bump
    match c with
    | 'n' => (.ok '\n', l)
    | 't' => (.ok '\t', l)
    | 'r' => (.ok '\r', l)
    | '0' => (.ok (Char.ofNat 0), l)
    | '\\' => (.ok '\\', l)
    | '\'' => (.ok '\'', l)
    | '"' => (.ok '"', l)
    | 'x' =>
      let (value, digits, l) := hexDigits 2 0 0 l
      if digits ≠ 2 then (.error .shape, l) else (.ok (Char.ofNat value), l)
    | 'u' => l.scanCharUnicodeEscape start.pos
    | _ => (.error .shape, l)

/-- What the scan of a char literal has seen: how many scalars, the first that decoded, and the
first malformation. -/
structure CharScan where
  scalars : Nat
  first : Option Char
  bad : Option CharEscapeError

/-- The body of a char literal up to its closing quote; `none` where the line ends first. -/
def charBody : Nat → CharScan → Lexer → Option (Option CharScan × Lexer)
  | 0, _, _ => none
  | rounds + 1, scan, l =>
    match l.peek with
    | none | some '\n' => some (none, l)
    | some '\'' => some (some scan, l.bump)
    | some '\\' =>
      match l.scanCharEscape with
      | (.ok c, l) =>
        charBody rounds { scan with scalars := scan.scalars + 1, first := scan.first.or c } l
      | (.error reason, l) =>
        charBody rounds { scan with scalars := scan.scalars + 1, bad := scan.bad.or reason } l
    | some c =>
      charBody rounds { scan with scalars := scan.scalars + 1, first := scan.first.or c } l.bump

def scanCharLiteral (start : Lexer) : Option Lexer := do
  match ← charBody (start.rest.length + 1) ⟨0, none, none⟩ start.bump with
  | (none, l) =>
    let span := ⟨start.pos, l.pos⟩
    return (l.error "E0110" span "gram.lex.char").push .error span
  | (some scan, l) =>
    let span := ⟨start.pos, l.pos⟩
    let refusal := scan.bad.or (if scan.scalars = 1 then none else some .shape)
    match refusal with
    | none => do
      let value ← scan.first
      return l.push (.char value) span
    | some .shape => return (l.error "E0110" span "gram.lex.char").push .error span
    | some (.digitCount at_) => return (l.error "E0101" at_ "gram.lex.char").push .error span

/-! ## Strings -/

/-- The string frame on top. -/
def frame (l : Lexer) : Option StrFrame :=
  match l.ctx with
  | .str frame :: _ => some frame
  | _ => none

/-- Change the string frame on top. -/
def withFrame (l : Lexer) (update : StrFrame → StrFrame) : Option Lexer :=
  match l.ctx with
  | .str frame :: ctx => some { l with ctx := .str (update frame) :: ctx }
  | _ => none

def enterString (l : Lexer) (kind : StrKind) : Lexer :=
  let l := l.pushCtx (.str ⟨kind, l.pos, [], l.pos, [], []⟩)
  let depth := l.stringDepth
  let l := { l with maxStrDepth := max l.maxStrDepth depth }
  let span := (l.tokens.getLast?.map Token.span).getD (.empty l.pos)
  let l :=
    if nestingFriendlyLimit < depth ∧ depth ≤ nestingHardRail ∧ ¬ l.depthReported then
      { l with depthReported := true, deferred := l.deferred ++ [⟨"E0007", span, "gram.lex.str"⟩] }
    else l
  if nestingHardRail < depth then l.error "E0108" span "gram.lex.str" else l

/-- The opening `"""` stands alone on its line; the newline after it is dropped, and the offset of
the first content line is answered. -/
def openMultiline (u : Unicode) (l : Lexer) : Lexer × Option Nat :=
  let line := l.rest.takeWhile (· ≠ '\n')
  let l :=
    if line.all u.isWhitespace then l
    else l.error "E0103" ⟨l.pos, l.pos + bytes line⟩ "gram.lex.str.multi"
  let ahead := if l.peek = some '\r' then l.bump else l
  if ahead.peek = some '\n' then (ahead.bump, some ahead.bump.pos) else (l, none)

/-- Open `"`, `"""` or `prefix"`; the prefix comes with the offset it starts at. -/
def openString (u : Unicode) (l : Lexer) (generalized : Option (Nat × Text)) : Option Lexer := do
  let (start, kind) := match generalized with
    | some (start, pre) => (start, StrKind.generalized pre)
    | none => (l.pos, if l.startsWith "\"\"\"" then .multiline else .plain)
  let opened ← l.skip (if kind = .multiline then 3 else 1)
  let (l, firstContentLine) :=
    if kind = .multiline then opened.openMultiline u else (opened, none)
  let l := (l.push (.strStart kind) ⟨start, l.pos⟩).enterString kind
  match firstContentLine with
  | some at_ => l.withFrame fun frame => { frame with lineStarts := frame.lineStarts ++ [at_] }
  | none => return l

/-- Open a raw string after its `r`, which began at `start`; without a quote the `r` is an
identifier. -/
def openRawString (start l : Lexer) : Option Lexer := do
  let hashes := (l.rest.takeWhile (· = '#')).length
  let l := l.skipWhile (· = '#')
  if l.peek ≠ some '"' then
    let l ← start.skip 1
    return l.push (.ident ['r']) ⟨start.pos, l.pos⟩
  else
    let l := l.bump
    return (l.push (.strStart (.raw hashes)) ⟨start.pos, l.pos⟩).enterString (.raw hashes)

def scanWord (u : Unicode) (start : Lexer) : Option Lexer := do
  let word := start.rest.takeWhile u.isXidContinue
  let l := start.skipWhile u.isXidContinue
  if word = ['r'] ∧ (l.peek = some '"' ∨ l.peek = some '#') then openRawString start l
  else if l.peek = some '"' ∧ ¬ isKeyword word ∧ word ≠ ['_'] then
    l.openString u (some (start.pos, word))
  else
    let tok :=
      if word = ['_'] then .underscore
      else match keyword? word with
        | some keyword => .kw keyword
        | none => .ident word
    return l.push tok ⟨start.pos, l.pos⟩

/-- Emit the text that is pending. -/
def flushText (l : Lexer) : Option Lexer := do
  let frame ← l.frame
  if frame.pending = [] then return l
  else
    let l ← l.withFrame fun frame => { frame with pending := [] }
    let l := l.push (.strText frame.pending) ⟨frame.pendingStart, l.pos⟩
    if frame.kind = .multiline then
      l.withFrame fun frame =>
        { frame with pieces := frame.pieces ++ [.text (l.tokens.length - 1)] }
    else return l

/-- Add a character that began at `at_` to the pending text. -/
def pushEscaped (l : Lexer) (at_ : Nat) (c : Char) : Option Lexer :=
  l.withFrame fun frame =>
    { frame with
      pendingStart := if frame.pending = [] then at_ else frame.pendingStart
      pending := frame.pending ++ [c] }

def textPush (l : Lexer) (c : Char) : Option Lexer := l.pushEscaped l.pos c

def abandonString (l : Lexer) : Option Lexer := do
  let l ← l.flushText
  return (l.push .strEnd (.empty l.pos)).popCtx

/-! ### Escapes -/

def scanHexEscape (l : Lexer) (start : Nat) : Option Lexer :=
  let (value, digits, l) := hexDigits 2 0 0 l
  if digits ≠ 2 then some (l.error "E0101" ⟨start, l.pos⟩ "gram.lex.str")
  else l.pushEscaped start (if value.isValidChar then Char.ofNat value else Char.ofNat 0xfffd)

def scanUnicodeEscape (l : Lexer) (start : Nat) : Option Lexer :=
  if l.peek ≠ some '{' then some (l.error "E0101" ⟨start, l.pos⟩ "gram.lex.str")
  else
    let (value, digits, l) := hexDigits l.bump.rest.length 0 0 l.bump
    if l.peek ≠ some '}' then some (l.error "E0101" ⟨start, l.pos⟩ "gram.lex.str")
    else
      let l := l.bump
      if digits = 0 ∨ 6 < digits ∨ ¬ value.isValidChar then
        some (l.error "E0101" ⟨start, l.pos⟩ "gram.lex.str")
      else l.pushEscaped start (Char.ofNat value)

def scanEscape (l : Lexer) : Option Lexer :=
  let start := l.pos
  let l := l.bump
  match l.peek with
  | none => some (l.error "E0102" ⟨start, l.pos⟩ "gram.lex.str")
  | some c =>
    let l := l.bump
    match c with
    | 'n' => l.pushEscaped start '\n'
    | 't' => l.pushEscaped start '\t'
    | 'r' => l.pushEscaped start '\r'
    | '\\' => l.pushEscaped start '\\'
    | '"' => l.pushEscaped start '"'
    | '0' => l.pushEscaped start (Char.ofNat 0)
    | 'x' => l.scanHexEscape start
    | 'u' => l.scanUnicodeEscape start
    | _ => some (l.error "E0101" ⟨start, l.pos⟩ "gram.lex.str")

/-! ### The margin of a multiline literal -/

def isMargin (c : Char) : Bool := c = ' ' ∨ c = '\t'

/-- Strip up to `column` leading whitespace characters at every line start. `strip` is how many may
still go here, where the text is at the start of a line; the answer says whether it ends at one. -/
def dedentChunk (column : Nat) : Option Nat → Text → Text × Bool
  | strip, [] => ([], strip = some column)
  | strip, c :: rest =>
    match strip with
    | some (left + 1) =>
      if isMargin c then dedentChunk column (some left) rest
      else
        let (text, atLineStart) := dedentChunk column (if c = '\n' then some column else none) rest
        (c :: text, atLineStart)
    | _ =>
      let (text, atLineStart) := dedentChunk column (if c = '\n' then some column else none) rest
      (c :: text, atLineStart)

/-- `at_line_start` as what may be stripped. -/
def strips (column : Nat) (atLineStart : Bool) : Option Nat :=
  if atLineStart then some column else none

/-- The first content line before the closing one that breaks a margin rule. -/
def marginFault (src : Text) (column : Nat) (margin : Text) (closingLine : Nat) :
    List Nat → Option (Option (String × Span))
  | [] => some none
  | start :: starts =>
    if closingLine ≤ start then some none
    else do
      let line ← dropBytes start src
      let run := line.takeWhile isMargin
      let after := line.dropWhile isMargin
      if after.head?.all fun c => c = '\n' || c = '\r' then
        marginFault src column margin closingLine starts
      else if run.length < column then
        let stop := if run = [] then start + 1 else start + run.length
        return some ("E0104", ⟨start, stop⟩)
      else if line.take column ≠ margin then return some ("E0105", ⟨start, start + column⟩)
      else marginFault src column margin closingLine starts

/-- Strip the emitted pieces of a literal in order. -/
def dedentPieces (column : Nat) : List Piece → Bool → List Token → Option (Bool × List Token)
  | [], atLineStart, tokens => some (atLineStart, tokens)
  | .interp :: pieces, _, tokens => dedentPieces column pieces false tokens
  | .text index :: pieces, atLineStart, tokens => do
    let token ← tokens[index]?
    match token.tok with
    | .strText text =>
      let (stripped, atLineStart) := dedentChunk column (strips column atLineStart) text
      dedentPieces column pieces atLineStart (tokens.set index ⟨.strText stripped, token.span⟩)
    | _ => dedentPieces column pieces atLineStart tokens

/-- The blanks that end the pending text, at most `column` of them, are the closing line's. -/
def dropClosing (column : Nat) (pending : Text) : Text :=
  let blanks := (pending.reverse.takeWhile isMargin).length
  pending.take (pending.length - min column blanks)

def applyDedent (l : Lexer) : Option Lexer := do
  let closeStart := l.pos
  let before := l.src.take (l.src.length - l.rest.length)
  let margin := (before.reverse.takeWhile (· ≠ '\n')).reverse
  let column := bytes margin
  let lineStart := closeStart - column
  if ¬ margin.all isMargin then
    let l := l.error "E0103" ⟨closeStart, closeStart + 3⟩ "gram.lex.str.multi"
    l.withFrame fun frame => { frame with lineStarts := [] }
  else
    let l ← l.withFrame fun frame => { frame with pending := dropClosing column frame.pending }
    let frame ← l.frame
    let l ← l.withFrame fun frame => { frame with lineStarts := [] }
    if column = 0 then return l
    else
      let bodyIsLineStart : Bool := frame.lineStarts.head? = some frame.bodyStart
      let fault ← marginFault l.src column margin lineStart frame.lineStarts
      let l := match fault with
        | some (code, span) => l.error code span "gram.lex.str.multi"
        | none => l
      let (atLineStart, tokens) ← dedentPieces column frame.pieces bodyIsLineStart l.tokens
      let (stripped, _) := dedentChunk column (strips column atLineStart) frame.pending
      { l with tokens }.withFrame fun frame => { frame with pending := stripped }

/-! ### Bodies -/

def closeString (l : Lexer) (kind : StrKind) : Option Lexer := do
  let closeLen := match kind with
    | .multiline => 3
    | .raw hashes => 1 + hashes
    | _ => 1
  let closeStart := l.pos
  let l ← if kind = .multiline then l.applyDedent else some l
  let l ← l.flushText
  let l ← l.skip closeLen
  return (l.push .strEnd ⟨closeStart, l.pos⟩).popCtx

/-- Does the closing delimiter come next? -/
def closes (l : Lexer) : StrKind → Bool
  | .multiline => l.startsWith "\"\"\""
  | .raw hashes => l.peek = some '"' ∧ (List.replicate hashes '#').isPrefixOf l.rest.tail
  | .plain | .generalized _ => l.peek = some '"'

/-- One round inside a plain or multiline body: the lexer, and whether the body goes on. -/
def interpolatedRound (l : Lexer) (kind : StrKind) (c : Char) : Option (Lexer × Bool) :=
  if c = '{' ∧ l.startsWith "\x7b\x7b" then do
    let l ← l.textPush '{'
    return (← l.skip 2, true)
  else if c = '}' ∧ l.startsWith "\x7d\x7d" then do
    let l ← l.textPush '}'
    return (← l.skip 2, true)
  else if c = '{' then do
    let span := ⟨l.pos, l.pos + 1⟩
    let l ← l.flushText
    let l := l.bump.push .interpStart span
    let l ← if kind = .multiline then
        l.withFrame fun frame => { frame with pieces := frame.pieces ++ [.interp] }
      else some l
    return (l.pushCtx .interp, false)
  else if c = '}' then
    some ((l.error "E0111" ⟨l.pos, l.pos + 1⟩ "gram.lex.str.escape").bump, true)
  else if c = '\\' then do
    return (← l.scanEscape, true)
  else if c = '\n' ∧ kind = .plain then do
    let span := (l.openPlainString l.pos).getD ⟨l.pos, l.pos + 1⟩
    return (← (l.error "E0102" span "gram.lex.str").abandonString, false)
  else if c = '\n' then do
    let l := (← l.textPush c).bump
    let l ← l.withFrame fun frame => { frame with lineStarts := frame.lineStarts ++ [l.pos] }
    return (l, true)
  else do
    return ((← l.textPush c).bump, true)

/-- One round inside a string body. -/
def bodyRound (l : Lexer) (kind : StrKind) (c : Char) : Option (Lexer × Bool) :=
  if l.closes kind then do
    return (← l.closeString kind, false)
  else match kind with
    | .generalized _ =>
      if c = '\n' then do
        let l := l.error "E0109" ⟨l.pos, l.pos + 1⟩ "gram.lex.str.gen"
        return (← l.abandonString, false)
      else do
        return ((← l.textPush c).bump, true)
    | .raw _ => do
      return ((← l.textPush c).bump, true)
    | _ => l.interpolatedRound kind c

/-- The loop over a string body; false at the end of input. -/
def bodyLoop (kind : StrKind) : Nat → Lexer → Option (Lexer × Bool)
  | 0, _ => none
  | rounds + 1, l =>
    match l.peek with
    | none => some (l, false)
    | some c => do
      let (l, more) ← l.bodyRound kind c
      if more then bodyLoop kind rounds l else return (l, true)

def scanStringBody (l : Lexer) : Option (Lexer × Bool) := do
  let frame ← l.frame
  bodyLoop frame.kind (l.rest.length + 1) l

/-! ## Format specs -/

def scanFormatSpec (start : Lexer) : Lexer × Bool :=
  let text := start.rest.takeWhile fun c => c ≠ '{' && c ≠ '}'
  let l := start.skipWhile fun c => c ≠ '{' && c ≠ '}'
  let l := if text = [] then l else l.push (.fmtText text) ⟨start.pos, l.pos⟩
  match l.peek with
  | none => (l, false)
  | some '}' => (l.popCtx.bump.push .interpEnd ⟨l.pos, l.pos + 1⟩, true)
  | some _ => ((l.bump.push .interpStart ⟨l.pos, l.pos + 1⟩).pushCtx .interp, true)

/-! ## Token mode -/

/-- A closer pops a matching innermost delimiter and nothing else. -/
def popDelimiter (l : Lexer) (expected : Ctx) : Lexer :=
  match expected, l.ctx with
  | .paren, .paren :: ctx | .bracket, .bracket :: ctx | .bracket, .attrBracket :: ctx
  | .brace, .brace :: ctx => { l with ctx }
  | _, _ => l

def closeBracket (l : Lexer) (span : Span) : Lexer :=
  let wasAttribute := l.ctx.head? = some .attrBracket
  let l := (l.popDelimiter .bracket).push .rBracket span
  if wasAttribute then { l with attrClose := some (l.tokens.length - 1) } else l

def closeBrace (l : Lexer) (span : Span) : Lexer :=
  match l.ctx with
  | .interp :: _ | .fmt :: _ => l.popCtx.push .interpEnd span
  | _ => (l.popDelimiter .brace).push .rBrace span

/-- Does the text begin no token? -/
def beginsNoToken (u : Unicode) (text : Text) : Bool :=
  match text with
  | [] => false
  | c :: _ =>
    if u.isWhitespace c || u.isXidStart c || c = '_' || isAsciiDigit c ||
        c = Char.ofNat 0xfeff then false
    else if c = '#' then ¬ ("#[".toList.isPrefixOf text ∨ "#![".toList.isPrefixOf text)
    else ¬ c ∈ "\"'()[]\x7b\x7d:!+-*/%&^|<>=.?,@;".toList

/-- The run of characters that begin no token, after the first. -/
def strayRun (u : Unicode) : Text → Text
  | [] => []
  | c :: rest => if beginsNoToken u (c :: rest) then c :: strayRun u rest else []

/-- The characters that are a token by themselves. -/
def punctuation (c : Char) : Option Tok :=
  match c with
  | '!' => some .bang
  | '+' => some .plus
  | '-' => some .minus
  | '*' => some .star
  | '/' => some .slash
  | '%' => some .percent
  | '&' => some .amp
  | '^' => some .caret
  | '|' => some .pipe
  | '<' => some .lt
  | '>' => some .gt
  | '=' => some .assign
  | '.' => some .dot
  | '?' => some .question
  | ',' => some .comma
  | '@' => some .at_
  | ';' => some (.term true)
  | _ => none

/-- The token of a single character `c`. -/
def scanPunctuation (u : Unicode) (start : Lexer) (c : Char) : Option Lexer :=
  let l := start.bump
  let span := ⟨start.pos, l.pos⟩
  match c with
  | '(' => some ((l.pushCtx .paren).push .lParen span)
  | '[' => some ((l.pushCtx .bracket).push .lBracket span)
  | '{' => some ((l.pushCtx .brace).push .lBrace span)
  | ')' => some ((l.popDelimiter .paren).push .rParen span)
  | ']' => some (l.closeBracket span)
  | '}' => some (l.closeBrace span)
  | ':' =>
    if l.ctx.head? = some .interp then some ((l.popCtx.pushCtx .fmt).push .fmtStart span)
    else some (l.push .colon span)
  | c =>
    match punctuation c with
    | some tok => some (l.push tok span)
    | none =>
      if c = Char.ofNat 0xfeff then
        some ((l.error "E0107" span "gram.lex.source").push .error span)
      else do
        let l ← l.skip (bytes (strayRun u l.rest))
        let span := ⟨start.pos, l.pos⟩
        return (l.error "E0107" span "gram.lex").push .error span

def scanToken (u : Unicode) (l : Lexer) : Option Lexer :=
  match l.peek with
  | none => some l
  | some c =>
    if u.isXidStart c ∨ c = '_' then l.scanWord u
    else if isAsciiDigit c then l.scanNumber
    else if c = '"' then l.openString u none
    else if c = '\'' then l.scanCharLiteral
    else if l.startsWith "#![" then do
      let next ← l.skip 3
      return (next.pushCtx .attrBracket).push .hashBangBracket ⟨l.pos, next.pos⟩
    else if l.startsWith "#[" then do
      let next ← l.skip 2
      return (next.pushCtx .attrBracket).push .hashBracket ⟨l.pos, next.pos⟩
    else match operators.find? fun operator => l.startsWith operator.1 with
      | some (text, tok) => do
        let next ← l.skip (bytes text.toList)
        return next.push tok ⟨l.pos, next.pos⟩
      | none => l.scanPunctuation u c

/-- A newline in token mode: a plain string that is still open is unwound, otherwise the newline
may insert a terminator. -/
def newline (u : Unicode) (l : Lexer) : Lexer :=
  match l.openPlainString l.pos with
  | some span => (l.error "E0102" span "gram.lex.str").unwindPlainString
  | none => l.bump.insertTerminator u l.pos

/-- The loop over trivia in token mode; false at the end of input. -/
def triviaLoop (u : Unicode) : Nat → Lexer → Option (Lexer × Bool)
  | 0, _ => none
  | rounds + 1, l =>
    match l.peek with
    | none => some (l, false)
    | some c =>
      if c = '\n' then triviaLoop u rounds (l.newline u)
      else if isBlank c then triviaLoop u rounds l.bump
      else if c = '/' ∧ l.startsWith "//" then
        triviaLoop u rounds (l.skipWhile (· ≠ '\n'))
      else some (l, true)

/-- What bounds the rounds of the lexer's loops: a character is worth two frames. -/
def fuel (l : Lexer) : Nat := 2 * l.rest.length + l.ctx.length + 1

/-- One token or a run of trivia; false at the end of input. -/
def scanNormal (u : Unicode) (l : Lexer) : Option (Lexer × Bool) := do
  let (l, more) ← triviaLoop u l.fuel l
  if more then return (← l.scanToken u, true) else return (l, false)

/-! ## The run -/

/-- One round of the run's loop, by the mode on top. -/
def scan (u : Unicode) (l : Lexer) : Option (Lexer × Bool) :=
  match l.ctx with
  | .str _ :: _ => l.scanStringBody
  | .fmt :: _ => some l.scanFormatSpec
  | _ => l.scanNormal u

def scanLoop (u : Unicode) : Nat → Lexer → Option Lexer
  | 0, _ => none
  | rounds + 1, l => do
    let (l, more) ← l.scan u
    if more then scanLoop u rounds l else return l

/-- Everything still open when the text runs out is unterminated. -/
def closeAll : List Ctx → Lexer → Lexer
  | [], l => { l with ctx := [] }
  | .str frame :: ctx, l =>
    let stop := bytes l.src
    closeAll ctx
      ((l.error "E0102" ⟨frame.bodyStart - 1, stop⟩ "gram.lex.str").push .strEnd (.empty stop))
  | .interp :: ctx, l | .fmt :: ctx, l =>
    let stop := bytes l.src
    closeAll ctx ((l.error "E0112" (.empty stop) "gram.lex.str").push .interpEnd (.empty stop))
  | _ :: ctx, l => closeAll ctx l

def closeUnterminated (l : Lexer) : Lexer :=
  closeAll l.ctx { l with openAtEof := l.ctx ≠ [] }

/-- Where scanning starts: after a byte order mark, or after a line that begins `#!` at offset
zero. -/
def begin_ (src : Text) : Option Lexer := do
  let l : Lexer := ⟨src, src, 0, [], [], [], [], 0, false, none, false⟩
  let l ← if src.head? = some (Char.ofNat 0xfeff) then l.skip 3 else some l
  if l.pos = 0 ∧ l.startsWith "#!" ∧ ¬ l.startsWith "#![" then return l.skipWhile (· ≠ '\n')
  else return l

def run (u : Unicode) (src : Text) : Option Lexer := do
  let l ← begin_ src
  let l ← scanLoop u l.fuel l
  return l.closeUnterminated.insertTerminatorAtEof

end Lexer

/-- Tokenize a source text. -/
def lex (u : Unicode) (src : Text) : Option Lexed := do
  let l ← Lexer.run u src
  return ⟨l.tokens, l.errors, l.deferred, l.maxStrDepth, l.openAtEof⟩

end WolfInterp.Lex
