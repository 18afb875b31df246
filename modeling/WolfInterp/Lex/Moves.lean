import WolfInterp.Lex.Nesting
import WolfInterp.Lex.Scan

/-!
# What the lexer can do

Every round of the lexer is a sequence of a few kinds of moves: it notes a diagnostic, steps over
trivia, ends a line, emits a token of the text in front of it, collects text of a string body and
flushes or strips it, or gives up on a string. The scanning functions never panic and always make
progress, and what they do is such a sequence; every property of a run is then one of the moves.
-/

namespace WolfInterp.Lex

/-! ## Bytes -/

section Bytes

variable {text first second : Text}

@[simp]
theorem bytes_nil : bytes [] = 0 := rfl

@[simp]
theorem bytes_cons (c : Char) (text : Text) : bytes (c :: text) = c.utf8Size + bytes text := by
  simp [bytes]

@[simp]
theorem bytes_append (first second : Text) :
    bytes (first ++ second) = bytes first + bytes second := by
  simp [bytes]

theorem bytes_pos (some_one : text ≠ []) : 0 < bytes text := by
  cases text with
  | nil => exact absurd rfl some_one
  | cons c text =>
    rw [bytes_cons]
    exact Nat.add_pos_left c.utf8Size_pos _

@[simp]
theorem dropBytes_zero (text : Text) : dropBytes 0 text = some text := by
  cases text with
  | nil => rfl
  | cons c text => rw [dropBytes, if_pos rfl]

/-- Slicing at the end of a prefix. -/
theorem dropBytes_append (first second : Text) :
    dropBytes (bytes first) (first ++ second) = some second := by
  induction first with
  | nil => exact dropBytes_zero second
  | cons c first ih =>
    have positive := c.utf8Size_pos
    rw [bytes_cons, List.cons_append, dropBytes, if_neg (by omega), if_pos (by omega),
      Nat.add_sub_cancel_left, ih]

end Bytes

/-- A byte offset at which the source can be sliced. -/
def Boundary (src : Text) (n : Nat) : Prop :=
  ∃ before after, src = before ++ after ∧ bytes before = n

namespace Lexer

/-! ## Stepping over text -/

/-- Step over `text`, after which `rest` is left. -/
def feed (l : Lexer) (text rest : Text) : Lexer := { l with rest, pos := l.pos + bytes text }

section Feed

variable {l : Lexer} {text rest : Text}

theorem bump_eq {c : Char} (split : l.rest = c :: rest) : l.bump = l.feed [c] rest := by
  simp [bump, split, feed]

theorem skip_eq (split : l.rest = text ++ rest) :
    l.skip (bytes text) = some (l.feed text rest) := by
  rw [skip, split, dropBytes_append]
  rfl

theorem skipWhile_eq (l : Lexer) (p : Char → Bool) :
    l.skipWhile p = l.feed (l.rest.takeWhile p) (l.rest.dropWhile p) := rfl

theorem feed_feed (l : Lexer) (text rest text' rest' : Text) :
    (l.feed text rest).feed text' rest' = l.feed (text ++ text') rest' := by
  simp [feed, Nat.add_assoc]

/-- One state is another one that stepped over a piece of the text. -/
def Fed (start l : Lexer) : Prop :=
  ∃ text rest, start.rest = text ++ rest ∧ l = start.feed text rest

theorem Fed.refl (l : Lexer) : Fed l l := ⟨[], l.rest, rfl, rfl⟩

theorem Fed.trans {one two three : Lexer} (first : Fed one two) (second : Fed two three) :
    Fed one three := by
  obtain ⟨text, rest, split, rfl⟩ := first
  obtain ⟨text', rest', split', rfl⟩ := second
  have inner : rest = text' ++ rest' := split'
  refine ⟨text ++ text', rest', ?_, feed_feed one text rest text' rest'⟩
  rw [split, inner, List.append_assoc]

theorem Fed.bump (l : Lexer) : Fed l l.bump := by
  cases split : l.rest with
  | nil =>
    have stays : l.bump = l := by simp [Lexer.bump, split]
    rw [stays]
    exact .refl l
  | cons c rest => exact ⟨[c], rest, split, bump_eq split⟩

theorem Fed.skipWhile (l : Lexer) (p : Char → Bool) : Fed l (l.skipWhile p) :=
  ⟨_, _, List.takeWhile_append_dropWhile.symm, rfl⟩

theorem Fed.hexDigits (limit value digits : Nat) (l : Lexer) :
    Fed l (hexDigits limit value digits l).2.2 := by
  fun_induction Lexer.hexDigits limit value digits l with
  | case1 => exact .refl _
  | case2 _ _ _ l _ _ ih => exact (Fed.bump l).trans ih
  | case3 => exact .refl _

/-- What is left gets no longer. -/
theorem Fed.length_le {start l : Lexer} (fed : Fed start l) :
    l.rest.length ≤ start.rest.length := by
  obtain ⟨text, rest, split, rfl⟩ := fed
  rw [split, List.length_append]
  exact Nat.le_add_left _ _

end Feed

/-! ## Moves -/

/-- Token mode: neither a string body nor a format spec is on top. -/
def tokenMode : List Ctx → Bool
  | .str _ :: _ | .fmt :: _ => false
  | _ => true

/-- A token that neither opens nor closes nor belongs to a string, and is no inserted terminator. -/
def isPlain : Tok → Bool
  | .strStart _ | .strText _ | .interpStart | .interpEnd | .fmtStart | .fmtText _ | .strEnd => false
  | .term explicit => explicit
  | .lParen | .rParen | .lBracket | .rBracket | .lBrace | .rBrace => false
  | .hashBracket | .hashBangBracket => false
  | _ => true

/-- The frame an opening token pushes. -/
def opening : Tok → Option Ctx
  | .lParen => some .paren
  | .lBracket => some .bracket
  | .lBrace => some .brace
  | .hashBracket | .hashBangBracket => some .attrBracket
  | _ => none

/-- The stack after a closing token, which pops a matching top. -/
def closing : Tok → List Ctx → Option (List Ctx)
  | .rParen, .paren :: ctx => some ctx
  | .rBracket, .bracket :: ctx | .rBracket, .attrBracket :: ctx => some ctx
  | .rBrace, .brace :: ctx => some ctx
  | .rParen, ctx | .rBracket, ctx | .rBrace, ctx => some ctx
  | _, _ => none

/-- A literal whose body goes over line ends. -/
def spansLines : StrKind → Bool
  | .multiline | .raw _ => true
  | _ => false

/-- What a token does to the stack; `here` is the offset after it. -/
inductive Emits (here : Nat) : Tok → List Ctx → List Ctx → Prop
  | plain {tok : Tok} {ctx : List Ctx} (mode : tokenMode ctx = true)
    (isPlain : isPlain tok = true) :
      Emits here tok ctx ctx
  | opens {tok : Tok} {delim : Ctx} {ctx : List Ctx} (mode : tokenMode ctx = true)
      (opening : opening tok = some delim) : Emits here tok ctx (delim :: ctx)
  | closes {tok : Tok} {ctx left : List Ctx} (mode : tokenMode ctx = true)
      (closing : closing tok ctx = some left) : Emits here tok ctx left
  | strStart {kind : StrKind} {frame : StrFrame} {ctx : List Ctx} (mode : tokenMode ctx = true)
      (empty : frame.pending = []) (noPieces : frame.pieces = [])
      (lines : ∀ n ∈ frame.lineStarts, n = here) (isKind : frame.kind = kind) :
      Emits here (.strStart kind) ctx (.str frame :: ctx)
  | strEnd {frame : StrFrame} {ctx : List Ctx} (flushed : frame.pending = []) :
      Emits here .strEnd (.str frame :: ctx) ctx
  | interpStart {frame : StrFrame} {pieces : List Piece} {ctx : List Ctx}
      (flushed : frame.pending = [])
      (more : ∀ piece ∈ pieces, piece ∈ frame.pieces ∨ piece = .interp)
      (interpolated : frame.kind = .plain ∨ frame.kind = .multiline) :
      Emits here .interpStart (.str frame :: ctx) (.interp :: .str { frame with pieces } :: ctx)
  | specInterp {ctx : List Ctx} : Emits here .interpStart (.fmt :: ctx) (.interp :: .fmt :: ctx)
  | fmtStart {ctx : List Ctx} : Emits here .fmtStart (.interp :: ctx) (.fmt :: ctx)
  | fmtText {text : Text} {ctx : List Ctx} : Emits here (.fmtText text) (.fmt :: ctx) (.fmt :: ctx)
  | interpEnd {ctx : List Ctx} : Emits here .interpEnd (.interp :: ctx) ctx
  | fmtEnd {ctx : List Ctx} : Emits here .interpEnd (.fmt :: ctx) ctx

/-- The bracket that closed an attribute, after a token at index `index`. -/
def attrAfter (tok : Tok) (ctx : List Ctx) (index : Nat) (attrClose : Option Nat) : Option Nat :=
  if tok = .rBracket ∧ ctx.head? = some .attrBracket then some index else attrClose

/-- The text of a string's token does not matter to the stream. -/
def blur (token : Token) : Token :=
  match token.tok with
  | .strText _ => ⟨.strText [], token.span⟩
  | _ => token

/-- What a piece of a body does to the pending text. -/
structure Collects (l : Lexer) (here : Nat) (frame frame' : StrFrame) : Prop where
  pieces : frame'.pieces = frame.pieces
  lines : ∀ n ∈ frame'.lineStarts, n ∈ frame.lineStarts ∨ n = here
  pending : frame'.pending = frame.pending ∧ frame'.pendingStart = frame.pendingStart ∨
    frame'.pending ≠ [] ∧
      frame'.pendingStart = if frame.pending = [] then l.pos else frame.pendingStart
  isKind : frame'.kind = frame.kind

/-- The text does not begin with blanks or a comment. -/
def Starts (text : Text) : Prop :=
  ∃ c rest, text = c :: rest ∧ isBlank c = false ∧ (c = '/' → rest.head? ≠ some '/')

/-- One move of the lexer. -/
inductive Move (u : Unicode) : Lexer → Lexer → Prop
  | note {l : Lexer} (code : String) (span : Span) (anchor : String) :
      Move u l (l.error code span anchor)
  | tally {l : Lexer} (depth : Nat) (reported : Bool) (deferred : List Diag) :
      Move u l { l with maxStrDepth := depth, depthReported := reported, deferred }
  | blank {l : Lexer} {text rest : Text} (mode : tokenMode l.ctx = true)
      (split : l.rest = text ++ rest) (inLine : '\n' ∉ text)
      (trivia : skipTrivia false l.rest = skipTrivia false rest) : Move u l (l.feed text rest)
  | newline {l : Lexer} {rest : Text} (mode : tokenMode l.ctx = true)
    (split : l.rest = '\n' :: rest)
      (inside : l.openPlainString l.pos = none) :
      Move u l ((l.feed ['\n'] rest).insertTerminator u l.pos)
  | emit {l : Lexer} {text rest : Text} {tok : Tok} {ctx : List Ctx} (split : l.rest = text ++ rest)
      (some_one : text ≠ []) (effect : Emits (l.pos + bytes text) tok l.ctx ctx)
      (starts : tokenMode l.ctx = true → Starts l.rest)
      (isElse : tokenMode l.ctx = true → (tok = .kw .else_ ↔ elseFollows u l.rest = true))
      (lines : '\n' ∈ text → l.errors ≠ [] ∨ tok = .strStart .multiline ∨ tok = .fmtText text) :
      Move u l
        { l.feed text rest with
          ctx
          tokens := l.tokens ++ [⟨tok, ⟨l.pos, l.pos + bytes text⟩⟩]
          attrClose := attrAfter tok l.ctx l.tokens.length l.attrClose }
  | body {l : Lexer} {text rest : Text} {frame frame' : StrFrame} {ctx : List Ctx}
      (top : l.ctx = .str frame :: ctx) (split : l.rest = text ++ rest) (some_one : text ≠ [])
      (collects : Collects l (l.pos + bytes text) frame frame')
      (lines : '\n' ∈ text → l.errors ≠ [] ∨ spansLines frame.kind = true) :
      Move u l { l.feed text rest with ctx := .str frame' :: ctx }
  | flush {l : Lexer} {frame : StrFrame} {pieces : List Piece} {ctx : List Ctx}
      (top : l.ctx = .str frame :: ctx) (pending : frame.pending ≠ [])
      (more : ∀ piece ∈ pieces, piece ∈ frame.pieces ∨ piece = .text l.tokens.length) :
      Move u l
        { l with
          ctx := .str { frame with pending := [], pieces } :: ctx
          tokens := l.tokens ++ [⟨.strText frame.pending, ⟨frame.pendingStart, l.pos⟩⟩] }
  | dedent {l : Lexer} {frame frame' : StrFrame} {ctx : List Ctx} {tokens : List Token}
      (top : l.ctx = .str frame :: ctx) (pieces : frame'.pieces = frame.pieces)
      (lines : frame'.lineStarts = []) (start : frame'.pendingStart = frame.pendingStart)
      (less : frame.pending = [] → frame'.pending = [])
      (same : tokens.map blur = l.tokens.map blur) (isKind : frame'.kind = frame.kind) :
      Move u l { l with ctx := .str frame' :: ctx, tokens }
  | abandon {l : Lexer} {frame : StrFrame} {ctx : List Ctx} (top : l.ctx = .str frame :: ctx)
      (flushed : frame.pending = []) (failed : l.errors ≠ []) :
      Move u l { l with ctx, tokens := l.tokens ++ [⟨.strEnd, .empty l.pos⟩] }
  | unwound {l : Lexer} (mode : tokenMode l.ctx = true) (failed : l.errors ≠ []) :
      Move u l l.unwindPlainString

/-- Any number of moves. -/
abbrev Moves (u : Unicode) : Lexer → Lexer → Prop := Relation.ReflTransGen (Move u)

/-- A move that emits nothing while a format spec is on top. -/
def Quiet (u : Unicode) (l l' : Lexer) : Prop :=
  Move u l l' ∧ (l.ctx.head? = some .fmt → l'.tokens = l.tokens)

/-- Any number of quiet moves. -/
abbrev Quiets (u : Unicode) : Lexer → Lexer → Prop := Relation.ReflTransGen (Quiet u)

theorem Quiets.moves {u : Unicode} {l l' : Lexer} (quiets : Quiets u l l') : Moves u l l' := by
  induction quiets with
  | refl => exact .refl
  | tail _ quiet ih => exact ih.tail quiet.1

theorem Move.quiet {u : Unicode} {l l' : Lexer} (move : Move u l l')
    (notFmt : l.ctx.head? ≠ some .fmt) : Quiet u l l' :=
  ⟨move, fun isFmt => absurd isFmt notFmt⟩

/-- Token mode is no format spec. -/
theorem notFmt_of_tokenMode {ctx : List Ctx} (mode : tokenMode ctx = true) :
    ctx.head? ≠ some .fmt := by
  intro isFmt
  obtain ⟨below, rfl⟩ := List.head?_eq_some_iff.mp isFmt
  nomatch mode

/-! ## What the moves keep -/

/-- Strings and delimiters are opened in token mode, interpolations and their specs outside of
it. -/
def Nested : List Ctx → Prop
  | [] => True
  | .interp :: ctx | .fmt :: ctx => tokenMode ctx = false ∧ Nested ctx
  | _ :: ctx => tokenMode ctx = true ∧ Nested ctx

theorem Nested.tail {top : Ctx} {ctx : List Ctx} (nested : Nested (top :: ctx)) : Nested ctx := by
  cases top <;> exact nested.2

theorem Nested.suffix {ctx left : List Ctx} (nested : Nested ctx) (suffix : left <:+ ctx) :
    Nested left := by
  obtain ⟨above, rfl⟩ := suffix
  induction above with
  | nil => exact nested
  | cons top above ih => exact ih nested.tail

/-- The offset is that of what is left, and the indices and offsets that string frames keep are in
range. -/
structure Sound (l : Lexer) : Prop where
  nested : Nested l.ctx
  placed : ∃ before, l.src = before ++ l.rest ∧ l.pos = bytes before
  pieces : ∀ frame, .str frame ∈ l.ctx → ∀ index, .text index ∈ frame.pieces →
    index < l.tokens.length
  lines : ∀ frame, .str frame ∈ l.ctx → ∀ n ∈ frame.lineStarts, Boundary l.src n

section Sound

variable {u : Unicode} {l l' : Lexer}

/-- Where the source can be sliced: at the lexer's offset. -/
theorem Sound.boundary (sound : Sound l) : Boundary l.src l.pos := by
  obtain ⟨before, split, place⟩ := sound.placed
  exact ⟨before, l.rest, split, place.symm⟩

theorem placed_feed {text rest : Text}
    (placed : ∃ before, l.src = before ++ l.rest ∧ l.pos = bytes before)
    (split : l.rest = text ++ rest) :
    ∃ before, l.src = before ++ rest ∧ l.pos + bytes text = bytes before := by
  obtain ⟨before, whole, place⟩ := placed
  refine ⟨before ++ text, ?_, ?_⟩
  · rw [whole, split, List.append_assoc]
  · rw [bytes_append, place]

/-- Every frame of the new stack is an old one, up to what was checked for it. -/
structure Keeps (l l' : Lexer) : Prop where
  nested : Nested l'.ctx
  src : l'.src = l.src
  placed : ∃ before, l'.src = before ++ l'.rest ∧ l'.pos = bytes before
  longer : l.tokens.length ≤ l'.tokens.length
  pieces : ∀ frame', .str frame' ∈ l'.ctx → ∀ index, .text index ∈ frame'.pieces →
    index < l'.tokens.length ∨ ∃ frame, .str frame ∈ l.ctx ∧ .text index ∈ frame.pieces
  lines : ∀ frame', .str frame' ∈ l'.ctx → ∀ n ∈ frame'.lineStarts,
    n = l'.pos ∨ ∃ frame, .str frame ∈ l.ctx ∧ n ∈ frame.lineStarts

theorem Keeps.sound (keeps : Keeps l l') (sound : Sound l) : Sound l' where
  nested := keeps.nested
  placed := keeps.placed
  pieces frame' member index isPiece := by
    rcases keeps.pieces frame' member index isPiece with bound | ⟨frame, old, was⟩
    · exact bound
    · exact Nat.lt_of_lt_of_le (sound.pieces frame old index was) keeps.longer
  lines frame' member n isLine := by
    rcases keeps.lines frame' member n isLine with here | ⟨frame, old, was⟩
    · obtain ⟨before, split, place⟩ := keeps.placed
      exact ⟨before, l'.rest, split, by rw [here, place]⟩
    · rw [keeps.src]
      exact sound.lines frame old n was

/-- A stack all of whose string frames are on the old one. -/
theorem keeps_of_subset (nested : Nested l'.ctx) (src : l'.src = l.src)
    (placed : ∃ before, l'.src = before ++ l'.rest ∧ l'.pos = bytes before)
    (longer : l.tokens.length ≤ l'.tokens.length)
    (subset : ∀ frame, .str frame ∈ l'.ctx → .str frame ∈ l.ctx) : Keeps l l' where
  nested := nested
  src := src
  placed := placed
  longer := longer
  pieces frame' member _ isPiece := .inr ⟨frame', subset frame' member, isPiece⟩
  lines frame' member _ isLine := .inr ⟨frame', subset frame' member, isLine⟩

/-- What a stack of the lexer says about the open literals. -/
def modesOf (ctx : List Ctx) : List Mode :=
  ctx.filterMap fun
    | .str _ => some .str
    | .interp => some .interp
    | .fmt => some .fmt
    | _ => none

/-- Zero-width tokens at an offset. -/
def closers (at_ : Nat) (toks : List Tok) : List Token := toks.map fun tok => ⟨tok, .empty at_⟩

/-- Unwinding closes what it pops, at one offset. -/
theorem unwind_spec (ctx : List Ctx) (l : Lexer) :
    ∃ left toks, unwind ctx l = { l with ctx := left, tokens := l.tokens ++ closers l.pos toks } ∧
      left <:+ ctx ∧ toks.foldlM Mode.step (modesOf ctx) = some (modesOf left) := by
  induction ctx generalizing l with
  | nil => exact ⟨[], [], by simp [unwind, closers], List.suffix_refl [], rfl⟩
  | cons top ctx ih =>
    have popped (tok : Tok)
        (step : Mode.step (modesOf (top :: ctx)) tok = some (modesOf ctx)) :
        ∃ left toks, unwind ctx (l.push tok (.empty l.pos)) =
            { l with ctx := left, tokens := l.tokens ++ closers l.pos toks } ∧
          left <:+ top :: ctx ∧
          toks.foldlM Mode.step (modesOf (top :: ctx)) = some (modesOf left) := by
      obtain ⟨left, toks, run, suffix, fold⟩ := ih (l.push tok (.empty l.pos))
      refine ⟨left, tok :: toks, ?_, suffix.trans (List.suffix_cons top ctx), ?_⟩
      · simpa [closers, push, List.append_assoc] using run
      · rw [List.foldlM_cons, step]
        exact fold
    have dropped (same : modesOf (top :: ctx) = modesOf ctx) :
        ∃ left toks, unwind ctx l =
            { l with ctx := left, tokens := l.tokens ++ closers l.pos toks } ∧
          left <:+ top :: ctx ∧
          toks.foldlM Mode.step (modesOf (top :: ctx)) = some (modesOf left) := by
      obtain ⟨left, toks, run, suffix, fold⟩ := ih l
      rw [same]
      exact ⟨left, toks, run, suffix.trans (List.suffix_cons top ctx), fold⟩
    cases top with
    | str => exact ⟨ctx, [.strEnd], rfl, List.suffix_cons _ ctx, rfl⟩
    | interp | fmt => exact popped .interpEnd rfl
    | paren | bracket | attrBracket | brace => exact dropped rfl

theorem insertTerminator_spec (u : Unicode) (l : Lexer) (at_ : Nat) : l.insertTerminator u at_ = l ∨
      l.insertTerminator u at_ = l.push (.term false) (.empty at_) := by
  rw [insertTerminator]
  split
  · exact .inl rfl
  · split
    · exact .inl rfl
    · split
      · exact .inl rfl
      · split
        · exact .inl rfl
        · split
          · exact .inl rfl
          · exact .inr rfl

theorem closing_suffix {tok : Tok} {ctx left : List Ctx} (closes : closing tok ctx = some left) :
    left <:+ ctx := by
  revert closes
  fun_cases closing tok ctx with
  | case1 | case2 | case3 | case4 => exact fun same => Option.some.inj same ▸ List.suffix_cons _ _
  | case5 | case6 | case7 => exact fun same => Option.some.inj same ▸ List.suffix_refl _
  | case8 => nofun

theorem opening_not_str {tok : Tok} {frame : StrFrame} : opening tok ≠ some (.str frame) := by
  fun_cases opening tok <;> rintro ⟨⟩

section

variable {here : Nat} {tok : Tok} {ctx ctx' : List Ctx} (effect : Emits here tok ctx ctx')
include effect

theorem Emits.nested (nested : Nested ctx) : Nested ctx' := by
  cases effect with
  | plain => exact nested
  | @opens tok delim _ mode isOpen =>
    revert isOpen
    fun_cases opening tok <;> rintro ⟨⟩ <;> exact ⟨mode, nested⟩
  | closes mode closes => exact nested.suffix (closing_suffix closes)
  | strStart mode => exact ⟨mode, nested⟩
  | strEnd => exact nested.tail
  | interpStart | specInterp => exact ⟨rfl, nested⟩
  | fmtStart => exact nested
  | fmtText => exact nested
  | interpEnd => exact nested.tail
  | fmtEnd => exact nested.tail

/-- Where the string frames of a token's new stack come from. -/
theorem Emits.frames {frame' : StrFrame} (member : .str frame' ∈ ctx') :
    (∀ index, .text index ∈ frame'.pieces →
      ∃ frame, .str frame ∈ ctx ∧ .text index ∈ frame.pieces) ∧
      ∀ n ∈ frame'.lineStarts, n = here ∨ ∃ frame, .str frame ∈ ctx ∧ n ∈ frame.lineStarts := by
  have kept (old : .str frame' ∈ ctx) :
      (∀ index, .text index ∈ frame'.pieces →
        ∃ frame, .str frame ∈ ctx ∧ .text index ∈ frame.pieces) ∧
        ∀ n ∈ frame'.lineStarts, n = here ∨ ∃ frame, .str frame ∈ ctx ∧ n ∈ frame.lineStarts :=
    ⟨fun _ isPiece => ⟨frame', old, isPiece⟩, fun _ isLine => .inr ⟨frame', old, isLine⟩⟩
  have later (top : Ctx) {left : List Ctx} (other : top ≠ .str frame')
      (member : .str frame' ∈ top :: left) : .str frame' ∈ left := by
    rcases List.mem_cons.mp member with same | old
    · exact absurd same.symm other
    · exact old
  cases effect with
  | plain => exact kept member
  | opens mode isOpen => exact kept (later _ (fun same => opening_not_str (same ▸ isOpen)) member)
  | closes mode closes => exact kept ((closing_suffix closes).subset member)
  | strStart mode empty noPieces lines =>
    rcases List.mem_cons.mp member with same | old
    · cases same
      rw [noPieces]
      exact ⟨nofun, fun n isLine => .inl (lines n isLine)⟩
    · exact kept old
  | strEnd => exact kept (List.mem_cons_of_mem _ member)
  | @interpStart frame pieces left flushed more =>
    rcases List.mem_cons.mp (later .interp nofun member) with same | old
    · cases same
      refine ⟨fun index isPiece => ⟨frame, List.mem_cons_self, ?_⟩,
        fun n isLine => .inr ⟨frame, List.mem_cons_self, isLine⟩⟩
      rcases more _ isPiece with was | other
      · exact was
      · nomatch other
    · exact kept (List.mem_cons_of_mem _ old)
  | specInterp => exact kept (later .interp nofun member)
  | fmtStart => exact kept (List.mem_cons_of_mem _ (later .fmt nofun member))
  | fmtText => exact kept member
  | interpEnd | fmtEnd => exact kept (List.mem_cons_of_mem _ member)

end

theorem Move.keeps (move : Move u l l') (sound : Sound l) : Keeps l l' := by
  have sameStack {next : Lexer} (src : next.src = l.src) (pos : next.pos = l.pos)
      (rest : next.rest = l.rest) (tokens : l.tokens.length ≤ next.tokens.length)
      (suffix : next.ctx <:+ l.ctx) : Keeps l next := by
    refine keeps_of_subset (sound.nested.suffix suffix) src ?_ tokens
      fun frame member => suffix.subset member
    rw [src, pos, rest]
    exact sound.placed
  cases move with
  | note | tally => exact sameStack rfl rfl rfl le_rfl (List.suffix_refl _)
  | blank mode split =>
    exact keeps_of_subset sound.nested rfl (placed_feed sound.placed split) le_rfl fun _ => id
  | @newline rest mode split =>
    have one : l.rest = ['\n'] ++ rest := split
    have placed := placed_feed sound.placed one
    rcases insertTerminator_spec u (l.feed ['\n'] rest) l.pos with same | same
    · rw [same]
      exact keeps_of_subset sound.nested rfl placed le_rfl fun _ => id
    · rw [same]
      refine keeps_of_subset sound.nested rfl placed ?_ fun _ => id
      exact (List.sublist_append_left l.tokens _).length_le
  | emit split some_one effect =>
    exact
      { nested := effect.nested sound.nested
        src := rfl
        placed := placed_feed sound.placed split
        longer := (List.sublist_append_left l.tokens _).length_le
        pieces := fun _ member index isPiece => .inr ((effect.frames member).1 index isPiece)
        lines := fun _ member n isLine => (effect.frames member).2 n isLine }
  | @body text rest frame frame' ctx top split some_one collects =>
    have placed := placed_feed sound.placed split
    have nested := sound.nested
    rw [top] at nested
    have old : Ctx.str frame ∈ l.ctx := top ▸ List.mem_cons_self
    refine ⟨nested, rfl, placed, le_rfl, fun one member index isPiece => ?_,
      fun one member n isLine => ?_⟩
    · rcases List.mem_cons.mp member with same | below
      · cases same
        exact .inr ⟨frame, old, collects.pieces ▸ isPiece⟩
      · exact .inr ⟨one, top ▸ List.mem_cons_of_mem _ below, isPiece⟩
    · rcases List.mem_cons.mp member with same | below
      · cases same
        rcases collects.lines n isLine with was | here
        · exact .inr ⟨frame, old, was⟩
        · exact .inl here
      · exact .inr ⟨one, top ▸ List.mem_cons_of_mem _ below, isLine⟩
  | @flush frame pieces ctx top pending more =>
    have nested := sound.nested
    rw [top] at nested
    have old : Ctx.str frame ∈ l.ctx := top ▸ List.mem_cons_self
    refine ⟨nested, rfl, sound.placed, (List.sublist_append_left l.tokens _).length_le,
      fun one member index isPiece => ?_, fun one member n isLine => ?_⟩
    · rcases List.mem_cons.mp member with same | below
      · cases same
        rcases more _ isPiece with was | new
        · exact .inr ⟨frame, old, was⟩
        · cases new
          exact .inl (by simp)
      · exact .inr ⟨one, top ▸ List.mem_cons_of_mem _ below, isPiece⟩
    · rcases List.mem_cons.mp member with same | below
      · cases same
        exact .inr ⟨frame, old, isLine⟩
      · exact .inr ⟨one, top ▸ List.mem_cons_of_mem _ below, isLine⟩
  | @dedent frame frame' ctx tokens top pieces lines start less same =>
    have nested := sound.nested
    rw [top] at nested
    have old : Ctx.str frame ∈ l.ctx := top ▸ List.mem_cons_self
    have length : tokens.length = l.tokens.length := by
      simpa using congrArg List.length same
    refine ⟨nested, rfl, sound.placed, Nat.le_of_eq length.symm, fun one member index isPiece => ?_,
      fun one member n isLine => ?_⟩
    · rcases List.mem_cons.mp member with same | below
      · cases same
        exact .inr ⟨frame, old, pieces ▸ isPiece⟩
      · exact .inr ⟨one, top ▸ List.mem_cons_of_mem _ below, isPiece⟩
    · rcases List.mem_cons.mp member with same | below
      · cases same
        rw [lines] at isLine
        exact nomatch isLine
      · exact .inr ⟨one, top ▸ List.mem_cons_of_mem _ below, isLine⟩
  | @abandon frame ctx top =>
    refine sameStack rfl rfl rfl (List.sublist_append_left l.tokens _).length_le ?_
    rw [top]
    exact List.suffix_cons _ _
  | unwound =>
    obtain ⟨left, toks, run, suffix, -⟩ := unwind_spec l.ctx l
    rw [unwindPlainString, run]
    exact sameStack rfl rfl rfl (List.sublist_append_left l.tokens _).length_le suffix

theorem Move.sound (move : Move u l l') (sound : Sound l) : Sound l' :=
  (move.keeps sound).sound sound

theorem Moves.sound (moves : Moves u l l') (sound : Sound l) : Sound l' := by
  induction moves with
  | refl => exact sound
  | tail _ move ih => exact move.sound ih

/-- The text that is scanned stays the same one. -/
theorem Moves.src (moves : Moves u l l') (sound : Sound l) : l'.src = l.src := by
  induction moves with
  | refl => rfl
  | tail before move ih => exact (move.keeps (Moves.sound before sound)).src.trans ih

end Sound

end Lexer

end WolfInterp.Lex
