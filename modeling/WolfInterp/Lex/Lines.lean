import WolfInterp.Lex.Newlines

/-!
# Plain literals and line ends

A plain literal ends on the line it begins on: a newline in its body, or in the code of one of its
interpolations, is an error. The text of a format spec is taken up to the next brace without a look
for newlines, so a plain literal crosses a line exactly where such a text has one.
-/

namespace WolfInterp.Lex

open Newlines
open Lexer (spansLines)

/-- The literals that are open after a token, the innermost first. -/
def StrKind.step : List StrKind → Tok → List StrKind
  | kinds, .strStart kind => kind :: kinds
  | kinds, .strEnd => kinds.tail
  | kinds, _ => kinds

/-- The literals that are open after some tokens. -/
def literals (toks : List Tok) : List StrKind := toks.foldl StrKind.step []

/-- The literals that are open at an offset. -/
def openAt (n : Nat) (tokens : List Token) : List StrKind := literals (before (n + 1) tokens)

/-- Every plain literal has a literal nested in it that goes over line ends. -/
def Sheltered (kinds : List StrKind) : Prop :=
  ∀ above below, kinds = above ++ .plain :: below → ∃ kind ∈ above, spansLines kind = true

/-- No plain literal crosses a line: at every newline each open one has a multiline or raw literal
open inside of it. -/
def PlainInLine (src : Text) (tokens : List Token) : Prop :=
  ∀ n, Newline src n → Sheltered (openAt n tokens)

theorem sheltered_nil : Sheltered [] := by
  rintro (_ | ⟨kind, above⟩) below same <;> nomatch same

theorem sheltered_cons {kind : StrKind} {kinds : List StrKind} (spans : spansLines kind = true) :
    Sheltered (kind :: kinds) := by
  rintro (_ | ⟨first, above⟩) below same
  · cases same
    nomatch spans
  · cases same
    exact ⟨kind, List.mem_cons_self, spans⟩

theorem not_sheltered_plain (kinds : List StrKind) : ¬ Sheltered (.plain :: kinds) := by
  intro sheltered
  obtain ⟨kind, member, -⟩ := sheltered [] kinds rfl
  nomatch member

section Literals

variable {n : Nat} {tokens : List Token} {token : Token}

theorem literals_snoc (toks : List Tok) (tok : Tok) :
    literals (toks ++ [tok]) = StrKind.step (literals toks) tok := by
  simp [literals]

theorem openAt_of_started (started : ∀ token ∈ tokens, token.span.start ≤ n) :
    openAt n tokens = literals (tokens.map Token.tok) := by
  rw [openAt, before_all fun token member => Nat.lt_succ_of_le (started token member)]

theorem openAt_snoc (later : n < token.span.start) :
    openAt n (tokens ++ [token]) = openAt n tokens := by
  rw [openAt, openAt, before_snoc later]

/-- A token that opens and closes no literal. -/
def IsInner (tok : Tok) : Prop := ∀ kinds, StrKind.step kinds tok = kinds

theorem openAt_snoc_inner (inner : IsInner token.tok) :
    openAt n (tokens ++ [token]) = openAt n tokens := by
  rcases Nat.lt_or_ge n token.span.start with later | earlier
  · exact openAt_snoc later
  · rw [openAt, before_snoc_of_lt (Nat.lt_succ_of_le earlier), literals_snoc, inner]
    rfl

theorem literals_blur (toks : List Tok) : literals (toks.map Lexer.blurTok) = literals toks := by
  have step (kinds : List StrKind) (tok : Tok) :
      StrKind.step kinds (Lexer.blurTok tok) = StrKind.step kinds tok := by
    cases tok <;> rfl
  rw [literals, literals, List.foldl_map]
  simp only [step]

theorem openAt_blur {tokens' : List Token}
    (same : tokens'.map Lexer.blur = tokens.map Lexer.blur) :
    openAt n tokens' = openAt n tokens := by
  have blurred (tokens : List Token) : openAt n (tokens.map Lexer.blur) = openAt n tokens := by
    rw [openAt, Lexer.before_blur, literals_blur, openAt]
  rw [← blurred, same, blurred]

end Literals

namespace Lexer

section Run

variable {u : Unicode} {l l' : Lexer} {n : Nat}

/-! ## The literals on the stack -/

/-- The kinds of the literals on a stack, the innermost first. -/
def literalsOf (ctx : List Ctx) : List StrKind :=
  ctx.filterMap fun
    | .str frame => some frame.kind
    | _ => none

/-- Interpolations are those of plain and multiline literals. -/
def Hosted : List Ctx → Prop
  | [] => True
  | .interp :: ctx | .fmt :: ctx =>
    ((literalsOf ctx).head? = some .plain ∨ (literalsOf ctx).head? = some .multiline) ∧ Hosted ctx
  | _ :: ctx => Hosted ctx

variable {ctx : List Ctx} {tok : Tok}

theorem Hosted.tail {top : Ctx} (hosted : Hosted (top :: ctx)) : Hosted ctx := by
  cases top with
  | interp => exact hosted.2
  | fmt => exact hosted.2
  | _ => exact hosted

theorem Hosted.suffix {left : List Ctx} (hosted : Hosted ctx) (suffix : left <:+ ctx) :
    Hosted left := by
  obtain ⟨above, rfl⟩ := suffix
  induction above with
  | nil => exact hosted
  | cons top above ih => exact ih hosted.tail

theorem openPlainString_iff {stop : Nat} :
    (l.openPlainString stop).isSome = true ↔ (literalsOf l.ctx).head? = some .plain := by
  have head (found : Option StrFrame)
      (isFound : (l.ctx.findSome? fun | .str frame => some frame | _ => none) = found) :
      (literalsOf l.ctx).head? = found.map StrFrame.kind := by
    rw [← isFound, literalsOf, List.head?_filterMap, List.map_findSome?]
    congr 1
    funext top
    cases top <;> rfl
  rw [openPlainString]
  split
  · next frame found =>
      rw [head _ found, Option.map_some]
      split
      · next plain => simp [plain]
      · next other => simp [other]
  · next none =>
      rw [head _ none]
      exact ⟨(by simp), (by simp)⟩

/-- In token mode the innermost literal has an interpolation open. -/
theorem Hosted.inToken (hosted : Hosted ctx) (nested : Nested ctx) (mode : tokenMode ctx = true) :
    literalsOf ctx = [] ∨ (literalsOf ctx).head? = some .plain ∨
      (literalsOf ctx).head? = some .multiline := by
  induction ctx with
  | nil => exact .inl rfl
  | cons top ctx ih =>
    cases top with
    | str => nomatch mode
    | fmt => nomatch mode
    | interp => exact .inr hosted.1
    | paren | bracket | attrBracket | brace => exact ih hosted nested.2 nested.1

/-- Token mode outside of plain literals is sheltered. -/
theorem Hosted.sheltered {stop : Nat} (hosted : Hosted l.ctx) (nested : Nested l.ctx)
    (mode : tokenMode l.ctx = true) (inside : l.openPlainString stop = none) :
    Sheltered (literalsOf l.ctx) := by
  have notPlain : (literalsOf l.ctx).head? ≠ some .plain := by
    rw [ne_eq, ← @openPlainString_iff l stop, inside]
    nofun
  rcases hosted.inToken nested mode with none | plain | multiline
  · rw [none]
    exact sheltered_nil
  · exact absurd plain notPlain
  · obtain ⟨kinds, same⟩ := List.head?_eq_some_iff.mp multiline
    rw [same]
    exact sheltered_cons rfl

/-! ## Tokens and the stack -/

theorem isInner_of_plain (plain : isPlain tok = true) : IsInner tok := by
  intro kinds
  cases tok <;> first | rfl | nomatch plain

theorem literalsOf_opening {delim : Ctx} (isOpen : opening tok = some delim) (ctx : List Ctx) :
    IsInner tok ∧ literalsOf (delim :: ctx) = literalsOf ctx ∧
      (Hosted ctx → Hosted (delim :: ctx)) := by
  cases tok <;> cases isOpen <;> exact ⟨fun _ => rfl, rfl, id⟩

theorem literalsOf_closing {left : List Ctx} (closes : closing tok ctx = some left) :
    IsInner tok ∧ literalsOf left = literalsOf ctx := by
  revert closes
  fun_cases closing tok ctx with
  | case8 => simp
  | _ =>
    rintro ⟨⟩
    exact ⟨fun _ => rfl, rfl⟩

/-- A token moves the open literals as it moves the stack. -/
theorem Emits.literals {here : Nat} {ctx' : List Ctx} (effect : Emits here tok ctx ctx') :
    StrKind.step (literalsOf ctx) tok = literalsOf ctx' := by
  cases effect with
  | plain mode plain => exact isInner_of_plain plain _
  | opens mode isOpen =>
    obtain ⟨inner, same, -⟩ := literalsOf_opening isOpen ctx
    rw [inner, same]
  | closes mode closes =>
    obtain ⟨inner, same⟩ := literalsOf_closing closes
    rw [inner, same]
  | strStart mode empty noPieces lines isKind =>
    rw [← isKind]
    rfl
  | strEnd | interpStart | specInterp | fmtStart | fmtText | interpEnd | fmtEnd => rfl

theorem Emits.hosted {here : Nat} {ctx' : List Ctx} (effect : Emits here tok ctx ctx')
    (hosted : Hosted ctx) : Hosted ctx' := by
  cases effect with
  | plain => exact hosted
  | opens mode isOpen => exact (literalsOf_opening isOpen ctx).2.2 hosted
  | closes mode closes => exact hosted.suffix (closing_suffix closes)
  | strStart => exact hosted
  | strEnd => exact hosted
  | @interpStart frame _ _ _ _ interpolated =>
    exact ⟨interpolated.imp (congrArg some) (congrArg some), hosted⟩
  | specInterp => exact ⟨hosted.1, hosted⟩
  | fmtStart => exact hosted
  | fmtText => exact hosted
  | interpEnd => exact hosted.2
  | fmtEnd => exact hosted.2

/-! ## Moves -/

/-- The stack keeps the literals that the tokens opened. -/
structure Opened (l : Lexer) : Prop where
  kinds : literals (l.tokens.map Token.tok) = literalsOf l.ctx
  hosts : Hosted l.ctx

/-- A move without diagnostics does not give up on a string. -/
theorem Move.opened (move : Move u l l') (clean : l'.errors = []) (opened : Opened l) :
    Opened l' := by
  have before := move.clean clean
  cases move with
  | note => simp [error] at clean
  | tally | blank => exact ⟨opened.kinds, opened.hosts⟩
  | @newline rest =>
    rcases insertTerminator_spec u (l.feed ['\n'] rest) l.pos with same | same
    · rw [same]
      exact ⟨opened.kinds, opened.hosts⟩
    · rw [same]
      refine ⟨?_, opened.hosts⟩
      rw [push, List.map_append, List.map_singleton, literals_snoc]
      exact opened.kinds
  | emit split some_one effect =>
    refine ⟨?_, effect.hosted opened.hosts⟩
    rw [List.map_append, List.map_singleton, literals_snoc, opened.kinds]
    exact effect.literals
  | @body text rest frame frame' ctx top split some_one collects =>
    have kinds := opened.kinds
    have hosts := opened.hosts
    rw [top] at kinds hosts
    refine ⟨kinds.trans ?_, hosts⟩
    change frame.kind :: literalsOf ctx = frame'.kind :: literalsOf ctx
    rw [collects.isKind]
  | @flush frame pieces ctx top =>
    have kinds := opened.kinds
    have hosts := opened.hosts
    rw [top] at kinds hosts
    refine ⟨?_, hosts⟩
    rw [List.map_append, List.map_singleton, literals_snoc]
    exact kinds
  | @dedent frame frame' ctx tokens top pieces lines start less same isKind =>
    have kinds := opened.kinds
    have hosts := opened.hosts
    rw [top] at kinds hosts
    have toks : (tokens.map Token.tok).map blurTok = (l.tokens.map Token.tok).map blurTok := by
      simpa [Function.comp_def, blur_tok] using congrArg (List.map Token.tok) same
    refine ⟨?_, hosts⟩
    rw [← literals_blur, toks, literals_blur, kinds]
    change frame.kind :: literalsOf ctx = frame'.kind :: literalsOf ctx
    rw [isKind]
  | abandon top flushed failed | unwound mode failed => exact absurd before failed

/-- What is open at an offset that was passed stays. -/
theorem Move.openAt_eq (move : Move u l l') (clean : l'.errors = []) (passed : n < l.pos) :
    openAt n l'.tokens = openAt n l.tokens := by
  have before := move.clean clean
  cases move with
  | note => rfl
  | tally => rfl
  | blank => rfl
  | @newline rest =>
    rcases insertTerminator_spec u (l.feed ['\n'] rest) l.pos with same | same
    · rw [same]
      rfl
    · rw [same]
      exact openAt_snoc_inner fun _ => rfl
  | emit => exact openAt_snoc passed
  | body => rfl
  | flush => exact openAt_snoc_inner fun _ => rfl
  | dedent top pieces lines start less same => exact openAt_blur same
  | abandon top flushed failed | unwound mode failed => exact absurd before failed

/-- A quiet move goes over a newline only where every plain literal is sheltered. -/
theorem Quiet.sheltered (quiet : Quiet u l l') (clean : l'.errors = []) (ruled : Ruled u l)
    (opened : Opened l) (newline : Newline l.src n) (ahead : l.pos ≤ n) (passed : n < l'.pos) :
    Sheltered (openAt n l'.tokens) := by
  obtain ⟨move, silent⟩ := quiet
  have before := move.clean clean
  have opened' := move.opened clean opened
  have started (token : Token) (member : token ∈ l.tokens) : token.span.start ≤ n :=
    Nat.le_trans (Nat.le_of_lt (ruled.started token member)) ahead
  -- The newline is in the piece of text that the move goes over.
  have inside {text rest : Text} (split : l.rest = text ++ rest) (short : n < l.pos + bytes text) :
      '\n' ∈ text := by
    obtain ⟨front, whole, place⟩ := ruled.streams.sound.placed
    rw [place] at ahead short
    obtain ⟨mid, back, left, length⟩ := newline_ahead whole newline ahead
    exact newline_in_piece (split.symm.trans left) (by omega)
  cases move with
  | note | tally => exact absurd passed (Nat.not_lt.mpr ahead)
  | blank mode split inLine => exact absurd (inside split passed) inLine
  | @newline rest mode split plain =>
    have shelter := opened.hosts.sheltered ruled.streams.sound.nested mode plain
    rw [← opened.kinds, ← openAt_of_started started] at shelter
    rcases insertTerminator_spec u (l.feed ['\n'] rest) l.pos with same | same
    · rw [same]
      exact shelter
    · rw [same, push, openAt_snoc_inner fun _ => rfl]
      exact shelter
  | @emit text rest tok ctx split some_one effect starts isElse lines =>
    have began : ∀ token ∈ l.tokens ++ [⟨tok, ⟨l.pos, l.pos + bytes text⟩⟩],
        token.span.start ≤ n := by
      intro token member
      rcases List.mem_append.mp member with old | new
      · exact started token old
      · rw [List.mem_singleton.mp new]
        exact ahead
    rw [openAt_of_started began, opened'.kinds]
    rcases lines (inside split passed) with failed | rfl | rfl
    · exact absurd before failed
    · cases effect with
      | plain mode plain => cases plain
      | opens mode isOpen => cases isOpen
      | closes mode closes => cases closes
      | @strStart kind frame _ mode empty noPieces fresh isKind =>
        change Sheltered (frame.kind :: literalsOf l.ctx)
        rw [isKind]
        exact sheltered_cons rfl
    · -- The text of a format spec is not quiet.
      have top : l.ctx.head? = some .fmt := by
        generalize l.ctx = stack at effect
        cases effect with
        | plain mode plain => cases plain
        | opens mode isOpen => cases isOpen
        | closes mode closes => cases closes
        | fmtText => rfl
      have same := congrArg List.length (silent top)
      rw [List.length_append, List.length_singleton] at same
      exact absurd same (Nat.succ_ne_self _)
  | @body text rest frame frame' ctx top split some_one collects lines =>
    have isOpen : openAt n l.tokens = frame.kind :: literalsOf ctx := by
      rw [openAt_of_started started, opened.kinds, top]
      rfl
    change Sheltered (openAt n l.tokens)
    rw [isOpen]
    rcases lines (inside split passed) with failed | spans
    · exact absurd before failed
    · exact sheltered_cons spans
  | flush | dedent => exact absurd passed (Nat.not_lt.mpr ahead)
  | abandon top flushed failed | unwound mode failed => exact absurd before failed

/-! ## Rounds -/

theorem Moves.clean (moves : Moves u l l') (clean : l'.errors = []) : l.errors = [] := by
  induction moves with
  | refl => exact clean
  | tail _ move ih => exact ih (move.clean clean)

theorem Move.pos_le (move : Move u l l') : l.pos ≤ l'.pos := by
  cases move with
  | @newline rest =>
    rcases insertTerminator_spec u (l.feed ['\n'] rest) l.pos with same | same <;>
      rw [same] <;> exact Nat.le_add_right _ _
  | unwound =>
    obtain ⟨left, toks, run, -⟩ := unwind_spec l.ctx l
    rw [unwindPlainString, run]
  | blank | emit | body => exact Nat.le_add_right _ _
  | _ => exact le_rfl

/-- No plain literal crosses a line in the text that was passed. -/
def SoFar (l : Lexer) : Prop := ∀ n, Newline l.src n → n < l.pos → Sheltered (openAt n l.tokens)

theorem Quiet.soFar (quiet : Quiet u l l') (clean : l'.errors = []) (ruled : Ruled u l)
    (opened : Opened l) : SoFar l' ↔ SoFar l := by
  have src := (quiet.1.keeps ruled.streams.sound).src
  constructor
  · intro later n newline passed
    rw [← quiet.1.openAt_eq clean passed]
    exact later n (src ▸ newline) (Nat.lt_of_lt_of_le passed quiet.1.pos_le)
  · intro before n newline passed
    rw [src] at newline
    rcases Nat.lt_or_ge n l.pos with old | ahead
    · rw [quiet.1.openAt_eq clean old]
      exact before n newline old
    · exact quiet.sheltered clean ruled opened newline ahead passed

theorem Moves.opened (moves : Moves u l l') (clean : l'.errors = []) (opened : Opened l) :
    Opened l' := by
  induction moves with
  | refl => exact opened
  | tail _ move ih => exact move.opened clean (ih (move.clean clean))

/-- Only a format spec can take a plain literal over a line end. -/
theorem Quiets.soFar (quiets : Quiets u l l') (clean : l'.errors = []) (ruled : Ruled u l)
    (opened : Opened l) : SoFar l' ↔ SoFar l := by
  induction quiets with
  | refl => exact Iff.rfl
  | tail earlier quiet ih =>
    have before := quiet.1.clean clean
    have moves := Quiets.moves earlier
    exact (quiet.soFar clean (moves.ruled before ruled) (moves.opened before opened)).trans
      (ih before)

/-- A format spec of a plain literal has no newline before its next brace. -/
def SpecInLine (l : Lexer) : Prop :=
  (l.openPlainString l.pos).isSome = true → '\n' ∉ l.rest.takeWhile fun c => c ≠ '{' && c ≠ '}'

/-- A round in a format spec passes its text, and a brace where there is one. -/
theorem scanFormatSpec_steps (l : Lexer) : ∃ extra brace rest,
    l.rest = (l.rest.takeWhile fun c => c ≠ '{' && c ≠ '}') ++ (brace ++ rest) ∧ '\n' ∉ brace ∧
      l.scanFormatSpec.1.src = l.src ∧ l.scanFormatSpec.1.pos =
        l.pos + bytes (l.rest.takeWhile fun c => c ≠ '{' && c ≠ '}') + bytes brace ∧
      l.scanFormatSpec.1.tokens = l.tokens ++ extra ∧ ∀ token ∈ extra, IsInner token.tok := by
  have split : l.rest = _ ++ _ :=
    (List.takeWhile_append_dropWhile (p := fun c => c ≠ '{' && c ≠ '}')).symm
  have stopped := List.head?_dropWhile_not (fun c => c ≠ '{' && c ≠ '}') l.rest
  rw [scanFormatSpec]
  simp only [skipWhile_eq]
  generalize (l.rest.takeWhile fun c => c ≠ '{' && c ≠ '}') = text at split ⊢
  generalize (l.rest.dropWhile fun c => c ≠ '{' && c ≠ '}') = left at split stopped ⊢
  have texted : ∃ some_text, (if text = [] then l.feed text left
      else (l.feed text left).push (.fmtText text) ⟨l.pos, (l.feed text left).pos⟩) =
        { l.feed text left with tokens := l.tokens ++ some_text } ∧
      ∀ token ∈ some_text, IsInner token.tok := by
    split
    · exact ⟨[], by simp [feed], (by simp)⟩
    · refine ⟨[_], rfl, fun token member => ?_⟩
      rw [List.mem_singleton.mp member]
      exact fun _ => rfl
  obtain ⟨some_text, isMid, inner⟩ := texted
  rw [isMid]
  have closed (token : Token) (isInner : IsInner token.tok) :
      ∀ other ∈ some_text ++ [token], IsInner other.tok := by
    intro other member
    rcases List.mem_append.mp member with old | new
    · exact inner other old
    · rw [List.mem_singleton.mp new]
      exact isInner
  cases left with
  | nil => exact ⟨some_text, [], [], split, (by simp), rfl, rfl, rfl, inner⟩
  | cons c rest =>
    have brace : '\n' ∉ [c] := by
      intro member
      rw [← List.mem_singleton.mp member] at stopped
      cases stopped
    generalize isMid' : ({ l.feed text (c :: rest) with tokens := l.tokens ++ some_text } : Lexer) =
      mid
    have mid_rest : mid.rest = c :: rest := isMid' ▸ rfl
    have mid_src : mid.src = l.src := isMid' ▸ rfl
    have mid_pos : mid.pos = l.pos + bytes text := isMid' ▸ rfl
    have mid_tokens : mid.tokens = l.tokens ++ some_text := isMid' ▸ rfl
    have stepped (tok : Tok) (isInner : IsInner tok) (next : Lexer) (src : next.src = mid.src)
        (pos : next.pos = mid.pos + bytes [c])
        (tokens : next.tokens = mid.tokens ++ [⟨tok, ⟨mid.pos, mid.pos + 1⟩⟩]) :
        ∃ extra brace left, l.rest = text ++ (brace ++ left) ∧ '\n' ∉ brace ∧ next.src = l.src ∧
          next.pos = l.pos + bytes text + bytes brace ∧ next.tokens = l.tokens ++ extra ∧
            ∀ token ∈ extra, IsInner token.tok := by
      refine ⟨some_text ++ [⟨tok, ⟨mid.pos, mid.pos + 1⟩⟩], [c], rest, split, brace,
        src.trans mid_src, by rw [pos, mid_pos], ?_, closed _ isInner⟩
      rw [tokens, mid_tokens, List.append_assoc]
    split
    · next ended =>
        rw [peek, mid_rest] at ended
        cases ended
    · have popped : mid.popCtx.bump = mid.popCtx.feed [c] rest := bump_eq mid_rest
      rw [popped]
      exact stepped .interpEnd (fun _ => rfl) _ rfl rfl rfl
    · have bumped : mid.bump = mid.feed [c] rest := bump_eq mid_rest
      rw [bumped]
      exact stepped .interpStart (fun _ => rfl) _ rfl rfl rfl

theorem openAt_append_inner {tokens extra : List Token}
    (inner : ∀ token ∈ extra, IsInner token.tok) :
    openAt n (tokens ++ extra) = openAt n tokens := by
  induction extra generalizing tokens with
  | nil => rw [List.append_nil]
  | cons token extra ih =>
    rw [List.append_cons, ih fun other member => inner other (List.mem_cons_of_mem _ member),
      openAt_snoc_inner (inner token List.mem_cons_self)]

/-- A round in a format spec takes a plain literal over a line end exactly where its text has
one. -/
theorem scanFormatSpec_soFar (top : l.ctx.head? = some .fmt) (ruled : Ruled u l)
    (opened : Opened l) :
    SoFar l.scanFormatSpec.1 ↔ SoFar l ∧ SpecInLine l := by
  obtain ⟨extra, brace, rest, split, inLine, src, pos, tokens, inner⟩ := scanFormatSpec_steps l
  obtain ⟨front, whole, place⟩ := ruled.streams.sound.placed
  rw [SpecInLine, openPlainString_iff]
  generalize (l.rest.takeWhile fun c => c ≠ '{' && c ≠ '}') = text at split pos ⊢
  -- What is open ahead is what the stack says.
  have isOpen {n : Nat} (ahead : l.pos ≤ n) : openAt n l.tokens = literalsOf l.ctx := by
    rw [openAt_of_started fun token member =>
      Nat.le_trans (Nat.le_of_lt (ruled.started token member)) ahead, opened.kinds]
  constructor
  · intro later
    refine ⟨fun n newline passed => ?_, fun plain member => ?_⟩
    · have sheltered := later n (src ▸ newline) (by rw [pos]; omega)
      rwa [tokens, openAt_append_inner inner] at sheltered
    · obtain ⟨mid, back, rfl⟩ := List.append_of_mem member
      have newline : Newline l.src (l.pos + bytes mid) := by
        refine ⟨front ++ mid, back ++ (brace ++ rest), ?_, by rw [bytes_append, place]⟩
        rw [whole, split]
        simp [List.append_assoc]
      have positive := ('\n').utf8Size_pos
      have sheltered := later _ (src ▸ newline) (by
        rw [pos, bytes_append, bytes_cons]
        omega)
      obtain ⟨kinds, same⟩ := List.head?_eq_some_iff.mp plain
      rw [tokens, openAt_append_inner inner, isOpen (Nat.le_add_right _ _), same] at sheltered
      exact not_sheltered_plain kinds sheltered
  · rintro ⟨before, spec⟩ n newline passed
    rw [src] at newline
    rw [tokens, openAt_append_inner inner]
    rcases Nat.lt_or_ge n l.pos with old | ahead
    · exact before n newline old
    · rw [isOpen ahead]
      have inside : '\n' ∈ text := by
        rw [pos] at passed
        rw [place] at ahead passed
        obtain ⟨mid, back, left, length⟩ := newline_ahead whole newline ahead
        have piece : text ++ brace ++ rest = mid ++ '\n' :: back := by
          rw [List.append_assoc, ← split, left]
        have member := newline_in_piece piece (by rw [bytes_append]; omega)
        exact (List.mem_append.mp member).resolve_right inLine
      obtain ⟨below, isTop⟩ := List.head?_eq_some_iff.mp top
      have hosts := opened.hosts
      rw [isTop] at hosts
      have same : literalsOf l.ctx = literalsOf below := by
        rw [isTop]
        rfl
      rcases hosts.1 with plain | multiline
      · exact absurd inside (spec (same ▸ plain))
      · obtain ⟨kinds, isMultiline⟩ := List.head?_eq_some_iff.mp multiline
        rw [same, isMultiline]
        exact sheltered_cons rfl

/-! ## The run -/

/-- The rounds of the run that go on. -/
abbrev Reaches (u : Unicode) : Lexer → Lexer → Prop :=
  Relation.ReflTransGen fun l l' => l.scan u = some (l', true)

/-- Every format spec that is scanned from a state on is in line. -/
def SpecsInLine (u : Unicode) (l : Lexer) : Prop :=
  ∀ l', Reaches u l l' → l'.ctx.head? = some .fmt → SpecInLine l'

theorem specsInLine_stop (run : l.scan u = some (l', false)) :
    SpecsInLine u l ↔ (l.ctx.head? = some .fmt → SpecInLine l) := by
  constructor
  · exact fun all => all l .refl
  · intro here next reaches
    rcases reaches.cases_head with rfl | ⟨first, step, -⟩
    · exact here
    · rw [run] at step
      nomatch step

theorem specsInLine_goOn (run : l.scan u = some (l', true)) :
    SpecsInLine u l ↔ (l.ctx.head? = some .fmt → SpecInLine l) ∧ SpecsInLine u l' := by
  constructor
  · exact fun all => ⟨all l .refl, fun next reaches => all next (.head run reaches)⟩
  · rintro ⟨here, later⟩ next reaches
    rcases reaches.cases_head with rfl | ⟨first, step, reaches⟩
    · exact here
    · rw [run] at step
      cases step
      exact later next reaches

theorem scan_soFar {more : Bool} (run : l.scan u = some (l', more)) (clean : l'.errors = [])
    (ruled : Ruled u l) (opened : Opened l) :
    SoFar l' ↔ SoFar l ∧ (l.ctx.head? = some .fmt → SpecInLine l) := by
  obtain ⟨next, more', run', moves, -, -, quiets⟩ := scan_spec (u := u) ruled.streams.sound
  rw [run] at run'
  cases run'
  by_cases top : l.ctx.head? = some .fmt
  · obtain ⟨below, isTop⟩ := List.head?_eq_some_iff.mp top
    have same : l.scan u = some l.scanFormatSpec := by
      rw [scan.eq_def, isTop]
    rw [same] at run
    have isNext : l.scanFormatSpec.1 = l' := by rw [Option.some.inj run]
    rw [← isNext, scanFormatSpec_soFar top ruled opened]
    exact and_congr_right fun _ => ⟨fun spec _ => spec, fun spec => spec top⟩
  · rw [(quiets top).soFar clean ruled opened]
    exact ⟨fun before => ⟨before, fun isTop => absurd isTop top⟩, And.left⟩

theorem scanLoop_soFar (rounds : Nat) (ruled : l.errors = [] → Ruled u l) (sound : Sound l)
    (opened : Opened l) (enough : weight l < rounds) (run : scanLoop u rounds l = some l')
    (clean : l'.errors = []) : SoFar l' ↔ SoFar l ∧ SpecsInLine u l := by
  induction rounds generalizing l with
  | zero => exact absurd enough (Nat.not_lt_zero _)
  | succ rounds ih =>
    obtain ⟨next, more, scanned, moves, lighter, -⟩ := scan_spec (u := u) sound
    rw [scanLoop, scanned] at run
    simp only [Option.bind_eq_bind, Option.bind_some] at run
    cases more with
    | false =>
      cases run
      have before := Moves.clean moves clean
      rw [scan_soFar scanned clean (ruled before) opened, specsInLine_stop scanned]
    | true =>
      have run : scanLoop u rounds next = some l' := run
      have less := lighter rfl
      obtain ⟨last, looped, more, -⟩ := scanLoop_spec (u := u) rounds (moves.sound sound) (by omega)
      rw [run] at looped
      cases looped
      have between := Moves.clean more clean
      have before := Moves.clean moves between
      rw [ih (fun _ => moves.ruled between (ruled before)) (moves.sound sound)
        (Moves.opened moves between opened) (by omega) run,
        scan_soFar scanned between (ruled before) opened, specsInLine_goOn scanned, and_assoc]

theorem opened_begin {src text rest : Text} : Opened ((initial src).feed text rest) :=
    ⟨rfl, trivial⟩

end Run

end Lexer

/-- A text that lexes without an error keeps its plain literals on their lines exactly when no
format spec of a plain literal has a newline before its next brace. -/
theorem lex_plainInLine_iff {u : Unicode} {src : Text} {lexed : Lexed}
    (run : lex u src = some lexed)
    (clean : lexed.errors = []) :
    PlainInLine src lexed.tokens ↔ ∀ l, Lexer.begin_ src = some l → Lexer.SpecsInLine u l := by
  obtain ⟨text, rest, split, inLine, begun⟩ := Lexer.begin_spec src
  obtain ⟨l, looped, moves, ended⟩ := Lexer.scanLoop_spec (u := u) _
    (Lexer.sound_begin split) (Nat.lt_succ_self _)
  rw [lex, Lexer.run, begun] at run
  simp only [Option.bind_eq_bind, Option.bind_some, Lexer.fuel] at run
  rw [← Lexer.weight, looped] at run
  cases run
  obtain ⟨before, tokens⟩ := Lexer.closed_tokens clean
  have src_eq : l.src = src := Lexer.Moves.src moves (Lexer.sound_begin split)
  have pos_eq : l.pos = bytes src := by
    rw [← src_eq]
    exact (moves.sound (Lexer.sound_begin split)).pos_eq ended
  have soFar := Lexer.scanLoop_soFar _ (fun _ => Lexer.ruled_begin split inLine)
    (Lexer.sound_begin split) Lexer.opened_begin (Nat.lt_succ_self _) looped before
  -- The first line's interpreter directive opens nothing.
  have first : Lexer.SoFar ((Lexer.initial src).feed text rest) := fun _ _ _ => sheltered_nil
  have everywhere : Lexer.SoFar l ↔
      PlainInLine src l.closeUnterminated.insertTerminatorAtEof.tokens := by
    rw [Lexer.SoFar, PlainInLine, src_eq, pos_eq]
    refine forall_congr' fun n => forall_congr' fun newline => ?_
    have short := newline.lt
    have same : openAt n l.closeUnterminated.insertTerminatorAtEof.tokens = openAt n l.tokens := by
      rcases tokens with same | ⟨same, -⟩
      · rw [same]
      · rw [same, src_eq]
        exact openAt_snoc short
    rw [same]
    exact ⟨fun all => all short, fun sheltered _ => sheltered⟩
  rw [← everywhere, soFar, begun]
  constructor
  · rintro ⟨-, specs⟩ l isFirst
    cases isFirst
    exact specs
  · exact fun all => ⟨first, all _ rfl⟩

/-- A format spec that fills its field on the same line. -/
theorem lex_plainInLine_iff_padded : PlainInLine "\"\x7bx:>4\x7d\"\n".toList
        [⟨.strStart .plain, ⟨0, 1⟩⟩, ⟨.interpStart, ⟨1, 2⟩⟩, ⟨.ident ['x'], ⟨2, 3⟩⟩,
          ⟨.fmtStart, ⟨3, 4⟩⟩, ⟨.fmtText ['>', '4'], ⟨4, 6⟩⟩, ⟨.interpEnd, ⟨6, 7⟩⟩,
          ⟨.strEnd, ⟨7, 8⟩⟩, ⟨.term false, .empty 8⟩] ↔
      ∀ l, Lexer.begin_ "\"\x7bx:>4\x7d\"\n".toList = some l → Lexer.SpecsInLine .ascii l :=
  @lex_plainInLine_iff .ascii _ ⟨_, [], [], 1, false⟩ (by decide) rfl

/-- A newline in a format spec is taken as its text. -/
theorem spec_crosses_line : ∃ lexed, lex .ascii "\"\x7bx:\n\x7d\"".toList = some lexed ∧
    lexed.errors = [] ∧ ¬ PlainInLine "\"\x7bx:\n\x7d\"".toList lexed.tokens := by
  refine ⟨⟨[⟨.strStart .plain, ⟨0, 1⟩⟩, ⟨.interpStart, ⟨1, 2⟩⟩, ⟨.ident ['x'], ⟨2, 3⟩⟩,
    ⟨.fmtStart, ⟨3, 4⟩⟩, ⟨.fmtText ['\n'], ⟨4, 5⟩⟩, ⟨.interpEnd, ⟨5, 6⟩⟩, ⟨.strEnd, ⟨6, 7⟩⟩,
    ⟨.term false, .empty 7⟩], [], [], 1, false⟩, by decide, rfl, fun inLine => ?_⟩
  have sheltered := inLine 4 ⟨"\"\x7bx:".toList, "\x7d\"".toList, by decide, by decide⟩
  exact not_sheltered_plain [] sheltered

end WolfInterp.Lex
