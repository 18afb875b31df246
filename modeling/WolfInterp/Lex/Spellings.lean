import WolfInterp.Lex.Numbers
import WolfInterp.Lex.Stream

/-!
# Integer tokens

Only the scan of a number makes integer tokens. In a text without a lexical error each of them is a
decimal literal, or a base prefix in either case before digits of its base.
-/

namespace WolfInterp.Lex

/-- How the integer tokens of a text without a lexical error are spelled. The digits of a based one
may all be underscores. -/
inductive Spelled : Text → Prop where
  | decimal {text : Text} : DecLit text → Spelled text
  | based {marker : Char} {radix : Nat} {digits : Text} : baseRadix marker = some radix →
      digits ≠ [] → (∀ c ∈ digits, c = '_' ∨ (toDigit radix c).isSome) →
      Spelled ('0' :: marker :: digits)

/-- The token is not an integer. -/
def Tok.others : Tok → Bool
  | .int _ => false
  | _ => true

/-- Every integer token is spelled so, or there is an error. -/
def SpellsInts (tokens : List Token) (errors : List Diag) : Prop :=
  errors = [] → ∀ token ∈ tokens, ∀ text, token.tok = .int text → Spelled text

namespace Lexer

/-! ## What a scan adds -/

/-- Errors stay, and a new integer token is spelled as it should be. -/
structure Adds (l l' : Lexer) : Prop where
  failed : l'.errors = [] → l.errors = []
  ints : l'.errors = [] → ∀ token ∈ l'.tokens, ∀ text, token.tok = .int text →
    token ∈ l.tokens ∨ Spelled text

/-- Whatever a partial scan comes to, it only adds so. -/
def Adding {α : Type} (last : α → Lexer) (l : Lexer) (result : Option α) : Prop :=
  ∀ a, result = some a → Adds l (last a)

section Adds

variable {l l' l'' : Lexer}

theorem Adds.same (tokens : l'.tokens = l.tokens) (errors : l'.errors = l.errors) : Adds l l' where
  failed clean := errors ▸ clean
  ints _ _ among _ _ := .inl (tokens ▸ among)

theorem Adds.refl (l : Lexer) : Adds l l := .same rfl rfl

theorem Adds.trans (first : Adds l l') (second : Adds l' l'') : Adds l l'' where
  failed clean := first.failed (second.failed clean)
  ints clean token among text isInt := by
    rcases second.ints clean token among text isInt with older | spelled
    · exact first.ints (second.failed clean) token older text isInt
    · exact .inr spelled

theorem Adds.spells (adds : Adds l l') (spells : SpellsInts l.tokens l.errors) :
    SpellsInts l'.tokens l'.errors := by
  intro clean token among text isInt
  rcases adds.ints clean token among text isInt with older | spelled
  · exact spells (adds.failed clean) token older text isInt
  · exact spelled

theorem Adds.fed (fed : Fed l l') : Adds l l' := by
  obtain ⟨text, rest, -, rfl⟩ := fed
  exact .same rfl rfl

/-- With an error there is nothing to say of the tokens. -/
theorem Adds.refused (failed : l'.errors ≠ []) : Adds l l' where
  failed clean := absurd clean failed
  ints clean := absurd clean failed

theorem Adds.error (l : Lexer) (code : String) (span : Span) (anchor : String) :
    Adds l (l.error code span anchor) := .refused (by simp [Lexer.error])

/-- An integer token may be pushed if it is spelled as it should be. -/
theorem Adds.push (adds : Adds l l') {tok : Tok} (span : Span)
    (fits : ∀ text, tok = .int text → Spelled text) : Adds l (l'.push tok span) where
  failed clean := adds.failed clean
  ints clean token among text isInt := by
    rcases List.mem_append.mp among with older | new
    · exact adds.ints clean token older text isInt
    · rw [List.mem_singleton.mp new] at isInt
      exact .inr (fits text isInt)

/-- Any other token may be pushed. -/
theorem Adds.pushed (adds : Adds l l') {tok : Tok} (span : Span)
    (other : tok.others = true) : Adds l (l'.push tok span) := by
  refine adds.push span fun text same => ?_
  rw [same] at other
  cases other

/-- The stack of contexts is no matter. -/
theorem Adds.ctx (adds : Adds l l') (ctx : List Ctx) : Adds l { l' with ctx } :=
  adds.trans (.same rfl rfl)

theorem Adds.ite {condition : Prop} [Decidable condition] (yes : Adds l l') (no : Adds l l'') :
    Adds l (if condition then l' else l'') := by
  split
  · exact yes
  · exact no

end Adds

section Adding

variable {α β : Type} {next : α → Lexer} {last : β → Lexer} {l l' : Lexer}

theorem Adding.some {b : β} (adds : Adds l (last b)) : Adding last l (some b) := by
  rintro _ ⟨⟩
  exact adds

theorem Adding.none : Adding last l none := nofun

theorem Adding.bind {result : Option α} {f : α → Option β} (first : Adding next l result)
    (rest : ∀ a, Adding last (next a) (f a)) : Adding last l (result >>= f) := by
  intro b found
  obtain ⟨a, reached, finished⟩ := Option.bind_eq_some_iff.mp found
  exact (first a reached).trans (rest a b finished)

theorem Adding.after {result : Option β} (adds : Adds l l') (adding : Adding last l' result) :
    Adding last l result :=
  fun b found => adds.trans (adding b found)

theorem Adding.ite {condition : Prop} [Decidable condition] {yes no : Option β}
    (first : condition → Adding last l yes) (second : ¬ condition → Adding last l no) :
    Adding last l (if condition then yes else no) := by
  split
  · next holds => exact first holds
  · next fails => exact second fails

end Adding

theorem adding_skip (l : Lexer) (n : Nat) : Adding id l (l.skip n) := by
  intro l' found
  obtain ⟨rest, -, rfl⟩ := Option.map_eq_some_iff.mp found
  exact .same rfl rfl

theorem adding_withFrame (l : Lexer) (update : StrFrame → StrFrame) :
    Adding id l (l.withFrame update) := by
  rw [withFrame]
  split
  · exact .some (.same rfl rfl)
  · exact .none

theorem adds_feed (l : Lexer) (text rest : Text) : Adds l (l.feed text rest) := .same rfl rfl

theorem adds_skipWhile (l : Lexer) (p : Char → Bool) : Adds l (l.skipWhile p) := .same rfl rfl

theorem adds_bump (l : Lexer) : Adds l l.bump := .fed (.bump l)

/-! ## Numbers -/

/-- An integer token comes from here, and a base prefix with anything else after it is an error. -/
theorem adding_scanNumber {start : Lexer} {c : Char} {tail : Text} (split : start.rest = c :: tail)
    (digit : isAsciiDigit c = true) : Adding id start start.scanNumber := by
  by_cases isBased : ∃ marker rest radix, start.rest = '0' :: marker :: rest ∧
      baseRadix marker = some radix
  · obtain ⟨marker, rest, radix, prefixed, based⟩ := isBased
    rw [scanNumber_based prefixed based]
    apply Adding.some
    dsimp only [id]
    split
    · next wellFormed =>
        refine (adds_feed start _ _).push _ fun text same => ?_
        rw [Tok.int.injEq] at same
        subst same
        refine .based based wellFormed.1 fun c among => ?_
        simpa using List.all_eq_true.mp wellFormed.2 c among
    · exact .refused (by simp [Lexer.error, Lexer.push])
  · have plain : (if start.peek = some '0' then (start.peekAt 1).bind baseRadix else none) =
        none := by
      split
      next zero =>
        obtain ⟨rest, isZero⟩ := List.head?_eq_some_iff.mp zero
        have marked : start.rest = ['0'] ++ rest := isZero
        have second : start.peekAt 1 = rest.head? := peekAt_eq marked rfl
        rw [second]
        cases rest with
        | nil => rfl
        | cons marker rest =>
          cases based : baseRadix marker with
          | none => exact based
          | some radix => exact absurd ⟨marker, rest, radix, isZero, based⟩ isBased
      · rfl
    obtain ⟨run, fraction, exponent, rest, pieces, scanned⟩ :=
      scanNumber_pieces split digit plain
    rw [scanned]
    refine .some ((adds_feed start _ _).push _ fun text same => ?_)
    split at same
    · cases same
    · next whole =>
        simp only [not_or, not_not] at whole
        rw [whole.1, whole.2, List.append_nil, List.append_nil, Tok.int.injEq] at same
        subst same
        exact .decimal pieces.lit

/-! ## Words and characters -/

theorem adds_hexDigits (limit value digits : Nat) (l : Lexer) :
    Adds l (hexDigits limit value digits l).2.2 := .fed (.hexDigits limit value digits l)

theorem adding_charBody (rounds : Nat) (scan : CharScan) (l : Lexer) :
    Adding Prod.snd l (charBody rounds scan l) := by
  induction rounds generalizing scan l with
  | zero => exact .none
  | succ rounds ih =>
    rw [charBody]
    have escaped : Adds l l.scanCharEscape.2 := (adds_bump l).trans (.fed (.scanCharEscape l))
    split
    · exact .some (.refl l)
    · exact .some (.refl l)
    · exact .some (adds_bump l)
    · split
      next c next same =>
        rw [same] at escaped
        exact .after escaped (ih _ _)
      next reason next same =>
        rw [same] at escaped
        exact .after escaped (ih _ _)
    · exact .after (adds_bump l) (ih _ _)

theorem adding_scanCharLiteral (start : Lexer) : Adding id start start.scanCharLiteral := by
  refine .after (adds_bump start) (.bind (adding_charBody _ _ _) ?_)
  rintro ⟨scan, l⟩
  cases scan with
  | none => exact .some ((Adds.error _ _ _ _).pushed _ rfl)
  | some scan =>
    dsimp only
    split
    · intro l' found
      obtain ⟨value, -, same⟩ := Option.bind_eq_some_iff.mp found
      cases same
      exact (Adds.refl l).pushed _ rfl
    · exact .some ((Adds.error _ _ _ _).pushed _ rfl)
    · exact .some ((Adds.error _ _ _ _).pushed _ rfl)

theorem Adds.noisy (noisy : Noisy l l') : Adds l l' := by
  obtain ⟨errors, depth, reported, deferred, rfl⟩ := noisy
  exact ⟨fun clean => (List.append_eq_nil_iff.mp clean).1, fun _ _ among _ _ => .inl among⟩

theorem adds_enterString (l : Lexer) (kind : StrKind) : Adds l (l.enterString kind) :=
  ((Adds.refl l).ctx _).trans (.noisy (enterString_noisy l kind))

theorem adds_openMultiline (u : Unicode) (l : Lexer) : Adds l (l.openMultiline u).1 := by
  obtain ⟨text, rest, -, noisy, -⟩ := openMultiline_spec u l
  exact (adds_feed l text rest).trans (.noisy noisy)

/-- The frame of a string is entered after its opening quotes. -/
theorem adding_enter {opened : Lexer} {pair : Lexer × Option Nat} (kind : StrKind) (start : Nat) :
    Adds opened pair.1 → Adding id opened (match pair with
      | (l, firstContentLine) =>
        let l := (l.push (.strStart kind) ⟨start, l.pos⟩).enterString kind
        match firstContentLine with
        | some at_ =>
          l.withFrame fun frame => { frame with lineStarts := frame.lineStarts ++ [at_] }
        | none => some l) := by
  intro adds
  obtain ⟨l, firstContentLine⟩ := pair
  have entered : Adds opened ((l.push (.strStart kind) ⟨start, l.pos⟩).enterString kind) :=
    (adds.pushed _ rfl).trans (adds_enterString _ kind)
  cases firstContentLine with
  | some at_ => exact .after entered (adding_withFrame _ _)
  | none => exact .some entered

theorem adding_openString (u : Unicode) (l : Lexer) (generalized : Option (Nat × Text)) :
    Adding id l (l.openString u generalized) := by
  have adds (kind : StrKind) (opened : Lexer) : Adds opened
      (if kind = .multiline then opened.openMultiline u else (opened, none)).1 := by
    split
    · exact adds_openMultiline u opened
    · exact .refl opened
  cases generalized with
  | none =>
    exact .bind (adding_skip _ _) fun opened => adding_enter _ l.pos (adds _ opened)
  | some named =>
    exact .bind (adding_skip _ _) fun opened =>
      adding_enter (.generalized named.2) named.1 (adds (.generalized named.2) opened)

theorem adding_openRawString (start l : Lexer) (adds : Adds start l) :
    Adding id start (openRawString start l) := by
  rw [openRawString]
  refine .ite (fun _ => ?_) fun _ => ?_
  · exact .bind (adding_skip _ _) fun l => .some ((Adds.refl l).pushed _ rfl)
  · refine .some ?_
    exact (((adds.trans (adds_skipWhile _ _)).trans (adds_bump _)).pushed _ rfl).trans
      (adds_enterString _ _)

theorem adding_scanWord (u : Unicode) (start : Lexer) : Adding id start (start.scanWord u) := by
  have word := adds_skipWhile start u.isXidContinue
  rw [scanWord]
  refine .ite (fun _ => ?_) fun _ => .ite (fun _ => ?_) fun _ => .some (word.pushed _ ?_)
  · exact adding_openRawString _ _ word
  · exact .after word (adding_openString u _ _)
  · split
    · rfl
    · split <;> rfl

/-! ## String bodies -/

theorem adding_flushText (l : Lexer) : Adding id l l.flushText := by
  have same : Adding (fun _ => l) l l.frame := fun _ _ => .refl l
  refine .bind same fun frame => .ite (fun _ => .some (.refl l)) fun _ => ?_
  refine .bind (adding_withFrame l _) fun l => ?_
  refine .after ((Adds.refl l).pushed _ rfl) (.ite (fun _ => adding_withFrame _ _) fun _ => ?_)
  exact .some (.refl _)

theorem adding_pushEscaped (l : Lexer) (at_ : Nat) (c : Char) :
    Adding id l (l.pushEscaped at_ c) := adding_withFrame l _

theorem adding_abandonString (l : Lexer) : Adding id l l.abandonString :=
  .bind (adding_flushText l) fun l => .some (((Adds.refl l).pushed _ rfl).ctx _)

theorem adding_scanHexEscape (l : Lexer) (start : Nat) : Adding id l (l.scanHexEscape start) := by
  rw [scanHexEscape]
  refine .after (adds_hexDigits 2 0 0 l) (.ite (fun _ => ?_) fun _ => ?_)
  · exact .some (.error _ _ _ _)
  · exact adding_pushEscaped _ _ _

theorem adding_scanUnicodeEscape (l : Lexer) (start : Nat) :
    Adding id l (l.scanUnicodeEscape start) := by
  rw [scanUnicodeEscape]
  refine .ite (fun _ => .some (.error _ _ _ _)) fun _ => ?_
  have digits := (adds_bump l).trans (adds_hexDigits l.bump.rest.length 0 0 l.bump)
  refine .after digits ?_
  refine .ite (fun _ => .some (.error _ _ _ _)) fun _ => .after (adds_bump _) ?_
  exact .ite (fun _ => .some (.error _ _ _ _)) fun _ => adding_pushEscaped _ _ _

theorem adding_scanEscape (l : Lexer) : Adding id l l.scanEscape := by
  rw [scanEscape]
  refine .after (adds_bump l) ?_
  generalize l.bump = l
  split
  · exact .some (.error _ _ _ _)
  · refine .after (adds_bump l) ?_
    split
    case h_7 => exact adding_scanHexEscape _ _
    case h_8 => exact adding_scanUnicodeEscape _ _
    case h_9 => exact .some (.error _ _ _ _)
    all_goals exact adding_pushEscaped _ _ _

/-- The margin is taken out of string texts only. -/
theorem dedentPieces_ints (column : Nat) (pieces : List Piece) (atLineStart : Bool)
    (tokens : List Token) {atLineStart' : Bool} {tokens' : List Token}
    (stripped : dedentPieces column pieces atLineStart tokens = some (atLineStart', tokens')) :
    ∀ token ∈ tokens', ∀ text, token.tok = .int text → token ∈ tokens := by
  induction pieces generalizing atLineStart tokens with
  | nil =>
    cases stripped
    exact fun _ among _ _ => among
  | cons piece pieces ih =>
    cases piece with
    | interp => exact ih _ _ stripped
    | text index =>
      obtain ⟨old, -, stripped⟩ := Option.bind_eq_some_iff.mp stripped
      intro token among text isInt
      split at stripped
      · have older := ih _ _ stripped token among text isInt
        rcases List.mem_or_eq_of_mem_set older with older | rfl
        · exact older
        · cases isInt
      · exact ih _ _ stripped token among text isInt

theorem adds_tokens {l : Lexer} {tokens : List Token}
    (kept : ∀ token ∈ tokens, ∀ text, token.tok = .int text → token ∈ l.tokens) :
    Adds l { l with tokens } where
  failed clean := clean
  ints _ token among text isInt := .inl (kept token among text isInt)

theorem noted (l : Lexer) (fault : Option (String × Span)) : Adds l (match fault with
    | some (code, span) => l.error code span "gram.lex.str.multi"
    | none => l) := by
  split
  · exact .error _ _ _ _
  · exact .refl l

theorem adding_applyDedent (l : Lexer) : Adding id l l.applyDedent := by
  have framed (l : Lexer) : Adding (fun _ => l) l l.frame := fun _ _ => .refl l
  rw [applyDedent]
  refine .ite (fun _ => .after (.error _ _ _ _) (adding_withFrame _ _)) fun _ => ?_
  refine .bind (adding_withFrame _ _) fun l => .bind (framed l) fun frame => ?_
  refine .bind (adding_withFrame _ _) fun l => .ite (fun _ => .some (.refl l)) fun _ => ?_
  have found (fault : Option (Option (String × Span))) : Adding (fun _ => l) l fault :=
    fun _ _ => .refl l
  refine .bind (found _) fun fault => .after (noted l fault) ?_
  intro l' reached
  obtain ⟨⟨atLineStart, tokens⟩, stripped, reached⟩ := Option.bind_eq_some_iff.mp reached
  have taken := adds_tokens (dedentPieces_ints _ _ _ _ stripped)
  exact taken.trans (adding_withFrame _ _ l' reached)

theorem adding_closeString (l : Lexer) (kind : StrKind) : Adding id l (l.closeString kind) := by
  rw [closeString.eq_def]
  have ends (l : Lexer) (closeLen closeStart : Nat) : Adding id l (do
      let l ← l.flushText
      let l ← l.skip closeLen
      return (l.push .strEnd ⟨closeStart, l.pos⟩).popCtx) := by
    refine .bind (adding_flushText l) fun l => .bind (adding_skip l _) fun l => ?_
    exact .some (((Adds.refl l).pushed _ rfl).ctx _)
  refine .ite (fun _ => .bind (adding_applyDedent l) fun l => ends l _ _) fun _ => ?_
  exact .bind (.some (.refl l)) fun l => ends l _ _

theorem adding_interpolatedRound (l : Lexer) (kind : StrKind) (c : Char) :
    Adding Prod.fst l (l.interpolatedRound kind c) := by
  have doubled (brace : Char) : Adding Prod.fst l (do
      let l ← l.textPush brace
      return (← l.skip 2, true)) :=
    .bind (adding_pushEscaped l _ _) fun l => .bind (adding_skip l 2) fun l => .some (.refl l)
  rw [interpolatedRound]
  refine .ite (fun _ => doubled '{') fun _ => .ite (fun _ => doubled '}') fun _ => ?_
  refine .ite (fun _ => ?_) fun _ => .ite (fun _ => ?_) fun _ => .ite (fun _ => ?_) fun _ => ?_
  · refine .bind (adding_flushText l) fun flushed => ?_
    have opens (l : Lexer) : Adding Prod.fst l (pure (l.pushCtx .interp, false)) :=
      .some (.ctx (.refl l) _)
    have started : Adds flushed (flushed.bump.push .interpStart ⟨l.pos, l.pos + 1⟩) :=
      (adds_bump flushed).pushed _ rfl
    refine .after started (.ite (fun _ => ?_) fun _ => ?_)
    · exact .bind (adding_withFrame _ _) opens
    · exact .bind (.some (.refl _)) opens
  · exact .some ((Adds.error l _ _ _).trans (adds_bump _))
  · exact .bind (adding_scanEscape l) fun l => .some (.refl l)
  · refine .ite (fun _ => ?_) fun _ => .ite (fun _ => ?_) fun _ => ?_
    · exact .after (.error l _ _ _) (.bind (adding_abandonString _) fun l => .some (.refl l))
    · refine .bind (adding_pushEscaped l _ _) fun l => .after (adds_bump l) ?_
      exact .bind (adding_withFrame _ _) fun l => .some (.refl l)
    · exact .bind (adding_pushEscaped l _ _) fun l => .some (adds_bump l)

theorem adding_bodyRound (l : Lexer) (kind : StrKind) (c : Char) :
    Adding Prod.fst l (l.bodyRound kind c) := by
  have goesOn : Adding Prod.fst l (do return ((← l.textPush c).bump, true)) :=
    .bind (adding_pushEscaped l _ _) fun l => .some (adds_bump l)
  rw [bodyRound.eq_def]
  refine .ite (fun _ => .bind (adding_closeString l kind) fun l => .some (.refl l)) fun _ => ?_
  split
  · refine .ite (fun _ => ?_) fun _ => goesOn
    exact .after (.error l _ _ _) (.bind (adding_abandonString _) fun l => .some (.refl l))
  · exact goesOn
  · exact adding_interpolatedRound l kind c

theorem adding_bodyLoop (kind : StrKind) (rounds : Nat) (l : Lexer) :
    Adding Prod.fst l (bodyLoop kind rounds l) := by
  induction rounds generalizing l with
  | zero => exact .none
  | succ rounds ih =>
    rw [bodyLoop]
    split
    · exact .some (.refl l)
    · next c _ =>
        refine .bind (adding_bodyRound l kind c) fun round => ?_
        exact .ite (fun _ => ih round.1) fun _ => .some (.refl round.1)

theorem adding_scanStringBody (l : Lexer) : Adding Prod.fst l l.scanStringBody := by
  have framed : Adding (fun _ => l) l l.frame := fun _ _ => .refl l
  exact .bind framed fun frame => adding_bodyLoop frame.kind _ l

theorem adds_scanFormatSpec (start : Lexer) : Adds start start.scanFormatSpec.1 := by
  have text : Adds start (if (start.rest.takeWhile fun c => c ≠ '{' && c ≠ '}') = [] then
      start.skipWhile fun c => c ≠ '{' && c ≠ '}'
      else (start.skipWhile fun c => c ≠ '{' && c ≠ '}').push
        (.fmtText (start.rest.takeWhile fun c => c ≠ '{' && c ≠ '}'))
        ⟨start.pos, (start.skipWhile fun c => c ≠ '{' && c ≠ '}').pos⟩) :=
    .ite (adds_skipWhile start _) ((adds_skipWhile start _).pushed _ rfl)
  rw [scanFormatSpec]
  split
  · exact text
  · exact ((text.ctx _).trans (adds_bump _)).pushed _ rfl
  · exact ((text.trans (adds_bump _)).pushed _ rfl).ctx _

/-! ## Token mode -/

theorem adds_popDelimiter (l : Lexer) (expected : Ctx) : Adds l (l.popDelimiter expected) := by
  rw [popDelimiter.eq_def]
  split
  case h_5 => exact .refl l
  all_goals exact .ctx (.refl l) _

theorem adds_closeBracket (l : Lexer) (span : Span) : Adds l (l.closeBracket span) := by
  have pushed : Adds l ((l.popDelimiter .bracket).push .rBracket span) :=
    (adds_popDelimiter l .bracket).pushed span rfl
  rw [closeBracket]
  exact .ite (pushed.trans (.same rfl rfl)) pushed

theorem adds_closeBrace (l : Lexer) (span : Span) : Adds l (l.closeBrace span) := by
  rw [closeBrace]
  split
  · exact (Adds.ctx (.refl l) _).pushed span rfl
  · exact (Adds.ctx (.refl l) _).pushed span rfl
  · exact (adds_popDelimiter l .brace).pushed span rfl

/-- The tokens of single characters are no numbers. -/
theorem punctuation_ints {c : Char} {tok : Tok} (found : punctuation c = some tok) :
    tok.others = true := by
  revert found
  fun_cases punctuation c <;> rintro ⟨⟩ <;> rfl

theorem adding_scanPunctuation (u : Unicode) (start : Lexer) (c : Char) :
    Adding id start (start.scanPunctuation u c) := by
  have bumped := adds_bump start
  rw [scanPunctuation.eq_def]
  dsimp only
  split
  · exact .some ((bumped.ctx _).pushed _ rfl)
  · exact .some ((bumped.ctx _).pushed _ rfl)
  · exact .some ((bumped.ctx _).pushed _ rfl)
  · exact .some ((bumped.trans (adds_popDelimiter _ _)).pushed _ rfl)
  · exact .some (bumped.trans (adds_closeBracket _ _))
  · exact .some (bumped.trans (adds_closeBrace _ _))
  · exact .ite (fun _ => .some (((bumped.ctx _).ctx _).pushed _ rfl)) fun _ =>
      .some (bumped.pushed _ rfl)
  · split
    · next tok found => exact .some (bumped.pushed _ (punctuation_ints found))
    · refine .ite (fun _ => .some ((bumped.trans (.error _ _ _ _)).pushed _ rfl)) fun _ => ?_
      refine .after bumped (.bind (adding_skip _ _) fun l => ?_)
      exact .some ((Adds.error l _ _ _).pushed _ rfl)

theorem operators_ints : ∀ operator ∈ operators, operator.2.others = true := by
  simp [operators, Tok.others]

theorem adding_scanToken (u : Unicode) (l : Lexer) : Adding id l (l.scanToken u) := by
  rw [scanToken]
  split
  · exact .some (.refl l)
  · next c head =>
      obtain ⟨rest, split⟩ := List.head?_eq_some_iff.mp head
      refine .ite (fun _ => adding_scanWord u l) fun _ => ?_
      refine .ite (fun digit => adding_scanNumber split digit) fun _ => ?_
      refine .ite (fun _ => adding_openString u l none) fun _ => ?_
      refine .ite (fun _ => adding_scanCharLiteral l) fun _ => ?_
      refine .ite (fun _ => ?_) fun _ => .ite (fun _ => ?_) fun _ => ?_
      · exact .bind (adding_skip l 3) fun next => .some ((Adds.ctx (.refl next) _).pushed _ rfl)
      · exact .bind (adding_skip l 2) fun next => .some ((Adds.ctx (.refl next) _).pushed _ rfl)
      · split
        · next text tok found =>
            have other := operators_ints _ (List.mem_of_find?_eq_some found)
            exact .bind (adding_skip l _) fun next => .some ((Adds.refl next).pushed _ other)
        · exact adding_scanPunctuation u l c

theorem adds_insertTerminator (u : Unicode) (l : Lexer) (at_ : Nat) :
    Adds l (l.insertTerminator u at_) := by
  rcases insertTerminator_spec u l at_ with same | same
  · rw [same]
    exact .refl l
  · rw [same]
    exact (Adds.refl l).pushed _ rfl

theorem adds_newline (u : Unicode) (l : Lexer) : Adds l (l.newline u) := by
  rw [newline]
  split
  · next span isOpen =>
      obtain ⟨left, toks, run, -⟩ := unwind_spec l.ctx (l.error "E0102" span "gram.lex.str")
      have failed : (l.error "E0102" span "gram.lex.str").unwindPlainString.errors =
          l.errors ++ [⟨"E0102", span, "gram.lex.str"⟩] := congrArg Lexer.errors run
      exact .refused (by simp [failed])
  · exact (adds_bump l).trans (adds_insertTerminator u _ _)

theorem adding_triviaLoop (u : Unicode) (rounds : Nat) (l : Lexer) :
    Adding Prod.fst l (triviaLoop u rounds l) := by
  induction rounds generalizing l with
  | zero => exact .none
  | succ rounds ih =>
    rw [triviaLoop]
    split
    · exact .some (.refl l)
    · refine .ite (fun _ => .after (adds_newline u l) (ih _)) fun _ => ?_
      refine .ite (fun _ => .after (adds_bump l) (ih _)) fun _ => ?_
      exact .ite (fun _ => .after (adds_skipWhile l _) (ih _)) fun _ => .some (.refl l)

theorem adding_scan (u : Unicode) (l : Lexer) : Adding Prod.fst l (l.scan u) := by
  rw [scan.eq_def]
  split
  · exact adding_scanStringBody l
  · exact .some (adds_scanFormatSpec l)
  · refine .bind (adding_triviaLoop u _ l) fun round => .ite (fun _ => ?_) fun _ => ?_
    · exact .bind (adding_scanToken u round.1) fun l => .some (.refl l)
    · exact .some (.refl round.1)

/-! ## The run -/

theorem adding_scanLoop (u : Unicode) (rounds : Nat) (l : Lexer) :
    Adding id l (scanLoop u rounds l) := by
  induction rounds generalizing l with
  | zero => exact .none
  | succ rounds ih =>
    refine .bind (adding_scan u l) fun round => .ite (fun _ => ih round.1) fun _ => ?_
    exact .some (.refl round.1)

theorem adds_closeAll (ctx : List Ctx) (l : Lexer) : Adds l (closeAll ctx l) := by
  induction ctx generalizing l with
  | nil => exact .ctx (.refl l) _
  | cons top ctx ih =>
    cases top with
    | str frame | interp | fmt => exact ((Adds.error l _ _ _).pushed _ rfl).trans (ih _)
    | paren | bracket | attrBracket | brace => exact ih l

theorem adds_closeUnterminated (l : Lexer) : Adds l l.closeUnterminated := by
  have marked : Adds l { l with openAtEof := l.ctx ≠ [] } := .same rfl rfl
  exact marked.trans (adds_closeAll l.ctx _)

theorem adds_insertTerminatorAtEof (l : Lexer) : Adds l l.insertTerminatorAtEof := by
  rcases insertTerminatorAtEof_spec l with same | ⟨same, -⟩
  · rw [same]
    exact .refl l
  · rw [same]
    exact (Adds.refl l).pushed _ rfl

end Lexer

/-- A text without a lexical error has its integer tokens spelled as they should be. -/
theorem lex_spells (u : Unicode) (src : Text) {lexed : Lexed} (lexes : lex u src = some lexed) :
    SpellsInts lexed.tokens lexed.errors := by
  obtain ⟨l, isRun, isLexed⟩ := Option.bind_eq_some_iff.mp lexes
  cases isLexed
  obtain ⟨text, rest, -, -, begun⟩ := Lexer.begin_spec src
  rw [Lexer.run, begun] at isRun
  have isRun : (Lexer.scanLoop u _ ((Lexer.initial src).feed text rest)).bind
    (fun l => some l.closeUnterminated.insertTerminatorAtEof) = some l := isRun
  obtain ⟨l, looped, isRun⟩ := Option.bind_eq_some_iff.mp isRun
  cases isRun
  have adds := ((Lexer.adding_scanLoop u _ _ l looped).trans (Lexer.adds_closeUnterminated l)).trans
    (Lexer.adds_insertTerminatorAtEof _)
  exact adds.spells (by rintro _ _ ⟨⟩)

end WolfInterp.Lex
