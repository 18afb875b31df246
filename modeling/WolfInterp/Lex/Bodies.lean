import WolfInterp.Lex.Progress

/-!
# String bodies make progress

A round inside a string body collects text, starts an interpolation, ends the literal or gives it
up. The margin of a multiline literal is taken from tokens and source lines that exist, so
stripping it never fails either.
-/

namespace WolfInterp.Lex

/-- The frame after a character that began at `at_`. -/
def StrFrame.add (frame : StrFrame) (at_ : Nat) (c : Char) : StrFrame :=
  { frame with
    pendingStart := if frame.pending = [] then at_ else frame.pendingStart
    pending := frame.pending ++ [c] }

namespace Lexer

section Bodies

variable {u : Unicode} {l l' next : Lexer} {kind : StrKind} {frame : StrFrame} {ctx : List Ctx}

/-- The literal on top goes on, with less text left. -/
structure Continues (u : Unicode) (kind : StrKind) (ctx : List Ctx) (l l' : Lexer) : Prop where
  quiets : Quiets u l l'
  shorter : l'.rest.length < l.rest.length
  top : ∃ frame, l'.ctx = .str frame :: ctx ∧ frame.kind = kind

theorem Continues.noted {code : String} {span : Span} {anchor : String}
    (continues : Continues u kind ctx (l.error code span anchor) l') : Continues u kind ctx l l' :=
  ⟨.head ⟨.note code span anchor, fun _ => rfl⟩ continues.quiets, continues.shorter, continues.top⟩

/-- In a body no format spec is on top. -/
theorem notFmt_of_str (top : l.ctx = .str frame :: ctx) : l.ctx.head? ≠ some .fmt := by
  rw [top]
  nofun

/-- A piece of the body, and what the frame makes of it. -/
theorem Continues.body {frame' : StrFrame} {text rest : Text} (top : l.ctx = .str frame :: ctx)
    (split : l.rest = text ++ rest) (some_one : text ≠ [])
    (collects : Collects l (l.pos + bytes text) frame frame') (same : frame.kind = kind)
    (lines : '\n' ∈ text → l.errors ≠ [] ∨ spansLines kind = true) :
    Continues u kind ctx l { l.feed text rest with ctx := .str frame' :: ctx } := by
  rw [← same] at lines
  refine ⟨.single (Move.quiet (.body top split some_one collects lines) (notFmt_of_str top)), ?_,
    frame', rfl, collects.isKind.trans same⟩
  have consumed := List.length_pos_iff.mpr some_one
  have length : l.rest.length = text.length + rest.length := by rw [split, List.length_append]
  have left : (l.feed text rest).rest.length = rest.length := rfl
  change rest.length < l.rest.length
  omega

theorem collects_add (l : Lexer) (here : Nat) (frame : StrFrame) (c : Char) :
    Collects l here frame (frame.add l.pos c) where
  pieces := rfl
  lines _ isLine := .inl isLine
  pending := .inr ⟨by simp [StrFrame.add], rfl⟩
  isKind := rfl

theorem collects_refl (l : Lexer) (here : Nat) (frame : StrFrame) :
    Collects l here frame frame where
  pieces := rfl
  lines _ isLine := .inl isLine
  pending := .inl ⟨rfl, rfl⟩
  isKind := rfl

theorem pushEscaped_eq (top : l.ctx = .str frame :: ctx) (at_ : Nat) (c : Char) :
    l.pushEscaped at_ c = some { l with ctx := .str (frame.add at_ c) :: ctx } := by
  rw [pushEscaped, withFrame, top]
  rfl

theorem Fed.ne_nil {text rest : Text} (split : l.rest = text ++ rest)
    (shorter : rest.length < l.rest.length) : text ≠ [] := by
  rintro rfl
  rw [split] at shorter
  exact Nat.lt_irrefl _ shorter

/-- An escape that decoded. -/
theorem Continues.escaped (top : l.ctx = .str frame :: ctx) (same : frame.kind = kind)
    (lined : Lined l next) (shorter : next.rest.length < l.rest.length) (c : Char) :
    ∃ l', next.pushEscaped l.pos c = some l' ∧ Continues u kind ctx l l' := by
  obtain ⟨text, rest, split, rfl, inLine⟩ := lined
  have stepped : (l.feed text rest).ctx = .str frame :: ctx := top
  exact ⟨_, pushEscaped_eq stepped _ _, .body top split (Fed.ne_nil split shorter)
    (collects_add _ _ _ c) same fun member => absurd member inLine⟩

/-- Text of the body that was refused. -/
theorem Continues.refused {code : String} {span : Span} {anchor : String}
    (top : l.ctx = .str frame :: ctx) (same : frame.kind = kind) (fed : Fed l next)
    (shorter : next.rest.length < l.rest.length) :
    Continues u kind ctx l (next.error code span anchor) := by
  obtain ⟨text, rest, split, rfl⟩ := fed
  have body : Continues u kind ctx (l.error code span anchor)
      { (l.error code span anchor).feed text rest with ctx := .str frame :: ctx } :=
    .body top split (Fed.ne_nil split shorter) (collects_refl _ _ frame) same
      fun _ => .inl (by simp [Lexer.error])
  rw [← top] at body
  exact body.noted

/-! ## Escapes -/

section

variable (top : l.ctx = .str frame :: ctx) (same : frame.kind = kind)
include top same

theorem scanHexEscape_spec (lined : Lined l next) (shorter : next.rest.length < l.rest.length) :
    ∃ l', next.scanHexEscape l.pos = some l' ∧ Continues u kind ctx l l' := by
  have digits := Lined.hexDigits 2 0 0 next
  have whole := lined.trans digits
  have shorter := Nat.lt_of_le_of_lt digits.fed.length_le shorter
  rw [scanHexEscape]
  dsimp only
  split
  · exact ⟨_, rfl, .refused top same whole.fed shorter⟩
  · exact Continues.escaped top same whole shorter _

theorem scanUnicodeEscape_spec (lined : Lined l next) (shorter : next.rest.length < l.rest.length) :
    ∃ l', next.scanUnicodeEscape l.pos = some l' ∧ Continues u kind ctx l l' := by
  rw [scanUnicodeEscape]
  split
  · exact ⟨_, rfl, .refused top same lined.fed shorter⟩
  · next brace =>
      have opened := Classical.not_not.mp brace
      have digits := (Lined.bump opened (by decide)).trans
        (Lined.hexDigits next.bump.rest.length 0 0 next.bump)
      dsimp only
      split
      · exact ⟨_, rfl, .refused top same (lined.trans digits).fed
          (Nat.lt_of_le_of_lt digits.fed.length_le shorter)⟩
      · next close =>
          have closed := digits.trans (Lined.bump (Classical.not_not.mp close) (by decide))
          split
          · exact ⟨_, rfl, .refused top same (lined.trans closed).fed
              (Nat.lt_of_le_of_lt closed.fed.length_le shorter)⟩
          · exact Continues.escaped top same (lined.trans closed)
              (Nat.lt_of_le_of_lt closed.fed.length_le shorter) _

theorem scanEscape_spec (head : l.peek = some '\\') :
    ∃ l', l.scanEscape = some l' ∧ Continues u kind ctx l l' := by
  have length := length_bump head
  have first : l.bump.rest.length < l.rest.length := by omega
  have second := Nat.lt_of_le_of_lt (Fed.bump l.bump).length_le first
  have fed := (Fed.bump l).trans (Fed.bump l.bump)
  rw [scanEscape]
  dsimp only
  split
  · exact ⟨_, rfl, .refused top same (.bump l) first⟩
  · next letter isLetter =>
      have lined (other : letter ≠ '\n') :=
        (Lined.bump head (by decide)).trans (.bump isLetter other)
      split
      case h_7 => exact scanHexEscape_spec top same (lined (by decide)) second
      case h_8 => exact scanUnicodeEscape_spec top same (lined (by decide)) second
      case h_9 => exact ⟨_, rfl, .refused top same fed second⟩
      all_goals exact Continues.escaped top same (lined (by decide)) second _

end

/-! ## Flushing and stripping -/

/-- The literal on top is the same one, at the same place in the text. -/
structure Settles (u : Unicode) (kind : StrKind) (ctx : List Ctx) (l l' : Lexer) : Prop where
  quiets : Quiets u l l'
  rest : l'.rest = l.rest
  pos : l'.pos = l.pos
  errors : l.errors ≠ [] → l'.errors ≠ []
  top : ∃ frame, l'.ctx = .str frame :: ctx ∧ frame.kind = kind

theorem Settles.weight_eq (settles : Settles u kind ctx l l') (top : l.ctx = .str frame :: ctx) :
    weight l' = weight l := by
  obtain ⟨frame', top', -⟩ := settles.top
  rw [weight, weight, settles.rest, top', top]
  rfl

/-- The literal has no pending text. -/
def Flushed (l : Lexer) : Prop := ∀ frame ctx, l.ctx = .str frame :: ctx → frame.pending = []

theorem flushText_spec (u : Unicode) (top : l.ctx = .str frame :: ctx) (same : frame.kind = kind) :
    ∃ l', l.flushText = some l' ∧ Settles u kind ctx l l' ∧ Flushed l' := by
  have isFrame : l.frame = some frame := by rw [Lexer.frame, top]
  rw [flushText, isFrame]
  simp only [Option.bind_eq_bind, Option.bind_some]
  split
  · next empty =>
      refine ⟨l, rfl, ⟨.refl, rfl, rfl, id, frame, top, same⟩, fun other left isTop => ?_⟩
      rw [top] at isTop
      cases isTop
      exact empty
  · next pending =>
      simp only [withFrame, top, push, Option.bind_some]
      split
      · refine ⟨_, rfl,
          ⟨.single (Move.quiet (.flush top pending ?_) (notFmt_of_str top)), rfl, rfl, id, _,
          rfl, same⟩, ?_⟩
        · intro piece member
          simpa using member
        · rintro other left isTop
          cases isTop
          rfl
      · refine ⟨_, rfl,
          ⟨.single (Move.quiet (.flush top pending ?_) (notFmt_of_str top)), rfl, rfl, id, _,
          rfl, same⟩, ?_⟩
        · exact fun piece member => .inl member
        · rintro other left isTop
          cases isTop
          rfl

theorem dropClosing_nil (column : Nat) : dropClosing column [] = [] := by simp [dropClosing]

theorem dedentChunk_nil (column : Nat) (strip : Option Nat) :
    (dedentChunk column strip []).1 = [] := by
  cases strip with
  | none => rfl
  | some left => cases left <;> rfl

theorem dropBytes_boundary {src : Text} {n : Nat} (boundary : Boundary src n) :
    ∃ line, dropBytes n src = some line := by
  obtain ⟨before, after, rfl, rfl⟩ := boundary
  exact ⟨after, dropBytes_append before after⟩

theorem marginFault_some {src margin : Text} {column closingLine : Nat} {starts : List Nat}
    (lines : ∀ n ∈ starts, Boundary src n) :
    ∃ fault, marginFault src column margin closingLine starts = some fault := by
  induction starts with
  | nil => exact ⟨none, rfl⟩
  | cons start starts ih =>
    have later := ih fun n member => lines n (List.mem_cons_of_mem _ member)
    rw [marginFault]
    split
    · exact ⟨none, rfl⟩
    · obtain ⟨line, sliced⟩ := dropBytes_boundary (lines start List.mem_cons_self)
      rw [sliced]
      simp only [Option.bind_eq_bind, Option.bind_some]
      split
      · exact later
      · split
        · exact ⟨_, rfl⟩
        · split
          · exact ⟨_, rfl⟩
          · exact later

theorem dedentPieces_some {column : Nat} {pieces : List Piece} {atLineStart : Bool}
    {tokens : List Token} (inRange : ∀ index, .text index ∈ pieces → index < tokens.length) :
    ∃ atLineStart' tokens',
      dedentPieces column pieces atLineStart tokens = some (atLineStart', tokens') ∧
      tokens'.map blur = tokens.map blur := by
  induction pieces generalizing atLineStart tokens with
  | nil => exact ⟨atLineStart, tokens, rfl, rfl⟩
  | cons piece pieces ih =>
    have later : ∀ index, .text index ∈ pieces → index < tokens.length :=
      fun index member => inRange index (List.mem_cons_of_mem _ member)
    cases piece with
    | interp => exact ih later
    | text index =>
      have bound := inRange index List.mem_cons_self
      rw [dedentPieces, List.getElem?_eq_getElem bound]
      simp only [Option.bind_eq_bind, Option.bind_some]
      split
      · next text isText =>
          obtain ⟨atLineStart', tokens', run, same⟩ :=
            @ih (dedentChunk column (strips column atLineStart) text).2
              (tokens.set index
                ⟨.strText (dedentChunk column (strips column atLineStart) text).1,
                  tokens[index].span⟩)
              (by simpa using later)
          refine ⟨atLineStart', tokens', run, same.trans ?_⟩
          have blurred : blur ⟨.strText (dedentChunk column (strips column atLineStart) text).1,
              tokens[index].span⟩ = blur tokens[index] := by
            simp only [blur, isText]
          rw [List.map_set, blurred, ← List.getElem_map blur, List.set_getElem_self]
          simpa using bound
      · exact ih later

/-- Stripping is one move, after the diagnostics. -/
theorem Settles.dedent {frame' : StrFrame} {tokens : List Token} {errors : List Diag}
    (top : l.ctx = .str frame :: ctx) (pieces : frame'.pieces = frame.pieces)
    (lines : frame'.lineStarts = []) (start : frame'.pendingStart = frame.pendingStart)
    (less : frame.pending = [] → frame'.pending = []) (same : tokens.map blur = l.tokens.map blur)
    (isKind : frame'.kind = frame.kind) (isThis : frame.kind = kind) :
    Settles u kind ctx l
      { l with ctx := .str frame' :: ctx, tokens, errors := l.errors ++ errors } where
  quiets := by
    have noted : Quiets u l { l with errors := l.errors ++ errors } := quiets_note l errors
    have stripped : Move u { l with errors := l.errors ++ errors }
        { l with ctx := .str frame' :: ctx, tokens, errors := l.errors ++ errors } :=
      .dedent top pieces lines start less same isKind
    exact noted.tail (stripped.quiet (notFmt_of_str top))
  rest := rfl
  pos := rfl
  errors := by simp +contextual
  top := ⟨frame', rfl, isKind.trans isThis⟩

theorem applyDedent_spec (sound : Sound l) (top : l.ctx = .str frame :: ctx)
    (same : frame.kind = kind) : ∃ l', l.applyDedent = some l' ∧ Settles u kind ctx l l' := by
  have member : Ctx.str frame ∈ l.ctx := top ▸ List.mem_cons_self
  have stripped (pending : Text) (tokens : List Token) (errors : List Diag)
      (less : frame.pending = [] → pending = []) (blurred : tokens.map blur = l.tokens.map blur) :
      Settles u kind ctx l
        { l with
          ctx := .str { frame with pending, lineStarts := [] } :: ctx
          tokens
          errors := l.errors ++ errors } :=
    .dedent top rfl rfl rfl less blurred rfl same
  rw [applyDedent]
  simp only [withFrame, Lexer.frame, Lexer.error, top, Option.bind_eq_bind, Option.bind_some]
  generalize (List.takeWhile (fun c => decide (c ≠ '\n'))
    (l.src.take (l.src.length - l.rest.length)).reverse).reverse = margin
  generalize bytes margin = column
  have dropped (empty : frame.pending = []) : dropClosing column frame.pending = [] := by
    rw [empty, dropClosing_nil]
  split
  · exact ⟨_, rfl, stripped frame.pending l.tokens _ id rfl⟩
  · split
    · have settles := stripped _ l.tokens [] dropped rfl
      rw [List.append_nil] at settles
      exact ⟨_, rfl, settles⟩
    · obtain ⟨fault, found⟩ := @marginFault_some l.src margin column (l.pos - column)
        frame.lineStarts (sound.lines frame member)
      obtain ⟨atLineStart, tokens, run, blurred⟩ := @dedentPieces_some column frame.pieces
        (frame.lineStarts.head? = some frame.bodyStart) l.tokens (sound.pieces frame member)
      have empties (strip : Option Nat) (empty : frame.pending = []) :
          (dedentChunk column strip (dropClosing column frame.pending)).1 = [] := by
        rw [dropped empty, dedentChunk_nil]
      rw [found]
      cases fault with
      | none =>
        simp only [Option.bind_some, run]
        have settles := stripped _ tokens [] (empties (strips column atLineStart)) blurred
        rw [List.append_nil] at settles
        exact ⟨_, rfl, settles⟩
      | some fault =>
        simp only [Option.bind_some, run]
        exact ⟨_, rfl, stripped _ tokens _ (empties _) blurred⟩

/-! ## Closing and giving up -/

/-- The text that closes a literal. -/
def closer : StrKind → Text
  | .multiline => ['"', '"', '"']
  | .raw hashes => '"' :: List.replicate hashes '#'
  | _ => ['"']

theorem closes_iff : l.closes kind = true → closer kind <+: l.rest := by
  have quote : l.peek = some '"' → ['"'] <+: l.rest := by
    intro head
    obtain ⟨rest, split⟩ := List.head?_eq_some_iff.mp head
    exact ⟨rest, split.symm⟩
  intro isNext
  cases kind with
  | plain | generalized => exact quote (by simpa [closes] using isNext)
  | multiline => exact startsWith_iff.mp isNext
  | raw hashes =>
    obtain ⟨head, hashed⟩ : l.peek = some '"' ∧
        (List.replicate hashes '#').isPrefixOf l.rest.tail = true := by
      simpa [closes] using isNext
    obtain ⟨rest, split⟩ := List.head?_eq_some_iff.mp head
    rw [split, List.tail_cons] at hashed
    rw [split]
    exact (List.prefix_cons_inj '"').mpr (List.isPrefixOf_iff_prefix.mp hashed)

theorem bytes_closer (kind : StrKind) :
    bytes (closer kind) = match kind with
      | .multiline => 3
      | .raw hashes => 1 + hashes
      | _ => 1 := by
  cases kind with
  | raw hashes =>
    have width : ('#').utf8Size = 1 := rfl
    simp [closer, bytes, width]
    rfl
  | _ => rfl

theorem closeString_spec (sound : Sound l) (top : l.ctx = .str frame :: ctx)
    (same : frame.kind = kind) (isNext : l.closes kind = true) :
    ∃ l', l.closeString kind = some l' ∧ Goes u l l' := by
  have stripped : ∃ l', (if kind = .multiline then l.applyDedent else some l) = some l' ∧
      Settles u kind ctx l l' := by
    split
    · exact applyDedent_spec sound top same
    · exact ⟨l, rfl, .refl, rfl, rfl, id, frame, top, same⟩
  obtain ⟨mid, first, settles⟩ := stripped
  obtain ⟨frame', top', same'⟩ := settles.top
  obtain ⟨last, second, settles', flushed⟩ := flushText_spec u top' same'
  obtain ⟨frame'', top'', -⟩ := settles'.top
  obtain ⟨rest, split⟩ := closes_iff isNext
  have split' : last.rest = closer kind ++ rest := by rw [settles'.rest, settles.rest, split]
  have some_one : closer kind ≠ [] := by cases kind <;> nofun
  have skipped := skip_eq split'
  rw [bytes_closer] at skipped
  have inLine : '\n' ∉ closer kind := by
    cases kind with
    | raw hashes => simp [closer]
    | _ => simp [closer]
  have goes := @goes_token u last (closer kind) rest .strEnd ctx split' some_one
    (by rw [top'']; exact .strEnd (flushed frame'' ctx top''))
    (by rw [top'']; nofun) (by rw [top'']; nofun) (fun member => absurd member inLine)
    (notFmt_of_str top'') nofun
  have place : last.pos = l.pos := settles'.pos.trans settles.pos
  have weightSame : weight last = weight l :=
    (settles'.weight_eq top').trans (settles.weight_eq top)
  have run : l.closeString kind =
      some ((last.feed (closer kind) rest).push .strEnd
        ⟨l.pos, (last.feed (closer kind) rest).pos⟩).popCtx := by
    rw [closeString.eq_def]
    cases kind with
    | multiline =>
      have first : l.applyDedent = some mid := first
      simp only at skipped
      simp only [Option.bind_eq_bind, if_true, first, second, skipped, Option.bind_some]
      rfl
    | _ =>
      have first : l.flushText = some last := by
        have same : l = mid := Option.some.inj first
        rw [same, second]
      simp only at skipped
      simp only [Option.bind_eq_bind, reduceCtorEq, if_false, first, skipped, Option.bind_some]
      rfl
  have popped : ((last.feed (closer kind) rest).push .strEnd
      ⟨l.pos, (last.feed (closer kind) rest).pos⟩).popCtx =
      { last.feed (closer kind) rest with
        ctx
        tokens := last.tokens ++ [⟨.strEnd, ⟨last.pos, last.pos + bytes (closer kind)⟩⟩] } := by
    simp [popCtx, push, feed, top'', place]
  rw [run, popped]
  exact ⟨_, rfl, (settles.quiets.trans settles'.quiets).trans goes.1, weightSame ▸ goes.2⟩

theorem abandonString_spec (top : l.ctx = .str frame :: ctx) (failed : l.errors ≠ []) :
    ∃ l', l.abandonString = some l' ∧ Goes u l l' := by
  obtain ⟨flushed, run, settles, isFlushed⟩ := flushText_spec u top rfl
  obtain ⟨frame', top', -⟩ := settles.top
  have popped : (flushed.push .strEnd (.empty flushed.pos)).popCtx =
      { flushed with ctx, tokens := flushed.tokens ++ [⟨.strEnd, .empty flushed.pos⟩] } := by
    simp [popCtx, push, top']
  have abandoned : Move u flushed
      { flushed with ctx, tokens := flushed.tokens ++ [⟨.strEnd, .empty flushed.pos⟩] } :=
    .abandon top' (isFlushed frame' ctx top') (settles.errors failed)
  rw [abandonString, run, Option.bind_eq_bind, Option.bind_some, popped]
  refine ⟨_, rfl, settles.quiets.tail (abandoned.quiet (notFmt_of_str top')), ?_⟩
  simp only [weight, settles.rest, top, List.length_cons]
  omega

/-! ## Rounds -/

/-- What a round of a body answers. -/
def Rounds (u : Unicode) (kind : StrKind) (ctx : List Ctx) (l : Lexer)
    (result : Option (Lexer × Bool)) : Prop :=
  ∃ l' more, result = some (l', more) ∧ (more = true → Continues u kind ctx l l') ∧
    (more = false → Goes u l l')

theorem Rounds.goOn (continues : Continues u kind ctx l l') :
    Rounds u kind ctx l (some (l', true)) :=
  ⟨l', true, rfl, fun _ => continues, nofun⟩

theorem Rounds.stop (goes : Goes u l l') : Rounds u kind ctx l (some (l', false)) :=
  ⟨l', false, rfl, nofun, fun _ => goes⟩

/-- Characters of the body that stand for one character. -/
theorem Continues.character {text rest : Text} (top : l.ctx = .str frame :: ctx)
    (same : frame.kind = kind) (split : l.rest = text ++ rest) (some_one : text ≠ []) (c : Char)
    (lines : '\n' ∈ text → spansLines kind = true) :
    ∃ pushed, l.textPush c = some pushed ∧ pushed.rest = text ++ rest ∧
      Continues u kind ctx l (pushed.feed text rest) := by
  exact ⟨_, pushEscaped_eq top _ c, split,
    .body top split some_one (collects_add _ _ _ c) same fun member => .inr (lines member)⟩

theorem interpolatedRound_spec {c : Char} (top : l.ctx = .str frame :: ctx)
    (same : frame.kind = kind) (interpolated : kind = .plain ∨ kind = .multiline)
    (head : l.peek = some c) : Rounds u kind ctx l (l.interpolatedRound kind c) := by
  obtain ⟨rest, split⟩ := List.head?_eq_some_iff.mp head
  have one : l.rest = [c] ++ rest := split
  rw [interpolatedRound]
  split
  · next doubled =>
      obtain ⟨left, cut⟩ := startsWith_iff.mp doubled.2
      obtain ⟨pushed, run, cut, continues⟩ :=
        @Continues.character u l kind frame ctx ['{', '{'] left top same cut.symm (by simp) '{'
          (by simp)
      have skipped : pushed.skip 2 = _ := skip_eq cut
      rw [run]
      simp only [Option.bind_eq_bind, Option.bind_some, skipped]
      exact .goOn continues
  · split
    · next doubled =>
        obtain ⟨left, cut⟩ := startsWith_iff.mp doubled.2
        obtain ⟨pushed, run, cut, continues⟩ :=
          @Continues.character u l kind frame ctx ['}', '}'] left top same cut.symm (by simp) '}'
            (by simp)
        have skipped : pushed.skip 2 = _ := skip_eq cut
        rw [run]
        simp only [Option.bind_eq_bind, Option.bind_some, skipped]
        exact .goOn continues
    · split
      · next isOpen =>
          subst isOpen
          obtain ⟨flushed, run, settles, isFlushed⟩ := flushText_spec u top same
          obtain ⟨frame', top', same'⟩ := settles.top
          have split' : flushed.rest = ['{'] ++ rest := settles.rest.trans one
          have interp (pieces : List Piece)
              (more : ∀ piece ∈ pieces, piece ∈ frame'.pieces ∨ piece = .interp) :=
            @goes_token u flushed ['{'] rest .interpStart
              (.interp :: .str { frame' with pieces } :: ctx) split' (by simp)
              (top' ▸ .interpStart (isFlushed frame' ctx top') more (same' ▸ interpolated))
              (by rw [top']; rintro ⟨⟩) (by rw [top']; rintro ⟨⟩) (by simp) (notFmt_of_str top')
              (by simp)
          have width : bytes ['{'] = 1 := rfl
          have settled {l' : Lexer} (goes : Goes u flushed l') : Goes u l l' :=
            ⟨settles.quiets.trans goes.1, settles.weight_eq top ▸ goes.2⟩
          have stepped : flushed.bump = _ := bump_eq split'
          rw [run, ← settles.pos]
          simp only [Option.bind_eq_bind, Option.bind_some, stepped, push, withFrame, pushCtx]
          rw [show (flushed.feed ['{'] ([].append rest)).ctx = .str frame' :: ctx from top']
          split
          · have goes := settled (interp (frame'.pieces ++ [.interp])
              fun piece member => by simpa using member)
            rw [width] at goes
            exact .stop goes
          · have goes := settled (interp frame'.pieces fun piece member => .inl member)
            rw [width] at goes
            exact .stop goes
      · split
        · have refused : (l.error "E0111" ⟨l.pos, l.pos + 1⟩ "gram.lex.str.escape").bump =
              (l.feed [c] rest).error "E0111" ⟨l.pos, l.pos + 1⟩ "gram.lex.str.escape" :=
            bump_eq split
          have shorter : (l.feed [c] rest).rest.length < l.rest.length := by
            rw [split]
            exact Nat.lt_succ_self _
          rw [refused]
          exact .goOn (.refused top same ⟨[c], rest, one, rfl⟩ shorter)
        · split
          · next backslash =>
              subst backslash
              obtain ⟨l', run, continues⟩ := scanEscape_spec (u := u) top same head
              rw [run]
              exact .goOn continues
          · split
            · obtain ⟨l', run, goes⟩ := @abandonString_spec u
                (l.error "E0102" ((l.openPlainString l.pos).getD ⟨l.pos, l.pos + 1⟩) "gram.lex.str")
                frame ctx top (by simp [Lexer.error])
              simp only [Option.bind_eq_bind, run, Option.bind_some]
              exact .stop goes.noted
            · next notPlain =>
              split
              · next isNewline =>
                  have multiline : kind = .multiline :=
                    interpolated.resolve_left fun isPlain => notPlain ⟨isNewline, isPlain⟩
                  rw [textPush, pushEscaped_eq top]
                  simp only [Option.bind_eq_bind, Option.bind_some]
                  have stepped :
                      ({ l with ctx := .str (frame.add l.pos c) :: ctx } : Lexer).bump = _ :=
                    bump_eq split
                  rw [stepped]
                  refine .goOn
                    (.body top one (by simp) ⟨rfl, ?_, .inr ⟨by simp [StrFrame.add], rfl⟩, rfl⟩
                    same fun _ => .inr (by rw [multiline]; rfl))
                  intro n isLine
                  rcases List.mem_append.mp isLine with was | here
                  · exact .inl was
                  · exact .inr (List.mem_singleton.mp here)
              · next notNewline =>
                obtain ⟨pushed, run, cut, continues⟩ :=
                  Continues.character (u := u) top same one (by simp) c
                    fun member => absurd (List.mem_singleton.mp member).symm notNewline
                rw [run]
                have stepped : pushed.bump = _ := bump_eq cut
                simp only [Option.bind_eq_bind, Option.bind_some, stepped]
                exact .goOn continues

theorem bodyRound_spec {c : Char} (sound : Sound l) (top : l.ctx = .str frame :: ctx)
    (same : frame.kind = kind) (head : l.peek = some c) :
    Rounds u kind ctx l (l.bodyRound kind c) := by
  obtain ⟨rest, split⟩ := List.head?_eq_some_iff.mp head
  have one : l.rest = [c] ++ rest := split
  have collected (lines : c = '\n' → spansLines kind = true) :
      Rounds u kind ctx l (do return ((← l.textPush c).bump, true)) := by
    obtain ⟨pushed, run, cut, continues⟩ := Continues.character (u := u) top same one nofun c
      fun member => lines (List.mem_singleton.mp member).symm
    have stepped : pushed.bump = _ := bump_eq cut
    rw [run]
    simp only [Option.bind_eq_bind, Option.bind_some, stepped]
    exact .goOn continues
  rw [bodyRound.eq_def]
  split
  · next isNext =>
      obtain ⟨l', run, goes⟩ := closeString_spec (u := u) sound top same isNext
      rw [run]
      exact .stop goes
  · split
    · split
      · obtain ⟨l', run, goes⟩ := @abandonString_spec u
          (l.error "E0109" ⟨l.pos, l.pos + 1⟩ "gram.lex.str.gen") frame ctx top
          (by simp [Lexer.error])
        simp only [Option.bind_eq_bind, run, Option.bind_some]
        exact .stop goes.noted
      · next notNewline => exact collected fun isNewline => absurd isNewline notNewline
    · exact collected fun _ => rfl
    · next notGeneralized notRaw =>
        refine interpolatedRound_spec top same ?_ head
        cases kind with
        | plain => exact .inl rfl
        | multiline => exact .inr rfl
        | raw hashes => exact absurd rfl (notRaw hashes)
        | generalized before => exact absurd rfl (notGeneralized before)

/-- The loop over a body: what it ends with is lighter, or the text has run out. -/
theorem bodyLoop_spec (rounds : Nat) (sound : Sound l) (top : l.ctx = .str frame :: ctx)
    (same : frame.kind = kind) (enough : l.rest.length < rounds) :
    ∃ l' more, bodyLoop kind rounds l = some (l', more) ∧ Quiets u l l' ∧
      (more = true → weight l' < weight l) ∧ (more = false → l'.rest = []) := by
  induction rounds generalizing l frame with
  | zero => exact absurd enough (Nat.not_lt_zero _)
  | succ rounds ih =>
    rw [bodyLoop]
    split
    · next empty => exact ⟨l, false, rfl, .refl, nofun, fun _ => List.head?_eq_none_iff.mp empty⟩
    · next c head =>
        obtain ⟨l', more, run, goOn, stop⟩ := bodyRound_spec (u := u) sound top same head
        rw [run]
        simp only [Option.bind_eq_bind, Option.bind_some]
        cases more with
        | false =>
          have goes := stop rfl
          exact ⟨l', true, rfl, goes.1, fun _ => goes.2, nofun⟩
        | true =>
          have continues := goOn rfl
          obtain ⟨frame', top', same'⟩ := continues.top
          have shorter := continues.shorter
          obtain ⟨last, more, run, quiets, lighter, ended⟩ :=
            ih (continues.quiets.moves.sound sound) top' same' (by omega)
          refine ⟨last, more, run, continues.quiets.trans quiets, fun isMore => ?_, ended⟩
          have first : weight l' < weight l := by
            rw [weight, weight, top', top, List.length_cons, List.length_cons]
            omega
          exact Nat.lt_trans (lighter isMore) first

/-- What a round of the run answers: the run goes on lighter, or the text has run out. Outside of
format specs its moves are quiet. -/
def Advances (u : Unicode) (l : Lexer) (result : Option (Lexer × Bool)) : Prop :=
  ∃ l' more, result = some (l', more) ∧ Moves u l l' ∧ (more = true → weight l' < weight l) ∧
    (more = false → l'.rest = []) ∧ (l.ctx.head? ≠ some .fmt → Quiets u l l')

theorem scanStringBody_spec (sound : Sound l) (top : l.ctx = .str frame :: ctx) :
    Advances u l l.scanStringBody := by
  have isFrame : l.frame = some frame := by rw [Lexer.frame, top]
  obtain ⟨l', more, run, quiets, lighter, ended⟩ :=
    bodyLoop_spec (u := u) (l.rest.length + 1) sound top rfl (Nat.lt_succ_self _)
  rw [scanStringBody, isFrame]
  exact ⟨l', more, run, quiets.moves, lighter, ended, fun _ => quiets⟩

end Bodies

end Lexer

end WolfInterp.Lex
