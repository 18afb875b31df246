import WolfInterp.Lex.Run

/-!
# The token stream is well formed

The spans of the tokens are in order and on boundaries of the text, and their nesting is that of the
lexer's stack, whether or not errors were reported.
-/

namespace WolfInterp.Lex

/-- Tokens whose spans are in order, on boundaries, and end at `stop` at the latest. -/
structure InOrder (src : Text) (stop : Nat) (tokens : List Token) : Prop where
  ordered : tokens.Pairwise fun first second => first.span.stop ≤ second.span.start
  proper : ∀ token ∈ tokens, token.span.start ≤ token.span.stop ∧ token.span.stop ≤ stop
  boundaries : ∀ token ∈ tokens, Boundary src token.span.start ∧ Boundary src token.span.stop

/-- A well-formed stream of a text. -/
structure WellFormed (src : Text) (tokens : List Token) : Prop where
  spans : InOrder src (bytes src) tokens
  nests : Nests .token (tokens.map Token.tok)

section InOrder

variable {src : Text} {stop stop' : Nat} {tokens tokens' : List Token}

theorem InOrder.mono (inOrder : InOrder src stop tokens) (later : stop ≤ stop') :
    InOrder src stop' tokens where
  ordered := inOrder.ordered
  proper token member :=
    ⟨(inOrder.proper token member).1, Nat.le_trans (inOrder.proper token member).2 later⟩
  boundaries := inOrder.boundaries

theorem InOrder.snoc {start : Nat} {tok : Tok} (inOrder : InOrder src start tokens)
    (proper : start ≤ stop) (first : Boundary src start) (last : Boundary src stop) :
    InOrder src stop (tokens ++ [⟨tok, ⟨start, stop⟩⟩]) where
  ordered := by
    refine List.pairwise_append.mpr ⟨inOrder.ordered, List.pairwise_singleton _ _, ?_⟩
    intro token member new isNew
    rw [List.mem_singleton.mp isNew]
    exact (inOrder.proper token member).2
  proper token member := by
    rcases List.mem_append.mp member with old | new
    · exact ⟨(inOrder.proper token old).1, Nat.le_trans (inOrder.proper token old).2 proper⟩
    · rw [List.mem_singleton.mp new]
      exact ⟨proper, le_rfl⟩
  boundaries token member := by
    rcases List.mem_append.mp member with old | new
    · exact inOrder.boundaries token old
    · rw [List.mem_singleton.mp new]
      exact ⟨first, last⟩

/-- Zero-width tokens at the end. -/
theorem InOrder.closers (inOrder : InOrder src stop tokens) (boundary : Boundary src stop)
    (toks : List Tok) : InOrder src stop (tokens ++ Lexer.closers stop toks) := by
  induction toks generalizing tokens with
  | nil => rwa [Lexer.closers, List.map_nil, List.append_nil]
  | cons tok toks ih =>
    have first := @InOrder.snoc src stop tokens stop tok inOrder le_rfl boundary boundary
    have rest := ih first
    rwa [List.append_assoc] at rest

end InOrder

namespace Lexer

section Stream

variable {u : Unicode} {l l' : Lexer}

@[simp]
theorem blur_span (token : Token) : (blur token).span = token.span := by
  rw [blur]
  split <;> rfl

/-- The texts of a string's tokens do not matter. -/
theorem inOrder_of_blur {src : Text} {stop : Nat} {tokens tokens' : List Token}
    (inOrder : InOrder src stop tokens) (same : tokens'.map blur = tokens.map blur) :
    InOrder src stop tokens' := by
  have spans : tokens'.map Token.span = tokens.map Token.span := by
    have mapped := congrArg (List.map Token.span) same
    simpa [Function.comp_def] using mapped
  have among (token' : Token) (member : token' ∈ tokens') :
      ∃ token ∈ tokens, token.span = token'.span := by
    have isSpan := List.mem_map_of_mem (f := Token.span) member
    rw [spans] at isSpan
    exact List.mem_map.mp isSpan
  refine ⟨?_, fun token' member => ?_, fun token' member => ?_⟩
  · have ordered : (tokens.map Token.span).Pairwise fun first second => first.stop ≤ second.start :=
      List.pairwise_map.mpr inOrder.ordered
    rw [← spans] at ordered
    exact List.pairwise_map.mp ordered
  · obtain ⟨token, old, same⟩ := among token' member
    rw [← same]
    exact inOrder.proper token old
  · obtain ⟨token, old, same⟩ := among token' member
    rw [← same]
    exact inOrder.boundaries token old

/-! ## Modes -/

variable {ctx : List Ctx} {modes : List Mode} {tok : Tok}

theorem tokenMode_modes (nested : Nested ctx) (mode : tokenMode ctx = true) :
    modesOf ctx = [] ∨ ∃ outer, modesOf ctx = .interp :: outer := by
  induction ctx with
  | nil => exact .inl rfl
  | cons top ctx ih =>
    cases top with
    | str => nomatch mode
    | fmt => nomatch mode
    | interp => exact .inr ⟨modesOf ctx, rfl⟩
    | paren | bracket | attrBracket | brace => exact ih nested.2 nested.1

theorem step_outside (mode : modes = [] ∨ ∃ outer, modes = .interp :: outer)
    (isOutside : tok.isOutside = true) : Mode.step modes tok = some modes := by
  rcases mode with rfl | ⟨outer, rfl⟩
  · cases tok with
    | _ => first | rfl | nomatch isOutside
  · cases tok with
    | _ => first | rfl | nomatch isOutside

@[simp]
theorem step_blur (modes : List Mode) (token : Token) :
    Mode.step modes (blur token).tok = Mode.step modes token.tok := by
  rw [blur]
  split
  · next text isText =>
      rw [isText]
      cases modes with
      | nil => rfl
      | cons mode modes => cases mode <;> rfl
  · rfl

theorem steps_of_blur {tokens tokens' : List Token} (same : tokens'.map blur = tokens.map blur) :
    (tokens'.map Token.tok).foldlM Mode.step modes =
      (tokens.map Token.tok).foldlM Mode.step modes := by
  have blurred (tokens : List Token) : (tokens.map Token.tok).foldlM Mode.step modes =
      (tokens.map blur).foldlM (fun modes token => Mode.step modes token.tok) modes := by
    simp [List.foldlM_map]
  rw [blurred, same, ← blurred]

theorem isOutside_of_plain (plain : isPlain tok = true) : tok.isOutside = true := by
  cases tok <;> first | rfl | nomatch plain

theorem isOutside_of_opening {delim : Ctx} (opens : opening tok = some delim) :
    tok.isOutside = true ∧ modesOf [delim] = [] := by
  revert opens
  fun_cases opening tok <;> rintro ⟨⟩ <;> exact ⟨rfl, rfl⟩

theorem modes_of_closing {left : List Ctx} (closes : closing tok ctx = some left) :
    tok.isOutside = true ∧ modesOf left = modesOf ctx := by
  revert closes
  fun_cases closing tok ctx with
  | case8 => simp
  | _ =>
    rintro ⟨⟩
    exact ⟨rfl, rfl⟩

/-- A token moves the automaton as it moves the stack. -/
theorem Emits.step {here : Nat} {ctx' : List Ctx} (effect : Emits here tok ctx ctx')
    (nested : Nested ctx) : Mode.step (modesOf ctx) tok = some (modesOf ctx') := by
  cases effect with
  | plain mode plain =>
    exact step_outside (tokenMode_modes nested mode) (isOutside_of_plain plain)
  | @opens _ delim _ mode opens =>
    obtain ⟨isOutside, noMode⟩ := isOutside_of_opening opens
    have same : modesOf (delim :: ctx) = modesOf ctx := by
      rw [modesOf, ← List.singleton_append, List.filterMap_append]
      exact congrArg (· ++ modesOf ctx) noMode
    rw [same]
    exact step_outside (tokenMode_modes nested mode) isOutside
  | closes mode closes =>
    obtain ⟨isOutside, same⟩ := modes_of_closing closes
    rw [same]
    exact step_outside (tokenMode_modes nested mode) isOutside
  | strStart mode =>
    have opens (modes : List Mode) (token : modes = [] ∨ ∃ outer, modes = .interp :: outer)
        (kind : StrKind) : Mode.step modes (.strStart kind) = some (.str :: modes) := by
      rcases token with rfl | ⟨outer, rfl⟩ <;> rfl
    exact opens _ (tokenMode_modes nested mode) _
  | strEnd | interpStart | specInterp | fmtStart | fmtText | interpEnd | fmtEnd => rfl

/-! ## The invariant -/

/-- No literal below the top has pending text. -/
def Buried (ctx : List Ctx) : Prop := ∀ frame, .str frame ∈ ctx.tail → frame.pending = []

/-- In token mode no literal has pending text. -/
theorem Buried.token (buried : Buried ctx) (mode : tokenMode ctx = true) :
    ∀ frame, .str frame ∈ ctx → frame.pending = [] := by
  intro frame member
  cases ctx with
  | nil => nomatch member
  | cons top ctx =>
    rcases List.mem_cons.mp member with same | below
    · subst same
      nomatch mode
    · exact buried frame below

/-- A token other than a piece of text leaves no pending text. -/
theorem Emits.flushed {here : Nat} {ctx' : List Ctx} (effect : Emits here tok ctx ctx')
    (buried : Buried ctx) : ∀ frame, .str frame ∈ ctx' → frame.pending = [] := by
  intro frame member
  have later {top : Ctx} {left : List Ctx} (member : .str frame ∈ top :: left)
      (other : top ≠ .str frame) : .str frame ∈ left := by
    rcases List.mem_cons.mp member with same | old
    · exact absurd same.symm other
    · exact old
  cases effect with
  | plain mode => exact buried.token mode frame member
  | opens mode isOpen =>
    exact buried.token mode frame (later member fun same => opening_not_str (same ▸ isOpen))
  | closes mode closes => exact buried.token mode frame ((closing_suffix closes).subset member)
  | strStart mode empty =>
    rcases List.mem_cons.mp member with same | old
    · cases same
      exact empty
    · exact buried.token mode frame old
  | strEnd => exact buried frame member
  | interpStart flushed =>
    rcases List.mem_cons.mp (later member nofun) with same | old
    · cases same
      exact flushed
    · exact buried frame old
  | specInterp => exact buried frame (later (later member nofun) nofun)
  | fmtStart | fmtText => exact buried frame (later member nofun)
  | interpEnd | fmtEnd => exact buried frame member

/-- The stream so far: in order, and nested as the stack says. The pending text begins after it. -/
structure Streams (l : Lexer) : Prop where
  sound : Sound l
  modes : (l.tokens.map Token.tok).foldlM Mode.step [] = some (modesOf l.ctx)
  inOrder : InOrder l.src l.pos l.tokens
  pending : ∀ frame ctx, l.ctx = .str frame :: ctx → frame.pending ≠ [] →
    Boundary l.src frame.pendingStart ∧ frame.pendingStart ≤ l.pos ∧
      InOrder l.src frame.pendingStart l.tokens
  buried : Buried l.ctx

section

variable {tokens : List Token} {modes' : List Mode}
  (before : (tokens.map Token.tok).foldlM Mode.step [] = some modes)
include before

theorem modes_append {toks : List Tok} {at_ : Nat}
    (after : toks.foldlM Mode.step modes = some modes') :
    ((tokens ++ closers at_ toks).map Token.tok).foldlM Mode.step [] = some modes' := by
  have same : (closers at_ toks).map Token.tok = toks := by
    simp [closers, Function.comp_def]
  rw [List.map_append, same, List.foldlM_append, before]
  exact after

theorem modes_snoc {token : Token} (after : Mode.step modes token.tok = some modes') :
    ((tokens ++ [token]).map Token.tok).foldlM Mode.step [] = some modes' := by
  rw [List.map_append, List.foldlM_append, before]
  simpa using after

end

/-- A stack without pending text. -/
theorem streams_of_flushed (sound : Sound l)
    (modes : (l.tokens.map Token.tok).foldlM Mode.step [] = some (modesOf l.ctx))
    (inOrder : InOrder l.src l.pos l.tokens)
    (flushed : ∀ frame, .str frame ∈ l.ctx → frame.pending = []) : Streams l where
  sound := sound
  modes := modes
  inOrder := inOrder
  pending frame _ top some_one :=
    absurd (flushed frame (top ▸ List.mem_cons_self)) some_one
  buried frame member := flushed frame (List.mem_of_mem_tail member)

theorem Move.streams (move : Move u l l') (streams : Streams l) : Streams l' := by
  have sound := move.sound streams.sound
  have here := sound.boundary
  cases move with
  | note | tally => exact ⟨sound, streams.modes, streams.inOrder, streams.pending, streams.buried⟩
  | @blank text rest mode split =>
    exact streams_of_flushed sound streams.modes (streams.inOrder.mono (Nat.le_add_right _ _))
      (streams.buried.token mode)
  | @newline rest mode split =>
    have flushed := streams.buried.token mode
    have later := streams.inOrder.mono (Nat.le_add_right l.pos (bytes ['\n']))
    rcases insertTerminator_spec u (l.feed ['\n'] rest) l.pos with same | same
    · rw [same] at sound ⊢
      exact streams_of_flushed sound streams.modes later flushed
    · rw [same] at sound ⊢
      refine streams_of_flushed sound (modes_snoc streams.modes ?_) ?_ flushed
      · exact step_outside (tokenMode_modes streams.sound.nested mode) rfl
      · have placed : InOrder l.src l.pos (l.tokens ++ [⟨.term false, .empty l.pos⟩]) :=
          streams.inOrder.snoc le_rfl streams.sound.boundary streams.sound.boundary
        exact placed.mono (Nat.le_add_right _ _)
  | @emit text rest tok ctx split some_one effect =>
    refine streams_of_flushed sound (modes_snoc streams.modes (effect.step streams.sound.nested)) ?_
      (effect.flushed streams.buried)
    exact streams.inOrder.snoc (Nat.le_add_right _ _) streams.sound.boundary here
  | @body text rest frame frame' ctx top split some_one collects =>
    have modes := streams.modes
    have buried := streams.buried
    rw [top] at modes buried
    have later := streams.inOrder.mono (Nat.le_add_right l.pos (bytes text))
    refine ⟨sound, modes, later, fun one left isTop pending => ?_, buried⟩
    cases isTop
    rcases collects.pending with ⟨same, start⟩ | ⟨-, start⟩
    · rw [same] at pending
      obtain ⟨boundary, before, inOrder⟩ := streams.pending frame ctx top pending
      rw [start]
      exact ⟨boundary, Nat.le_add_right_of_le before, inOrder⟩
    · rw [start]
      split
      · exact ⟨streams.sound.boundary, Nat.le_add_right _ _, streams.inOrder⟩
      · next some_pending =>
          obtain ⟨boundary, before, inOrder⟩ := streams.pending frame ctx top some_pending
          exact ⟨boundary, Nat.le_add_right_of_le before, inOrder⟩
  | @flush frame pieces ctx top pending =>
    have modes := streams.modes
    have buried := streams.buried
    rw [top] at modes buried
    obtain ⟨boundary, before, inOrder⟩ := streams.pending frame ctx top pending
    refine ⟨sound, modes_snoc modes rfl, inOrder.snoc before boundary streams.sound.boundary, ?_,
      buried⟩
    intro one left isTop some_pending
    cases isTop
    exact absurd rfl some_pending
  | @dedent frame frame' ctx tokens top pieces lines start less same =>
    have modes := streams.modes
    have buried := streams.buried
    rw [top] at modes buried
    refine ⟨sound, ?_, inOrder_of_blur streams.inOrder same, ?_, buried⟩
    · rw [steps_of_blur same]
      exact modes
    · intro one left isTop pending
      cases isTop
      obtain ⟨boundary, before, inOrder⟩ := streams.pending frame ctx top fun empty =>
        pending (less empty)
      rw [start]
      exact ⟨boundary, before, inOrder_of_blur inOrder same⟩
  | @abandon frame ctx top flushed =>
    have modes := streams.modes
    have buried := streams.buried
    rw [top] at modes buried
    exact streams_of_flushed sound (modes_snoc modes rfl)
      (streams.inOrder.snoc le_rfl streams.sound.boundary streams.sound.boundary) buried
  | unwound mode =>
    obtain ⟨left, toks, run, suffix, fold⟩ := unwind_spec l.ctx l
    rw [unwindPlainString, run] at sound ⊢
    exact streams_of_flushed sound (modes_append streams.modes fold)
      (streams.inOrder.closers streams.sound.boundary toks)
      fun frame member => streams.buried.token mode frame (suffix.subset member)

theorem Moves.streams (moves : Moves u l l') (streams : Streams l) : Streams l' := by
  induction moves with
  | refl => exact streams
  | tail _ move ih => exact move.streams ih

/-! ## The end of the text -/

/-- What is open when the text runs out is closed there. -/
theorem closeAll_spec (ctx : List Ctx) (l : Lexer) :
    ∃ errors toks, closeAll ctx l =
        { l with
          ctx := []
          errors := l.errors ++ errors
          tokens := l.tokens ++ closers (bytes l.src) toks } ∧
      toks.foldlM Mode.step (modesOf ctx) = some [] ∧ (errors = [] → toks = []) := by
  induction ctx generalizing l with
  | nil => exact ⟨[], [], by simp [closeAll, closers], rfl, fun _ => rfl⟩
  | cons top ctx ih =>
    have closed (code : String) (span : Span) (tok : Tok)
        (step : Mode.step (modesOf (top :: ctx)) tok = some (modesOf ctx)) :
        ∃ errors toks, closeAll ctx ((l.error code span "gram.lex.str").push tok
            (.empty (bytes l.src))) =
          { l with
            ctx := []
            errors := l.errors ++ errors
            tokens := l.tokens ++ closers (bytes l.src) toks } ∧
        toks.foldlM Mode.step (modesOf (top :: ctx)) = some [] ∧ (errors = [] → toks = []) := by
      obtain ⟨errors, toks, run, fold, -⟩ :=
        ih ((l.error code span "gram.lex.str").push tok (.empty (bytes l.src)))
      refine ⟨⟨code, span, "gram.lex.str"⟩ :: errors, tok :: toks, ?_, ?_, (by simp)⟩
      · simpa [closers, push, error, List.append_assoc] using run
      · rw [List.foldlM_cons, step]
        exact fold
    cases top with
    | str frame => exact closed _ _ .strEnd rfl
    | interp | fmt => exact closed _ _ .interpEnd rfl
    | paren | bracket | attrBracket | brace => exact ih l

/-- At the end of input only a terminator is added. -/
theorem insertTerminatorAtEof_spec (l : Lexer) : l.insertTerminatorAtEof = l ∨
      l.insertTerminatorAtEof = l.push (.term false) (.empty (bytes l.src)) ∧
        l.tokens.getLast?.any fun last => last.tok.endsAStatement := by
  rw [insertTerminatorAtEof]
  split
  · exact .inl rfl
  · split
    · exact .inl rfl
    · split
      · next ends => exact .inr ⟨rfl, ends⟩
      · exact .inl rfl

/-- The lexer never fails, and its run is a sequence of moves, the closing of what is open, and a
terminator. -/
theorem run_spec (u : Unicode) (src : Text) : ∃ text rest l, src = text ++ rest ∧ '\n' ∉ text ∧
      Moves u ((initial src).feed text rest) l ∧ l.rest = [] ∧
      run u src = some l.closeUnterminated.insertTerminatorAtEof := by
  obtain ⟨text, rest, split, inLine, begun⟩ := begin_spec src
  obtain ⟨l, looped, moves, ended⟩ := scanLoop_spec (u := u) ((initial src).feed text rest).fuel
    (sound_begin split) (Nat.lt_succ_self _)
  refine ⟨text, rest, l, split, inLine, moves, ended, ?_⟩
  rw [run, begun]
  simp only [Option.bind_eq_bind, Option.bind_some, looped]
  rfl

theorem streams_begin {src text rest : Text} (split : src = text ++ rest) :
    Streams ((initial src).feed text rest) :=
  streams_of_flushed (sound_begin split) rfl ⟨.nil, nofun, nofun⟩
    fun _ member => absurd member List.not_mem_nil

/-- At the end of the text the offset is its length. -/
theorem Sound.pos_eq (sound : Sound l) (ended : l.rest = []) : l.pos = bytes l.src := by
  obtain ⟨before, split, place⟩ := sound.placed
  rw [split, ended, List.append_nil, place]

/-- Closing what is open gives a well-formed stream. -/
theorem Streams.closed (streams : Streams l) (ended : l.rest = []) :
    WellFormed l.src l.closeUnterminated.insertTerminatorAtEof.tokens := by
  obtain ⟨errors, toks, run, fold, -⟩ :=
    closeAll_spec l.ctx { l with openAtEof := l.ctx ≠ [] }
  have place := streams.sound.pos_eq ended
  have boundary := streams.sound.boundary
  have inOrder := streams.inOrder
  rw [place] at boundary inOrder
  have modes := @modes_append _ _ _ streams.modes _ (bytes l.src) fold
  have spans := inOrder.closers boundary toks
  rw [closeUnterminated, run]
  rcases insertTerminatorAtEof_spec
      { l with
        openAtEof := l.ctx ≠ []
        ctx := []
        errors := l.errors ++ errors
        tokens := l.tokens ++ closers (bytes l.src) toks } with same | ⟨same, -⟩
  · rw [same]
    exact ⟨spans, closes_of_steps modes⟩
  · have nests : Closes [] ((l.tokens ++ closers (bytes l.src) toks ++
        [(⟨.term false, .empty (bytes l.src)⟩ : Token)]).map Token.tok) :=
      closes_of_steps (modes_snoc modes rfl)
    rw [same]
    exact ⟨spans.snoc le_rfl boundary boundary, nests⟩

end Stream

end Lexer

/-- Every text has a token stream, and it is well formed. -/
theorem lex_wellFormed (u : Unicode) (src : Text) :
    ∃ lexed, lex u src = some lexed ∧ WellFormed src lexed.tokens := by
  obtain ⟨text, rest, l, split, -, moves, ended, run⟩ := Lexer.run_spec u src
  have streams := Lexer.Moves.streams moves (Lexer.streams_begin split)
  have kept : l.src = src := Lexer.Moves.src moves (Lexer.sound_begin split)
  have wellFormed := streams.closed ended
  rw [kept] at wellFormed
  rw [lex, run]
  exact ⟨_, rfl, wellFormed⟩

end WolfInterp.Lex
