import WolfInterp.Lex.Bodies

/-!
# Every run is a sequence of moves

Format specs and token mode, and the loop of the run: from any sound state the lexer reaches the end
of the text.
-/

namespace WolfInterp.Lex

namespace Lexer

section Run

variable {u : Unicode} {start l l' : Lexer} {ctx : List Ctx}

/-! ## Format specs -/

theorem Advances.goOn (goes : Goes u l l') : Advances u l (some (l', true)) :=
  ⟨l', true, rfl, goes.1.moves, fun _ => goes.2, nofun, fun _ => goes.1⟩

theorem Advances.stop (quiets : Quiets u l l') (ended : l'.rest = []) :
    Advances u l (some (l', false)) :=
  ⟨l', false, rfl, quiets.moves, nofun, fun _ => ended, fun _ => quiets⟩

/-- A token of a format spec. -/
theorem specToken {text rest : Text} {tok : Tok} {left : List Ctx} (top : l.ctx = .fmt :: ctx)
    (split : l.rest = text ++ rest) (some_one : text ≠ [])
    (effect : Emits (l.pos + bytes text) tok (.fmt :: ctx) left)
    (lines : '\n' ∈ text → tok = .fmtText text) (other : tok ≠ .rBracket) :
    Move u l
        { l.feed text rest with
          ctx := left
          tokens := l.tokens ++ [⟨tok, ⟨l.pos, l.pos + bytes text⟩⟩] } ∧
      weight { l.feed text rest with
        ctx := left
        tokens := l.tokens ++ [⟨tok, ⟨l.pos, l.pos + bytes text⟩⟩] } < weight l := by
  rw [← top] at effect
  refine ⟨?_, lighter_emit split some_one effect⟩
  have move := @Move.emit u l text rest tok left split some_one effect (by rw [top]; nofun)
    (by rw [top]; nofun) fun member => .inr (.inr (lines member))
  rw [attrAfter_of_ne other] at move
  exact move

/-- The text of a format spec up to the next brace. -/
theorem specText_spec {text rest : Text} (top : l.ctx = .fmt :: ctx)
    (split : l.rest = text ++ rest) :
    ∃ mid, (if text = [] then l.feed text rest
        else (l.feed text rest).push (.fmtText text) ⟨l.pos, (l.feed text rest).pos⟩) = mid ∧
      Moves u l mid ∧ mid.rest = rest ∧ mid.ctx = .fmt :: ctx ∧ weight mid ≤ weight l := by
  split
  · next empty =>
      subst empty
      have same : l.feed [] rest = l := by
        have cut : l.rest = rest := split
        rw [← cut]
        rfl
      rw [same]
      exact ⟨l, rfl, .refl, split, top, le_rfl⟩
  · next some_one =>
      have goes := @specToken u l ctx text rest (.fmtText text) (.fmt :: ctx) top split some_one
        .fmtText (fun _ => rfl) nofun
      rw [← top] at goes
      exact ⟨_, rfl, .single goes.1, rfl, top, Nat.le_of_lt goes.2⟩

theorem scanFormatSpec_spec (top : l.ctx = .fmt :: ctx) : Advances u l (some l.scanFormatSpec) := by
  have split : l.rest = _ ++ _ :=
    (List.takeWhile_append_dropWhile (p := fun c => c ≠ '{' && c ≠ '}')).symm
  obtain ⟨mid, isMid, moves, left, midTop, le⟩ := specText_spec (u := u) top split
  have isFmt : l.ctx.head? = some .fmt := by rw [top, List.head?_cons]
  have goOn {l' : Lexer} (goes : Move u mid l' ∧ weight l' < weight mid) :
      Advances u l (some (l', true)) :=
    ⟨l', true, rfl, moves.tail goes.1, fun _ => Nat.lt_of_lt_of_le goes.2 le, (by simp),
      fun notFmt => absurd isFmt notFmt⟩
  rw [scanFormatSpec]
  simp only [skipWhile_eq, isMid]
  split
  · next ended =>
      exact ⟨mid, false, rfl, moves, (by simp), fun _ => List.head?_eq_none_iff.mp ended,
        fun notFmt => absurd isFmt notFmt⟩
  · next close =>
      obtain ⟨rest, cut⟩ := List.head?_eq_some_iff.mp close
      have goes := @specToken u mid ctx ['}'] rest .interpEnd ctx midTop cut (by simp) .fmtEnd
        (by decide) (by simp)
      have popped : mid.popCtx.bump = mid.popCtx.feed ['}'] rest := bump_eq cut
      rw [popped]
      simp only [popCtx, midTop, List.tail_cons, push, feed]
      exact goOn goes
  · next c notClose isNext =>
      obtain ⟨rest, cut⟩ := List.head?_eq_some_iff.mp isNext
      have stepped : mid.bump = mid.feed [c] rest := bump_eq cut
      have brace : c = '{' := by
        have stopped := List.head?_dropWhile_not (fun c => c ≠ '{' && c ≠ '}') l.rest
        rw [← left, cut] at stopped
        have other : c ≠ '}' := notClose
        simpa [other] using stopped
      subst brace
      have goes := @specToken u mid ctx ['{'] rest .interpStart (.interp :: .fmt :: ctx) midTop cut
        (by simp) .specInterp (by decide) (by simp)
      rw [stepped]
      simp only [pushCtx, push, feed, midTop]
      exact goOn goes

/-! ## Token mode -/

/-- The token that closes a delimiter. -/
def closerOf : Ctx → Tok
  | .paren => .rParen
  | .bracket => .rBracket
  | _ => .rBrace

theorem popDelimiter_spec (l : Lexer) {expected : Ctx}
    (delim : expected ∈ [.paren, .bracket, .brace]) :
    ∃ left, closing (closerOf expected) l.ctx = some left ∧
      l.popDelimiter expected = { l with ctx := left } := by
  obtain ⟨src, rest, pos, tokens, ctx, errors, deferred, depth, reported, attrClose, atEof⟩ := l
  simp only [List.mem_cons, List.not_mem_nil, or_false] at delim
  cases ctx with
  | nil => rcases delim with rfl | rfl | rfl <;> exact ⟨_, rfl, rfl⟩
  | cons top ctx =>
    rcases delim with rfl | rfl | rfl <;> cases top <;> exact ⟨_, rfl, rfl⟩

section

variable {rest : Text} (fresh : Fresh u start)
include fresh

theorem Fresh.isElse {tok : Tok} (notElse : tok ≠ .kw .else_) :
    tokenMode start.ctx = true → (tok = .kw .else_ ↔ elseFollows u start.rest = true) :=
  fun _ => ⟨fun same => absurd same notElse, fun follows => by simp [fresh.notElse] at follows⟩

/-- A token that changes the stack. -/
theorem Fresh.single {text : Text} (tok : Tok) (left : List Ctx) (split : start.rest = text ++ rest)
    (some_one : text ≠ []) (effect : Emits (start.pos + bytes text) tok start.ctx left)
    (inLine : '\n' ∉ text) (notElse : tok ≠ .kw .else_) (other : tok ≠ .rBracket) :
    Goes u start
      { start.feed text rest with
        ctx := left
        tokens := start.tokens ++ [⟨tok, ⟨start.pos, start.pos + bytes text⟩⟩] } :=
  goes_token split some_one effect (fun _ => fresh.starts) (fresh.isElse notElse)
    (fun member => absurd member inLine) (notFmt_of_tokenMode fresh.mode) other

theorem closeBracket_spec (split : start.rest = [']'] ++ rest) :
    Goes u start ((start.feed [']'] rest).closeBracket ⟨start.pos, start.pos + bytes [']']⟩) := by
  obtain ⟨left, closes, popped⟩ :=
    @popDelimiter_spec (start.feed [']'] rest) .bracket (by simp)
  have closes : closing .rBracket start.ctx = some left := closes
  have goes := goes_emit split nofun (.closes fresh.mode closes) (fun _ => fresh.starts)
    (fresh.isElse nofun) (fun member => absurd member (by decide)) (notFmt_of_tokenMode fresh.mode)
  rw [closeBracket, popped]
  split
  · next attr =>
      have isAttr : attrAfter .rBracket start.ctx start.tokens.length start.attrClose =
          some start.tokens.length := by
        rw [attrAfter, if_pos ⟨rfl, attr⟩]
      rw [isAttr] at goes
      simp only [push, List.length_append, List.length_singleton, Nat.add_sub_cancel]
      exact goes
  · next notAttr =>
      have isAttr : attrAfter .rBracket start.ctx start.tokens.length start.attrClose =
          start.attrClose := by
        rw [attrAfter, if_neg fun both => notAttr both.2]
      rw [isAttr] at goes
      exact goes

theorem closeBrace_spec (split : start.rest = ['}'] ++ rest) :
    Goes u start ((start.feed ['}'] rest).closeBrace ⟨start.pos, start.pos + bytes ['}']⟩) := by
  obtain ⟨left, closes, popped⟩ := @popDelimiter_spec (start.feed ['}'] rest) .brace (by simp)
  have closes : closing .rBrace start.ctx = some left := closes
  rw [closeBrace]
  split
  · next ctx top =>
      have top : start.ctx = .interp :: ctx := top
      have goes := fresh.single .interpEnd ctx split (by simp) (by rw [top]; exact .interpEnd)
        (by decide) (by simp) (by simp)
      simp only [popCtx, feed, top, List.tail_cons, push]
      exact goes
  · next ctx top =>
      have mode := fresh.mode
      rw [show start.ctx = .fmt :: ctx from top] at mode
      cases mode
  · rw [popped]
    exact fresh.single .rBrace left split (by simp) (.closes fresh.mode closes) (by decide)
      (by simp) (by simp)

end

/-- The characters of no token end at a place in the text. -/
theorem strayRun_prefix (u : Unicode) (text : Text) : strayRun u text <+: text := by
  induction text with
  | nil => exact List.prefix_refl []
  | cons c rest ih =>
    rw [strayRun]
    split
    · exact (List.prefix_cons_inj c).mpr ih
    · exact List.nil_prefix

theorem punctuation_plain {c : Char} {tok : Tok} (found : punctuation c = some tok) :
    isPlain tok = true ∧ tok ≠ .kw .else_ := by
  revert found
  fun_cases punctuation c with
  | case18 => nofun
  | _ => exact fun same => Option.some.inj same ▸ ⟨rfl, nofun⟩

theorem scanPunctuation_spec {c : Char} {rest : Text} (fresh : Fresh u start)
    (split : start.rest = c :: rest) :
    ∃ l, start.scanPunctuation u c = some l ∧ Goes u start l := by
  have one : start.rest = [c] ++ rest := split
  have fed : Fed start (start.feed [c] rest) := ⟨[c], rest, split, rfl⟩
  have lined : Lined start (start.feed [c] rest) := by
    refine ⟨[c], rest, split, rfl, fun member => ?_⟩
    obtain ⟨first, after, starts, notBlank, -⟩ := fresh.starts
    rw [split] at starts
    cases starts
    rw [← List.mem_singleton.mp member] at notBlank
    cases notBlank
  have shorter : (start.feed [c] rest).rest.length < start.rest.length := by
    rw [split]
    exact Nat.lt_succ_self _
  rw [scanPunctuation.eq_def, bump_eq split]
  dsimp only
  split
  · exact ⟨_, rfl,
      fresh.single .lParen _ one (by simp) (.opens fresh.mode rfl) (by decide) (by simp) (by simp)⟩
  · exact ⟨_, rfl,
      fresh.single .lBracket _ one (by simp) (.opens fresh.mode rfl) (by decide) (by simp)
      (by simp)⟩
  · exact ⟨_, rfl,
      fresh.single .lBrace _ one (by simp) (.opens fresh.mode rfl) (by decide) (by simp) (by simp)⟩
  · obtain ⟨left, closes, popped⟩ := @popDelimiter_spec (start.feed [')'] rest) .paren (by simp)
    have closes : closing .rParen start.ctx = some left := closes
    rw [popped]
    exact ⟨_, rfl,
      fresh.single .rParen left one (by simp) (.closes fresh.mode closes) (by decide) (by simp)
      (by simp)⟩
  · exact ⟨_, rfl, closeBracket_spec fresh one⟩
  · exact ⟨_, rfl, closeBrace_spec fresh one⟩
  · split
    · next interp =>
        obtain ⟨ctx, top⟩ := List.head?_eq_some_iff.mp interp
        have top : start.ctx = .interp :: ctx := top
        have goes := fresh.single .fmtStart (.fmt :: ctx) one (by simp)
          (by rw [top]; exact .fmtStart) (by decide) (by simp) (by simp)
        simp only [popCtx, feed, top, List.tail_cons, pushCtx, push]
        exact ⟨_, rfl, goes⟩
    · exact ⟨_, rfl, fresh.plain lined shorter rfl (by simp)⟩
  · split
    · next tok found =>
        have isPlain := punctuation_plain found
        exact ⟨_, rfl, fresh.plain lined shorter isPlain.1 isPlain.2⟩
    · split
      · exact ⟨_, rfl, fresh.refused fed shorter rfl (by simp)⟩
      · obtain ⟨left, cut⟩ := strayRun_prefix u rest
        have skipped : (start.feed [c] rest).skip (bytes (strayRun u rest)) =
            some ((start.feed [c] rest).feed (strayRun u rest) left) := skip_eq cut.symm
        have more : Fed (start.feed [c] rest) ((start.feed [c] rest).feed (strayRun u rest) left) :=
          ⟨_, _, cut.symm, rfl⟩
        rw [feed] at skipped
        simp only [feed, Option.bind_eq_bind] at skipped ⊢
        rw [skipped]
        exact ⟨_, rfl, fresh.refused (fed.trans more)
          (Nat.lt_of_le_of_lt more.length_le shorter) rfl (by simp)⟩

theorem operators_plain : ∀ operator ∈ operators,
    isPlain operator.2 = true ∧ operator.2 ≠ .kw .else_ ∧ operator.1.toList ≠ [] ∧
      '\n' ∉ operator.1.toList := by
  decide

theorem scanToken_spec {c : Char} {rest : Text} (mode : tokenMode start.ctx = true)
    (split : start.rest = c :: rest) (starts : Starts start.rest) :
    ∃ l, start.scanToken u = some l ∧ Goes u start l := by
  have head : start.peek = some c := by rw [peek, split, List.head?_cons]
  rw [scanToken, head]
  dsimp only
  split
  · next word =>
      have continues : u.isXidContinue c = true := by
        rcases word with first | underscore
        · simp [Unicode.isXidContinue, show u.isAlphabetic c = true from first]
        · simp [Unicode.isXidContinue, underscore]
      exact scanWord_spec mode split continues
  · next notWord =>
      have notE : c ≠ 'e' := by
        rintro rfl
        refine notWord (.inl ?_)
        rw [Unicode.isXidStart, u.alphabetic_ascii _ (by decide)]
        decide
      have fresh : Fresh u start := by
        refine ⟨mode, starts, elseFollows_of_head starts ?_⟩
        rw [split, List.head?_cons]
        exact fun same => notE (Option.some.inj same)
      split
      · next digit => exact scanNumber_spec fresh split digit
      · split
        · next quote =>
            exact openString_spec fresh (.refl start) rfl (quote ▸ head)
        · split
          · next quote => exact scanCharLiteral_spec fresh split (by rw [quote]; decide)
          · split
            · next attr =>
                obtain ⟨left, cut⟩ := startsWith_iff.mp attr
                have skipped : start.skip 3 = some (start.feed ['#', '!', '['] left) :=
                  skip_eq cut.symm
                rw [skipped]
                exact ⟨_, rfl, fresh.single .hashBangBracket _ cut.symm (by simp)
                  (.opens mode rfl) (by decide) (by simp) (by simp)⟩
            · split
              · next attr =>
                  obtain ⟨left, cut⟩ := startsWith_iff.mp attr
                  have skipped : start.skip 2 = some (start.feed ['#', '['] left) :=
                    skip_eq cut.symm
                  rw [skipped]
                  exact ⟨_, rfl, fresh.single .hashBracket _ cut.symm (by simp)
                    (.opens mode rfl) (by decide) (by simp) (by simp)⟩
              · split
                · next text tok found =>
                    obtain ⟨isPlain, notElse, some_one, inLine⟩ :=
                      operators_plain _ (List.mem_of_find?_eq_some found)
                    have isNext := List.find?_some found
                    have isNext : start.startsWith text = true := isNext
                    obtain ⟨left, cut⟩ := startsWith_iff.mp isNext
                    rw [skip_eq cut.symm]
                    have other : tok ≠ .rBracket := by
                      rintro rfl
                      cases isPlain
                    exact ⟨_, rfl, fresh.single tok _ cut.symm some_one (.plain mode isPlain)
                      inLine notElse other⟩
                · exact scanPunctuation_spec fresh split

/-! ## Trivia -/

theorem skipTrivia_comment (text : Text) :
    skipTrivia true text = skipTrivia false (text.dropWhile (· ≠ '\n')) := by
  induction text with
  | nil => rfl
  | cons c rest ih =>
    rw [skipTrivia]
    split
    · next newline =>
        subst newline
        rw [List.dropWhile_cons_of_neg (by simp), skipTrivia, if_pos (by decide)]
    · next other => rw [List.dropWhile_cons_of_pos (by simpa using other), ih]

/-- The innermost string frame of a stack that has one. -/
theorem openPlainString_some {stop : Nat} {span : Span}
    (isOpen : l.openPlainString stop = some span) :
    ∃ frame, .str frame ∈ l.ctx := by
  rw [openPlainString] at isOpen
  split at isOpen
  · next frame found =>
      obtain ⟨top, member, isFrame⟩ := List.exists_of_findSome?_eq_some found
      cases top with
      | str other => exact ⟨other, member⟩
      | _ => nomatch isFrame
  · nomatch isOpen

/-- Unwinding stops below a string frame. -/
theorem unwind_below (ctx : List Ctx) (l : Lexer) {frame : StrFrame} (member : .str frame ∈ ctx) :
    ∃ found, (.str found :: (unwind ctx l).ctx) <:+ ctx ∧ (unwind ctx l).rest = l.rest := by
  induction ctx generalizing l with
  | nil => nomatch member
  | cons top ctx ih =>
    have below (other : top ≠ .str frame) (next : Lexer) :
        ∃ found, (.str found :: (unwind ctx next).ctx) <:+ top :: ctx ∧
          (unwind ctx next).rest = next.rest := by
      have member : .str frame ∈ ctx := by
        rcases List.mem_cons.mp member with same | later
        · exact absurd same.symm other
        · exact later
      obtain ⟨found, suffix, rest⟩ := ih next member
      exact ⟨found, suffix.trans (List.suffix_cons top ctx), rest⟩
    cases top with
    | str found => exact ⟨found, List.suffix_refl _, rfl⟩
    | interp | fmt | paren | bracket | attrBracket | brace => exact below nofun _

theorem newline_spec {rest : Text} (sound : Sound l) (mode : tokenMode l.ctx = true)
    (split : l.rest = '\n' :: rest) :
    Goes u l (l.newline u) ∧ tokenMode (l.newline u).ctx = true := by
  rw [newline]
  split
  · next span isOpen =>
      obtain ⟨frame, member⟩ := openPlainString_some isOpen
      obtain ⟨found, suffix, left⟩ :=
        unwind_below l.ctx (l.error "E0102" span "gram.lex.str") member
      have unwound : Move u (l.error "E0102" span "gram.lex.str")
          (l.error "E0102" span "gram.lex.str").unwindPlainString :=
        .unwound mode (by simp [error])
      have shorter := suffix.length_le
      rw [List.length_cons] at shorter
      refine ⟨⟨.head ⟨.note _ _ _, fun _ => rfl⟩
        (.single (unwound.quiet (notFmt_of_tokenMode mode))),
        ?_⟩, (sound.nested.suffix suffix).1⟩
      change 2 * (unwind l.ctx (l.error "E0102" span "gram.lex.str")).rest.length +
        (unwind l.ctx (l.error "E0102" span "gram.lex.str")).ctx.length < weight l
      rw [left, weight]
      change 2 * l.rest.length + _ < _
      omega
  · next inside =>
    have stepped : l.bump = l.feed ['\n'] rest := bump_eq split
    rw [stepped]
    have length : l.rest.length = rest.length + 1 := by rw [split, List.length_cons]
    refine ⟨⟨.single (Move.quiet (.newline mode split inside) (notFmt_of_tokenMode mode)), ?_⟩, ?_⟩
    · rcases insertTerminator_spec u (l.feed ['\n'] rest) l.pos with same | same <;>
        rw [same] <;> simp only [weight, push, feed] <;> omega
    · rcases insertTerminator_spec u (l.feed ['\n'] rest) l.pos with same | same <;>
        rw [same] <;> exact mode

theorem blank_feed {text rest : Text} (mode : tokenMode l.ctx = true)
    (split : l.rest = text ++ rest)
    (some_one : text ≠ []) (inLine : '\n' ∉ text)
    (trivia : skipTrivia false l.rest = skipTrivia false rest) : Goes u l (l.feed text rest) := by
  refine ⟨.single (Move.quiet (.blank mode split inLine trivia) (notFmt_of_tokenMode mode)), ?_⟩
  have consumed := List.length_pos_iff.mpr some_one
  have length : l.rest.length = text.length + rest.length := by rw [split, List.length_append]
  simp only [weight, feed]
  omega

/-- What the loop over trivia answers: a token begins, or the text has run out. -/
structure PastTrivia (u : Unicode) (l l' : Lexer) (more : Bool) : Prop where
  quiets : Quiets u l l'
  lighter : weight l' ≤ weight l
  mode : tokenMode l'.ctx = true
  starts : more = true → Starts l'.rest
  ended : more = false → l'.rest = []

theorem triviaLoop_spec (rounds : Nat) (sound : Sound l) (mode : tokenMode l.ctx = true)
    (enough : weight l < rounds) :
    ∃ l' more, triviaLoop u rounds l = some (l', more) ∧ PastTrivia u l l' more := by
  induction rounds generalizing l with
  | zero => exact absurd enough (Nat.not_lt_zero _)
  | succ rounds ih =>
    have goOn {next : Lexer} (goes : Goes u l next) (mode : tokenMode next.ctx = true) :
        ∃ l' more, triviaLoop u rounds next = some (l', more) ∧ PastTrivia u l l' more := by
      have lighter := goes.2
      obtain ⟨l', more, run, past⟩ := ih (goes.1.moves.sound sound) mode (by omega)
      have less := past.lighter
      exact ⟨l', more, run, goes.1.trans past.quiets, by omega, past.mode, past.starts, past.ended⟩
    rw [triviaLoop]
    split
    · next ended =>
        exact ⟨l, false, rfl, .refl, le_rfl, mode, (by simp), fun _ =>
          List.head?_eq_none_iff.mp ended⟩
    · next c head =>
        obtain ⟨rest, split⟩ := List.head?_eq_some_iff.mp head
        split
        · next isNewline =>
            subst isNewline
            obtain ⟨goes, mode'⟩ := newline_spec (u := u) sound mode split
            exact goOn goes mode'
        · next notNewline =>
            split
            · next blank =>
                have trivia : skipTrivia false l.rest = skipTrivia false rest := by
                  rw [split, skipTrivia, if_pos blank]
                have one : l.rest = [c] ++ rest := split
                rw [bump_eq split]
                refine goOn (blank_feed mode one (by simp) ?_ trivia) mode
                exact fun member => notNewline (List.mem_singleton.mp member).symm
            · next notBlank =>
                split
                · next comment =>
                    obtain ⟨isSlash, slashes⟩ := comment
                    obtain ⟨left, cut⟩ := startsWith_iff.mp slashes
                    have cut : l.rest = '/' :: '/' :: left := cut.symm
                    have whole : l.rest = _ ++ _ :=
                      (List.takeWhile_append_dropWhile (p := fun c => decide (c ≠ '\n'))).symm
                    rw [skipWhile_eq]
                    refine goOn (blank_feed mode whole ?_ ?_ ?_) mode
                    · rw [cut, List.takeWhile_cons_of_pos (by decide)]
                      simp
                    · intro member
                      simpa using List.all_eq_true.mp List.all_takeWhile _ member
                    · rw [← skipTrivia_comment, cut]
                      simp [skipTrivia, isBlank]
                · next notComment =>
                    refine ⟨l, true, rfl, .refl, le_rfl, mode, fun _ => ?_, (by simp)⟩
                    refine ⟨c, rest, split, by simpa using notBlank, ?_⟩
                    rintro rfl follows
                    refine notComment ⟨rfl, ?_⟩
                    obtain ⟨left, rfl⟩ := List.head?_eq_some_iff.mp follows
                    rw [startsWith, split]
                    rfl

theorem scanNormal_spec (sound : Sound l) (mode : tokenMode l.ctx = true) :
    Advances u l (l.scanNormal u) := by
  obtain ⟨mid, more, run, past⟩ := triviaLoop_spec (u := u) l.fuel sound mode (Nat.lt_succ_self _)
  rw [scanNormal, run]
  simp only [Option.bind_eq_bind, Option.bind_some]
  cases more with
  | false => exact .stop past.quiets (past.ended rfl)
  | true =>
    have starts := past.starts rfl
    obtain ⟨c, rest, split, -⟩ := starts
    obtain ⟨l', run, goes⟩ := scanToken_spec (u := u) past.mode split (past.starts rfl)
    rw [if_pos rfl, run]
    exact .goOn ⟨past.quiets.trans goes.1, Nat.lt_of_lt_of_le goes.2 past.lighter⟩

/-! ## The run -/

theorem scan_spec (sound : Sound l) : Advances u l (l.scan u) := by
  rw [scan.eq_def]
  split
  · next frame ctx top => exact scanStringBody_spec sound top
  · next ctx top => exact scanFormatSpec_spec top
  · next notStr notFmt =>
      refine scanNormal_spec sound ?_
      rw [tokenMode.eq_def]
      split
      · next frame ctx top => exact absurd top (notStr frame ctx)
      · next ctx top => exact absurd top (notFmt ctx)
      · rfl

theorem scanLoop_spec (rounds : Nat) (sound : Sound l) (enough : weight l < rounds) :
    ∃ l', scanLoop u rounds l = some l' ∧ Moves u l l' ∧ l'.rest = [] := by
  induction rounds generalizing l with
  | zero => exact absurd enough (Nat.not_lt_zero _)
  | succ rounds ih =>
    obtain ⟨next, more, run, moves, lighter, ended, -⟩ := scan_spec (u := u) sound
    rw [scanLoop, run]
    simp only [Option.bind_eq_bind, Option.bind_some]
    cases more with
    | false => exact ⟨next, rfl, moves, ended rfl⟩
    | true =>
      have less := lighter rfl
      obtain ⟨last, run, moves', ended⟩ := ih (moves.sound sound) (by omega)
      exact ⟨last, run, moves.trans moves', ended⟩

/-- The lexer before anything is scanned. -/
def initial (src : Text) : Lexer := ⟨src, src, 0, [], [], [], [], 0, false, none, false⟩

/-- Scanning starts on the first line. -/
theorem begin_spec (src : Text) : ∃ text rest, src = text ++ rest ∧ '\n' ∉ text ∧
      begin_ src = some ((initial src).feed text rest) := by
  have interpreted {text rest : Text} (split : src = text ++ rest) (inLine : '\n' ∉ text) :
      ∃ text' rest', src = text' ++ rest' ∧ '\n' ∉ text' ∧
        ((initial src).feed text rest).skipWhile (· ≠ '\n') = (initial src).feed text' rest' := by
    refine ⟨text ++ rest.takeWhile (· ≠ '\n'), rest.dropWhile (· ≠ '\n'), ?_, ?_, ?_⟩
    · rw [List.append_assoc, List.takeWhile_append_dropWhile, split]
    · intro member
      rcases List.mem_append.mp member with first | later
      · exact inLine first
      · simpa using List.all_eq_true.mp List.all_takeWhile _ later
    · rw [skipWhile_eq, ← feed_feed]
      rfl
  have started {text rest : Text} (split : src = text ++ rest) (inLine : '\n' ∉ text) :
      ∃ text' rest', src = text' ++ rest' ∧ '\n' ∉ text' ∧
        (let l := (initial src).feed text rest
          if l.pos = 0 ∧ l.startsWith "#!" ∧ ¬ l.startsWith "#![" then
            some (l.skipWhile (· ≠ '\n'))
          else some l) = some ((initial src).feed text' rest') := by
    dsimp only
    split
    · obtain ⟨text', rest', split', inLine', stepped⟩ := interpreted split inLine
      exact ⟨text', rest', split', inLine', congrArg some stepped⟩
    · exact ⟨text, rest, split, inLine, rfl⟩
  rw [begin_]
  dsimp only
  rw [← initial]
  split
  · next mark =>
      obtain ⟨rest, isMark⟩ := List.head?_eq_some_iff.mp mark
      have split : (initial src).rest = [Char.ofNat 0xfeff] ++ rest := isMark
      have skipped : (initial src).skip 3 = _ := skip_eq split
      rw [skipped]
      have inLine : '\n' ∉ [Char.ofNat 0xfeff] := by decide
      exact started split inLine
  · have split : src = [] ++ src := rfl
    exact started split nofun

theorem sound_begin {src text rest : Text} (split : src = text ++ rest) :
    Sound ((initial src).feed text rest) where
  nested := trivial
  placed := ⟨text, split, Nat.zero_add _⟩
  pieces := nofun
  lines := nofun

end Run

end Lexer

end WolfInterp.Lex
