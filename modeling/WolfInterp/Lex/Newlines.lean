import WolfInterp.Lex.Stream

/-!
# Newlines and inserted terminators

`[gram.lex.newline]` as a rule about a finished token stream, and the invariant of the lexer's run
that compares it with what the lexer inserts. Where the next token is not known yet, the invariant
speaks of the lookahead of `else_follows`.
-/

namespace WolfInterp.Lex

/-- A newline of a text. -/
def Newline (src : Text) (n : Nat) : Prop :=
  ∃ front back, src = front ++ '\n' :: back ∧ bytes front = n

/-- A delimiter that is open at a place of a stream. -/
inductive Delim where
  | paren | bracket | attribute | brace | interp
  deriving DecidableEq

/-- What is open after a token: a closer pops a matching innermost delimiter and nothing else. -/
def Delim.step : List Delim → Tok → List Delim
  | delims, .lParen => .paren :: delims
  | delims, .lBracket => .bracket :: delims
  | delims, .hashBracket => .attribute :: delims
  | delims, .hashBangBracket => .attribute :: delims
  | delims, .lBrace => .brace :: delims
  | delims, .interpStart => .interp :: delims
  | .paren :: delims, .rParen => delims
  | .bracket :: delims, .rBracket => delims
  | .attribute :: delims, .rBracket => delims
  | .brace :: delims, .rBrace => delims
  | .interp :: delims, .interpEnd => delims
  | delims, _ => delims

namespace Newlines

/-- The delimiters that are open after some tokens. -/
def delims (toks : List Tok) : List Delim := toks.foldl Delim.step []

/-- The tokens that start before an offset. -/
def before (n : Nat) (tokens : List Token) : List Tok :=
  (tokens.filter fun token => token.span.start < n).map Token.tok

/-- The first token from an offset on that was not inserted. -/
def next (n : Nat) (tokens : List Token) : Option Tok :=
  (tokens.find? fun token => n ≤ token.span.start ∧ token.tok ≠ .term false).map Token.tok

/-- Is the last token the bracket that closes an attribute? -/
def closesAttribute (toks : List Tok) : Bool :=
  toks.getLast? = some .rBracket ∧ (delims toks.dropLast).head? = some .attribute

/-- Is an offset outside of every token, literal body and format spec? -/
def inTokenMode (n : Nat) (tokens : List Token) : Bool :=
  (tokens.all fun token => token.span.start < n → token.span.stop ≤ n) &&
    match (before n tokens).foldlM Mode.step [] with
    | some [] | some (.interp :: _) => true
    | _ => false

/-- A terminator that was inserted at an offset. -/
def Inserted (n : Nat) (tokens : List Token) : Prop :=
  (⟨.term false, .empty n⟩ : Token) ∈ tokens

/-- The conditions on what comes before a newline, given whether `else` comes next. -/
def Ends (n : Nat) (tokens : List Token) (elseNext : Bool) : Prop :=
  (before n tokens).getLast?.any Tok.endsAStatement = true ∧
    ((delims (before n tokens)).head? = none ∨ (delims (before n tokens)).head? = some .brace) ∧
    closesAttribute (before n tokens) = false ∧ elseNext = false

/-- The rule of `[gram.lex.newline]`. -/
def Terminates (n : Nat) (tokens : List Token) : Prop :=
  Ends n tokens (next n tokens = some (.kw .else_))

/-- Is `else` next, or expected where there is no next token yet? -/
def elseNext (n : Nat) (tokens : List Token) (expected : Bool) : Bool :=
  match next n tokens with
  | some tok => tok = .kw .else_
  | none => expected

section Rule

variable {n : Nat} {tokens : List Token} {token : Token}

theorem before_snoc (later : n ≤ token.span.start) :
    before n (tokens ++ [token]) = before n tokens := by
  simp [before, later]

theorem before_snoc_of_lt (earlier : token.span.start < n) :
    before n (tokens ++ [token]) = before n tokens ++ [token.tok] := by
  simp [before, earlier]

theorem before_all (started : ∀ token ∈ tokens, token.span.start < n) :
    before n tokens = tokens.map Token.tok := by
  rw [before, List.filter_eq_self.mpr]
  simpa using started

theorem inTokenMode_snoc (later : n ≤ token.span.start) :
    inTokenMode n (tokens ++ [token]) = inTokenMode n tokens := by
  simp [inTokenMode, before_snoc later, Nat.not_lt.mpr later]

theorem ends_snoc {elseNext : Bool} (later : n ≤ token.span.start) :
    Ends n (tokens ++ [token]) elseNext ↔ Ends n tokens elseNext := by
  rw [Ends, Ends, before_snoc later]

theorem next_snoc_some {tok : Tok} (found : next n tokens = some tok) :
    next n (tokens ++ [token]) = some tok := by
  rw [next, Option.map_eq_some_iff] at found ⊢
  obtain ⟨one, isOne, same⟩ := found
  exact ⟨one, by rw [List.find?_append, isOne]; rfl, same⟩

theorem next_snoc_none (notYet : next n tokens = none) (later : n ≤ token.span.start)
    (notInserted : token.tok ≠ .term false) : next n (tokens ++ [token]) = some token.tok := by
  rw [next, Option.map_eq_none_iff] at notYet
  rw [next, List.find?_append, notYet]
  simp [later, notInserted]

theorem next_snoc_inserted (isInserted : token.tok = .term false) :
    next n (tokens ++ [token]) = next n tokens := by
  simp [next, List.find?_append, isInserted]

theorem inserted_snoc (other : token.tok ≠ .term false ∨ n ≠ token.span.start) :
    Inserted n (tokens ++ [token]) ↔ Inserted n tokens := by
  rw [Inserted, Inserted, List.mem_append, List.mem_singleton]
  refine or_iff_left ?_
  rintro rfl
  rcases other with notTerm | elsewhere
  · exact notTerm rfl
  · exact elsewhere rfl

/-- The attribute is closed by its bracket. -/
theorem closesAttribute_snoc (toks : List Tok) (tok : Tok) :
    closesAttribute (toks ++ [tok]) = true ↔
      tok = .rBracket ∧ (delims toks).head? = some .attribute := by
  simp [closesAttribute]

theorem delims_snoc (toks : List Tok) (tok : Tok) :
    delims (toks ++ [tok]) = Delim.step (delims toks) tok := by
  simp [delims]

end Rule

end Newlines

namespace Lexer

section Run

open Newlines

variable {u : Unicode} {l l' : Lexer}

/-! ## Delimiters -/

/-- What a stack of the lexer says about the open delimiters. -/
def delimsOf (ctx : List Ctx) : List Delim :=
  ctx.filterMap fun
    | .paren => some .paren
    | .bracket => some .bracket
    | .attrBracket => some .attribute
    | .brace => some .brace
    | .interp | .fmt => some .interp
    | .str _ => none

variable {tok : Tok} {ctx : List Ctx} {rest text : Text} {frame : StrFrame}

/-- A token that opens and closes no delimiter. -/
theorem delim_step_plain (delims : List Delim) (plain : isPlain tok = true) :
    Delim.step delims tok = delims := by
  fun_cases Delim.step delims tok <;> first | rfl | cases plain

theorem delim_step_literal (delims : List Delim) (kind : StrKind) (text : Text) :
    Delim.step delims (.strStart kind) = delims ∧ Delim.step delims .strEnd = delims ∧
      Delim.step delims (.strText text) = delims := by
  cases delims with
  | nil => exact ⟨rfl, rfl, rfl⟩
  | cons top _ => cases top <;> exact ⟨rfl, rfl, rfl⟩

theorem delim_step_term (delims : List Delim) : Delim.step delims (.term false) = delims := by
  cases delims with
  | nil => rfl
  | cons top _ => cases top <;> rfl

theorem delim_step_opening (delims : List Delim) {delim : Ctx} (isOpen : opening tok = some delim) :
    Delim.step delims tok = delimsOf [delim] ++ delims := by
  revert isOpen
  fun_cases opening tok <;> rintro ⟨⟩ <;> rfl

theorem delim_step_closing {left : List Ctx} (mode : tokenMode ctx = true)
    (closes : closing tok ctx = some left) : Delim.step (delimsOf ctx) tok = delimsOf left := by
  revert mode closes
  fun_cases closing tok ctx with
  | case8 => rintro _ ⟨⟩
  | _ =>
    rintro mode ⟨⟩
    first
      | rfl
      | rcases ctx with _ | ⟨top, ctx⟩
        · rfl
        · cases top with
          | str | fmt => cases mode
          | _ => first | rfl | simp_all

/-- A token moves the open delimiters as it moves the stack. -/
theorem Emits.delims {here : Nat} {ctx' : List Ctx} (effect : Emits here tok ctx ctx') :
    Delim.step (delimsOf ctx) tok = delimsOf ctx' := by
  cases effect with
  | plain mode plain => exact delim_step_plain _ plain
  | @opens tok delim _ mode isOpen =>
    rw [delim_step_opening _ isOpen, delimsOf, delimsOf, delimsOf, ← List.filterMap_append]
    rfl
  | closes mode closes => exact delim_step_closing mode closes
  | strStart => exact (delim_step_literal _ _ []).1
  | strEnd => exact (delim_step_literal _ .plain []).2.1
  | interpStart | specInterp | fmtStart | fmtText | interpEnd | fmtEnd => rfl

/-- In token mode the innermost delimiter is on top of the stack. -/
theorem delimsOf_head (mode : tokenMode ctx = true) :
    (delimsOf ctx).head? = some .attribute ↔ ctx.head? = some .attrBracket := by
  cases ctx with
  | nil => exact ⟨nofun, nofun⟩
  | cons top ctx =>
    cases top with
    | str => nomatch mode
    | fmt => nomatch mode
    | _ => simp [delimsOf]

theorem terminates_iff (mode : tokenMode l.ctx = true) : l.terminates = true ↔
      (delimsOf l.ctx).head? = none ∨ (delimsOf l.ctx).head? = some .brace := by
  rw [terminates, innermostDelimiter]
  generalize l.ctx = ctx at mode
  cases ctx with
  | nil => exact ⟨fun _ => .inl rfl, fun _ => rfl⟩
  | cons top ctx =>
    cases top with
    | str => nomatch mode
    | fmt => nomatch mode
    | _ => simp [delimsOf]

/-! ## Where newlines are -/

/-- A newline from the lexer's offset on is one of the text that is left. -/
theorem newline_ahead {src front : Text} {n : Nat} (split : src = front ++ rest)
    (newline : Newline src n) (ahead : bytes front ≤ n) :
    ∃ mid back, rest = mid ++ '\n' :: back ∧ bytes front + bytes mid = n := by
  obtain ⟨first, back, whole, rfl⟩ := newline
  rcases List.append_eq_append_iff.mp (split.symm.trans whole) with
    ⟨mid, rfl, same⟩ | ⟨mid, rfl, same⟩
  · exact ⟨mid, back, same, (bytes_append _ _).symm⟩
  · have none : mid = [] := by
      by_contra some_one
      have positive := bytes_pos some_one
      rw [bytes_append] at ahead
      omega
    subst none
    exact ⟨[], back, same.symm, by simp⟩

/-- A newline inside a piece of the text that is left. -/
theorem newline_in_piece {mid back : Text} (split : text ++ rest = mid ++ '\n' :: back)
    (inside : bytes mid < bytes text) : '\n' ∈ text := by
  rcases List.append_eq_append_iff.mp split with ⟨more, rfl, -⟩ | ⟨more, rfl, same⟩
  · rw [bytes_append] at inside
    omega
  · cases more with
    | nil =>
      rw [List.append_nil] at inside
      exact absurd inside (Nat.lt_irrefl _)
    | cons c more =>
      have isNewline : '\n' = c := (List.cons.inj same).1
      rw [isNewline]
      exact List.mem_append_right _ List.mem_cons_self

/-! ## The invariant -/

/-- The rule so far. -/
structure Ruled (u : Unicode) (l : Lexer) : Prop where
  streams : Streams l
  delims : Newlines.delims (l.tokens.map Token.tok) = delimsOf l.ctx
  attr : l.tokens ≠ [] →
    (l.attrClose = some (l.tokens.length - 1) ↔ closesAttribute (l.tokens.map Token.tok) = true)
  attrBound : ∀ index ∈ l.attrClose, index < l.tokens.length
  started : ∀ token ∈ l.tokens, token.span.start < l.pos
  pending : ∀ frame ctx, l.ctx = .str frame :: ctx → frame.pending ≠ [] →
    frame.pendingStart < l.pos ∧ ∀ token ∈ l.tokens, token.span.start < frame.pendingStart
  awaits : ∀ n, n < l.pos → inTokenMode n l.tokens = true → next n l.tokens = none →
    tokenMode l.ctx = true
  newlines : ∀ n, n < l.pos → Newline l.src n → inTokenMode n l.tokens = true →
    (Inserted n l.tokens ↔ Ends n l.tokens (elseNext n l.tokens (elseFollows u l.rest)))
  inserted : ∀ token ∈ l.tokens, token.tok = .term false →
    ∃ n, n < l.pos ∧ Newline l.src n ∧ inTokenMode n l.tokens = true ∧ token.span = .empty n

theorem literal_modes (mode : tokenMode ctx = false) :
    ∃ outer, modesOf ctx = .str :: outer ∨ modesOf ctx = .fmt :: outer := by
  cases ctx with
  | nil => nomatch mode
  | cons top ctx =>
    cases top with
    | str => exact ⟨modesOf ctx, .inl rfl⟩
    | fmt => exact ⟨modesOf ctx, .inr rfl⟩
    | _ => nomatch mode

/-- Where the tokens end, token mode is the lexer's. -/
theorem inTokenMode_now {n : Nat} (streams : Streams l)
    (started : ∀ token ∈ l.tokens, token.span.start < n)
    (inOrder : InOrder l.src n l.tokens) : inTokenMode n l.tokens = tokenMode l.ctx := by
  have covered : (l.tokens.all fun token => token.span.start < n → token.span.stop ≤ n) = true := by
    rw [List.all_eq_true]
    intro token member
    exact decide_eq_true fun _ => (inOrder.proper token member).2
  rw [inTokenMode, covered, before_all started, streams.modes, Bool.true_and]
  cases mode : tokenMode l.ctx with
  | true =>
    rcases tokenMode_modes streams.sound.nested mode with none | ⟨outer, interp⟩
    · rw [none]
    · rw [interp]
  | false =>
    obtain ⟨outer, str | fmt⟩ := literal_modes mode
    · rw [str]
    · rw [fmt]

/-- A terminator is inserted exactly when what comes before ends a statement and `else` does not
follow. -/
theorem insertTerminator_iff {at_ : Nat} (mode : tokenMode l.ctx = true)
    (delims : Newlines.delims (l.tokens.map Token.tok) = delimsOf l.ctx) (attr : l.tokens ≠ [] →
      (l.attrClose = some (l.tokens.length - 1) ↔ closesAttribute (l.tokens.map Token.tok) = true))
    (started : ∀ token ∈ l.tokens, token.span.start < at_) :
    (Ends at_ l.tokens (elseFollows u l.rest) ∧
        l.insertTerminator u at_ = l.push (.term false) (.empty at_)) ∨
      (¬ Ends at_ l.tokens (elseFollows u l.rest) ∧ l.insertTerminator u at_ = l) := by
  have isLast : (before at_ l.tokens).getLast? = l.tokens.getLast?.map Token.tok := by
    rw [before_all started, List.getLast?_map]
  rw [Ends, isLast, before_all started, delims, ← terminates_iff mode, insertTerminator]
  split
  · next closed => exact .inr ⟨fun all => closed all.2.1, rfl⟩
  · next opens =>
      have opens := Classical.not_not.mp opens
      split
      · next empty => exact .inr ⟨fun all => by simp [empty] at all, rfl⟩
      · next last found =>
          have some_one : l.tokens ≠ [] := by
            rintro none
            simp [none] at found
          rw [found]
          split
          · next notEnd => exact .inr ⟨fun all => notEnd all.1, rfl⟩
          · next isEnd =>
              have isEnd := Classical.not_not.mp isEnd
              split
              · next isAttr =>
                  have closes := (attr some_one).mp isAttr
                  exact .inr ⟨fun all => by simp [closes] at all, rfl⟩
              · next notAttr =>
                  have open_ : closesAttribute (l.tokens.map Token.tok) = false :=
                    Bool.eq_false_iff.mpr fun closes => notAttr ((attr some_one).mpr closes)
                  split
                  · next follows => exact .inr ⟨fun all => by simp [follows] at all, rfl⟩
                  · next notFollows =>
                      exact .inl ⟨⟨isEnd, opens, open_, by simpa using notFollows⟩, rfl⟩

/-! ## What a move does to the rule -/

theorem not_inTokenMode_of_literal {n : Nat} {tokens : List Token} {outer : List Mode}
    (modes : (before n tokens).foldlM Mode.step [] = some (.str :: outer)) :
    inTokenMode n tokens = false := by
  simp [inTokenMode, modes]

/-- Inside of a token there is no token mode. -/
theorem not_inTokenMode_of_inside {n : Nat} {tokens : List Token} {token : Token}
    (member : token ∈ tokens) (start : token.span.start < n) (stop : n < token.span.stop) :
    inTokenMode n tokens = false := by
  rw [inTokenMode, Bool.and_eq_false_iff]
  refine .inl (List.all_eq_false.mpr ⟨token, member, ?_⟩)
  simp [start, stop]

theorem Emits.not_inserted {here : Nat} {ctx' : List Ctx} (effect : Emits here tok ctx ctx') :
    tok ≠ .term false := by
  rintro rfl
  cases effect with
  | plain mode plain => nomatch plain
  | opens mode isOpen => nomatch isOpen
  | closes mode closes => cases ctx <;> nomatch closes

theorem elseNext_of_some {n : Nat} {tokens : List Token} (known : next n tokens ≠ none)
    (expected expected' : Bool) : elseNext n tokens expected = elseNext n tokens expected' := by
  rw [elseNext, elseNext]
  cases found : next n tokens with
  | none => exact absurd found known
  | some tok => rfl

theorem elseFollows_of_trivia (trivia : skipTrivia false text = skipTrivia false rest) :
    elseFollows u text = elseFollows u rest := by
  rw [elseFollows, elseFollows, trivia]

/-- The bracket that closed an attribute is the last token exactly when it was just emitted. -/
theorem attrAfter_iff {here index : Nat} {ctx' : List Ctx} {attrClose : Option Nat}
    (effect : Emits here tok ctx ctx') (bound : ∀ earlier ∈ attrClose, earlier < index) :
    attrAfter tok ctx index attrClose = some index ↔
      tok = .rBracket ∧ (delimsOf ctx).head? = some .attribute := by
  have inMode : tok = .rBracket → tokenMode ctx = true := by
    rintro rfl
    cases effect with
    | plain mode | opens mode | closes mode => exact mode
  rw [attrAfter]
  split
  · next both => exact ⟨fun _ => ⟨both.1, (delimsOf_head (inMode both.1)).mpr both.2⟩, fun _ => rfl⟩
  · next notBoth =>
      refine ⟨fun same => absurd (bound index same) (Nat.lt_irrefl _), fun both => ?_⟩
      exact absurd ⟨both.1, (delimsOf_head (inMode both.1)).mp both.2⟩ notBoth

theorem Ruled.emit {text rest : Text} {tok : Tok} {ctx : List Ctx} (ruled : Ruled u l)
    (split : l.rest = text ++ rest) (some_one : text ≠ [])
    (effect : Emits (l.pos + bytes text) tok l.ctx ctx)
    (starts : tokenMode l.ctx = true → Starts l.rest)
    (isElse : tokenMode l.ctx = true → (tok = .kw .else_ ↔ elseFollows u l.rest = true))
    (lines : '\n' ∈ text → l.errors ≠ [] ∨ tok = .strStart .multiline ∨ tok = .fmtText text) :
    Ruled u
      { l.feed text rest with
        ctx
        tokens := l.tokens ++ [⟨tok, ⟨l.pos, l.pos + bytes text⟩⟩]
        attrClose := attrAfter tok l.ctx l.tokens.length l.attrClose } := by
  have positive := bytes_pos some_one
  have notTerm := effect.not_inserted
  have known (n : Nat) (le : n ≤ l.pos) :
      next n (l.tokens ++ [⟨tok, ⟨l.pos, l.pos + bytes text⟩⟩]) ≠ none := by
    cases found : next n l.tokens with
    | none =>
      have isNext := @next_snoc_none n l.tokens ⟨tok, ⟨l.pos, l.pos + bytes text⟩⟩ found le notTerm
      simp [isNext]
    | some one => simp [next_snoc_some found]
  have inside (n : Nat) (after : l.pos < n) (before : n < l.pos + bytes text) :
      inTokenMode n (l.tokens ++ [⟨tok, ⟨l.pos, l.pos + bytes text⟩⟩]) = false :=
    not_inTokenMode_of_inside (List.mem_append_right _ (List.mem_singleton_self _)) after before
  refine ⟨?_, ?_, ?_, ?_, ?_, ?_, ?_, ?_, ?_⟩
  · exact (Move.emit (u := u) split some_one effect starts isElse lines).streams ruled.streams
  · rw [List.map_append, List.map_singleton, delims_snoc, ruled.delims]
    exact effect.delims
  · intro _
    rw [List.map_append, List.map_singleton, closesAttribute_snoc, ruled.delims,
      List.length_append, List.length_singleton, Nat.add_sub_cancel]
    exact attrAfter_iff effect ruled.attrBound
  · intro index isIndex
    rw [List.length_append, List.length_singleton]
    rw [attrAfter] at isIndex
    split at isIndex
    · rw [Option.mem_some.mp isIndex]
      exact Nat.lt_succ_self _
    · exact Nat.lt_succ_of_lt (ruled.attrBound index isIndex)
  · intro token member
    rcases List.mem_append.mp member with old | new
    · exact Nat.lt_add_right _ (ruled.started token old)
    · rw [List.mem_singleton.mp new]
      exact Nat.lt_add_of_pos_right positive
  · intro frame left top pending
    have flushed := effect.flushed ruled.streams.buried frame
    exact absurd
      (flushed (by rw [show ctx = .str frame :: left from top]; exact List.mem_cons_self))
      pending
  · intro n before inMode none
    rcases Nat.lt_or_ge l.pos n with after | le
    · rw [inside n after before] at inMode
      cases inMode
    · exact absurd none (known n le)
  · intro n before newline inMode
    rcases Nat.lt_trichotomy n l.pos with earlier | here | after
    · rw [inTokenMode_snoc (Nat.le_of_lt earlier)] at inMode
      rw [inserted_snoc (.inl notTerm), ends_snoc (Nat.le_of_lt earlier),
        ruled.newlines n earlier newline inMode]
      have same : elseNext n (l.tokens ++ [⟨tok, ⟨l.pos, l.pos + bytes text⟩⟩])
          (elseFollows u rest) = elseNext n l.tokens (elseFollows u l.rest) := by
        cases found : next n l.tokens with
        | none =>
          have mode := ruled.awaits n earlier inMode found
          rw [elseNext, elseNext, found,
            next_snoc_none found (Nat.le_of_lt earlier) notTerm]
          exact Bool.eq_iff_iff.mpr (decide_eq_true_iff.trans (isElse mode))
        | some one => rw [elseNext, elseNext, found, next_snoc_some found]
      rw [← same]
      rfl
    · subst here
      exfalso
      obtain ⟨front, whole, place⟩ := ruled.streams.sound.placed
      obtain ⟨mid, back, left, length⟩ := newline_ahead whole newline (Nat.le_of_eq place.symm)
      have none : mid = [] := by
        by_contra some_mid
        have positive := bytes_pos some_mid
        omega
      rw [none, List.nil_append] at left
      have same := @inTokenMode_snoc l.pos l.tokens ⟨tok, ⟨l.pos, l.pos + bytes text⟩⟩ le_rfl
      have mode := same.symm.trans inMode
      rw [inTokenMode_now ruled.streams ruled.started ruled.streams.inOrder] at mode
      obtain ⟨c, later, same, notBlank, -⟩ := starts mode
      rw [left] at same
      rw [← (List.cons.inj same).1] at notBlank
      exact absurd notBlank (by decide)
    · rw [inside n after before] at inMode
      cases inMode
  · intro token member isTerm
    rcases List.mem_append.mp member with old | new
    · obtain ⟨n, before, newline, inMode, span⟩ := ruled.inserted token old isTerm
      refine ⟨n, Nat.lt_add_right _ before, newline, ?_, span⟩
      rw [inTokenMode_snoc (Nat.le_of_lt before)]
      exact inMode
    · rw [List.mem_singleton.mp new] at isTerm
      exact absurd isTerm notTerm

theorem Ruled.blank (ruled : Ruled u l) (mode : tokenMode l.ctx = true)
    (split : l.rest = text ++ rest) (inLine : '\n' ∉ text)
    (trivia : skipTrivia false l.rest = skipTrivia false rest) : Ruled u (l.feed text rest) := by
  have grows : l.pos ≤ (l.feed text rest).pos := Nat.le_add_right _ _
  refine ⟨?_, ruled.delims, ruled.attr, ruled.attrBound, ?_, ?_, fun _ _ _ _ => mode, ?_, ?_⟩
  · exact (Move.blank (u := u) mode split inLine trivia).streams ruled.streams
  · exact fun token member => Nat.lt_of_lt_of_le (ruled.started token member) grows
  · intro frame ctx top pending
    obtain ⟨start, later⟩ := ruled.pending frame ctx top pending
    exact ⟨Nat.lt_of_lt_of_le start grows, later⟩
  · intro n before newline inMode
    rcases Nat.lt_or_ge n l.pos with earlier | ahead
    · have rule := ruled.newlines n earlier newline inMode
      rw [elseFollows_of_trivia trivia] at rule
      exact rule
    · obtain ⟨front, whole, place⟩ := ruled.streams.sound.placed
      obtain ⟨mid, back, left, length⟩ := newline_ahead whole newline (place ▸ ahead)
      have inside : bytes mid < bytes text := by
        have here : n < l.pos + bytes text := before
        omega
      exact absurd (newline_in_piece (split.symm.trans left) inside) inLine
  · intro token member isTerm
    obtain ⟨n, before, found⟩ := ruled.inserted token member isTerm
    exact ⟨n, Nat.lt_of_lt_of_le before grows, found⟩

theorem next_none_of_started {n : Nat} {tokens : List Token}
    (started : ∀ token ∈ tokens, token.span.start < n) : next n tokens = none := by
  rw [next, Option.map_eq_none_iff, List.find?_eq_none]
  intro token member
  have earlier := started token member
  simp [Nat.not_le.mpr earlier]

/-- A newline in token mode, where the rule is applied. -/
theorem Ruled.newline (ruled : Ruled u l) (mode : tokenMode l.ctx = true)
    (split : l.rest = '\n' :: rest) (inside : l.openPlainString l.pos = none) :
    Ruled u ((l.feed ['\n'] rest).insertTerminator u l.pos) := by
  have streams := (Move.newline (u := u) mode split inside).streams ruled.streams
  have width : (l.feed ['\n'] rest).pos = l.pos + 1 := rfl
  have trivia : elseFollows u l.rest = elseFollows u rest := by
    apply elseFollows_of_trivia
    rw [split, skipTrivia, if_pos (by decide)]
  have notInserted : ¬ Inserted l.pos l.tokens := fun member =>
    Nat.lt_irrefl _ (ruled.started _ member)
  have unknown := next_none_of_started ruled.started
  have isNewline : Newline l.src l.pos := by
    obtain ⟨front, whole, place⟩ := ruled.streams.sound.placed
    exact ⟨front, rest, by rw [whole, split], place.symm⟩
  have inMode : inTokenMode l.pos l.tokens = true := by
    rw [inTokenMode_now ruled.streams ruled.started ruled.streams.inOrder, mode]
  have pending (tokens : List Token) (frame : StrFrame) (ctx : List Ctx)
      (top : l.ctx = .str frame :: ctx) : frame.pending ≠ [] → frame.pendingStart < l.pos + 1 ∧
        ∀ token ∈ tokens, token.span.start < frame.pendingStart := by
    rw [top] at mode
    cases mode
  have earlier {n : Nat} (before : n < l.pos + 1) : n < l.pos ∨ n = l.pos := by omega
  rcases insertTerminator_iff (l := l.feed ['\n'] rest) mode ruled.delims ruled.attr
    ruled.started with
    ⟨ends, same⟩ | ⟨notEnds, same⟩
  · rw [same] at streams ⊢
    have snoc {n : Nat} (le : n ≤ l.pos) :
        inTokenMode n (l.tokens ++ [⟨.term false, .empty l.pos⟩]) = inTokenMode n l.tokens :=
      inTokenMode_snoc le
    refine ⟨streams, ?_, fun _ => ?_, ?_, ?_, pending _, fun _ _ _ _ => mode, ?_, ?_⟩
    · have step := delim_step_term (delimsOf l.ctx)
      rw [← ruled.delims, ← delims_snoc] at step
      simpa [push, feed, ← ruled.delims] using step
    · simp only [push, feed, List.map_append, List.map_singleton, closesAttribute_snoc,
        List.length_append, List.length_singleton, Nat.add_sub_cancel]
      refine iff_of_false (fun isLast => ?_) (by simp)
      exact Nat.lt_irrefl _ (ruled.attrBound _ isLast)
    · intro index isIndex
      simp only [push, feed, List.length_append, List.length_singleton]
      exact Nat.lt_succ_of_lt (ruled.attrBound index isIndex)
    · intro token member
      rcases List.mem_append.mp member with old | new
      · exact Nat.lt_succ_of_lt (ruled.started token old)
      · rw [List.mem_singleton.mp new]
        exact Nat.lt_succ_self _
    · intro n before newline inMode'
      rcases earlier before with lt | here
      · have rule := ruled.newlines n lt newline ((snoc (Nat.le_of_lt lt)).symm.trans inMode')
        have member := @inserted_snoc n l.tokens ⟨.term false, .empty l.pos⟩
          (.inr (Nat.ne_of_lt lt))
        have isNext := @next_snoc_inserted n l.tokens ⟨.term false, .empty l.pos⟩ rfl
        have ended := @ends_snoc n l.tokens ⟨.term false, .empty l.pos⟩
          (elseNext n l.tokens (elseFollows u rest)) (Nat.le_of_lt lt)
        rw [trivia, ← member, ← ended, elseNext, ← isNext] at rule
        exact rule
      · subst here
        refine iff_of_true (List.mem_append_right _ (List.mem_singleton_self _)) ?_
        have expected : elseNext l.pos (l.tokens ++ [⟨.term false, .empty l.pos⟩])
            (elseFollows u rest) = elseFollows u rest := by
          rw [elseNext, next_snoc_inserted rfl, unknown]
        have ended := (@ends_snoc l.pos l.tokens ⟨.term false, .empty l.pos⟩ (elseFollows u rest)
          le_rfl).mpr ends
        rw [← expected] at ended
        exact ended
    · intro token member isTerm
      rcases List.mem_append.mp member with old | new
      · obtain ⟨n, before, newline, inMode', span⟩ := ruled.inserted token old isTerm
        exact ⟨n, Nat.lt_succ_of_lt before, newline,
          (snoc (Nat.le_of_lt before)).trans inMode', span⟩
      · refine ⟨l.pos, Nat.lt_succ_self _, isNewline, (snoc le_rfl).trans inMode, ?_⟩
        rw [List.mem_singleton.mp new]
  · rw [same] at streams ⊢
    refine ⟨streams, ruled.delims, ruled.attr, ruled.attrBound, ?_, pending _, fun _ _ _ _ => mode,
      ?_, ?_⟩
    · exact fun token member => Nat.lt_succ_of_lt (ruled.started token member)
    · intro n before newline inMode'
      rcases earlier before with lt | here
      · have rule := ruled.newlines n lt newline inMode'
        rw [trivia] at rule
        exact rule
      · subst here
        have notEnds : ¬ Ends l.pos l.tokens (elseNext l.pos l.tokens (elseFollows u rest)) := by
          rw [elseNext, unknown]
          exact notEnds
        exact iff_of_false notInserted notEnds
    · intro token member isTerm
      obtain ⟨n, before, found⟩ := ruled.inserted token member isTerm
      exact ⟨n, Nat.lt_succ_of_lt before, found⟩

section

variable {frame : StrFrame} {ctx : List Ctx} (ruled : Ruled u l) (top : l.ctx = .str frame :: ctx)
include ruled top

/-- Below a literal every newline's rule is settled: its next token is known. -/
theorem Ruled.known {n : Nat} (before : n < l.pos) (inMode : inTokenMode n l.tokens = true) :
    next n l.tokens ≠ none := by
  intro unknown
  have mode := ruled.awaits n before inMode unknown
  rw [top] at mode
  nomatch mode

theorem Ruled.body {frame' : StrFrame} (split : l.rest = text ++ rest) (some_one : text ≠ [])
    (collects : Collects l (l.pos + bytes text) frame frame')
    (lines : '\n' ∈ text → l.errors ≠ [] ∨ spansLines frame.kind = true) :
    Ruled u { l.feed text rest with ctx := .str frame' :: ctx } := by
  have positive := bytes_pos some_one
  have delims := ruled.delims
  rw [top] at delims
  -- A newline of the body itself is in no token mode.
  have earlier {n : Nat} (inMode : inTokenMode n l.tokens = true) : n < l.pos := by
    by_contra ahead
    have le := Nat.le_of_not_lt ahead
    rw [inTokenMode_now ruled.streams
      (fun token member => Nat.lt_of_lt_of_le (ruled.started token member) le)
      (ruled.streams.inOrder.mono le), top] at inMode
    nomatch inMode
  refine ⟨?_, delims, ruled.attr, ruled.attrBound, ?_, ?_, ?_, ?_, ?_⟩
  · exact (Move.body (u := u) top split some_one collects lines).streams ruled.streams
  · exact fun token member => Nat.lt_add_right _ (ruled.started token member)
  · intro one left isTop pending
    cases isTop
    rcases collects.pending with ⟨same, start⟩ | ⟨-, start⟩
    · rw [same] at pending
      obtain ⟨before, later⟩ := ruled.pending frame ctx top pending
      rw [start]
      exact ⟨Nat.lt_add_right _ before, later⟩
    · rw [start]
      split
      · exact ⟨Nat.lt_add_of_pos_right positive, ruled.started⟩
      · next some_pending =>
          obtain ⟨before, later⟩ := ruled.pending frame ctx top some_pending
          exact ⟨Nat.lt_add_right _ before, later⟩
  · exact fun n _ inMode unknown => absurd unknown (ruled.known top (earlier inMode) inMode)
  · intro n _ newline inMode
    have rule := ruled.newlines n (earlier inMode) newline inMode
    rw [elseNext_of_some (ruled.known top (earlier inMode) inMode) _ (elseFollows u rest)] at rule
    exact rule
  · intro token member isTerm
    obtain ⟨n, before, found⟩ := ruled.inserted token member isTerm
    exact ⟨n, Nat.lt_add_right _ before, found⟩

theorem Ruled.flush {pieces : List Piece} (pending : frame.pending ≠ [])
    (more : ∀ piece ∈ pieces, piece ∈ frame.pieces ∨ piece = .text l.tokens.length) :
    Ruled u
      { l with
        ctx := .str { frame with pending := [], pieces } :: ctx
        tokens := l.tokens ++ [⟨.strText frame.pending, ⟨frame.pendingStart, l.pos⟩⟩] } := by
  obtain ⟨start, later⟩ := ruled.pending frame ctx top pending
  have delims := ruled.delims
  have modes := ruled.streams.modes
  rw [top] at delims modes
  have earlier {n : Nat} (inMode : inTokenMode n
      (l.tokens ++ [⟨.strText frame.pending, ⟨frame.pendingStart, l.pos⟩⟩]) = true) :
      n < frame.pendingStart := by
    by_contra ahead
    have le := Nat.le_of_not_lt ahead
    have all := before_all fun token member => Nat.lt_of_lt_of_le (later token member) le
    have literal : (before n (l.tokens ++
        [⟨.strText frame.pending, ⟨frame.pendingStart, l.pos⟩⟩])).foldlM Mode.step [] =
          some (.str :: modesOf ctx) := by
      rcases Nat.eq_or_lt_of_le le with here | after
      · rw [before_snoc (Nat.le_of_eq here.symm), all]
        exact modes
      · rw [before_snoc_of_lt after, all, List.foldlM_append, modes]
        rfl
    rw [not_inTokenMode_of_literal literal] at inMode
    nomatch inMode
  have settled {n : Nat} (before : n < frame.pendingStart)
      (inMode : inTokenMode n
        (l.tokens ++ [⟨.strText frame.pending, ⟨frame.pendingStart, l.pos⟩⟩]) = true) :
      inTokenMode n l.tokens = true ∧
        ∃ tok, next n l.tokens = some tok ∧
          next n (l.tokens ++ [⟨.strText frame.pending, ⟨frame.pendingStart, l.pos⟩⟩]) =
            some tok := by
    rw [inTokenMode_snoc (Nat.le_of_lt before)] at inMode
    have known := ruled.known top (Nat.lt_trans before start) inMode
    obtain ⟨tok, found⟩ := Option.ne_none_iff_exists'.mp known
    exact ⟨inMode, tok, found, next_snoc_some found⟩
  refine ⟨?_, ?_, fun _ => ?_, ?_, ?_, ?_, ?_, ?_, ?_⟩
  · exact (Move.flush (u := u) top pending more).streams ruled.streams
  · rw [List.map_append, List.map_singleton, delims_snoc, delims]
    exact (delim_step_literal _ .plain _).2.2
  · rw [List.map_append, List.map_singleton, closesAttribute_snoc, List.length_append,
      List.length_singleton, Nat.add_sub_cancel]
    exact iff_of_false (fun isLast => Nat.lt_irrefl _ (ruled.attrBound _ isLast)) nofun
  · intro index isIndex
    rw [List.length_append, List.length_singleton]
    exact Nat.lt_succ_of_lt (ruled.attrBound index isIndex)
  · intro token member
    rcases List.mem_append.mp member with old | new
    · exact ruled.started token old
    · rw [List.mem_singleton.mp new]
      exact start
  · intro one left isTop some_pending
    cases isTop
    exact absurd rfl some_pending
  · intro n _ inMode unknown
    obtain ⟨-, tok, -, found⟩ := settled (earlier inMode) inMode
    rw [found] at unknown
    nomatch unknown
  · intro n before newline inMode
    obtain ⟨inMode', tok, found, found'⟩ := settled (earlier inMode) inMode
    have rule := ruled.newlines n before newline inMode'
    rw [elseNext, found] at rule
    have notTerm : (.strText frame.pending : Tok) ≠ .term false := nofun
    rw [elseNext, found', inserted_snoc (.inl notTerm), ends_snoc (Nat.le_of_lt (earlier inMode))]
    exact rule
  · intro token member isTerm
    rcases List.mem_append.mp member with old | new
    · obtain ⟨n, before, newline, inMode, span⟩ := ruled.inserted token old isTerm
      refine ⟨n, before, newline, ?_, span⟩
      have atStart := later token old
      rw [span] at atStart
      rw [inTokenMode_snoc (Nat.le_of_lt atStart)]
      exact inMode
    · rw [List.mem_singleton.mp new] at isTerm
      nomatch isTerm

end

/-! ## The texts of literals do not matter -/

section Blur

variable {n : Nat} {tokens tokens' : List Token}

/-- A token without a literal's text. -/
def blurTok : Tok → Tok
  | .strText _ => .strText []
  | tok => tok

theorem blur_tok (token : Token) : (blur token).tok = blurTok token.tok := by
  obtain ⟨tok, span⟩ := token
  cases tok <;> rfl

theorem before_blur : before n (tokens.map blur) = (before n tokens).map blurTok := by
  simp [before, List.filter_map, Function.comp_def, blur_tok]

theorem delims_blur (toks : List Tok) : delims (toks.map blurTok) = delims toks := by
  have step (delims : List Delim) (tok : Tok) :
      Delim.step delims (blurTok tok) = Delim.step delims tok := by
    cases tok with
    | strText text =>
      exact ((delim_step_literal delims .plain []).2.2).trans
        (delim_step_literal delims .plain text).2.2.symm
    | _ => rfl
  rw [delims, delims, List.foldl_map]
  simp only [step]

theorem modes_blur (toks : List Tok) (modes : List Mode) :
    (toks.map blurTok).foldlM Mode.step modes = toks.foldlM Mode.step modes := by
  have step (modes : List Mode) (tok : Tok) :
      Mode.step modes (blurTok tok) = Mode.step modes tok := by
    have same := step_blur modes ⟨tok, ⟨0, 0⟩⟩
    rwa [blur_tok] at same
  rw [List.foldlM_map]
  simp only [step]

theorem closesAttribute_blur (toks : List Tok) :
    closesAttribute (toks.map blurTok) = closesAttribute toks := by
  have last : (toks.map blurTok).getLast? = some .rBracket ↔ toks.getLast? = some .rBracket := by
    rw [List.getLast?_map, Option.map_eq_some_iff]
    constructor
    · rintro ⟨tok, found, same⟩
      cases tok <;> first | exact found | nomatch same
    · exact fun found => ⟨_, found, rfl⟩
  rw [closesAttribute, closesAttribute, ← List.map_dropLast, delims_blur]
  simp only [last]

theorem inTokenMode_blur : inTokenMode n (tokens.map blur) = inTokenMode n tokens := by
  rw [inTokenMode, inTokenMode, before_blur, modes_blur, List.all_map]
  simp [Function.comp_def]

theorem next_blur : next n (tokens.map blur) = (next n tokens).map blurTok := by
  have term (tok : Tok) : blurTok tok = .term false ↔ tok = .term false := by
    cases tok <;> simp [blurTok]
  simp [next, List.find?_map, Function.comp_def, term, blur_tok]

theorem elseNext_blur (expected : Bool) :
    elseNext n (tokens.map blur) expected = elseNext n tokens expected := by
  rw [elseNext, elseNext, next_blur]
  cases next n tokens with
  | none => rfl
  | some tok => cases tok <;> rfl

theorem ends_blur (elseNext : Bool) :
    Ends n (tokens.map blur) elseNext ↔ Ends n tokens elseNext := by
  have last : ((before n tokens).map blurTok).getLast?.any Tok.endsAStatement =
      (before n tokens).getLast?.any Tok.endsAStatement := by
    rw [List.getLast?_map]
    cases (before n tokens).getLast? with
    | none => rfl
    | some tok => cases tok <;> rfl
  rw [Ends, Ends, before_blur, last, delims_blur, closesAttribute_blur]

theorem inserted_blur : Inserted n (tokens.map blur) ↔ Inserted n tokens := by
  rw [Inserted, Inserted, List.mem_map]
  constructor
  · rintro ⟨⟨tok, span⟩, member, same⟩
    have isSpan : span = .empty n := by simpa using congrArg Token.span same
    have isTok : blurTok tok = .term false := by simpa [blur_tok] using congrArg Token.tok same
    have same : tok = .term false := by
      revert isTok
      cases tok <;> first | exact id | nofun
    rw [same, isSpan] at member
    exact member
  · exact fun member => ⟨_, member, rfl⟩

end Blur

theorem Ruled.dedent {frame' : StrFrame} {tokens : List Token} (ruled : Ruled u l)
    (top : l.ctx = .str frame :: ctx) (pieces : frame'.pieces = frame.pieces)
    (lines : frame'.lineStarts = []) (start : frame'.pendingStart = frame.pendingStart)
    (less : frame.pending = [] → frame'.pending = []) (same : tokens.map blur = l.tokens.map blur)
    (isKind : frame'.kind = frame.kind) :
    Ruled u { l with ctx := .str frame' :: ctx, tokens } := by
  have delims := ruled.delims
  rw [top] at delims
  have length : tokens.length = l.tokens.length := by simpa using congrArg List.length same
  have toks : (tokens.map Token.tok).map blurTok = (l.tokens.map Token.tok).map blurTok := by
    simpa [Function.comp_def, blur_tok] using congrArg (List.map Token.tok) same
  have among (token : Token) (member : token ∈ tokens) :
      ∃ old ∈ l.tokens, blur old = blur token := by
    have isBlur := List.mem_map_of_mem (f := blur) member
    rw [same] at isBlur
    exact List.mem_map.mp isBlur
  have inMode (n : Nat) : inTokenMode n tokens = inTokenMode n l.tokens := by
    rw [← inTokenMode_blur, same, inTokenMode_blur]
  have unknown (n : Nat) (none : next n tokens = none) : next n l.tokens = .none := by
    have blurred : next n (tokens.map blur) = .none := by rw [next_blur, none, Option.map_none]
    rw [same, next_blur] at blurred
    exact Option.map_eq_none_iff.mp blurred
  have ended (n : Nat) (expected : Bool) :
      Ends n tokens (elseNext n tokens expected) ↔
        Ends n l.tokens (elseNext n l.tokens expected) := by
    rw [← ends_blur, same, ends_blur, ← elseNext_blur, same, elseNext_blur]
  have member (n : Nat) : Inserted n tokens ↔ Inserted n l.tokens := by
    rw [← inserted_blur, same, inserted_blur]
  refine ⟨?_, ?_, ?_, ?_, ?_, ?_, ?_, ?_, ?_⟩
  · exact (Move.dedent (u := u) top pieces lines start less same isKind).streams ruled.streams
  · rw [← delims_blur, toks, delims_blur]
    exact delims
  · intro some_one
    have old : l.tokens ≠ [] := by
      rintro none
      rw [none] at length
      exact some_one (List.length_eq_zero_iff.mp length)
    rw [length, ← closesAttribute_blur, toks, closesAttribute_blur]
    exact ruled.attr old
  · rw [length]
    exact ruled.attrBound
  · intro token isNew
    obtain ⟨old, isOld, blurred⟩ := among token isNew
    rw [← blur_span, ← blurred, blur_span]
    exact ruled.started old isOld
  · intro one left isTop pending
    cases isTop
    obtain ⟨before, later⟩ := ruled.pending frame ctx top fun empty => pending (less empty)
    rw [start]
    refine ⟨before, fun token isNew => ?_⟩
    obtain ⟨old, isOld, blurred⟩ := among token isNew
    rw [← blur_span, ← blurred, blur_span]
    exact later old isOld
  · intro n before inMode' none
    rw [inMode] at inMode'
    have mode := ruled.awaits n before inMode' (unknown n none)
    rw [top] at mode
    nomatch mode
  · intro n before newline inMode'
    rw [inMode] at inMode'
    rw [member, ended]
    exact ruled.newlines n before newline inMode'
  · intro token isNew isTerm
    obtain ⟨old, isOld, blurred⟩ := among token isNew
    have isTerm' : blurTok old.tok = .term false := by
      rw [← blur_tok, blurred, blur_tok, isTerm]
      rfl
    have oldTerm : old.tok = .term false := by
      revert isTerm'
      cases old.tok <;> first | exact id | nofun
    obtain ⟨n, before, newline, inMode', span⟩ := ruled.inserted old isOld oldTerm
    refine ⟨n, before, newline, (inMode n).trans inMode', ?_⟩
    rw [← blur_span, ← blurred, blur_span]
    exact span

theorem Move.ruled (move : Move u l l') (clean : l'.errors = []) (ruled : Ruled u l) :
    Ruled u l' := by
  have streams := move.streams ruled.streams
  cases move with
  | note => simp [error] at clean
  | tally =>
    exact ⟨streams, ruled.delims, ruled.attr, ruled.attrBound, ruled.started, ruled.pending,
      ruled.awaits, ruled.newlines, ruled.inserted⟩
  | blank mode split inLine trivia => exact ruled.blank mode split inLine trivia
  | newline mode split inside => exact ruled.newline mode split inside
  | emit split some_one effect starts isElse lines =>
    exact ruled.emit split some_one effect starts isElse lines
  | body top split some_one collects lines => exact ruled.body top split some_one collects lines
  | flush top pending more => exact ruled.flush top pending more
  | dedent top pieces lines start less same isKind =>
    exact ruled.dedent top pieces lines start less same isKind
  | abandon top flushed failed => exact absurd clean failed
  | unwound mode failed =>
    obtain ⟨left, toks, run, -⟩ := unwind_spec l.ctx l
    rw [unwindPlainString, run] at clean
    exact absurd clean failed

/-- Diagnostics stay. -/
theorem Move.clean (move : Move u l l') (clean : l'.errors = []) : l.errors = [] := by
  cases move with
  | note => simp [error] at clean
  | @newline rest =>
    rcases insertTerminator_spec u (l.feed ['\n'] rest) l.pos with same | same <;>
      rw [same] at clean <;> exact clean
  | unwound mode failed =>
    obtain ⟨left, toks, run, -⟩ := unwind_spec l.ctx l
    rw [unwindPlainString, run] at clean
    exact clean
  | _ => exact clean

theorem Moves.ruled (moves : Moves u l l') (clean : l'.errors = []) (ruled : Ruled u l) :
    Ruled u l' := by
  induction moves with
  | refl => exact ruled
  | tail _ move ih => exact move.ruled clean (ih (move.clean clean))

theorem ruled_begin {src : Text} (split : src = text ++ rest) (inLine : '\n' ∉ text) :
    Ruled u ((initial src).feed text rest) := by
  have none_yet {token : Token} : token ∉ ((initial src).feed text rest).tokens := List.not_mem_nil
  refine ⟨streams_begin split, rfl, fun some_one => absurd rfl some_one, nofun,
    fun _ member => absurd member none_yet, fun _ _ same => (nomatch same), fun _ _ _ _ => rfl, ?_,
    fun _ member => absurd member none_yet⟩
  intro n before newline _
  have zero : bytes [] ≤ n := Nat.zero_le n
  obtain ⟨mid, back, left, length⟩ := newline_ahead (List.nil_append src).symm newline zero
  have place : ((initial src).feed text rest).pos = bytes text := Nat.zero_add _
  rw [place] at before
  rw [bytes_nil, Nat.zero_add] at length
  exact absurd (newline_in_piece (split.symm.trans left) (length ▸ before)) inLine

end Run

end Lexer

/-! ## The rule -/

open Newlines

/-- The tokens of a text without errors obey the newline rule: terminators are inserted at the
newlines that ask for one, and at the end of the text after a token that ends a statement. -/
structure Obeys (src : Text) (tokens : List Token) : Prop where
  newlines : ∀ n, Newline src n → inTokenMode n tokens = true →
    (Inserted n tokens ↔ Terminates n tokens)
  others : ∀ token ∈ tokens, token.tok = .term false →
    (∃ n, Newline src n ∧ inTokenMode n tokens = true ∧ token.span = .empty n) ∨
      token.span = .empty (bytes src) ∧ ∃ earlier last, tokens = earlier ++ [last, token] ∧
        last.tok.endsAStatement = true

theorem Newline.lt {src : Text} {n : Nat} (newline : Newline src n) : n < bytes src := by
  obtain ⟨front, back, rfl, rfl⟩ := newline
  rw [bytes_append, bytes_cons]
  have positive := ('\n').utf8Size_pos
  omega

/-- Where the text has run out, `else` is not expected. -/
theorem terminates_iff_ends {n : Nat} {tokens : List Token} :
    Terminates n tokens ↔ Ends n tokens (elseNext n tokens false) := by
  have same : decide (next n tokens = some (.kw .else_)) = elseNext n tokens false := by
    rw [elseNext]
    cases next n tokens with
    | none => rfl
    | some tok => simp
  rw [Terminates, same]

theorem Lexer.Ruled.obeys {u : Unicode} {l : Lexer} (ruled : Lexer.Ruled u l)
    (ended : l.rest = []) :
    Obeys l.src l.tokens := by
  have place := ruled.streams.sound.pos_eq ended
  refine ⟨fun n newline inMode => ?_, fun token member isTerm => .inl ?_⟩
  · have rule := ruled.newlines n (place ▸ newline.lt) newline inMode
    rw [ended] at rule
    exact rule.trans terminates_iff_ends.symm
  · obtain ⟨n, -, newline, inMode, span⟩ := ruled.inserted token member isTerm
    exact ⟨n, newline, inMode, span⟩

/-- The terminator at the end of the text. -/
theorem Obeys.snoc {src : Text} {tokens : List Token} (obeys : Obeys src tokens)
    (isEnd : tokens.getLast?.any fun last => last.tok.endsAStatement) :
    Obeys src (tokens ++ [⟨.term false, .empty (bytes src)⟩]) := by
  have mode {n : Nat} (newline : Newline src n) :
      inTokenMode n (tokens ++ [⟨.term false, .empty (bytes src)⟩]) = inTokenMode n tokens :=
    inTokenMode_snoc (Nat.le_of_lt newline.lt)
  refine ⟨fun n newline inMode => ?_, fun token member isTerm => ?_⟩
  · rw [mode newline] at inMode
    have member := @inserted_snoc n tokens ⟨.term false, .empty (bytes src)⟩
      (.inr (Nat.ne_of_lt newline.lt))
    have isNext := @next_snoc_inserted n tokens ⟨.term false, .empty (bytes src)⟩ rfl
    rw [member, Terminates, isNext, ends_snoc (Nat.le_of_lt newline.lt)]
    exact obeys.newlines n newline inMode
  · rcases List.mem_append.mp member with old | new
    · rcases obeys.others token old isTerm with
        ⟨n, newline, inMode, span⟩ | ⟨span, earlier, last, same, -⟩
      · exact .inl ⟨n, newline, (mode newline).trans inMode, span⟩
      · -- A terminator does not end a statement.
        rw [same, List.append_cons, List.getLast?_concat, Option.any_some, isTerm] at isEnd
        cases isEnd
    · refine .inr ⟨by rw [List.mem_singleton.mp new], ?_⟩
      rcases List.eq_nil_or_concat tokens with rfl | ⟨earlier, last, rfl⟩
      · nomatch isEnd
      · refine ⟨earlier, last, ?_, by simpa using isEnd⟩
        rw [List.mem_singleton.mp new]
        simp

/-- Closing what is open reports nothing only where nothing is open. -/
theorem Lexer.closed_tokens {l : Lexer}
    (clean : l.closeUnterminated.insertTerminatorAtEof.errors = []) : l.errors = [] ∧
      (l.closeUnterminated.insertTerminatorAtEof.tokens = l.tokens ∨
        l.closeUnterminated.insertTerminatorAtEof.tokens =
            l.tokens ++ [⟨.term false, .empty (bytes l.src)⟩] ∧
          l.tokens.getLast?.any fun last => last.tok.endsAStatement) := by
  obtain ⟨errors, toks, closed, -, unreported⟩ :=
    Lexer.closeAll_spec l.ctx { l with openAtEof := l.ctx ≠ [] }
  have isClosed : l.closeUnterminated = _ := closed
  rcases Lexer.insertTerminatorAtEof_spec l.closeUnterminated with same | ⟨same, isEnd⟩
  all_goals
    rw [same, isClosed] at clean
    obtain ⟨before, silent⟩ := List.append_eq_nil_iff.mp clean
    have kept : l.closeUnterminated.tokens = l.tokens := by
      rw [isClosed, unreported silent]
      exact List.append_nil _
    have src : l.closeUnterminated.src = l.src := by rw [isClosed]
    refine ⟨before, ?_⟩
  · rw [same, kept]
    exact .inl rfl
  · rw [kept] at isEnd
    rw [same, Lexer.push, kept, src]
    exact .inr ⟨rfl, isEnd⟩

/-- Closing what is open keeps the rule when it reports nothing. -/
theorem Lexer.Ruled.closed {u : Unicode} {l : Lexer} (ruled : l.errors = [] → Lexer.Ruled u l)
    (ended : l.rest = []) (clean : l.closeUnterminated.insertTerminatorAtEof.errors = []) :
    Obeys l.src l.closeUnterminated.insertTerminatorAtEof.tokens := by
  obtain ⟨before, same | ⟨same, isEnd⟩⟩ := Lexer.closed_tokens clean
  · rw [same]
    exact (ruled before).obeys ended
  · rw [same]
    exact ((ruled before).obeys ended).snoc isEnd

/-- `[gram.lex.newline]` for every text that lexes without an error. -/
theorem lex_newlines {u : Unicode} {src : Text} {lexed : Lexed} (run : lex u src = some lexed)
    (clean : lexed.errors = []) : Obeys src lexed.tokens := by
  obtain ⟨text, rest, l, split, inLine, moves, ended, isRun⟩ := Lexer.run_spec u src
  rw [lex, isRun] at run
  cases run
  have kept : l.src = src := Lexer.Moves.src moves (Lexer.sound_begin split)
  have obeys := Lexer.Ruled.closed
    (fun before => Lexer.Moves.ruled moves before (Lexer.ruled_begin split inLine)) ended clean
  rw [kept] at obeys
  exact obeys

/-- A line that begins with `else` continues the one before it. -/
theorem lex_newlines_example :
    Obeys "a\nelse b\nc".toList
      [⟨.ident ['a'], ⟨0, 1⟩⟩, ⟨.kw .else_, ⟨2, 6⟩⟩, ⟨.ident ['b'], ⟨7, 8⟩⟩,
        ⟨.term false, .empty 8⟩,
        ⟨.ident ['c'], ⟨9, 10⟩⟩, ⟨.term false, .empty 10⟩] :=
  @lex_newlines .ascii _
    ⟨[⟨.ident ['a'], ⟨0, 1⟩⟩, ⟨.kw .else_, ⟨2, 6⟩⟩, ⟨.ident ['b'], ⟨7, 8⟩⟩, ⟨.term false, .empty 8⟩,
      ⟨.ident ['c'], ⟨9, 10⟩⟩, ⟨.term false, .empty 10⟩], [], [], 0, false⟩
    (by decide) rfl

end WolfInterp.Lex
