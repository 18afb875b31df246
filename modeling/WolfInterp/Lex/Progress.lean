import WolfInterp.Lex.Moves

/-!
# The scanning functions make progress

No scanning function panics on a sound lexer, each does a sequence of moves, and each makes the
lexer lighter: a character that is left weighs two open frames.
-/

namespace WolfInterp.Lex

namespace Lexer

/-- What the lexer still has to do. -/
def weight (l : Lexer) : Nat := 2 * l.rest.length + l.ctx.length

/-- A sequence of quiet moves after which less is left to do. -/
def Goes (u : Unicode) (l l' : Lexer) : Prop := Quiets u l l' ∧ weight l' < weight l

section Goes

variable {u : Unicode} {start l l' l'' : Lexer}

variable {code anchor : String} {span : Span} {c : Char} {p : Char → Bool} {condition : Prop}

/-- A diagnostic may be noted first. -/
theorem Goes.noted (goes : Goes u (l.error code span anchor) l') : Goes u l l' :=
  ⟨.head ⟨.note code span anchor, fun _ => rfl⟩ goes.1, goes.2⟩

/-! ## Text of one line -/

/-- One state is another one that stepped over a piece of a line. -/
def Lined (start l : Lexer) : Prop :=
  ∃ text rest, start.rest = text ++ rest ∧ l = start.feed text rest ∧ '\n' ∉ text

theorem Lined.fed (lined : Lined start l) : Fed start l := by
  obtain ⟨text, rest, split, same, -⟩ := lined
  exact ⟨text, rest, split, same⟩

theorem Lined.refl (l : Lexer) : Lined l l := ⟨[], l.rest, rfl, rfl, nofun⟩

theorem Lined.trans (first : Lined start l) (second : Lined l l') : Lined start l' := by
  obtain ⟨text, rest, split, rfl, inLine⟩ := first
  obtain ⟨text', rest', split', rfl, inLine'⟩ := second
  have inner : rest = text' ++ rest' := split'
  refine ⟨text ++ text', rest', ?_, feed_feed start text rest text' rest', ?_⟩
  · rw [split, inner, List.append_assoc]
  · rw [List.mem_append]
    rintro (member | member)
    · exact inLine member
    · exact inLine' member

theorem Lined.bump (head : l.peek = some c) (other : c ≠ '\n') : Lined l l.bump := by
  obtain ⟨rest, split⟩ := List.head?_eq_some_iff.mp head
  exact ⟨[c], rest, split, bump_eq split, fun member => other (List.mem_singleton.mp member).symm⟩

theorem Lined.skipWhile (l : Lexer) (stops : p '\n' = false) : Lined l (l.skipWhile p) := by
  refine ⟨_, _, List.takeWhile_append_dropWhile.symm, skipWhile_eq l p, fun member => ?_⟩
  have inside := List.all_eq_true.mp List.all_takeWhile _ member
  rw [stops] at inside
  nomatch inside

theorem Lined.ite [Decidable condition] (yes : condition → Lined start l) (no : Lined start l') :
    Lined start (if condition then l else l') := by
  split
  · next holds => exact yes holds
  · exact no

theorem Lined.hexDigits (limit value digits : Nat) (l : Lexer) :
    Lined l (hexDigits limit value digits l).2.2 := by
  fun_induction Lexer.hexDigits limit value digits l with
  | case1 => exact .refl _
  | case2 limit value digits l d found ih =>
    obtain ⟨c, head, digit⟩ := Option.bind_eq_some_iff.mp found
    refine (Lined.bump head ?_).trans ih
    rintro rfl
    cases digit
  | case3 => exact .refl _

/-! ## What comes before `else` -/

theorem Starts.skipTrivia {text : Text} (starts : Starts text) : skipTrivia false text = text := by
  obtain ⟨c, rest, rfl, notBlank, noComment⟩ := starts
  rw [Lexer.skipTrivia, if_neg (by simp [notBlank]), if_neg (fun both => noComment both.1 both.2)]

theorem elseFollows_of_head {text : Text} (starts : Starts text) (head : text.head? ≠ some 'e') :
    elseFollows u text = false := by
  rw [elseFollows, starts.skipTrivia]
  split
  · exact absurd rfl head
  · rfl

theorem takeWhile_eq_iff {text word rest : Text} (split : text = word ++ rest)
    (all : word.all p = true) :
    text.takeWhile p = word ↔ rest.head?.all (fun c => !p c) = true := by
  have taken : text.takeWhile p = word ++ rest.takeWhile p := by
    rw [split, List.takeWhile_append_of_pos (fun c member => List.all_eq_true.mp all c member)]
  rw [taken, List.append_right_eq_self]
  cases rest with
  | nil => simp
  | cons c rest =>
    cases test : p c with
    | true | false => simp [List.takeWhile, test]

/-- An ASCII character continues a word as usual. -/
theorem isXidContinue_ascii (ascii : c.toNat < 128) :
    u.isXidContinue c = (c.isAlpha || c.isDigit || c = '_') := by
  rw [Unicode.isXidContinue, u.alphabetic_ascii c ascii, u.numeric_ascii c ascii]

theorem isBlank_cases (blank : isBlank c = true) :
    c = ' ' ∨ c = '\t' ∨ c = '\r' ∨ c = '\n' ∨ c = Char.ofNat 0x0b ∨ c = Char.ofNat 0x0c := by
  simpa [isBlank] using blank

theorem not_blank_of_word (word : u.isXidContinue c = true) : isBlank c = false := by
  cases blank : isBlank c with
  | false => rfl
  | true =>
    rcases isBlank_cases blank with rfl | rfl | rfl | rfl | rfl | rfl <;>
      exact absurd (word.symm.trans (isXidContinue_ascii (by decide))) (by decide)

theorem starts_of_word {rest : Text} (word : u.isXidContinue c = true) : Starts (c :: rest) := by
  refine ⟨c, rest, rfl, not_blank_of_word word, ?_⟩
  rintro rfl
  exact absurd (word.symm.trans (isXidContinue_ascii (by decide))) (by decide)

/-- The lookahead agrees with the scan of a word. -/
theorem elseFollows_iff {text : Text} (starts : Starts text) :
    elseFollows u text = true ↔ text.takeWhile u.isXidContinue = ['e', 'l', 's', 'e'] := by
  have letters : (['e', 'l', 's', 'e'] : Text).all u.isXidContinue = true := by
    simp [isXidContinue_ascii]
  rw [elseFollows, starts.skipTrivia]
  split
  · next rest =>
      have cut : ('e' :: 'l' :: 's' :: 'e' :: rest : Text) = ['e', 'l', 's', 'e'] ++ rest := rfl
      rw [takeWhile_eq_iff cut letters]
      have same : (fun c => !(u.isXidContinue c || decide (c = '_'))) =
          fun c => !u.isXidContinue c := by
        funext c
        cases test : u.isXidContinue c with
        | true => rfl
        | false =>
          have other : c ≠ '_' := by
            rintro rfl
            rw [isXidContinue_ascii (by decide)] at test
            exact absurd test (by decide)
          simp [other]
      rw [same]
  · next other =>
      refine ⟨nofun, fun taken => ?_⟩
      have split := List.takeWhile_append_dropWhile (p := u.isXidContinue) (l := text)
      rw [taken] at split
      exact absurd split.symm (other _)

/-! ## Emitting a token -/

theorem Emits.length_le {here : Nat} {tok : Tok} {ctx ctx' : List Ctx}
    (effect : Emits here tok ctx ctx') : ctx'.length ≤ ctx.length + 1 := by
  cases effect with
  | closes mode closes => exact Nat.le_succ_of_le (closing_suffix closes).length_le
  | _ => simp <;> omega

section

variable {text rest : Text} {tok : Tok} {ctx : List Ctx} (split : l.rest = text ++ rest)
  (some_one : text ≠ []) (effect : Emits (l.pos + bytes text) tok l.ctx ctx)
include split some_one effect

/-- A token of the text between two states leaves less to do. -/
theorem lighter_emit {tokens : List Token} {attrClose : Option Nat} :
    weight { l.feed text rest with ctx, tokens, attrClose } < weight l := by
  have longer := effect.length_le
  have consumed := List.length_pos_iff.mpr some_one
  have length : l.rest.length = text.length + rest.length := by rw [split, List.length_append]
  simp only [weight, feed]
  omega

/-- The emission of a token of the text between two states. -/
theorem goes_emit (starts : tokenMode l.ctx = true → Starts l.rest)
    (isElse : tokenMode l.ctx = true → (tok = .kw .else_ ↔ elseFollows u l.rest = true))
    (lines : '\n' ∈ text → l.errors ≠ [] ∨ tok = .strStart .multiline)
    (notFmt : l.ctx.head? ≠ some .fmt) :
    Goes u l
      { l.feed text rest with
        ctx
        tokens := l.tokens ++ [⟨tok, ⟨l.pos, l.pos + bytes text⟩⟩]
        attrClose := attrAfter tok l.ctx l.tokens.length l.attrClose } := by
  refine ⟨.single (Move.quiet ?_ notFmt), lighter_emit split some_one effect⟩
  exact .emit split some_one effect starts isElse fun member => (lines member).imp_right .inl

end

theorem attrAfter_of_ne {tok : Tok} {ctx : List Ctx} {index : Nat} {attrClose : Option Nat}
    (other : tok ≠ .rBracket) : attrAfter tok ctx index attrClose = attrClose := by
  rw [attrAfter, if_neg (fun both => other both.1)]

/-- The emission of a token that is no closing bracket. -/
theorem goes_token {text rest : Text} {tok : Tok} {ctx : List Ctx} (split : l.rest = text ++ rest)
    (some_one : text ≠ []) (effect : Emits (l.pos + bytes text) tok l.ctx ctx)
    (starts : tokenMode l.ctx = true → Starts l.rest)
    (isElse : tokenMode l.ctx = true → (tok = .kw .else_ ↔ elseFollows u l.rest = true))
    (lines : '\n' ∈ text → l.errors ≠ [] ∨ tok = .strStart .multiline)
    (notFmt : l.ctx.head? ≠ some .fmt) (other : tok ≠ .rBracket) :
    Goes u l
      { l.feed text rest with
        ctx
        tokens := l.tokens ++ [⟨tok, ⟨l.pos, l.pos + bytes text⟩⟩] } := by
  have goes := goes_emit split some_one effect starts isElse lines notFmt
  rw [attrAfter_of_ne other] at goes
  exact goes

/-- What a scan of a token begins with. -/
structure Fresh (u : Unicode) (l : Lexer) : Prop where
  mode : tokenMode l.ctx = true
  starts : Starts l.rest
  notElse : elseFollows u l.rest = false

section

variable {tok : Tok} (fresh : Fresh u start)
include fresh

/-- A token that is no word and leaves the stack alone. -/
theorem Fresh.spelled {text rest : Text} (split : start.rest = text ++ rest)
    (progress : rest.length < start.rest.length) (lines : '\n' ∈ text → start.errors ≠ [])
    (isPlain : isPlain tok = true) (notElse : tok ≠ .kw .else_) : Goes u start
      ((start.feed text rest).push tok ⟨start.pos, (start.feed text rest).pos⟩) := by
  have some_one : text ≠ [] := by
    rintro rfl
    rw [split] at progress
    exact Nat.lt_irrefl _ progress
  have other : tok ≠ .rBracket := by
    rintro rfl
    nomatch isPlain
  exact goes_token split some_one (.plain fresh.mode isPlain) (fun _ => fresh.starts)
    (fun _ => ⟨fun same => absurd same notElse, fun follows => by simp [fresh.notElse] at follows⟩)
    (fun member => .inl (lines member)) (notFmt_of_tokenMode fresh.mode) other

theorem Fresh.plain (lined : Lined start l) (progress : l.rest.length < start.rest.length)
    (isPlain : isPlain tok = true) (notElse : tok ≠ .kw .else_) :
    Goes u start (l.push tok ⟨start.pos, l.pos⟩) := by
  obtain ⟨text, rest, split, rfl, inLine⟩ := lined
  exact fresh.spelled split progress (fun member => absurd member inLine) isPlain notElse

/-! ## Numbers -/

theorem Fresh.error :
    Fresh u (start.error code span anchor) := ⟨fresh.mode, fresh.starts, fresh.notElse⟩

theorem Fresh.plainFrom {mid : Lexer} (lined : Lined start mid)
    (progress : mid.rest.length < start.rest.length) (more : Lined mid l)
    (isPlain : isPlain tok = true) (notElse : tok ≠ .kw .else_) :
    Goes u start (l.push tok ⟨start.pos, l.pos⟩) :=
  fresh.plain (lined.trans more) (Nat.lt_of_le_of_lt more.fed.length_le progress) isPlain notElse

/-- The error token of a text that was refused. -/
theorem Fresh.refused (fed : Fed start l) (progress : l.rest.length < start.rest.length)
    (isPlain : isPlain tok = true) (notElse : tok ≠ .kw .else_) :
    Goes u start ((l.error code span anchor).push tok ⟨start.pos, l.pos⟩) := by
  obtain ⟨text, rest, split, rfl⟩ := fed
  have failed : (start.error code span anchor).errors ≠ [] := by simp [Lexer.error]
  have again : Fresh u (start.error code span anchor) := fresh.error
  exact Goes.noted (again.spelled split progress (fun _ => failed) isPlain notElse)

end

theorem peekAt_eq {offset : Nat} {text rest : Text} (split : l.rest = text ++ rest)
    (length : bytes text = offset) : l.peekAt offset = rest.head? := by
  rw [peekAt, split, ← length, dropBytes_append]
  rfl

theorem baseRadix_ascii {radix : Nat} (base : baseRadix c = some radix) : c.utf8Size = 1 := by
  revert base
  fun_cases baseRadix c with
  | case7 => nofun
  | _ => exact fun _ => rfl

theorem Fed.ite [Decidable condition] (yes : Fed start l) (no : Fed start l') :
    Fed start (if condition then l else l') := by
  split
  · exact yes
  · exact no

theorem Lined.eatDecimalRun (l : Lexer) : Lined l l.eatDecimalRun := Lined.skipWhile l rfl

theorem length_skipWhile {rest : Text} (split : l.rest = c :: rest) (first : p c = true) :
    (l.skipWhile p).rest.length < l.rest.length := by
  have shorter := (List.dropWhile_suffix p (l := rest)).length_le
  have dropped : (l.skipWhile p).rest = rest.dropWhile p := by
    rw [skipWhile_eq, feed, split, List.dropWhile_cons_of_pos first]
  rw [dropped, split, List.length_cons]
  omega

theorem number_plain [Decidable condition] (first second : Text) :
    isPlain (if condition then .float first else .int second) = true ∧
      (if condition then .float first else .int second : Tok) ≠ .kw .else_ := by
  split
  · exact ⟨rfl, nofun⟩
  · exact ⟨rfl, nofun⟩

theorem scanNumber_spec {rest : Text} (fresh : Fresh u start) (split : start.rest = c :: rest)
    (digit : isAsciiDigit c = true) : ∃ l, start.scanNumber = some l ∧ Goes u start l := by
  rw [scanNumber]
  split
  · next radix based =>
      split at based
      · next zero =>
          have isZero : c = '0' := by simpa [peek, split] using zero
          subst isZero
          have zero : ('0' :: rest : Text) = ['0'] ++ rest := rfl
          rw [peekAt_eq (split.trans zero) (by decide)] at based
          cases rest with
          | nil => nomatch based
          | cons marker rest =>
            have width := baseRadix_ascii based
            have skipped : start.skip 2 = some (start.feed ['0', marker] rest) := by
              have two : bytes ['0', marker] = 2 := by simp [width]; decide
              rw [← two]
              exact skip_eq split
            have lined : Lined start (start.feed ['0', marker] rest) := by
              refine ⟨_, _, split, rfl, fun member => ?_⟩
              rcases List.mem_cons.mp member with same | member
              · nomatch same
              · rw [← List.mem_singleton.mp member] at based
                nomatch based
            rw [skipped]
            have stops : (decide ('\n' = '_') || isAsciiAlphanumeric '\n') = false := by decide
            have whole :=
              lined.trans (Lined.skipWhile _ (p := fun c => c = '_' || isAsciiAlphanumeric c) stops)
            have progress : ((start.feed ['0', marker] rest).skipWhile
                fun c => c = '_' || isAsciiAlphanumeric c).rest.length < start.rest.length := by
              have le := (Fed.skipWhile (start.feed ['0', marker] rest)
                fun c => c = '_' || isAsciiAlphanumeric c).length_le
              have cut : (start.feed ['0', marker] rest).rest.length = rest.length := rfl
              rw [split, List.length_cons, List.length_cons]
              omega
            refine ⟨_, rfl, ?_⟩
            split
            · exact fresh.plain whole progress rfl nofun
            · exact fresh.refused whole.fed progress rfl nofun
      · nomatch based
  · next none =>
      have lined := Lined.eatDecimalRun start
      have progress : start.eatDecimalRun.rest.length < start.rest.length :=
        length_skipWhile split (by simp [digit])
      have fraction : Lined start.eatDecimalRun
          (if start.eatDecimalRun.peek = some '.' ∧ start.eatDecimalRun.peekAt 1 ≠ some '.' ∧
              (start.eatDecimalRun.peekAt 1).any isAsciiDigit = true then
            start.eatDecimalRun.bump.eatDecimalRun else start.eatDecimalRun) :=
        .ite (fun dot => (Lined.bump dot.1 (by decide)).trans (.eatDecimalRun _)) (.refl _)
      refine ⟨_, rfl, fresh.plainFrom lined progress ?_ ?_ ?_⟩
      · apply Lined.ite
        · rintro ⟨marker, -⟩
          apply Lined.trans _ (Lined.eatDecimalRun _)
          have sign (l : Lexer) :
              Lined l (if l.peek = some '+' ∨ l.peek = some '-' then l.bump else l) := by
            refine .ite ?_ (.refl l)
            rintro (plus | minus)
            · exact .bump plus (by decide)
            · exact .bump minus (by decide)
          have marked {l : Lexer} (marker : l.peek = some 'e' ∨ l.peek = some 'E') :
              Lined l l.bump := by
            rcases marker with lower | upper
            · exact .bump lower (by decide)
            · exact .bump upper (by decide)
          exact (fraction.trans (marked marker)).trans (sign _)
        · exact fraction
      · exact (number_plain _ _).1
      · exact (number_plain _ _).2

/-! ## Char literals -/

theorem Fed.scanCharUnicodeEscape (l : Lexer) (escape : Nat) :
    Fed l (l.scanCharUnicodeEscape escape).2 := by
  rw [Lexer.scanCharUnicodeEscape]
  split
  · exact .refl l
  · have digits := (Fed.bump l).trans (Fed.hexDigits l.bump.rest.length 0 0 l.bump)
    dsimp only
    split
    · exact digits
    · have closed := digits.trans (Fed.bump _)
      split
      · exact closed
      · split
        · exact closed
        · exact closed

theorem Fed.scanCharEscape (start : Lexer) : Fed start.bump start.scanCharEscape.2 := by
  rw [Lexer.scanCharEscape]
  split
  · exact .refl _
  · have escaped := Fed.bump start.bump
    split
    case h_8 =>
      have digits := escaped.trans (Fed.hexDigits 2 0 0 start.bump.bump)
      dsimp only
      split
      · exact digits
      · exact digits
    case h_9 => exact escaped.trans (.scanCharUnicodeEscape _ _)
    all_goals exact escaped

/-- An escape that decodes is on one line. -/
theorem Lined.scanCharUnicodeEscape {escape : Nat}
    (decoded : l.scanCharUnicodeEscape escape = (.ok c, l')) : Lined l l' := by
  rw [Lexer.scanCharUnicodeEscape] at decoded
  split at decoded
  · nomatch decoded
  · next brace =>
      have opened := Classical.not_not.mp brace
      have digits := (Lined.bump opened (by decide)).trans
        (Lined.hexDigits l.bump.rest.length 0 0 l.bump)
      dsimp only at decoded
      split at decoded
      · nomatch decoded
      · next close =>
          have closed := digits.trans (Lined.bump (Classical.not_not.mp close) (by decide))
          split at decoded
          · nomatch decoded
          · split at decoded
            · cases decoded
              exact closed
            · nomatch decoded

theorem Lined.scanCharEscape (head : start.peek = some '\\')
    (decoded : start.scanCharEscape = (.ok c, l')) : Lined start l' := by
  have first := Lined.bump head (by decide)
  rw [Lexer.scanCharEscape] at decoded
  dsimp only at decoded
  split at decoded
  · nomatch decoded
  · next letter isLetter =>
      have escaped (other : letter ≠ '\n') := first.trans (Lined.bump isLetter other)
      split at decoded
      case h_8 =>
        have digits := (escaped (by decide)).trans (Lined.hexDigits 2 0 0 start.bump.bump)
        split at decoded
        · nomatch decoded
        · cases decoded
          exact digits
      case h_9 => exact (escaped (by decide)).trans (.scanCharUnicodeEscape decoded)
      case h_10 => nomatch decoded
      all_goals
        cases decoded
        exact escaped (by decide)

theorem length_bump (head : l.peek = some c) : l.bump.rest.length + 1 = l.rest.length := by
  obtain ⟨rest, split⟩ := List.head?_eq_some_iff.mp head
  rw [bump_eq split, split]
  rfl

/-- A scalar that was counted was decoded or refused. -/
def CharScan.Counted (scan : CharScan) : Prop :=
  scan.scalars = 0 ∨ scan.first.isSome ∨ scan.bad.isSome

theorem charBody_spec (rounds : Nat) (scan : CharScan) (l : Lexer) (enough : l.rest.length < rounds)
    (counted : scan.Counted) : ∃ result l', charBody rounds scan l = some (result, l') ∧ Fed l l' ∧
      ∀ scan' ∈ result, scan'.Counted ∧ (scan'.bad = none → scan.bad = none ∧ Lined l l') := by
  induction rounds generalizing scan l with
  | zero => exact absurd enough (Nat.not_lt_zero _)
  | succ rounds ih =>
    -- One more scalar, at a character that was there.
    have further {scan' : CharScan} {next : Lexer} {c : Char} (head : l.peek = some c)
        (fed : Fed l.bump next) (counted : scan'.Counted)
        (good : scan'.bad = none → scan.bad = none ∧ Lined l next) :
        ∃ result l', charBody rounds scan' next = some (result, l') ∧ Fed l l' ∧
          ∀ scan'' ∈ result,
            scan''.Counted ∧ (scan''.bad = none → scan.bad = none ∧ Lined l l') := by
      have shorter := length_bump head
      have le := fed.length_le
      obtain ⟨result, l', run, fed', counted'⟩ := ih scan' next (by omega) counted
      refine ⟨result, l', run, (Fed.bump l).trans (fed.trans fed'), fun scan'' isLast => ?_⟩
      obtain ⟨counted'', later⟩ := counted' scan'' isLast
      refine ⟨counted'', fun unflawed => ?_⟩
      obtain ⟨none, lined⟩ := later unflawed
      exact ⟨(good none).1, (good none).2.trans lined⟩
    rw [charBody]
    split
    · exact ⟨none, l, rfl, .refl l, nofun⟩
    · exact ⟨none, l, rfl, .refl l, nofun⟩
    · next head =>
        refine ⟨some scan, l.bump, rfl, .bump l, fun _ same => ?_⟩
        rw [← Option.some.inj same]
        exact ⟨counted, fun unflawed => ⟨unflawed, .bump head (by decide)⟩⟩
    · next head =>
        have fed := Fed.scanCharEscape l
        split
        · next c next escape =>
            rw [escape] at fed
            refine further head fed (.inr (.inl ?_))
              fun unflawed => ⟨unflawed, .scanCharEscape head escape⟩
            cases scan.first <;> rfl
        · next reason next escape =>
            rw [escape] at fed
            have flawed : (scan.bad.or (some reason)).isSome := by cases scan.bad <;> rfl
            refine further head fed (.inr (.inr flawed)) fun unflawed => ?_
            have none : scan.bad.or (some reason) = none := unflawed
            rw [none] at flawed
            nomatch flawed
    · next c notNewline _ _ head =>
        refine further head (.refl _) (.inr (.inl ?_)) fun unflawed =>
          ⟨unflawed, .bump head notNewline⟩
        cases scan.first <;> rfl

theorem scanCharLiteral_spec {rest : Text} (fresh : Fresh u start) (split : start.rest = c :: rest)
    (notNewline : c ≠ '\n') : ∃ l, start.scanCharLiteral = some l ∧ Goes u start l := by
  have head : start.peek = some c := by rw [peek, split, List.head?_cons]
  have shorter := length_bump head
  obtain ⟨result, l, run, fed, counted⟩ :=
    charBody_spec (start.rest.length + 1) ⟨0, none, none⟩ start.bump (by omega) (.inl rfl)
  rw [scanCharLiteral, run]
  have progress : start.bump.rest.length < start.rest.length := by omega
  have whole := (Fed.bump start).trans fed
  have opened (lined : Lined start.bump l) : Lined start l :=
    (Lined.bump head notNewline).trans lined
  have progress := Nat.lt_of_le_of_lt fed.length_le progress
  cases result with
  | none => exact ⟨_, rfl, fresh.refused whole progress rfl nofun⟩
  | some scan =>
    rw [Option.bind_eq_bind, Option.bind_some]
    dsimp only
    split
    · next accepted =>
        obtain ⟨good, one⟩ := Option.or_eq_none_iff.mp accepted
        obtain ⟨isCounted, unflawed⟩ := counted scan rfl
        have lined := opened (unflawed good).2
        have isOne : scan.scalars = 1 := by
          by_contra other
          rw [if_neg other] at one
          nomatch one
        rcases isCounted with zero | first | bad
        · omega
        · obtain ⟨value, first⟩ := Option.isSome_iff_exists.mp first
          rw [first]
          exact ⟨_, rfl, fresh.plain lined progress rfl nofun⟩
        · rw [good] at bad
          nomatch bad
    · exact ⟨_, rfl, fresh.refused whole progress rfl nofun⟩
    · exact ⟨_, rfl, fresh.refused whole progress rfl nofun⟩

/-! ## Opening a string -/

theorem quiets_note (l : Lexer) (errors : List Diag) :
    Quiets u l { l with errors := l.errors ++ errors } := by
  induction errors generalizing l with
  | nil =>
    rw [List.append_nil]
  | cons one errors ih =>
    have later := ih (l.error one.code one.span one.anchor)
    rw [error, List.append_assoc] at later
    exact .head ⟨.note one.code one.span one.anchor, fun _ => rfl⟩ later

/-- A state but for the diagnostics and the tally of open strings. -/
def Noisy (l l' : Lexer) : Prop :=
  ∃ errors depth reported deferred,
    l' =
      { l with
        errors := l.errors ++ errors
        maxStrDepth := depth
        depthReported := reported
        deferred }

theorem Noisy.refl (l : Lexer) : Noisy l l := ⟨[], _, _, _, by rw [List.append_nil]⟩

theorem Noisy.error (noisy : Noisy l l') : Noisy l (l'.error code span anchor) := by
  obtain ⟨errors, depth, reported, deferred, rfl⟩ := noisy
  exact ⟨errors ++ [⟨code, span, anchor⟩], depth, reported, deferred, by
    simp [Lexer.error, List.append_assoc]⟩

theorem Noisy.tally (noisy : Noisy l l') (depth : Nat) (reported : Bool) (deferred : List Diag) :
    Noisy l { l' with maxStrDepth := depth, depthReported := reported, deferred } := by
  obtain ⟨errors, _, _, _, rfl⟩ := noisy
  exact ⟨errors, depth, reported, deferred, rfl⟩

/-- A string that starts with the text. -/
theorem Fresh.opens {text rest : Text} {kind : StrKind} {frame : StrFrame} (fresh : Fresh u start)
    (split : start.rest = text ++ rest) (some_one : text ≠ [])
    (inLine : '\n' ∈ text → kind = .multiline) (empty : frame.pending = [])
    (noPieces : frame.pieces = []) (lines : ∀ n ∈ frame.lineStarts, n = start.pos + bytes text)
    (isKind : frame.kind = kind) (noisy : Noisy
      { start.feed text rest with
        ctx := .str frame :: start.ctx
        tokens := start.tokens ++ [⟨.strStart kind, ⟨start.pos, start.pos + bytes text⟩⟩] } l) :
    Goes u start l := by
  obtain ⟨errors, depth, reported, deferred, rfl⟩ := noisy
  let noted : Lexer := { start with errors := start.errors ++ errors }
  let tallied : Lexer :=
    { noted with maxStrDepth := depth, depthReported := reported, deferred }
  have before : Quiets u start tallied :=
    .tail (quiets_note start errors) ⟨.tally depth reported deferred, fun _ => rfl⟩
  have effect : Emits (tallied.pos + bytes text) (.strStart kind) tallied.ctx
      (.str frame :: tallied.ctx) := .strStart fresh.mode empty noPieces lines isKind
  have goes := @goes_token u tallied text rest _ _ split some_one effect
    (fun _ => fresh.starts)
    (fun _ => ⟨nofun, fun follows => absurd (follows.symm.trans fresh.notElse) nofun⟩)
    (fun member => .inr (congrArg Tok.strStart (inLine member)))
    (notFmt_of_tokenMode fresh.mode) nofun
  exact ⟨before.trans goes.1, goes.2⟩

/-- A frame is pushed, and the depth is noted. -/
theorem enterString_noisy (l : Lexer) (kind : StrKind) :
    Noisy (l.pushCtx (.str ⟨kind, l.pos, [], l.pos, [], []⟩)) (l.enterString kind) := by
  have tallied (depth : Nat) (reported : Bool) (deferred : List Diag) :=
    (Noisy.refl (l.pushCtx (.str ⟨kind, l.pos, [], l.pos, [], []⟩))).tally depth reported deferred
  rw [enterString]
  dsimp only
  split
  · split
    · exact (tallied _ _ _).error
    · exact (tallied _ _ _).error
  · split
    · exact tallied _ _ _
    · exact tallied _ _ _

theorem Noisy.trans (first : Noisy l l') (second : Noisy l' l'') : Noisy l l'' := by
  obtain ⟨errors, depth, reported, deferred, rfl⟩ := first
  obtain ⟨errors', depth', reported', deferred', rfl⟩ := second
  exact ⟨errors ++ errors', depth', reported', deferred', by simp [List.append_assoc]⟩

section

variable (noisy : Noisy l l')
include noisy

theorem Noisy.feed {text rest : Text} :
    Noisy (l.feed text rest) (l'.feed text rest) := by
  obtain ⟨errors, depth, reported, deferred, rfl⟩ := noisy
  exact ⟨errors, depth, reported, deferred, rfl⟩

theorem Noisy.push {tok : Tok} :
    Noisy (l.push tok span) (l'.push tok span) := by
  obtain ⟨errors, depth, reported, deferred, rfl⟩ := noisy
  exact ⟨errors, depth, reported, deferred, rfl⟩

theorem Noisy.pushCtx {top : Ctx} :
    Noisy (l.pushCtx top) (l'.pushCtx top) := by
  obtain ⟨errors, depth, reported, deferred, rfl⟩ := noisy
  exact ⟨errors, depth, reported, deferred, rfl⟩

theorem Noisy.pos : l'.pos = l.pos := by
  obtain ⟨errors, depth, reported, deferred, rfl⟩ := noisy
  rfl

theorem Noisy.rest : l'.rest = l.rest := by
  obtain ⟨errors, depth, reported, deferred, rfl⟩ := noisy
  rfl

end

theorem openMultiline_spec (u : Unicode) (l : Lexer) :
    ∃ text rest, l.rest = text ++ rest ∧ Noisy (l.feed text rest) (l.openMultiline u).1 ∧
      ∀ at_ ∈ (l.openMultiline u).2, at_ = (l.openMultiline u).1.pos := by
  have noted (noisy : Lexer) (isNoisy : Noisy l noisy) :
      ∃ text rest, l.rest = text ++ rest ∧
        let ahead := if noisy.peek = some '\r' then noisy.bump else noisy
        let opened :=
          if ahead.peek = some '\n' then (ahead.bump, some ahead.bump.pos) else (noisy, none)
        Noisy (l.feed text rest) opened.1 ∧ ∀ at_ ∈ opened.2, at_ = opened.1.pos := by
    have fed : Fed noisy (if noisy.peek = some '\r' then noisy.bump else noisy) :=
      .ite (.bump _) (.refl _)
    generalize (if noisy.peek = some '\r' then noisy.bump else noisy) = ahead at fed
    dsimp only
    split
    · obtain ⟨text, rest, split, fed⟩ := fed.trans (.bump ahead)
      refine ⟨text, rest, isNoisy.rest ▸ split, ?_, fun at_ same => (Option.some.inj same).symm⟩
      rw [fed]
      exact isNoisy.feed
    · exact ⟨[], l.rest, rfl, isNoisy, nofun⟩
  rw [openMultiline]
  split
  · exact noted l (.refl l)
  · exact noted _ (Noisy.refl l).error

theorem startsWith_iff {s : String} : l.startsWith s = true ↔ s.toList <+: l.rest :=
  List.isPrefixOf_iff_prefix

/-- The start token of a literal and its frame. -/
theorem Fresh.entered {text rest : Text} (fresh : Fresh u start)
    (split : start.rest = text ++ rest) (some_one : text ≠ [])
    (noisy : Noisy (start.feed text rest) l) (kind : StrKind)
    (inLine : '\n' ∈ text → kind = .multiline) {first : Option Nat}
    (lines : ∀ at_ ∈ first, at_ = l.pos) :
    ∃ l',
      (match first with
        | some at_ =>
          ((l.push (.strStart kind) ⟨start.pos, l.pos⟩).enterString kind).withFrame fun frame =>
            { frame with lineStarts := frame.lineStarts ++ [at_] }
        | none => some ((l.push (.strStart kind) ⟨start.pos, l.pos⟩).enterString kind)) = some l' ∧
      Goes u start l' := by
  have place : l.pos = start.pos + bytes text := noisy.pos
  have pushed : Noisy
      (((start.feed text rest).push (.strStart kind) ⟨start.pos, l.pos⟩).pushCtx
        (.str ⟨kind, l.pos, [], l.pos, [], []⟩))
      ((l.push (.strStart kind) ⟨start.pos, l.pos⟩).enterString kind) :=
    noisy.push.pushCtx.trans (enterString_noisy _ kind)
  rw [place] at pushed ⊢
  cases first with
  | none =>
    refine ⟨_, rfl, fresh.opens split some_one inLine ?_ ?_ ?_ ?_ pushed⟩
    · rfl
    · rfl
    · nofun
    · rfl
  | some at_ =>
    obtain ⟨errors, depth, reported, deferred, entered⟩ := pushed
    rw [entered]
    refine ⟨_, rfl, fresh.opens split some_one inLine rfl rfl ?_ rfl
      ⟨errors, depth, reported, deferred, rfl⟩⟩
    intro n isLine
    rw [List.mem_singleton.mp isLine, lines at_ rfl, place]

/-- A literal opens at its quotes; its token may begin before them. -/
theorem openString_spec {generalized : Option (Nat × Text)} (fresh : Fresh u start)
    (lined : Lined start l) (at_ : (generalized.map Prod.fst).getD l.pos = start.pos)
    (quote : l.peek = some '"') : ∃ l', l.openString u generalized = some l' ∧ Goes u start l' := by
  obtain ⟨before, rest, split, rfl, inLine⟩ := lined
  obtain ⟨tail, quoted⟩ := List.head?_eq_some_iff.mp quote
  have quoted : rest = '"' :: tail := quoted
  -- A literal of one quote.
  have single (kind : StrKind) : ∃ l',
      some (((start.feed before rest).feed ['"'] tail |>.push (.strStart kind)
        ⟨start.pos, (start.feed before rest |>.feed ['"'] tail).pos⟩).enterString kind) = some l' ∧
      Goes u start l' := by
    have whole : start.rest = (before ++ ['"']) ++ tail := by simp [split, quoted]
    rw [feed_feed]
    refine @Fresh.entered u start _ _ _ fresh whole (by simp) (.refl _) kind ?_ none nofun
    intro member
    rcases List.mem_append.mp member with inside | quoted
    · exact absurd inside inLine
    · nomatch List.mem_singleton.mp quoted
  have skipped : (start.feed before rest).skip 1 =
      some ((start.feed before rest).feed ['"'] tail) :=
    @skip_eq (start.feed before rest) ['"'] tail quoted
  cases generalized with
  | some pair =>
    obtain ⟨from_, pre⟩ := pair
    have here : from_ = start.pos := at_
    subst here
    rw [openString]
    simp only [reduceCtorEq, if_false, skipped]
    exact single _
  | none =>
    have here : (start.feed before rest).pos = start.pos := at_
    rw [openString]
    dsimp only
    cases triple : (start.feed before rest).startsWith "\"\"\"" with
    | false =>
      simp only [reduceCtorEq, if_false, skipped, here]
      exact single _
    | true =>
      obtain ⟨tail, opened⟩ := startsWith_iff.mp triple
      have opened : rest = ['"', '"', '"'] ++ tail := opened.symm
      have skipped : (start.feed before rest).skip 3 =
          some ((start.feed before rest).feed ['"', '"', '"'] tail) :=
        @skip_eq (start.feed before rest) ['"', '"', '"'] tail opened
      simp only [if_true, skipped, here]
      obtain ⟨text, left, cut, noisy, first⟩ :=
        openMultiline_spec u ((start.feed before rest).feed ['"', '"', '"'] tail)
      rw [feed_feed, feed_feed, ← List.append_assoc] at noisy
      have cut : tail = text ++ left := cut
      have whole : start.rest = (before ++ ['"', '"', '"'] ++ text) ++ left := by
        simp [split, opened, cut]
      exact fresh.entered whole (by simp) noisy _ (fun _ => rfl) first

theorem openRawString_spec {rest : Text} (fresh : Fresh u start) (split : start.rest = 'r' :: rest)
    (lined : Lined (start.feed ['r'] rest) l) :
    ∃ l', openRawString start l = some l' ∧ Goes u start l' := by
  have first : Lined start (start.feed ['r'] rest) := ⟨['r'], rest, split, rfl, by decide⟩
  have hashed := (first.trans lined).trans (Lined.skipWhile l (p := (· = '#')) (by decide))
  rw [openRawString]
  dsimp only
  split
  · have skipped : start.skip 1 = some (start.feed ['r'] rest) := @skip_eq start ['r'] rest split
    rw [skipped]
    refine ⟨_, rfl, fresh.plain first ?_ rfl nofun⟩
    rw [split]
    exact Nat.lt_succ_self _
  · next quoted =>
      have head := Classical.not_not.mp quoted
      have shorter := length_bump head
      obtain ⟨text, left, cut, opened, inLine⟩ := hashed.trans (Lined.bump head (by decide))
      rw [opened]
      refine @Fresh.entered u start _ _ _ fresh cut ?_ (.refl _) _
        (fun member => absurd member inLine) none nofun
      rintro rfl
      have le := hashed.fed.length_le
      have same : left = start.rest := cut.symm
      have now := congrArg (fun l : Lexer => l.rest.length) opened
      simp only [feed] at now
      rw [same] at now
      omega

/-! ## Words -/

theorem keyword?_spelling {word : Text} {keyword : Keyword} (found : keyword? word = some keyword) :
    keyword.spelling.toList = word := by
  simpa using List.find?_some found

theorem keyword?_else : keyword? ['e', 'l', 's', 'e'] = some .else_ := by decide

/-- A word is the keyword `else` exactly when the lookahead says so. -/
theorem scanWord_spec {rest : Text} (mode : tokenMode start.ctx = true)
    (split : start.rest = c :: rest) (word : u.isXidContinue c = true) :
    ∃ l, start.scanWord u = some l ∧ Goes u start l := by
  have starts : Starts start.rest := split ▸ starts_of_word word
  have isElse := elseFollows_iff (u := u) starts
  have stops : u.isXidContinue '\n' = false := by
    rw [isXidContinue_ascii (by decide)]
    decide
  have lined := Lined.skipWhile start stops
  have progress := length_skipWhile split word
  have fresh (other : start.rest.takeWhile u.isXidContinue ≠ ['e', 'l', 's', 'e']) :
      Fresh u start :=
    ⟨mode, starts, Bool.eq_false_iff.mpr fun follows => other (isElse.mp follows)⟩
  rw [scanWord]
  dsimp only
  split
  · next raw =>
      have whole := List.takeWhile_append_dropWhile (p := u.isXidContinue) (l := start.rest)
      rw [raw.1] at whole
      have stepped : Lined (start.feed ['r'] (start.rest.dropWhile u.isXidContinue))
          (start.skipWhile u.isXidContinue) := by
        rw [skipWhile_eq, raw.1]
        exact .refl _
      exact openRawString_spec (fresh (by rw [raw.1]; nofun)) whole.symm stepped
  · split
    · next quoted =>
        obtain ⟨quote, notKeyword, -⟩ := quoted
        have other : start.rest.takeWhile u.isXidContinue ≠ ['e', 'l', 's', 'e'] := by
          intro same
          rw [same, isKeyword, keyword?_else] at notKeyword
          exact notKeyword rfl
        exact openString_spec (fresh other) lined rfl quote
    · have whole : start.rest = _ ++ _ :=
        (List.takeWhile_append_dropWhile (p := u.isXidContinue)).symm
      have some_one : start.rest.takeWhile u.isXidContinue ≠ [] := by
        rw [split, List.takeWhile_cons_of_pos word]
        nofun
      have inLine : '\n' ∉ start.rest.takeWhile u.isXidContinue := fun member =>
        absurd (stops.symm.trans (List.all_eq_true.mp List.all_takeWhile _ member)) nofun
      have token : ∀ tok : Tok, isPlain tok = true → tok ≠ .rBracket →
          (tok = .kw .else_ ↔ start.rest.takeWhile u.isXidContinue = ['e', 'l', 's', 'e']) →
          ∃ l, some ((start.skipWhile u.isXidContinue).push tok
            ⟨start.pos, (start.skipWhile u.isXidContinue).pos⟩) = some l ∧ Goes u start l :=
        fun tok isPlain other spells =>
          ⟨_, rfl, goes_token whole some_one (.plain mode isPlain) (fun _ => starts)
            (fun _ => spells.trans isElse.symm) (fun member => absurd member inLine)
            (notFmt_of_tokenMode mode) other⟩
      split
      · next underscore =>
          refine token .underscore rfl nofun ⟨nofun, fun same => ?_⟩
          rw [same] at underscore
          exact absurd underscore (by decide)
      · split
        · next keyword found =>
            refine token (.kw keyword) rfl nofun ⟨fun same => ?_, fun same => ?_⟩
            · rw [← keyword?_spelling found, Tok.kw.inj same]
              rfl
            · rw [same, keyword?_else] at found
              exact congrArg Tok.kw (Option.some.inj found).symm
        · next notFound =>
            refine token (.ident _) rfl nofun ⟨nofun, fun same => ?_⟩
            rw [same, keyword?_else] at notFound
            nomatch notFound

end Goes

end Lexer

end WolfInterp.Lex
