import Mathlib.Tactic.IntervalCases
import WolfInterp.Syntax.Operators

/-!
# The precedence climb

The tokens of an operator tree are read as that tree. A phrase of a tier is a token run that the
parser of the tier reads whatever follows it that does not go on with an expression of the tier. A
phrase of one tier is one of every looser tier, a phrase in parentheses is an operand, and a left
spine of operators of one tier is read by the rounds of the tier's loop.
-/

namespace WolfInterp.Syntax

open WolfInterp.Lex (Text Tok Token Diag Keyword)
open Descent (Prog Outcome Halt exec exec_bind)
open Descent.Grammar (Ends)

/-! ## The tokens ahead -/

namespace Parser

variable {p : Parser}

theorem tokAt_eq (p : Parser) (n : Nat) : p.tokAt n = p.ahead[n]? := by
  simp only [tokAt, ahead, List.getElem?_map, List.getElem?_drop]

theorem tok_eq (p : Parser) : p.tok = p.ahead.head? := by
  rw [tok, tokAt_eq, List.head?_eq_getElem?]

theorem ahead_skip (p : Parser) (n : Nat) : (p.skip n).ahead = p.ahead.drop n := by
  simp only [ahead, skip, List.map_drop, List.drop_drop, Nat.add_comm]

theorem ahead_skip_of_append {tokens rest : List Tok} (ahead : p.ahead = tokens ++ rest) :
    (p.skip tokens.length).ahead = rest := by
  rw [ahead_skip, ahead, List.drop_left]

theorem tok_of_cons {tok : Tok} {rest : List Tok} (ahead : p.ahead = tok :: rest) :
    p.tok = some tok := by
  rw [tok_eq, ahead, List.head?_cons]

theorem ahead_skip_one {tok : Tok} {rest : List Tok} (ahead : p.ahead = tok :: rest) :
    (p.skip 1).ahead = rest := by
  rw [ahead_skip, ahead, List.drop_one, List.tail_cons]

theorem skip_middle (p : Parser) (front back : List Tok) (tok : Tok) :
    ((p.skip front.length).skip 1).skip back.length = p.skip (front ++ tok :: back).length := by
  rw [skip_skip, skip_skip, List.length_append, List.length_cons]
  congr 1
  omega

/-- The struct-literal restriction in another state. -/
def setStructLit (p : Parser) (restricted : Bool) : Parser := { p with noStructLit := restricted }

@[simp]
theorem setStructLit_tok (p : Parser) (restricted : Bool) :
    (p.setStructLit restricted).tok = p.tok := rfl

/-- A loop has more rounds than there are tokens ahead. -/
theorem length_ahead_lt_rounds (p : Parser) : p.ahead.length < p.rounds := by
  simp only [ahead, rounds, List.length_map, List.length_drop]
  omega

end Parser

/-! ## Ends of the plumbing -/

section Plumbing

variable {α β σ : Type} {depth : Nat} {p q : Parser} {outcome : Outcome Parser Diag β}

/-- A first step that does not depend on the calls. -/
theorem ends_step {first : P α} {next : α → P β} {value : α}
    (step : ∀ r u, exec r u first p = .ok (value, q))
    (rest : grammar.Ends depth (next value) q outcome) :
    grammar.Ends depth (first >>= next) p outcome :=
  (Ends.of_exec step).bind rest

theorem ends_pure (value : α) : grammar.Ends depth (pure value : P α) p (.ok (value, p)) :=
  .of_exec fun _ _ => exec_pure value

/-- Where struct literals are legal again. -/
theorem ends_withStructLit {f : P α} {value : α}
    (ends : grammar.Ends depth f (p.setStructLit false) (.ok (value, q))) :
    grammar.Ends depth (withStructLit true f) p (.ok (value, q.setStructLit p.noStructLit)) :=
  ends_step (fun _ _ => exec_get) (ends_step (fun _ _ => exec_modify _)
    (ends.bind (ends_step (fun _ _ => exec_modify _) (ends_pure value))))

variable {round : σ → P (σ ⊕ β)} {rounds : Nat} {carried : σ}

theorem ends_loop {start : σ}
    (ends : grammar.Ends depth (Prog.loop round p.rounds start) p outcome) :
    grammar.Ends depth (loop start round) p outcome := ends

theorem ends_loop_more {carried' : σ}
    (more : grammar.Ends depth (round carried) p (.ok (.inl carried', q)))
    (rest : grammar.Ends depth (Prog.loop round rounds carried') q outcome) :
    grammar.Ends depth (Prog.loop round (rounds + 1) carried) p outcome := more.bind rest

theorem ends_loop_done (some_left : 0 < rounds) {result : β}
    (done : grammar.Ends depth (round carried) p (.ok (.inr result, q))) :
    grammar.Ends depth (Prog.loop round rounds carried) p (.ok (result, q)) := by
  obtain ⟨rounds, rfl⟩ : ∃ rest, rounds = rest + 1 := ⟨rounds - 1, by omega⟩
  exact done.bind (ends_pure result)

theorem ends_loop_error (some_left : 0 < rounds) {halt : Halt Diag}
    (fails : grammar.Ends depth (round carried) p (.error halt)) :
    grammar.Ends depth (Prog.loop round rounds carried) p (.error halt : Outcome Parser Diag β)
    := by
  obtain ⟨rounds, rfl⟩ : ∃ rest, rounds = rest + 1 := ⟨rounds - 1, by omega⟩
  exact fails.bind_error

/-- A railed call of a production, one level further down. -/
theorem ends_parseExpr {value : Expr} (room : depth < maxNesting)
    (ends : grammar.Ends (depth + 1) parseExprInner p (.ok (value, q))) :
    grammar.Ends depth parseExpr p (.ok (value, q)) := Ends.rail room ends

end Plumbing

/-! ## Tokens -/

theorem binaryOpAtTier_tok (op : BinOp) : binaryOpAtTier op.tier (some op.tok) = some op := by
  cases op <;> rfl

variable {tok : Option Tok} {head : Tok}

theorem continues_mono {tier looser : Nat} (le : tier ≤ looser)
    (stops : continues looser tok = false) : continues tier tok = false := by
  simp only [continues, Bool.or_eq_false_iff, Bool.and_eq_false_iff, decide_eq_false_iff_not,
    List.any_eq_false, List.mem_range] at stops ⊢
  obtain ⟨⟨⟨⟨operand, cast⟩, binary⟩, range⟩, handler⟩ := stops
  exact ⟨⟨⟨⟨operand, cast.imp_left (by omega)⟩, fun lower lt => binary lower (by omega)⟩,
    range.imp_left (by omega)⟩, handler.imp_left (by omega)⟩

theorem continuesOperand_of_continues {tier : Nat} (stops : continues tier tok = false) :
    continuesOperand tok = false := by
  simp only [continues, Bool.or_eq_false_iff] at stops
  exact stops.1.1.1.1

theorem not_as_of_continues {tier : Nat} (at_least : 4 ≤ tier)
    (stops : continues tier tok = false) :
    tok ≠ some (.kw .as_) := by
  simp only [continues, Bool.or_eq_false_iff, Bool.and_eq_false_iff, decide_eq_false_iff_not]
    at stops
  exact stops.1.1.1.2.resolve_left (by omega)

theorem no_op_of_continues {tier lower : Nat} (le : lower ≤ tier) (binary : lower ≤ 13)
    (stops : continues tier tok = false) : binaryOpAtTier lower tok = none := by
  simp only [continues, Bool.or_eq_false_iff, List.any_eq_false, List.mem_range] at stops
  exact Option.not_isSome_iff_eq_none.mp (stops.1.1.2 lower (by omega))

theorem no_range_of_continues {tier : Nat} (at_least : 14 ≤ tier)
    (stops : continues tier tok = false) : rangeOp tok = none := by
  simp only [continues, Bool.or_eq_false_iff, Bool.and_eq_false_iff, decide_eq_false_iff_not]
    at stops
  exact Option.not_isSome_iff_eq_none.mp
    (by simpa using stops.1.2.resolve_left (by omega))

theorem not_else_of_continues {tier : Nat} (at_least : 15 ≤ tier)
    (stops : continues tier tok = false) : tok ≠ some (.kw .else_) := by
  simp only [continues, Bool.or_eq_false_iff, Bool.and_eq_false_iff, decide_eq_false_iff_not]
    at stops
  exact stops.2.resolve_left (by omega)

theorem BinOp.tier_bounds (op : BinOp) : 5 ≤ op.tier ∧ op.tier ≤ 13 := by
  cases op <;> decide

/-- An operator does not go on with an expression of a tighter tier than its own. -/
theorem continues_binary {op : BinOp} {tier : Nat} (tighter : tier < op.tier) :
    continues tier (some op.tok) = false := by
  refine continues_mono (Nat.le_sub_one_of_lt tighter) ?_
  cases op <;> decide

theorem continues_as {tier : Nat} (tighter : tier < 4) : continues tier (some (.kw .as_)) = false :=
  continues_mono (Nat.le_of_lt_succ tighter) (by decide)

theorem continues_range {tier : Nat} (tighter : tier < 14) (inclusive : Bool) :
    continues tier (some (rangeTok inclusive)) = false := by
  refine continues_mono (Nat.le_of_lt_succ tighter) ?_
  cases inclusive <;> decide

theorem continues_else {tier : Nat} (tighter : tier < 15) :
    continues tier (some (.kw .else_)) = false :=
  continues_mono (Nat.le_of_lt_succ tighter) (by decide)

theorem continues_rParen (tier : Nat) : continues tier (some .rParen) = false := by
  by_cases le : tier ≤ 15
  · exact continues_mono le (by decide)
  · simp [continues, continuesOperand, rangeOp, binaryOpAtTier]

/-! ## Phrases -/

/-- A token that an expression of a tier begins with. -/
def opens (tier : Nat) (tok : Tok) : Bool :=
  startsPrimary tok || (3 ≤ tier && (prefixOp (some tok)).isSome) ||
    (14 ≤ tier && (tok = .caret || (rangeOp (some tok)).isSome))

/-- The parser of a tier. -/
def parseTier (tier : Nat) : P Expr :=
  if tier ≤ 2 then parsePostfix
  else if tier = 3 then parsePrefix
  else if tier ≤ 13 then parseBinary tier
  else if tier = 14 then parseRangeExpr
  else parseElseExpr

/-- Tokens that the parser of a tier reads as a value, up to groups, whatever follows them that
does not go on with an expression of the tier. -/
structure Phrase (tier : Nat) (tokens : List Tok) (height : Nat) (plain endsOpen : Bool)
    (value : Nat → Expr) : Prop where
  opening : ∃ head tail, tokens = head :: tail ∧ opens tier head = true
  reads : ∀ depth p rest, p.ahead = tokens ++ rest → continues tier rest.head? = false →
    (endsOpen = true → rangeEndFollows rest.head? = false) → depth + height ≤ maxNesting →
    p.Admits plain →
    ∃ expr, Node.ungroup expr = Node.ungroup (value p.origin) ∧
      grammar.Ends depth (parseTier tier) p (.ok (expr, p.skip tokens.length))

theorem opens_mono {tier looser : Nat} {tok : Tok} (le : tier ≤ looser)
    (opening : opens tier tok = true) : opens looser tok = true := by
  simp only [opens, Bool.or_eq_true, Bool.and_eq_true, decide_eq_true_eq] at opening ⊢
  rcases opening with (primary | ⟨least, prefixed⟩) | ⟨least, range⟩
  · exact .inl (.inl primary)
  · exact .inl (.inr ⟨by omega, prefixed⟩)
  · exact .inr ⟨by omega, range⟩

section

variable {tier looser : Nat} {tokens : List Tok}

theorem opens_looser (le : tier ≤ looser)
    (opening : ∃ head tail, tokens = head :: tail ∧ opens tier head = true) :
    ∃ head tail, tokens = head :: tail ∧ opens looser head = true := by
  obtain ⟨head, tail, eq, opening⟩ := opening
  exact ⟨head, tail, eq, opens_mono le opening⟩

theorem opens_append (more : List Tok)
    (opening : ∃ head tail, tokens = head :: tail ∧ opens tier head = true) :
    ∃ head tail, tokens ++ more = head :: tail ∧ opens tier head = true := by
  obtain ⟨head, tail, rfl, opening⟩ := opening
  exact ⟨head, tail ++ more, rfl, opening⟩

end

theorem opens_cases {tier : Nat} {tok : Tok} (opening : opens tier tok = true) :
    startsPrimary tok = true ∨ (3 ≤ tier ∧ (prefixOp (some tok)).isSome = true) ∨
      (14 ≤ tier ∧ (tok = .caret ∨ (rangeOp (some tok)).isSome = true)) := by
  simp only [opens, Bool.or_eq_true, Bool.and_eq_true, decide_eq_true_eq] at opening
  exact or_assoc.mp opening

/-- A token that begins an expression ends none, and is no jump, mode or handler. -/
theorem opens_not {tier : Nat} {tok : Tok} (opening : opens tier tok = true) :
    tok ∉ [.term false, .term true, .rParen, .pipe, .kw .return_, .kw .break_, .kw .continue_,
      .kw .mut_, .kw .take, .kw .else_] ∧ isExprEnd (some tok) = false := by
  constructor
  · intro member
    simp only [List.mem_cons, List.not_mem_nil, or_false] at member
    rcases opens_cases opening with primary | ⟨-, prefixed⟩ | ⟨-, caret | range⟩
    · rcases member with rfl | rfl | rfl | rfl | rfl | rfl | rfl | rfl | rfl | rfl <;> cases primary
    · rcases member with rfl | rfl | rfl | rfl | rfl | rfl | rfl | rfl | rfl | rfl <;>
        cases prefixed
    · rw [caret] at member
      simp at member
    · rcases member with rfl | rfl | rfl | rfl | rfl | rfl | rfl | rfl | rfl | rfl <;> cases range
  · rcases opens_cases opening with primary | ⟨-, prefixed⟩ | ⟨-, rfl | range⟩
    · cases tok <;> first | rfl | cases primary
    · cases tok <;> first | rfl | cases prefixed
    · rfl
    · cases tok <;> first | rfl | cases range

/-- Where the end of a range can begin, one follows. -/
theorem rangeEndFollows_of_opens {tier : Nat} (opening : opens tier head = true) :
    rangeEndFollows (some head) = true := by
  obtain ⟨no_word, no_end⟩ := opens_not opening
  simp only [List.mem_cons, not_or] at no_word
  simp only [rangeEndFollows, no_end, Option.some.injEq, no_word, decide_false, Bool.or_self,
    Bool.not_false]

theorem opens_prefix {tier : Nat} {tok : Tok} (tight : tier ≤ 2) (opening : opens tier tok = true) :
    prefixOp (some tok) = none := by
  rcases opens_cases opening with primary | ⟨least, -⟩ | ⟨least, -⟩
  · cases tok with
    | kw keyword => cases keyword <;> first | rfl | cases primary
    | _ => first | rfl | cases primary
  · omega
  · omega

theorem opens_range {tier : Nat} {tok : Tok} (tight : tier ≤ 13) (opening : opens tier tok = true) :
    rangeOp (some tok) = none ∧ tok ≠ .caret := by
  rcases opens_cases opening with primary | ⟨-, prefixed⟩ | ⟨least, -⟩
  · constructor
    · cases tok <;> first | rfl | cases primary
    · rintro rfl
      cases primary
  · constructor
    · cases tok <;> first | rfl | cases prefixed
    · rintro rfl
      cases prefixed
  · omega

/-! ## One tier looser -/

variable {tier height : Nat} {tokens : List Tok} {plain ends : Bool} {value : Nat → Expr}

/-- What the loop of a tier does in a round. -/
def tierRound (tier : Nat) : Expr → P (Expr ⊕ Expr) :=
  if tier = 4 then castRound else binaryRound tier (parseTier (tier - 1))

/-- The tiers of casts and of binary operators read an expression of the tier below, and then loop
over their own operators. -/
theorem parseTier_climb (least : 4 ≤ tier) (most : tier ≤ 13) :
    parseTier tier = parseTier (tier - 1) >>= fun lhs => loop lhs (tierRound tier) := by
  interval_cases tier <;> rfl

/-- No operator of the tier stands here: the loop is over. -/
theorem ends_tierRound_done {depth : Nat} {p : Parser} {lhs : Expr} (least : 4 ≤ tier)
    (most : tier ≤ 13) (stops : continues tier p.tok = false) :
    grammar.Ends depth (tierRound tier lhs) p (.ok (.inr lhs, p)) := by
  refine .of_exec fun r u => ?_
  rw [tierRound]
  split
  · have no_cast : p.atKw .as_ = false :=
      decide_eq_false (not_as_of_continues least stops)
    simp only [castRound, exec_bind, exec_eatKw, no_cast, Bool.false_eq_true, if_false, exec_pure]
  · have no_op := no_op_of_continues (Nat.le_refl tier) most stops
    simp only [binaryRound, exec_bind, exec_get, no_op, exec_pure]

theorem Phrase.climb (phrase : Phrase tier tokens height plain ends value) (least : 3 ≤ tier)
    (most : tier < 13) : Phrase (tier + 1) tokens height plain ends value where
  opening := opens_looser (Nat.le_succ tier) phrase.opening
  reads depth p rest ahead stops open_ room flag := by
    obtain ⟨expr, same, reads⟩ :=
      phrase.reads depth p rest ahead (continues_mono (Nat.le_succ tier) stops) open_ room flag
    refine ⟨expr, same, ?_⟩
    rw [parseTier_climb (by omega) (by omega)]
    refine reads.bind (ends_loop (ends_loop_done
      (Nat.zero_lt_of_lt (Parser.length_ahead_lt_rounds _))
      (ends_tierRound_done (by omega) (by omega) ?_)))
    rw [Parser.tok_eq, Parser.ahead_skip_of_append ahead]
    exact stops

theorem Phrase.prefix_ (phrase : Phrase 2 tokens height plain ends value) :
    Phrase 3 tokens height plain ends value where
  opening := opens_looser (by omega) phrase.opening
  reads depth p rest ahead stops open_ room flag := by
    obtain ⟨expr, same, reads⟩ :=
      phrase.reads depth p rest ahead (continues_mono (Nat.le_succ 2) stops) open_ room flag
    obtain ⟨head, tail, eq, opening⟩ := phrase.opening
    have here : p.tok = some head := Parser.tok_of_cons (by rw [ahead, eq]; rfl)
    refine ⟨expr, same, ends_step (fun _ _ => exec_get) ?_⟩
    rw [here, opens_prefix (Nat.le_refl 2) opening]
    exact reads

theorem Phrase.rangeExpr (phrase : Phrase 13 tokens height plain ends value) :
    Phrase 14 tokens height plain ends value where
  opening := opens_looser (by omega) phrase.opening
  reads depth p rest ahead stops open_ room flag := by
    obtain ⟨expr, same, reads⟩ :=
      phrase.reads depth p rest ahead (continues_mono (Nat.le_succ 13) stops) open_ room flag
    obtain ⟨head, tail, eq, opening⟩ := phrase.opening
    obtain ⟨no_range, no_caret⟩ := opens_range (Nat.le_refl 13) opening
    have here : p.tok = some head := Parser.tok_of_cons (by rw [ahead, eq]; rfl)
    have after : rangeOp (p.skip tokens.length).tok = none := by
      rw [Parser.tok_eq, Parser.ahead_skip_of_append ahead]
      exact no_range_of_continues (by omega) stops
    refine ⟨expr, same, ends_step (fun _ _ => exec_get) ?_⟩
    rw [here, no_range]
    have stop : grammar.Ends depth parseRangeEnd p (.ok (expr, p.skip tokens.length)) := by
      refine ends_step (fun _ _ => exec_eat _) ?_
      simp only [here, Option.some.injEq, no_caret, decide_false, Bool.false_eq_true, if_false]
      exact reads
    refine stop.bind (ends_step (fun _ _ => exec_get) ?_)
    rw [after]
    exact ends_pure expr

theorem Phrase.elseExpr (phrase : Phrase 14 tokens height plain ends value) :
    Phrase 15 tokens height plain ends value where
  opening := opens_looser (by omega) phrase.opening
  reads depth p rest ahead stops open_ room flag := by
    obtain ⟨expr, same, reads⟩ :=
      phrase.reads depth p rest ahead (continues_mono (Nat.le_succ 14) stops) open_ room flag
    have after : (p.skip tokens.length).atKw .else_ = false := by
      refine decide_eq_false ?_
      rw [Parser.tok_eq, Parser.ahead_skip_of_append ahead]
      exact not_else_of_continues (by omega) stops
    refine ⟨expr, same, reads.bind (ends_step (fun _ _ => exec_eatKw _) ?_)⟩
    simp only [after, Bool.false_eq_true, if_false]
    exact ends_pure expr

/-- A phrase of a tier is one of every looser tier. -/
theorem Phrase.looser (phrase : Phrase tier tokens height plain ends value) {looser : Nat}
    (least : 2 ≤ tier) (le : tier ≤ looser) (most : looser ≤ 15) :
    Phrase looser tokens height plain ends value := by
  induction looser, le using Nat.le_induction with
  | base => exact phrase
  | succ looser le induction =>
    have below := induction (by omega)
    rcases (by omega : looser = 2 ∨ 3 ≤ looser ∧ looser < 13 ∨ looser = 13 ∨ looser = 14) with
      rfl | ⟨least, most⟩ | rfl | rfl
    · exact below.prefix_
    · exact below.climb least most
    · exact below.rangeExpr
    · exact below.elseExpr

/-! ## Operands and parentheses -/

/-- An expression from its tier 15 on: no jump begins it. -/
theorem Phrase.exprInner (phrase : Phrase 15 tokens height plain ends value) {depth : Nat}
    {p : Parser} {rest : List Tok} (ahead : p.ahead = tokens ++ rest)
    (stops : continues 15 rest.head? = false)
    (open_ : ends = true → rangeEndFollows rest.head? = false)
    (room : depth + height ≤ maxNesting) (flag : p.Admits plain) :
    ∃ expr, Node.ungroup expr = Node.ungroup (value p.origin) ∧
      grammar.Ends depth parseExprInner p (.ok (expr, p.skip tokens.length)) := by
  obtain ⟨expr, same, reads⟩ := phrase.reads depth p rest ahead stops open_ room flag
  obtain ⟨head, tail, eq, opening⟩ := phrase.opening
  have here : p.tok = some head := Parser.tok_of_cons (by rw [ahead, eq]; rfl)
  refine ⟨expr, same, ends_step (fun _ _ => exec_get) ?_⟩
  have jumps := (opens_not opening).1
  simp only [List.mem_cons, not_or] at jumps
  rw [here]
  split
  · exact absurd (Option.some.inj ‹_›) (by grind)
  · exact absurd (Option.some.inj ‹_›) (by grind)
  · exact absurd (Option.some.inj ‹_›) (by grind)
  · exact reads

/-- The postfix chain of an operand ends where nothing goes on with it. -/
theorem ends_postfixChain {depth : Nat} {p : Parser} {expr : Expr}
    (stops : continuesOperand p.tok = false) :
    grammar.Ends depth (parsePostfixChain expr) p (.ok (expr, p)) := by
  refine .of_exec fun r u => exec_loop_done ?_
  simp only [exec_bind, exec_get]
  split
  · rename_i here
    rw [here] at stops
    exact absurd stops (by decide)
  · rename_i here
    rw [here] at stops
    exact absurd stops (by decide)
  · rename_i here
    rw [here] at stops
    exact absurd stops (by decide)
  · rename_i here
    rw [here] at stops
    exact absurd stops (by decide)
  · rfl

/-- One expression between parentheses. -/
theorem ends_parenOrTuple {depth : Nat} {p q : Parser} {expr : Expr} (opener : p.tok = some .lParen)
    (first : (p.skip 1).tok = some head) (opening : opens tier head = true)
    (closer : q.tok = some .rParen)
    (reads : grammar.Ends depth parseExpr ((p.skip 1).setStructLit false) (.ok (expr, q))) :
    grammar.Ends depth parseParenOrTuple p
      (.ok (.group expr, (q.setStructLit p.noStructLit).skip 1)) := by
  have no_word := (opens_not opening).1
  simp only [List.mem_cons, not_or] at no_word
  have no_term : isInsertedTerm (some head) = false := by
    cases head <;> simp_all [isInsertedTerm]
  refine ends_step (fun _ _ => (exec_expect _ _).trans (if_pos opener)) ?_
  refine (@ends_withStructLit _ depth (p.skip 1) q _ ([expr], false) (ends_loop (ends_loop_done
    (Nat.zero_lt_of_lt (Parser.length_ahead_lt_rounds _)) ?_))).bind ?_
  · refine ends_step (fun _ _ => exec_skipWhile (by
      rw [Parser.setStructLit_tok, first]
      exact no_term)) ?_
    refine ends_step (fun _ _ => exec_at _) ?_
    rw [Parser.setStructLit_tok, first]
    simp only [Option.some.injEq, no_word, decide_false, Bool.false_eq_true, if_false]
    refine reads.bind (ends_step (fun _ _ => exec_skipWhile (by rw [closer]; rfl)) ?_)
    refine ends_step (fun _ _ => exec_eat _) ?_
    simp only [closer, Option.some.injEq, reduceCtorEq, decide_false, Bool.false_eq_true, if_false]
    exact ends_pure _
  · refine ends_step (fun _ _ => exec_skipWhile (by
      rw [Parser.setStructLit_tok, closer]
      rfl)) ?_
    exact ends_step (fun _ _ => (exec_expect _ _).trans (if_pos closer)) (ends_pure _)

/-- An expression in parentheses is an operand. -/
theorem Phrase.group (phrase : Phrase 15 tokens height plain ends value) :
    Phrase 2 (.lParen :: (tokens ++ [.rParen])) (height + 1) true false value where
  opening := ⟨.lParen, tokens ++ [.rParen], rfl, by decide⟩
  reads depth p rest ahead stops _ room flag := by
    rw [List.cons_append, List.append_assoc] at ahead
    obtain ⟨head, tail, eq, opening⟩ := phrase.opening
    have here : p.tok = some .lParen := Parser.tok_of_cons ahead
    have inside : (p.skip 1).ahead = tokens ++ (.rParen :: rest) := Parser.ahead_skip_one ahead
    have first : (p.skip 1).tok = some head := Parser.tok_of_cons (by rw [inside, eq]; rfl)
    obtain ⟨expr, same, reads⟩ := @Phrase.exprInner _ _ _ _ _ phrase (depth + 1)
      ((p.skip 1).setStructLit false) _ inside (continues_rParen 15) (fun _ => rfl)
      (by omega) flag.free
    have after : ((p.skip 1).skip tokens.length).ahead = .rParen :: rest :=
      Parser.ahead_skip_of_append inside
    have room : depth < maxNesting := by omega
    have closer : (((p.skip 1).setStructLit false).skip tokens.length).tok = some .rParen :=
      Parser.tok_of_cons after
    have group := ends_parenOrTuple here first opening closer (ends_parseExpr room reads)
    have modes := (opens_not opening).1
    simp only [List.mem_cons, not_or] at modes
    refine ⟨.group expr, same, ?_⟩
    refine ends_step (fun _ _ => exec_get) ?_
    have unmoded : ¬ (p.tok = some .lParen ∧
        (p.tokAt 1 = some (.kw .mut_) ∨ p.tokAt 1 = some (.kw .take))) := by
      rw [← p.tok_skip, first]
      simp only [Option.some.injEq, modes, or_self, and_false, not_false_eq_true]
    simp only [unmoded, if_false]
    have whole : ((p.skip 1).skip tokens.length).skip 1 =
        p.skip (.lParen :: (tokens ++ [.rParen])).length := by
      rw [Parser.skip_skip, Parser.skip_skip, List.length_cons, List.length_append,
        List.length_singleton]
      congr 1
      omega
    have stops : continuesOperand (p.skip (.lParen :: (tokens ++ [.rParen])).length).tok =
        false := by
      rw [← whole, Parser.tok_eq, Parser.ahead_skip_one after]
      exact continuesOperand_of_continues stops
    have primary : grammar.Ends depth parsePrimary p
        (.ok (.group expr, p.skip (.lParen :: (tokens ++ [.rParen])).length)) := by
      refine ends_step (fun _ _ => exec_get) ?_
      rw [here, ← whole]
      exact group
    exact primary.bind ((ends_postfixChain stops).bind (ends_step (fun _ _ => exec_get)
      (ends_pure _)))

theorem Operand.phrase (leaf : Operand) :
    Phrase 2 leaf.tokens leaf.height leaf.plain false leaf.value where
  opening := by
    obtain ⟨head, first, starts⟩ := leaf.starts
    obtain ⟨tail, eq⟩ := List.head?_eq_some_iff.mp first
    exact ⟨head, tail, eq, by simp only [opens, starts, Bool.true_or]⟩
  reads depth p rest ahead stops _ room flag :=
    ⟨leaf.value p.origin, rfl,
      leaf.reads depth p rest ahead (continuesOperand_of_continues stops) room flag⟩

/-- A phrase in its place, in parentheses if it does not fit there. -/
theorem Phrase.place (phrase : Phrase tier tokens height plain ends value) (least : 2 ≤ tier)
    (most : tier ≤ 15) {looser : Nat} {fits : Bool} (le : fits = true → tier ≤ looser)
    (least' : 2 ≤ looser) (most' : looser ≤ 15) :
    Phrase looser (Tree.place fits tokens) (Tree.placed fits height) (!fits || plain)
      (fits && ends) value := by
  cases fits with
  | true => exact phrase.looser least (le rfl) most'
  | false =>
    exact (phrase.looser least most (Nat.le_refl 15)).group.looser (Nat.le_refl 2) least' most'

/-! ## Prefix operators -/

section

variable {depth : Nat} {p q : Parser} {op : UnOp} {rest : List Tok}
  (ahead : p.ahead = op.tokens ++ rest) (unmoded : rest.head? ≠ some (.kw .mut_))
include ahead unmoded

/-- A prefix operator: its operand is read one level further down. -/
theorem ends_prefix_then {outcome : Outcome Parser Diag Expr} (ends : grammar.Ends depth
      (parsePrefixOperand >>= fun operand => pure (.unary op operand)) (p.skip op.tokens.length)
      outcome) : grammar.Ends depth parsePrefix p outcome := by
  have first : p.tok = op.tokens.head? := by
    rw [Parser.tok_eq, ahead]
    cases op <;> rfl
  refine ends_step (fun _ _ => exec_get) ?_
  rw [first]
  cases op with
  | borrowMut =>
    have moded : p.tokAt 1 = some (.kw .mut_) := by
      rw [Parser.tokAt_eq, ahead]
      rfl
    simp only [UnOp.tokens, List.head?_cons, prefixOp, moded, and_self, if_true]
    exact ends_step (fun _ _ => exec_advance) (ends_step (fun _ _ => exec_advance) ends)
  | borrow =>
    have moded : p.tokAt 1 ≠ some (.kw .mut_) := by
      rw [Parser.tokAt_eq, ahead]
      change rest[0]? ≠ _
      rw [← List.head?_eq_getElem?]
      exact unmoded
    simp only [UnOp.tokens, List.head?_cons, prefixOp, moded, and_false, if_false]
    exact ends_step (fun _ _ => exec_advance) ends
  | not | neg | deref | move | copy | shared =>
    simp only [UnOp.tokens, List.head?_cons, prefixOp, Option.some.injEq, reduceCtorEq, false_and,
      if_false]
    exact ends_step (fun _ _ => exec_advance) ends

/-- A prefix operator and what its operand is read as. -/
theorem ends_prefix {operand : Expr} (room : depth < maxNesting)
    (ends : grammar.Ends (depth + 1) parsePrefix (p.skip op.tokens.length) (.ok (operand, q))) :
    grammar.Ends depth parsePrefix p (.ok (.unary op operand, q)) :=
  ends_prefix_then ahead unmoded
    ((show grammar.Ends depth parsePrefixOperand _ _ from Ends.rail room ends).bind (ends_pure _))

/-- A prefix operator whose operand is refused. -/
theorem ends_prefix_error {halt : Halt Diag} (room : depth < maxNesting)
    (ends : grammar.Ends (depth + 1) parsePrefix (p.skip op.tokens.length) (.error halt)) :
    grammar.Ends depth parsePrefix p (.error halt) :=
  ends_prefix_then ahead unmoded
    (show grammar.Ends depth parsePrefixOperand _ _ from Ends.rail room ends).bind_error

/-- A prefix operator at the rail. -/
theorem ends_prefix_full (full : maxNesting ≤ depth) : grammar.Ends depth parsePrefix p
    (.error (.refused (grammar.tooDeep (p.skip op.tokens.length)))) :=
  ends_prefix_then ahead unmoded
    (show grammar.Ends depth parsePrefixOperand _ _ from Ends.rail_refused full).bind_error

end

theorem Phrase.unary (op : UnOp) (phrase : Phrase 3 tokens height plain false value) :
    Phrase 3 (op.tokens ++ tokens) (height + 1) plain false fun origin =>
      .unary op (value origin) where
  opening := by cases op <;> exact ⟨_, _, rfl, rfl⟩
  reads depth p rest ahead stops _ room flag := by
    rw [List.append_assoc] at ahead
    have inside := Parser.ahead_skip_of_append ahead
    obtain ⟨operand, same, reads⟩ := phrase.reads (depth + 1) (p.skip op.tokens.length) rest inside
      stops nofun (by omega) flag
    obtain ⟨head, tail, eq, opening⟩ := phrase.opening
    have modes := (opens_not opening).1
    simp only [List.mem_cons, not_or] at modes
    refine ⟨.unary op operand, congrArg (Node.unary op) same, ?_⟩
    rw [List.length_append, ← Parser.skip_skip]
    refine ends_prefix ahead ?_ (by omega) reads
    rw [eq]
    intro moded
    exact modes.2.2.2.2.2.2.2.1 (Option.some.inj moded)

/-! ## Left spines -/

/-- Tokens after which the loop of a tier goes on with a value, up to groups, whatever follows them
that does not go on with an expression of the tier below. -/
structure Spine (tier : Nat) (tokens : List Tok) (height : Nat) (plain : Bool)
    (value : Nat → Expr) : Prop where
  opening : ∃ head tail, tokens = head :: tail ∧ opens tier head = true
  reads : ∀ depth p rest, p.ahead = tokens ++ rest → continues (tier - 1) rest.head? = false →
    depth + height ≤ maxNesting → p.Admits plain →
    ∃ expr, Node.ungroup expr = Node.ungroup (value p.origin) ∧
      ∀ outcome, (∀ rounds > rest.length, grammar.Ends depth
          (Prog.loop (tierRound tier) rounds expr) (p.skip tokens.length) outcome) →
        grammar.Ends depth (parseTier tier) p outcome

theorem Spine.of_phrase (phrase : Phrase (tier - 1) tokens height plain false value)
    (least : 4 ≤ tier) (most : tier ≤ 13) : Spine tier tokens height plain value where
  opening := opens_looser (Nat.sub_le tier 1) phrase.opening
  reads depth p rest ahead stops room flag := by
    obtain ⟨expr, same, reads⟩ :=
      phrase.reads depth p rest ahead stops nofun room flag
    refine ⟨expr, same, fun outcome rounds => ?_⟩
    rw [parseTier_climb least most]
    refine reads.bind (ends_loop (rounds _ ?_))
    have more := Parser.length_ahead_lt_rounds (p.skip tokens.length)
    rw [Parser.ahead_skip_of_append ahead] at more
    exact more

/-- A spine ends where no operator of the tier follows. -/
theorem Spine.phrase (spine : Spine tier tokens height plain value) (least : 4 ≤ tier)
    (most : tier ≤ 13) : Phrase tier tokens height plain false value where
  opening := spine.opening
  reads depth p rest ahead stops _ room flag := by
    obtain ⟨expr, same, reads⟩ :=
      spine.reads depth p rest ahead (continues_mono (Nat.sub_le tier 1) stops) room flag
    refine ⟨expr, same, reads _ fun rounds more => ?_⟩
    refine ends_loop_done (Nat.zero_lt_of_lt more) (ends_tierRound_done least most ?_)
    rw [Parser.tok_eq, Parser.ahead_skip_of_append ahead]
    exact stops

/-- One more operator of a spine: its right operand is a phrase of the tier below. -/
theorem ends_tierRound_op {depth : Nat} {p q : Parser} {op : BinOp} {lhs rhs : Expr}
    (here : p.tok = some op.tok)
    (below : grammar.Ends depth (parseTier (op.tier - 1)) (p.skip 1) (.ok (rhs, q))) :
    grammar.Ends depth (tierRound op.tier lhs) p (if tierAssoc op.tier = .none then
        if (binaryOpAtTier op.tier q.tok).isSome then
          .error (.refused (q.error "E0003" "gram.expr.prec"))
        else .ok (.inr (.binary op lhs rhs), q) else .ok (.inl (.binary op lhs rhs), q)) := by
  have not_cast : op.tier ≠ 4 := by cases op <;> decide
  rw [tierRound, if_neg not_cast]
  refine ends_step (fun _ _ => exec_get) ?_
  rw [here, binaryOpAtTier_tok]
  refine ends_step (fun _ _ => exec_advance) (below.bind ?_)
  refine .of_exec fun r u => ?_
  by_cases chains : tierAssoc op.tier = .none
  · simp only [chains, if_true, exec_bind, exec_get]
    cases (binaryOpAtTier op.tier q.tok).isSome <;> rfl
  · simp only [chains, if_false]
    rfl

theorem Spine.binary {op : BinOp} {front back : List Tok} {height' : Nat} {plain' : Bool}
    {value' : Nat → Expr} (lhs : Spine op.tier front height plain value)
    (rhs : Phrase (op.tier - 1) back height' plain' false value')
    (chains : tierAssoc op.tier ≠ .none) :
    Spine op.tier (front ++ op.tok :: back) (max height height') (plain && plain')
      fun origin => .binary op (value origin) (value' origin) where
  opening := opens_append _ lhs.opening
  reads depth p rest ahead stops room flag := by
    rw [List.append_assoc, List.cons_append] at ahead
    have tighter : op.tier - 1 < op.tier := by
      have least := op.tier_bounds.1
      omega
    obtain ⟨left, same, reads⟩ := lhs.reads depth p _ ahead
      (by rw [List.head?_cons]; exact continues_binary tighter) (by omega)
      flag.left
    have at_op := Parser.ahead_skip_of_append ahead
    have inside := Parser.ahead_skip_one at_op
    obtain ⟨right, same', reads'⟩ :=
      rhs.reads depth ((p.skip front.length).skip 1) rest inside stops
      nofun (by omega) flag.right
    refine ⟨.binary op left right, congrArg₂ (Node.binary op) same same', fun outcome rounds => ?_⟩
    refine reads outcome fun left_rounds more => ?_
    obtain ⟨left_rounds, rfl⟩ : ∃ less, left_rounds = less + 1 := ⟨left_rounds - 1, by omega⟩
    have step := @ends_tierRound_op depth (p.skip front.length) _ op left right
      (Parser.tok_of_cons at_op) reads'
    rw [if_neg chains] at step
    refine ends_loop_more step ?_
    rw [Parser.skip_middle]
    refine rounds left_rounds ?_
    rw [List.length_cons, List.length_append] at more
    omega

theorem Spine.cast {front : List Tok} (expr : Spine 4 front height plain value) (ty : CastType) :
    Spine 4 (front ++ .kw .as_ :: ty.tokens) (max height ty.height) (plain && ty.plain)
      fun origin => .cast (value origin) (ty.value origin) where
  opening := opens_append _ expr.opening
  reads depth p rest ahead stops room flag := by
    rw [List.append_assoc, List.cons_append] at ahead
    obtain ⟨inner, same, reads⟩ := expr.reads depth p _ ahead
      (by rw [List.head?_cons]; exact continues_as (by omega)) (by omega)
      flag.left
    have at_as := Parser.ahead_skip_of_append ahead
    have inside := Parser.ahead_skip_one at_as
    have read := ty.reads depth ((p.skip front.length).skip 1) rest inside
      (continuesOperand_of_continues stops) (by omega) flag.right
    refine ⟨.cast inner (ty.value p.origin), congrArg (Node.cast · _) same, fun outcome rounds =>
      ?_⟩
    refine reads outcome fun left_rounds more => ?_
    obtain ⟨left_rounds, rfl⟩ : ∃ less, left_rounds = less + 1 := ⟨left_rounds - 1, by omega⟩
    have here : (p.skip front.length).atKw .as_ = true :=
      decide_eq_true (Parser.tok_of_cons at_as)
    have step : grammar.Ends depth (tierRound 4 inner) (p.skip front.length)
        (.ok (.inl (.cast inner (ty.value p.origin)),
          ((p.skip front.length).skip 1).skip ty.tokens.length)) := by
      refine ends_step (fun _ _ => exec_eatKw _) ?_
      simp only [here, if_true]
      exact read.bind (ends_pure _)
    refine ends_loop_more step ?_
    rw [Parser.skip_middle]
    refine rounds left_rounds ?_
    rw [List.length_cons, List.length_append] at more
    omega

/-! ## Operators that do not chain -/

section

variable {op : BinOp} {front back : List Tok} {height' : Nat} {plain' : Bool} {value' : Nat → Expr}
  (lhs : Spine op.tier front height plain value)
  (rhs : Phrase (op.tier - 1) back height' plain' false value')
  (unchained : tierAssoc op.tier = .none)
include lhs rhs unchained

/-- Two operands around an operator that does not chain: the loop has one round. -/
theorem ends_unchained {depth : Nat} {p : Parser} {rest : List Tok}
    (ahead : p.ahead = (front ++ op.tok :: back) ++ rest)
    (stops : continues (op.tier - 1) rest.head? = false)
    (room : depth + max height height' ≤ maxNesting)
    (flag : p.Admits (plain && plain')) :
    ∃ expr, Node.ungroup expr =
        Node.ungroup (.binary op (value p.origin) (value' p.origin)) ∧
      grammar.Ends depth (parseTier op.tier) p
        (if (binaryOpAtTier op.tier rest.head?).isSome then
          .error
            (.refused ((p.skip (front ++ op.tok :: back).length).error "E0003" "gram.expr.prec"))
        else .ok (expr, p.skip (front ++ op.tok :: back).length)) := by
  obtain ⟨least, most⟩ := op.tier_bounds
  have after := Parser.ahead_skip_of_append ahead
  rw [List.append_assoc, List.cons_append] at ahead
  obtain ⟨left, same, reads⟩ := lhs.reads depth p _ ahead
    (by rw [List.head?_cons]; exact continues_binary (by omega)) (by omega)
    flag.left
  have at_op := Parser.ahead_skip_of_append ahead
  obtain ⟨right, same', reads'⟩ := rhs.reads depth ((p.skip front.length).skip 1) rest
    (Parser.ahead_skip_one at_op) stops nofun (by omega)
    flag.right
  rw [Parser.skip_middle p front back op.tok] at reads'
  have step := @ends_tierRound_op depth (p.skip front.length) _ op left right
    (Parser.tok_of_cons at_op) reads'
  rw [if_pos unchained, Parser.tok_eq, after] at step
  refine ⟨.binary op left right, congrArg₂ (Node.binary op) same same', reads _ fun rounds more =>
    ?_⟩
  split at step
  · rename_i again
    rw [if_pos again]
    exact ends_loop_error (Nat.zero_lt_of_lt more) step
  · rename_i once
    rw [if_neg once]
    exact ends_loop_done (Nat.zero_lt_of_lt more) step

theorem Spine.binary_unchained :
    Phrase op.tier (front ++ op.tok :: back) (max height height') (plain && plain') false
      fun origin => .binary op (value origin) (value' origin) where
  opening := opens_append _ lhs.opening
  reads depth p rest ahead stops _ room flag := by
    have most := op.tier_bounds.2
    obtain ⟨expr, same, reads⟩ := ends_unchained lhs rhs unchained ahead
      (continues_mono (Nat.sub_le _ 1) stops) room flag
    have once : ¬ (binaryOpAtTier op.tier rest.head?).isSome = true := by
      rw [no_op_of_continues (Nat.le_refl _) most stops]
      exact Bool.false_ne_true
    rw [if_neg once] at reads
    exact ⟨expr, same, reads⟩

end

/-! ## Ranges -/

/-- Tokens that are read as one end of a range. -/
structure RangeEnd (tokens : List Tok) (height : Nat) (plain : Bool) (value : Nat → Expr) :
    Prop where
  opening : ∃ head tail, tokens = head :: tail ∧ opens 14 head = true ∧ rangeOp (some head) = none
  reads : ∀ depth p rest, p.ahead = tokens ++ rest → continues 13 rest.head? = false →
    depth + height ≤ maxNesting → p.Admits plain →
    ∃ expr, Node.ungroup expr = Node.ungroup (value p.origin) ∧
      grammar.Ends depth parseRangeEnd p (.ok (expr, p.skip tokens.length))

theorem Phrase.rangeEnd (phrase : Phrase 13 tokens height plain false value) :
    RangeEnd tokens height plain value where
  opening := by
    obtain ⟨head, tail, eq, opening⟩ := phrase.opening
    exact ⟨head, tail, eq, opens_mono (Nat.le_succ 13) opening,
      (opens_range (Nat.le_refl 13) opening).1⟩
  reads depth p rest ahead stops room flag := by
    obtain ⟨expr, same, reads⟩ :=
      phrase.reads depth p rest ahead stops nofun room flag
    obtain ⟨head, tail, eq, opening⟩ := phrase.opening
    have no_caret := (opens_range (Nat.le_refl 13) opening).2
    have here : p.tok = some head := Parser.tok_of_cons (by rw [ahead, eq]; rfl)
    refine ⟨expr, same, ends_step (fun _ _ => exec_eat _) ?_⟩
    simp only [here, Option.some.injEq, no_caret, decide_false, Bool.false_eq_true, if_false]
    exact reads

theorem Phrase.fromEnd (phrase : Phrase 13 tokens height plain false value) :
    RangeEnd (.caret :: tokens) height plain fun origin => .fromEnd (value origin) where
  opening := ⟨.caret, tokens, rfl, by decide, rfl⟩
  reads depth p rest ahead stops room flag := by
    rw [List.cons_append] at ahead
    obtain ⟨expr, same, reads⟩ := phrase.reads depth (p.skip 1) rest (Parser.ahead_skip_one ahead)
      stops nofun room flag
    have here := Parser.tok_of_cons ahead
    refine ⟨.fromEnd expr, congrArg Node.fromEnd same, ends_step (fun _ _ => exec_eat _) ?_⟩
    rw [List.length_cons, Nat.add_comm, ← Parser.skip_skip]
    simp only [here, decide_true, if_true]
    exact reads.bind (ends_pure _)

theorem rangeOp_rangeTok (inclusive : Bool) :
    rangeOp (some (rangeTok inclusive)) = some inclusive := by
  cases inclusive <;> rfl

/-- An end alone. -/
theorem RangeEnd.phrase (stop : RangeEnd tokens height plain value) :
    Phrase 14 tokens height plain false value where
  opening := by
    obtain ⟨head, tail, eq, opening, -⟩ := stop.opening
    exact ⟨head, tail, eq, opening⟩
  reads depth p rest ahead stops _ room flag := by
    obtain ⟨expr, same, reads⟩ :=
      stop.reads depth p rest ahead (continues_mono (Nat.le_succ 13) stops) room flag
    obtain ⟨head, tail, eq, -, no_range⟩ := stop.opening
    have here : p.tok = some head := Parser.tok_of_cons (by rw [ahead, eq]; rfl)
    have after : rangeOp (p.skip tokens.length).tok = none := by
      rw [Parser.tok_eq, Parser.ahead_skip_of_append ahead]
      exact no_range_of_continues (Nat.le_refl 14) stops
    refine ⟨expr, same, ends_step (fun _ _ => exec_get) ?_⟩
    rw [here, no_range]
    refine reads.bind (ends_step (fun _ _ => exec_get) ?_)
    rw [after]
    exact ends_pure expr

/-- `..e` -/
theorem RangeEnd.rangeTo (stop : RangeEnd tokens height plain value) (inclusive : Bool) :
    Phrase 14 (rangeTok inclusive :: tokens) height plain false
      fun origin => .range .none (.some (value origin)) inclusive where
  opening := ⟨rangeTok inclusive, tokens, rfl, by cases inclusive <;> decide⟩
  reads depth p rest ahead stops _ room flag := by
    rw [List.cons_append] at ahead
    obtain ⟨expr, same, reads⟩ := stop.reads depth (p.skip 1) rest (Parser.ahead_skip_one ahead)
      (continues_mono (Nat.le_succ 13) stops) room flag
    refine ⟨.range .none (.some expr) inclusive,
      congrArg (fun stop => Node.range .none (.some stop) inclusive) same,
      ends_step (fun _ _ => exec_get) ?_⟩
    rw [Parser.tok_of_cons ahead, rangeOp_rangeTok, List.length_cons, Nat.add_comm,
      ← Parser.skip_skip]
    exact ends_step (fun _ _ => exec_advance) (reads.bind (ends_pure _))

/-- What follows a range operator that has a start: the rest of the range, unless another range
operator follows that. -/
theorem ends_range {depth : Nat} {p q : Parser} {start : Expr} {inclusive : Bool}
    {stop : Node (.opt .expr)} {front : List Tok} (opener : p.tok = some head)
    (no_range : rangeOp (some head) = none)
    (reads : grammar.Ends depth parseRangeEnd p (.ok (start, p.skip front.length)))
    (here : (p.skip front.length).tok = some (rangeTok inclusive))
    (stops : grammar.Ends depth parseRangeStop ((p.skip front.length).skip 1) (.ok (stop, q))) :
    grammar.Ends depth parseRangeExpr p
      (if (rangeOp q.tok).isSome then .error (.refused (q.error "E0205" "gram.expr.prec"))
        else .ok (.range (.some start) stop inclusive, q)) := by
  refine ends_step (fun _ _ => exec_get) ?_
  rw [opener, no_range]
  refine reads.bind (ends_step (fun _ _ => exec_get) ?_)
  rw [here, rangeOp_rangeTok]
  refine ends_step (fun _ _ => exec_advance) (stops.bind (ends_step (fun _ _ => exec_get) ?_))
  refine .of_exec fun r u => ?_
  cases (rangeOp q.tok).isSome <;> rfl

/-- `e..` -/
theorem RangeEnd.rangeFrom (start : RangeEnd tokens height plain value) (inclusive : Bool) :
    Phrase 14 (tokens ++ [rangeTok inclusive]) height plain true
      fun origin => .range (.some (value origin)) .none inclusive where
  opening := by
    obtain ⟨head, tail, eq, opening, -⟩ := start.opening
    exact ⟨head, tail ++ [rangeTok inclusive], by rw [eq]; rfl, opening⟩
  reads depth p rest ahead stops open_ room flag := by
    rw [List.append_assoc, List.singleton_append] at ahead
    obtain ⟨expr, same, reads⟩ := start.reads depth p _ ahead
      (by rw [List.head?_cons]; exact continues_range (by omega) inclusive) room flag
    obtain ⟨head, tail, eq, -, no_range⟩ := start.opening
    have at_op := Parser.ahead_skip_of_append ahead
    have after : ((p.skip tokens.length).skip 1).tok = rest.head? := by
      rw [Parser.tok_eq, Parser.ahead_skip_one at_op]
    have none_follows : grammar.Ends depth parseRangeStop ((p.skip tokens.length).skip 1)
        (.ok (.none, (p.skip tokens.length).skip 1)) := by
      refine ends_step (fun _ _ => exec_get) ?_
      simp only [after, open_ rfl, Bool.false_eq_true, if_false]
      exact ends_pure _
    have range := ends_range (p := p)
      (Parser.tok_of_cons (by rw [ahead, eq]; rfl)) no_range reads
      (Parser.tok_of_cons at_op) none_follows
    rw [after, no_range_of_continues (Nat.le_refl 14) stops, Option.isSome_none,
      if_neg Bool.false_ne_true] at range
    refine ⟨.range (.some expr) .none inclusive,
      congrArg (fun start => Node.range (.some start) .none inclusive) same, ?_⟩
    rw [List.length_append, List.length_singleton, ← Parser.skip_skip]
    exact range

section

variable {front back : List Tok} {height' : Nat} {plain' : Bool} {value' : Nat → Expr}
  (start : RangeEnd front height plain value) (stop : RangeEnd back height' plain' value')
include start stop

/-- `a..b`, unless another range operator follows. -/
theorem ends_rangeBoth {inclusive : Bool} {depth : Nat} {p : Parser} {rest : List Tok}
    (ahead : p.ahead = (front ++ rangeTok inclusive :: back) ++ rest)
    (stops : continues 13 rest.head? = false) (room : depth + max height height' ≤ maxNesting)
    (flag : p.Admits (plain && plain')) :
    ∃ expr, Node.ungroup expr = Node.ungroup
        (.range (.some (value p.origin)) (.some (value' p.origin)) inclusive) ∧
      grammar.Ends depth parseRangeExpr p (if (rangeOp rest.head?).isSome then .error (.refused
            ((p.skip (front ++ rangeTok inclusive :: back).length).error "E0205" "gram.expr.prec"))
        else .ok (expr, p.skip (front ++ rangeTok inclusive :: back).length)) := by
  have after := Parser.ahead_skip_of_append ahead
  rw [List.append_assoc, List.cons_append] at ahead
  obtain ⟨left, same, reads⟩ := start.reads depth p _ ahead
    (by rw [List.head?_cons]; exact continues_range (by omega) inclusive) (by omega)
    flag.left
  obtain ⟨head, tail, eq, -, no_range⟩ := start.opening
  have at_op := Parser.ahead_skip_of_append ahead
  have inside := Parser.ahead_skip_one at_op
  obtain ⟨right, same', reads'⟩ := stop.reads depth ((p.skip front.length).skip 1) rest inside stops
    (by omega) flag.right
  rw [Parser.skip_middle p front back (rangeTok inclusive)] at reads'
  obtain ⟨head', tail', eq', opening', -⟩ := stop.opening
  have follows : rangeEndFollows ((p.skip front.length).skip 1).tok = true := by
    rw [Parser.tok_of_cons (inside.trans (by rw [eq']; rfl))]
    exact rangeEndFollows_of_opens opening'
  have both : grammar.Ends depth parseRangeStop ((p.skip front.length).skip 1)
      (.ok (.some right, p.skip (front ++ rangeTok inclusive :: back).length)) := by
    refine ends_step (fun _ _ => exec_get) ?_
    simp only [follows, if_true]
    exact reads'.bind (ends_pure _)
  have range := ends_range (p := p)
    (Parser.tok_of_cons (by rw [ahead, eq]; rfl)) no_range reads (Parser.tok_of_cons at_op) both
  rw [Parser.tok_eq, after] at range
  refine ⟨.range (.some left) (.some right) inclusive, ?_, range⟩
  rw [Node.ungroup, Node.ungroup, Node.ungroup, Node.ungroup, same, same']
  rfl

theorem RangeEnd.range (inclusive : Bool) :
    Phrase 14 (front ++ rangeTok inclusive :: back) (max height height') (plain && plain') false
      fun origin => .range (.some (value origin)) (.some (value' origin)) inclusive where
  opening := by
    obtain ⟨head, tail, eq, opening, -⟩ := start.opening
    exact ⟨head, tail ++ rangeTok inclusive :: back, by rw [eq]; rfl, opening⟩
  reads depth p rest ahead stops _ room flag := by
    obtain ⟨expr, same, reads⟩ := ends_rangeBoth start stop ahead
      (continues_mono (Nat.le_succ 13) stops) room flag
    rw [no_range_of_continues (Nat.le_refl 14) stops, Option.isSome_none,
      if_neg Bool.false_ne_true] at reads
    exact ⟨expr, same, reads⟩

end

/-! ## The defaulting `else` -/

/-- Tokens that are read as the right-hand side of a defaulting `else`. -/
def Handler (tokens : List Tok) (height : Nat) (plain ends : Bool)
    (value : Nat → Node .elseHandler) : Prop :=
  ∀ depth p rest, p.ahead = tokens ++ rest → continues 15 rest.head? = false →
    (ends = true → rangeEndFollows rest.head? = false) → depth + height ≤ maxNesting →
    p.Admits plain →
    ∃ handler, Node.ungroup handler = Node.ungroup (value p.origin) ∧
      grammar.Ends depth parseElseHandler p (.ok (handler, p.skip tokens.length))

theorem ends_parseBlockFreely {depth : Nat} {p : Parser} (block : HandlerBlock) {rest : List Tok}
    (ahead : p.ahead = block.tokens ++ rest) (room : depth + block.height ≤ maxNesting)
    (flag : p.Admits plain) :
    grammar.Ends depth parseBlockFreely p
      (.ok (block.value p.origin, p.skip block.tokens.length)) :=
  ends_withStructLit (block.reads depth (p.setStructLit false) rest ahead trivial room flag.free)

/-- An expression where struct literals are legal again. -/
theorem Phrase.freely (phrase : Phrase 15 tokens height plain ends value) {depth : Nat} {p : Parser}
    {plain' : Bool} {rest : List Tok} (ahead : p.ahead = tokens ++ rest)
    (stops : continues 15 rest.head? = false)
    (open_ : ends = true → rangeEndFollows rest.head? = false)
    (room : depth + (height + 1) ≤ maxNesting) (flag : p.Admits plain') :
    ∃ expr, Node.ungroup expr = Node.ungroup (value p.origin) ∧
      grammar.Ends depth (withStructLit true parseExpr) p (.ok (expr, p.skip tokens.length)) := by
  obtain ⟨expr, same, reads⟩ := @Phrase.exprInner _ _ _ _ _ phrase (depth + 1)
    (p.setStructLit false) rest ahead stops open_ (by omega) flag.free
  exact ⟨expr, same, ends_withStructLit (ends_parseExpr (by omega) reads)⟩

theorem HandlerBlock.handler (block : HandlerBlock) :
    Handler block.tokens block.height true false fun origin => .elseBlock (block.value origin) := by
  intro depth p rest ahead _ _ room flag
  have here : p.tok = some .lBrace := by
    rw [Parser.tok_eq, ahead, List.head?_append, block.starts]
    rfl
  refine ⟨_, rfl, ends_step (fun _ _ => exec_get) ?_⟩
  simp only [here, if_true]
  exact (ends_parseBlockFreely block ahead room flag).bind (ends_pure _)

theorem Phrase.handler (phrase : Phrase 15 tokens height plain ends value)
    (no_brace : Tree.opensBlock tokens = false) :
    Handler tokens (height + 1) true ends fun origin => .elseExpr (value origin) := by
  intro depth p rest ahead stops open_ room flag
  obtain ⟨head, tail, eq, opening⟩ := phrase.opening
  have here : p.tok = some head := Parser.tok_of_cons (by rw [ahead, eq]; rfl)
  have not_brace : head ≠ .lBrace := by
    rintro rfl
    simp [Tree.opensBlock, eq] at no_brace
  have no_word := (opens_not opening).1
  simp only [List.mem_cons, not_or] at no_word
  obtain ⟨expr, same, reads⟩ := phrase.freely ahead stops open_ room flag
  refine ⟨.elseExpr expr, congrArg Node.elseExpr same, ends_step (fun _ _ => exec_get) ?_⟩
  simp only [here, Option.some.injEq, not_brace, no_word, if_false]
  exact reads.bind (ends_pure _)

/-- A handler with a pattern between bars, given how its body is read. -/
theorem handler_catch (pattern : HandlerPattern)
    (body : ∀ depth p rest, p.ahead = tokens ++ rest → continues 15 rest.head? = false →
      (ends = true → rangeEndFollows rest.head? = false) → depth + height ≤ maxNesting →
      p.Admits pattern.plain → ∃ expr, Node.ungroup expr = Node.ungroup (value p.origin) ∧
        grammar.Ends depth parseHandlerBody p (.ok (expr, p.skip tokens.length))) :
    Handler (.pipe :: (pattern.tokens ++ .pipe :: tokens)) (max pattern.height height)
      pattern.plain ends fun origin => .elseHandler (pattern.value origin) (value origin) := by
  intro depth p rest ahead stops open_ room flag
  rw [List.cons_append, List.append_assoc, List.cons_append] at ahead
  have here := Parser.tok_of_cons ahead
  have inside := Parser.ahead_skip_one ahead
  have read := pattern.reads depth (p.skip 1) _ inside rfl (by omega) flag
  have at_bar := Parser.ahead_skip_of_append inside
  obtain ⟨expr, same, reads⟩ := body depth (((p.skip 1).skip pattern.tokens.length).skip 1) rest
    (Parser.ahead_skip_one at_bar) stops open_ (by omega) flag
  refine ⟨.elseHandler (pattern.value p.origin) expr, congrArg (Node.elseHandler _) same,
    ends_step (fun _ _ => exec_get) ?_⟩
  simp only [here, Option.some.injEq, reduceCtorEq, if_false, if_true]
  rw [List.length_cons, Nat.add_comm, ← Parser.skip_skip, ← Parser.skip_middle _ _ _ .pipe]
  exact ends_step (fun _ _ => exec_advance) (read.bind (ends_step
    (fun _ _ => (exec_expect _ _).trans (if_pos (Parser.tok_of_cons at_bar)))
    (reads.bind (ends_pure _))))

theorem Phrase.handlerCatch (phrase : Phrase 15 tokens height plain ends value)
    (no_brace : Tree.opensBlock tokens = false) (pattern : HandlerPattern) :
    Handler (.pipe :: (pattern.tokens ++ .pipe :: tokens)) (max pattern.height (height + 1))
      pattern.plain ends fun origin => .elseHandler (pattern.value origin) (value origin) := by
  refine handler_catch pattern fun depth p rest ahead stops open_ room flag => ?_
  obtain ⟨head, tail, eq, -⟩ := phrase.opening
  have here : p.tok = some head := Parser.tok_of_cons (by rw [ahead, eq]; rfl)
  have not_brace : head ≠ .lBrace := by
    rintro rfl
    simp [Tree.opensBlock, eq] at no_brace
  obtain ⟨expr, same, reads⟩ := phrase.freely ahead stops open_ room flag
  refine ⟨expr, same, ends_step (fun _ _ => exec_at _) ?_⟩
  simp only [here, Option.some.injEq, not_brace, decide_false, Bool.false_eq_true, if_false]
  exact reads

theorem HandlerBlock.handlerCatch (block : HandlerBlock) (pattern : HandlerPattern) :
    Handler (.pipe :: (pattern.tokens ++ .pipe :: block.tokens)) (max pattern.height block.height)
      pattern.plain false
      fun origin => .elseHandler (pattern.value origin) (.blockExpr (block.value origin)) := by
  refine @handler_catch block.height block.tokens false
    (fun origin => .blockExpr (block.value origin)) pattern fun depth p rest ahead _ _ room flag =>
      ?_
  have here : p.tok = some .lBrace := by
    rw [Parser.tok_eq, ahead, List.head?_append, block.starts]
    rfl
  refine ⟨_, rfl, ends_step (fun _ _ => exec_at _) ?_⟩
  simp only [here, decide_true, if_true]
  exact (ends_parseBlockFreely block ahead room flag).bind (ends_pure _)

theorem Phrase.elseDefault (phrase : Phrase 14 tokens height plain ends value) {back : List Tok}
    {height' : Nat} {plain' ends' : Bool} {value' : Nat → Node .elseHandler}
    (handler : Handler back height' plain' ends' value') :
    Phrase 15 (tokens ++ .kw .else_ :: back) (max height height') (plain && plain') ends'
      fun origin => .elseDefault (value origin) (value' origin) where
  opening := opens_append _ (opens_looser (Nat.le_succ 14) phrase.opening)
  reads depth p rest ahead stops open_ room flag := by
    rw [List.append_assoc, List.cons_append] at ahead
    obtain ⟨expr, same, reads⟩ := phrase.reads depth p _ ahead
      (by rw [List.head?_cons]; exact continues_else (by omega)) (fun _ => rfl) (by omega)
      flag.left
    have at_else := Parser.ahead_skip_of_append ahead
    obtain ⟨right, same', reads'⟩ := handler depth ((p.skip tokens.length).skip 1) rest
      (Parser.ahead_skip_one at_else) stops open_ (by omega)
      flag.right
    have here : (p.skip tokens.length).atKw .else_ = true :=
      decide_eq_true (Parser.tok_of_cons at_else)
    refine ⟨.elseDefault expr right, congrArg₂ Node.elseDefault same same', ?_⟩
    rw [Parser.skip_middle] at reads'
    refine reads.bind (ends_step (fun _ _ => exec_eatKw _) ?_)
    simp only [here, if_true]
    exact reads'.bind (ends_pure _)

end WolfInterp.Syntax
