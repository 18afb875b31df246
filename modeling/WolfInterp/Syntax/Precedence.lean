import WolfInterp.Syntax.Climb

/-!
# Precedence

Every operator tree is a phrase of its root's tier, so `parse_expr` reads its tokens as that tree. A
second operator of a tier that does not chain is refused, wherever in an expression it stands.
-/

namespace WolfInterp.Syntax

open WolfInterp.Lex (Text Tok Token Diag Keyword)
open Descent (Prog Outcome Halt exec exec_bind)
open Descent.Grammar (Ends)

/-! ## Trees -/

namespace Tree

theorem tier_bounds (tree : Tree) : 2 ≤ tree.tier ∧ tree.tier ≤ 15 := by
  cases tree with
  | binary op =>
    have bounds := op.tier_bounds
    exact ⟨Nat.le_trans (by omega) bounds.1, Nat.le_trans bounds.2 (by omega)⟩
  | _ => exact ⟨by simp [tier], by simp [tier]⟩

/-- A tree that can be an operand or the end of a range does not end with an open range. -/
theorem closed_of_tier {tree : Tree} (tight : tree.tier ≤ 13) : tree.endsOpen = false := by
  cases tree <;> simp_all [tier, endsOpen]

/-- How the tokens of a tree are read. -/
structure Reading (tree : Tree) : Prop where
  phrase : Phrase tree.tier tree.tokens tree.height tree.plain tree.endsOpen tree.expr
  spine : 4 ≤ tree.tier → tree.tier ≤ 13 → tierAssoc tree.tier ≠ .none →
    Spine tree.tier tree.tokens tree.height tree.plain tree.expr
  rangeEnd : tree.isRangeEnd = true →
    RangeEnd tree.tokens tree.height tree.plain tree.expr

variable {tree : Tree}

section

variable (reading : tree.Reading) {looser : Nat} {fits : Bool}
  (le : fits = true → tree.tier ≤ looser)
include reading le

theorem Reading.place (least : 2 ≤ looser) (most : looser ≤ 15) :
    Phrase looser (Tree.place fits tree.tokens) (placed fits tree.height) (!fits || tree.plain)
      (fits && tree.endsOpen) tree.expr :=
  reading.phrase.place tree.tier_bounds.1 tree.tier_bounds.2 le least most

/-- In the place of an operand of a tier no open range is left to the tokens that follow. -/
theorem Reading.operand (least : 2 ≤ looser) (most : looser ≤ 13) :
    Phrase looser (Tree.place fits tree.tokens) (placed fits tree.height) (!fits || tree.plain)
      false tree.expr := by
  have placed := reading.place le least (by omega)
  cases fits with
  | false => exact placed
  | true =>
    rw [closed_of_tier (Nat.le_trans (le rfl) most)] at placed
    exact placed

/-- The left operand of an operator that chains. -/
theorem Reading.left (least : 4 ≤ looser) (most : looser ≤ 13) (chains : tierAssoc looser ≠ .none) :
    Spine looser (Tree.place fits tree.tokens) (placed fits tree.height) (!fits || tree.plain)
      tree.expr := by
  by_cases same : fits = true ∧ tree.tier = looser
  · obtain ⟨rfl, rfl⟩ := same
    exact reading.spine least most chains
  · refine Spine.of_phrase (reading.operand (fun fit => ?_) (by omega) (by omega)) least most
    have := le fit
    have : tree.tier ≠ looser := fun eq => same ⟨fit, eq⟩
    omega

end

/-- The left operand of a binary operator. -/
theorem Reading.leftOperand (reading : tree.Reading) (op : BinOp) :
    Spine op.tier (Tree.place (tree.fitsLeft op) tree.tokens)
      (placed (tree.fitsLeft op) tree.height) (!tree.fitsLeft op || tree.plain) tree.expr := by
  obtain ⟨least, most⟩ := op.tier_bounds
  by_cases chains : tierAssoc op.tier = .none
  · refine Spine.of_phrase (reading.operand (fun fit => ?_) (by omega) (by omega)) (by omega) most
    rw [fitsLeft, if_pos chains] at fit
    exact Nat.le_sub_one_of_lt (of_decide_eq_true fit)
  · refine reading.left (fun fit => ?_) (by omega) most chains
    rw [fitsLeft, if_neg chains] at fit
    exact of_decide_eq_true fit

/-- The right operand of a binary operator. -/
theorem Reading.rightOperand (reading : tree.Reading) (op : BinOp) :
    Phrase (op.tier - 1) (Tree.place (tree.tier < op.tier : Bool) tree.tokens)
      (placed (tree.tier < op.tier : Bool) tree.height)
      (!(tree.tier < op.tier : Bool) || tree.plain) false tree.expr := by
  have bounds := op.tier_bounds
  exact reading.operand (fun fit => Nat.le_sub_one_of_lt (of_decide_eq_true fit)) (by omega)
    (by omega)

theorem Reading.stop (reading : tree.Reading) :
    RangeEnd (Tree.place tree.isRangeEnd tree.tokens) (placed tree.isRangeEnd tree.height)
      (!tree.isRangeEnd || tree.plain) tree.expr := by
  cases fits : tree.isRangeEnd with
  | true => exact reading.rangeEnd fits
  | false =>
    have group := @Reading.operand tree reading 13 false nofun (by omega)
      (Nat.le_refl 13)
    exact group.rangeEnd

/-- A handler's expression, in parentheses if it begins with a brace. -/
theorem Reading.handler (reading : tree.Reading) :
    Phrase 15 (Tree.place (!opensBlock tree.tokens) tree.tokens)
        (placed (!opensBlock tree.tokens) tree.height)
        (!(!opensBlock tree.tokens) || tree.plain) (!opensBlock tree.tokens && tree.endsOpen)
        tree.expr ∧ opensBlock (Tree.place (!opensBlock tree.tokens) tree.tokens) = false := by
  refine ⟨reading.place (fun _ => tree.tier_bounds.2) (by omega) (Nat.le_refl 15), ?_⟩
  cases opens : opensBlock tree.tokens with
  | true => rfl
  | false => exact opens

/-- A tree whose root is neither a chaining operator nor the end of a range. -/
theorem Reading.of_phrase
    (phrase : Phrase tree.tier tree.tokens tree.height tree.plain tree.endsOpen tree.expr)
    (root : tree.tier < 4 ∨ tierAssoc tree.tier = .none ∨ 13 < tree.tier)
    (no_end : 13 < tree.tier → tree.isRangeEnd = false) : tree.Reading where
  phrase
  spine least most chains := by
    rcases root with tight | unchained | loose
    · omega
    · exact absurd unchained chains
    · omega
  rangeEnd stop := by
    by_cases tight : tree.tier ≤ 13
    · have closed := phrase.looser tree.tier_bounds.1 tight (by omega)
      rw [closed_of_tier tight] at closed
      exact closed.rangeEnd
    · rw [no_end (by omega)] at stop
      cases stop

/-- A tree whose root chains. -/
theorem Reading.of_spine (spine : Spine tree.tier tree.tokens tree.height tree.plain tree.expr)
    (least : 4 ≤ tree.tier) (most : tree.tier ≤ 13) : tree.Reading where
  phrase := by
    rw [closed_of_tier most]
    exact spine.phrase least most
  spine _ _ _ := spine
  rangeEnd _ := ((spine.phrase least most).looser (by omega) most (by omega)).rangeEnd

/-- The left side of a handler: a range without an end goes on to nothing that an `else` opens. -/
theorem Reading.handled (reading : tree.Reading) :
    Phrase 14 (Tree.place (tree.tier ≤ 14 : Bool) tree.tokens)
      (placed (tree.tier ≤ 14 : Bool) tree.height) (!(tree.tier ≤ 14 : Bool) || tree.plain)
      ((tree.tier ≤ 14 : Bool) && tree.endsOpen) tree.expr :=
  reading.place (fun fit => of_decide_eq_true fit) (by omega) (by omega)

/-- The tokens of every tree are read as the tree. -/
theorem reading (tree : Tree) : tree.Reading := by
  induction tree with
  | operand leaf =>
    exact .of_phrase leaf.phrase (.inl (by simp [tier])) (fun loose => by simp [tier] at loose)
  | unary op operand induction =>
    have inner : Phrase 3 (Tree.place (operand.tier ≤ 3 : Bool) operand.tokens) _ _ _ _ :=
      induction.operand (fun fit => of_decide_eq_true fit) (by omega) (by omega)
    exact .of_phrase (inner.unary op) (.inl (by simp [tier]))
      (fun loose => by simp [tier] at loose)
  | cast expr ty induction =>
    have inner : Spine 4 (Tree.place (expr.tier ≤ 4 : Bool) expr.tokens) _ _ _ :=
      induction.left (fun fit => of_decide_eq_true fit) (Nat.le_refl 4) (by omega) (by decide)
    exact .of_spine (inner.cast ty) (Nat.le_refl 4) (by simp [tier])
  | binary op lhs rhs induction induction' =>
    obtain ⟨least, most⟩ := op.tier_bounds
    have left := induction.leftOperand op
    have right := induction'.rightOperand op
    by_cases chains : tierAssoc op.tier = .none
    · exact .of_phrase (left.binary_unchained right chains) (.inr (.inl chains))
        (fun loose => absurd loose (Nat.not_lt.mpr most))
    · exact .of_spine (left.binary right chains) (Nat.le_of_succ_le least) most
  | fromEnd expr induction =>
    have operand : Phrase 13 (Tree.place (expr.tier ≤ 13 : Bool) expr.tokens) _ _ _ _ :=
      induction.operand (fun fit => of_decide_eq_true fit) (by omega) (Nat.le_refl 13)
    have inner := operand.fromEnd
    exact {
      phrase := inner.phrase
      spine := fun _ most => absurd most (by simp [tier])
      rangeEnd := fun _ => inner }
  | rangeTo inclusive stop induction =>
    exact .of_phrase (induction.stop.rangeTo inclusive) (.inr (.inr (by simp [tier])))
      (fun _ => rfl)
  | rangeFrom inclusive start induction =>
    exact .of_phrase (induction.stop.rangeFrom inclusive) (.inr (.inr (by simp [tier])))
      (fun _ => rfl)
  | range inclusive start stop induction induction' =>
    exact .of_phrase (induction.stop.range induction'.stop inclusive)
      (.inr (.inr (by simp [tier]))) (fun _ => rfl)
  | elseBlock expr block induction =>
    have phrase := induction.handled.elseDefault block.handler
    rw [Bool.and_true] at phrase
    exact .of_phrase phrase (.inr (.inr (by simp [tier]))) (fun _ => rfl)
  | elseExpr expr handler induction induction' =>
    obtain ⟨body, no_brace⟩ := induction'.handler
    have phrase := induction.handled.elseDefault (body.handler no_brace)
    rw [Bool.and_true] at phrase
    exact .of_phrase phrase (.inr (.inr (by simp [tier]))) (fun _ => rfl)
  | elseCatch expr pattern body induction induction' =>
    obtain ⟨handler, no_brace⟩ := induction'.handler
    exact .of_phrase (induction.handled.elseDefault (handler.handlerCatch no_brace pattern))
      (.inr (.inr (by simp [tier]))) (fun _ => rfl)
  | elseCatchBlock expr pattern body induction =>
    exact .of_phrase (induction.handled.elseDefault (body.handlerCatch pattern))
      (.inr (.inr (by simp [tier]))) (fun _ => rfl)

end Tree

/-! ## Chains -/

variable {tier height : Nat} {tokens : List Tok} {plain : Bool}

/-- Tokens that a production refuses with a code, whatever follows them. -/
def Refuses {α : Type} (code : String) (production : P α) (tokens : List Tok) (height : Nat)
    (plain : Bool) : Prop :=
  ∀ depth p rest, p.ahead = tokens ++ rest → depth + height ≤ maxNesting →
    p.Admits plain →
    ∃ diag : Diag, diag.code = code ∧
      grammar.Ends depth production p (.error (.refused diag) : Outcome Parser Diag α)

/-- The caret of a range's end. -/
def caretTokens (fromEnd : Bool) : List Tok := if fromEnd then [.caret] else []

/-- Tokens up to the second operator of a chain that stands in an expression of a tier: two
comparisons, or two range operators, of which the first has a start. The chain may stand wherever
the expression has its last operand. -/
inductive Chain : (code : String) → (tier : Nat) → List Tok → (height : Nat) → (plain : Bool) → Prop
  | comparison (op op' : BinOp) (lhs rhs : Tree) (unchained : tierAssoc op.tier = .none)
      (same : op'.tier = op.tier) :
      Chain "E0003" op.tier
        ((Tree.place (lhs.fitsLeft op) lhs.tokens ++
          op.tok :: Tree.place (rhs.tier < op.tier : Bool) rhs.tokens) ++ [op'.tok])
        (max (Tree.placed (lhs.fitsLeft op) lhs.height)
          (Tree.placed (rhs.tier < op.tier : Bool) rhs.height))
        ((!lhs.fitsLeft op || lhs.plain) && (!(rhs.tier < op.tier : Bool) || rhs.plain))
  | ranges (inclusive inclusive' : Bool) (start stop : Tree) :
      Chain "E0205" 14
        ((Tree.place start.isRangeEnd start.tokens ++
          rangeTok inclusive :: Tree.place stop.isRangeEnd stop.tokens) ++ [rangeTok inclusive'])
        (max (Tree.placed start.isRangeEnd start.height) (Tree.placed stop.isRangeEnd stop.height))
        ((!start.isRangeEnd || start.plain) && (!stop.isRangeEnd || stop.plain))
  | openRanges (inclusive inclusive' : Bool) (start : Tree) :
      Chain "E0201" 14
        (Tree.place start.isRangeEnd start.tokens ++ [rangeTok inclusive, rangeTok inclusive'])
        (Tree.placed start.isRangeEnd start.height) (!start.isRangeEnd || start.plain)
  | looser {code tier tokens height plain} (chain : Chain code tier tokens height plain)
      (most : tier < 15) : Chain code (tier + 1) tokens height plain
  | group {code tokens height plain} (chain : Chain code 15 tokens height plain) :
      Chain code 2 (.lParen :: tokens) (height + 1) true
  | unary (op : UnOp) {code tokens height plain} (chain : Chain code 3 tokens height plain) :
      Chain code 3 (op.tokens ++ tokens) (height + 1) plain
  | binary (op : BinOp) (lhs : Tree) {code tokens height plain}
      (chain : Chain code (op.tier - 1) tokens height plain) :
      Chain code op.tier (Tree.place (lhs.fitsLeft op) lhs.tokens ++ op.tok :: tokens)
        (max (Tree.placed (lhs.fitsLeft op) lhs.height) height)
        ((!lhs.fitsLeft op || lhs.plain) && plain)
  | fromEnd {code tokens height plain} (chain : Chain code 13 tokens height plain) :
      Chain code 14 (.caret :: tokens) height plain
  | rangeTo (inclusive fromEnd : Bool) {code tokens height plain}
      (chain : Chain code 13 tokens height plain) :
      Chain code 14 (rangeTok inclusive :: (caretTokens fromEnd ++ tokens)) height plain
  | range (inclusive fromEnd : Bool) (start : Tree) {code tokens height plain}
      (chain : Chain code 13 tokens height plain) :
      Chain code 14
        (Tree.place start.isRangeEnd start.tokens ++
          rangeTok inclusive :: (caretTokens fromEnd ++ tokens))
        (max (Tree.placed start.isRangeEnd start.height) height)
        ((!start.isRangeEnd || start.plain) && plain)
  | elseExpr (lhs : Tree) {code tokens height plain} (chain : Chain code 15 tokens height plain)
      (no_brace : Tree.opensBlock tokens = false) :
      Chain code 15 (Tree.place (lhs.tier ≤ 14 : Bool) lhs.tokens ++ .kw .else_ :: tokens)
        (max (Tree.placed (lhs.tier ≤ 14 : Bool) lhs.height) (height + 1))
        (!(lhs.tier ≤ 14 : Bool) || lhs.plain)
  | elseCatch (lhs : Tree) (pattern : HandlerPattern) {code tokens height plain}
      (chain : Chain code 15 tokens height plain) (no_brace : Tree.opensBlock tokens = false) :
      Chain code 15
        (Tree.place (lhs.tier ≤ 14 : Bool) lhs.tokens ++
          .kw .else_ :: .pipe :: (pattern.tokens ++ .pipe :: tokens))
        (max (Tree.placed (lhs.tier ≤ 14 : Bool) lhs.height) (max pattern.height (height + 1)))
        ((!(lhs.tier ≤ 14 : Bool) || lhs.plain) && pattern.plain)

theorem Chain.least {code : String} (chain : Chain code tier tokens height plain) : 2 ≤ tier := by
  induction chain with
  | comparison op | binary op => exact Nat.le_trans (by omega) op.tier_bounds.1
  | looser _ _ induction => exact Nat.le_succ_of_le induction
  | _ => omega

/-- A chain begins like an expression. -/
theorem Chain.opening {code : String} (chain : Chain code tier tokens height plain) :
    ∃ head tail, tokens = head :: tail ∧ opens tier head = true := by
  have extend {front back : List Tok} {tier : Nat}
      (opening : ∃ head tail, front = head :: tail ∧ opens tier head = true) :
      ∃ head tail, front ++ back = head :: tail ∧ opens tier head = true := by
    obtain ⟨head, tail, eq, opening⟩ := opening
    exact ⟨head, tail ++ back, by rw [eq]; rfl, opening⟩
  have ranged (start : Tree) := start.reading.stop.phrase.opening
  induction chain with
  | comparison op op' lhs => exact extend (extend (lhs.reading.leftOperand op).opening)
  | ranges _ _ start => exact extend (extend (ranged start))
  | openRanges _ _ start => exact extend (ranged start)
  | looser _ _ induction =>
    obtain ⟨head, tail, eq, opening⟩ := induction
    exact ⟨head, tail, eq, opens_mono (Nat.le_succ _) opening⟩
  | group => exact ⟨_, _, rfl, by decide⟩
  | unary op => cases op <;> exact ⟨_, _, rfl, rfl⟩
  | binary op lhs => exact extend (lhs.reading.leftOperand op).opening
  | fromEnd => exact ⟨_, _, rfl, by decide⟩
  | rangeTo inclusive => exact ⟨_, _, rfl, by cases inclusive <;> decide⟩
  | range _ _ start => exact extend (ranged start)
  | elseExpr lhs | elseCatch lhs => exact extend (lhs.reading.handled.elseExpr).opening

/-! ## Chains are refused -/

variable {code : String}

theorem Refuses.withStructLit {α : Type} {production : P α}
    (refuses : Refuses code production tokens height plain) :
    Refuses code (withStructLit true production) tokens height true := by
  intro depth p rest ahead room flag
  obtain ⟨diag, eq, ends⟩ := refuses depth (p.setStructLit false) rest ahead room flag.free
  exact ⟨diag, eq, ends_step (fun _ _ => exec_get) (ends_step (fun _ _ => exec_modify _)
    ends.bind_error)⟩

variable {head : Tok} {front : List Tok} {height' : Nat} {plain' : Bool} {value : Nat → Expr}

/-- What ends an expression of tier 15 ends an expression: no jump begins it. -/
theorem ends_exprInner_error {depth : Nat} {p : Parser} {halt : Halt Diag}
    (here : p.tok = some head) (opening : opens 15 head = true)
    (ends : grammar.Ends depth (parseTier 15) p (.error halt)) :
    grammar.Ends depth parseExprInner p (.error halt) := by
  have jumps := (opens_not opening).1
  simp only [List.mem_cons, not_or] at jumps
  refine ends_step (fun _ _ => exec_get) ?_
  rw [here]
  split
  · exact absurd (Option.some.inj ‹_›) (by grind)
  · exact absurd (Option.some.inj ‹_›) (by grind)
  · exact absurd (Option.some.inj ‹_›) (by grind)
  · exact ends

/-- What ends an expression of a tier ends one of the next looser tier. -/
theorem ends_looser_error {depth : Nat} {p : Parser} {halt : Halt Diag} (here : p.tok = some head)
    (opening : opens tier head = true) (least : 2 ≤ tier) (most : tier < 15)
    (ends : grammar.Ends depth (parseTier tier) p (.error halt)) :
    grammar.Ends depth (parseTier (tier + 1)) p (.error halt) := by
  rcases (by omega : tier = 2 ∨ 3 ≤ tier ∧ tier < 13 ∨ tier = 13 ∨ tier = 14) with
    rfl | ⟨least, most⟩ | rfl | rfl
  · refine ends_step (fun _ _ => exec_get) ?_
    rw [here, opens_prefix (Nat.le_refl 2) opening]
    exact ends
  · rw [parseTier_climb (by omega) (by omega)]
    exact ends.bind_error
  · obtain ⟨no_range, no_caret⟩ := opens_range (Nat.le_refl 13) opening
    refine ends_step (fun _ _ => exec_get) ?_
    rw [here, no_range]
    have stop : grammar.Ends depth parseRangeEnd p (.error halt) := by
      refine ends_step (fun _ _ => exec_eat _) ?_
      simp only [here, Option.some.injEq, no_caret, decide_false, Bool.false_eq_true, if_false]
      exact ends
    exact stop.bind_error
  · exact ends.bind_error

theorem Refuses.exprInner (refuses : Refuses code (parseTier 15) tokens height plain)
    (opening : ∃ head tail, tokens = head :: tail ∧ opens 15 head = true) :
    Refuses code parseExprInner tokens height plain := by
  intro depth p rest ahead room flag
  obtain ⟨diag, code_eq, ends⟩ := refuses depth p rest ahead room flag
  obtain ⟨head, tail, rfl, opening⟩ := opening
  exact ⟨diag, code_eq, ends_exprInner_error (Parser.tok_of_cons ahead) opening ends⟩

theorem Refuses.parseExpr (refuses : Refuses code parseExprInner tokens height plain) :
    Refuses code parseExpr tokens (height + 1) plain := by
  intro depth p rest ahead room flag
  obtain ⟨diag, eq, ends⟩ := refuses (depth + 1) p rest ahead (by omega) flag
  exact ⟨diag, eq, Ends.rail (show depth < maxNesting by omega) ends⟩

theorem Refuses.looser (refuses : Refuses code (parseTier tier) tokens height plain)
    (opening : ∃ head tail, tokens = head :: tail ∧ opens tier head = true) (least : 2 ≤ tier)
    (most : tier < 15) : Refuses code (parseTier (tier + 1)) tokens height plain := by
  intro depth p rest ahead room flag
  obtain ⟨diag, code_eq, ends⟩ := refuses depth p rest ahead room flag
  obtain ⟨head, tail, rfl, opening⟩ := opening
  exact ⟨diag, code_eq, ends_looser_error (Parser.tok_of_cons ahead) opening least most ends⟩

theorem Refuses.group (refuses : Refuses code (Syntax.parseExpr) tokens height plain)
    (opening : ∃ head tail, tokens = head :: tail ∧ opens tier head = true) :
    Refuses code (parseTier 2) (.lParen :: tokens) height true := by
  intro depth p rest ahead room flag
  rw [List.cons_append] at ahead
  obtain ⟨head, tail, eq, opening⟩ := opening
  have here : p.tok = some .lParen := Parser.tok_of_cons ahead
  have inside := Parser.ahead_skip_one ahead
  have first : (p.skip 1).tok = some head := Parser.tok_of_cons (by rw [inside, eq]; rfl)
  obtain ⟨diag, code_eq, ends⟩ := refuses depth ((p.skip 1).setStructLit false) rest inside room
    flag.free
  have no_word := (opens_not opening).1
  simp only [List.mem_cons, not_or] at no_word
  have no_term : isInsertedTerm (some head) = false := by
    cases head <;> simp_all [isInsertedTerm]
  have unmoded : ¬ (p.tok = some .lParen ∧
      (p.tokAt 1 = some (.kw .mut_) ∨ p.tokAt 1 = some (.kw .take))) := by
    rw [← p.tok_skip, first]
    simp only [Option.some.injEq, no_word, or_self, and_false, not_false_eq_true]
  refine ⟨diag, code_eq, ends_step (fun _ _ => exec_get) ?_⟩
  simp only [unmoded, if_false]
  have primary : grammar.Ends depth parsePrimary p (.error (.refused diag)) := by
    refine ends_step (fun _ _ => exec_get) ?_
    rw [here]
    refine ends_step (fun _ _ => (exec_expect _ _).trans (if_pos here)) (Ends.bind_error ?_)
    refine ends_step (fun _ _ => exec_get) (ends_step (fun _ _ => exec_modify _)
      (Ends.bind_error (ends_loop (ends_loop_error (Nat.zero_lt_of_lt
        (Parser.length_ahead_lt_rounds _)) ?_))))
    refine ends_step (fun _ _ => exec_skipWhile (by
      change isInsertedTerm (p.skip 1).tok = false
      rw [first]
      exact no_term)) ?_
    refine ends_step (fun _ _ => exec_at _) ?_
    change grammar.Ends depth (if decide ((p.skip 1).tok = some .rParen) = true then _ else _) _ _
    rw [first]
    simp only [Option.some.injEq, no_word, decide_false, Bool.false_eq_true, if_false]
    exact ends.bind_error
  exact primary.bind_error

theorem Refuses.unary (refuses : Refuses code (parseTier 3) tokens height plain)
    (opening : ∃ head tail, tokens = head :: tail ∧ opens 3 head = true) (op : UnOp) :
    Refuses code (parseTier 3) (op.tokens ++ tokens) (height + 1) plain := by
  intro depth p rest ahead room flag
  rw [List.append_assoc] at ahead
  obtain ⟨diag, code_eq, ends⟩ := refuses (depth + 1) (p.skip op.tokens.length) rest
    (Parser.ahead_skip_of_append ahead) (by omega) flag
  obtain ⟨head, tail, eq, opening⟩ := opening
  have modes := (opens_not opening).1
  simp only [List.mem_cons, not_or] at modes
  refine ⟨diag, code_eq, ends_prefix_error ahead ?_ (by omega) ends⟩
  rw [eq]
  intro moded
  exact modes.2.2.2.2.2.2.2.1 (Option.some.inj moded)

/-- The right operand of a binary operator is refused. -/
theorem Refuses.binary {op : BinOp} (lhs : Spine op.tier front height' plain' value)
    (refuses : Refuses code (parseTier (op.tier - 1)) tokens height plain) :
    Refuses code (parseTier op.tier) (front ++ op.tok :: tokens) (max height' height)
      (plain' && plain) := by
  intro depth p rest ahead room flag
  rw [List.append_assoc, List.cons_append] at ahead
  have least := op.tier_bounds.1
  obtain ⟨left, -, reads⟩ := lhs.reads depth p _ ahead
    (by rw [List.head?_cons]; exact continues_binary (by omega)) (by omega)
    flag.left
  have at_op := Parser.ahead_skip_of_append ahead
  obtain ⟨diag, code_eq, ends⟩ := refuses depth ((p.skip front.length).skip 1) rest
    (Parser.ahead_skip_one at_op) (by omega) flag.right
  refine ⟨diag, code_eq, reads _ fun rounds more => ends_loop_error (Nat.zero_lt_of_lt more) ?_⟩
  have not_cast : op.tier ≠ 4 := by omega
  rw [tierRound, if_neg not_cast]
  refine ends_step (fun _ _ => exec_get) ?_
  rw [Parser.tok_of_cons at_op, binaryOpAtTier_tok]
  exact ends_step (fun _ _ => exec_advance) ends.bind_error

/-- The second of two operators that do not chain. -/
theorem refuses_comparison {op op' : BinOp} {back : List Tok} {value' : Nat → Expr}
    (lhs : Spine op.tier front height plain value)
    (rhs : Phrase (op.tier - 1) back height' plain' false value')
    (unchained : tierAssoc op.tier = .none) (same : op'.tier = op.tier) :
    Refuses "E0003" (parseTier op.tier) ((front ++ op.tok :: back) ++ [op'.tok])
      (max height height') (plain && plain') := by
  intro depth p rest ahead room flag
  rw [List.append_assoc] at ahead
  have least := op.tier_bounds.1
  obtain ⟨expr, -, ends⟩ := ends_unchained lhs rhs unchained ahead
    (by rw [List.singleton_append, List.head?_cons]; exact continues_binary (by omega)) room flag
  have again : (binaryOpAtTier op.tier ([op'.tok] ++ rest).head?).isSome = true := by
    rw [List.singleton_append, List.head?_cons, ← same, binaryOpAtTier_tok]
    rfl
  rw [if_pos again] at ends
  exact ⟨_, rfl, ends⟩

/-- The second of two range operators. -/
theorem refuses_ranges {back : List Tok} {value' : Nat → Expr}
    (start : RangeEnd front height plain value) (stop : RangeEnd back height' plain' value')
    (inclusive inclusive' : Bool) : Refuses "E0205" (parseTier 14)
      ((front ++ rangeTok inclusive :: back) ++ [rangeTok inclusive'])
      (max height height') (plain && plain') := by
  intro depth p rest ahead room flag
  rw [List.append_assoc] at ahead
  obtain ⟨expr, -, ends⟩ := ends_rangeBoth start stop ahead
    (by rw [List.singleton_append, List.head?_cons]; exact continues_range (by omega) _) room flag
  have again : (rangeOp ([rangeTok inclusive'] ++ rest).head?).isSome = true := by
    rw [List.singleton_append, List.head?_cons, rangeOp_rangeTok]
    rfl
  rw [if_pos again] at ends
  exact ⟨_, rfl, ends⟩

/-- The end of a range, with its caret. -/
theorem Refuses.rangeEnd (refuses : Refuses code (parseTier 13) tokens height plain)
    (opening : ∃ head tail, tokens = head :: tail ∧ opens 13 head = true) (fromEnd : Bool) :
    Refuses code parseRangeEnd (caretTokens fromEnd ++ tokens) height plain := by
  intro depth p rest ahead room flag
  cases fromEnd with
  | true =>
    have here := Parser.tok_of_cons ahead
    obtain ⟨diag, code_eq, ends⟩ :=
      refuses depth (p.skip 1) rest (Parser.ahead_skip_one ahead) room flag
    refine ⟨diag, code_eq, ends_step (fun _ _ => exec_eat _) ?_⟩
    simp only [here, decide_true, if_true]
    exact ends.bind_error
  | false =>
    obtain ⟨diag, code_eq, ends⟩ := refuses depth p rest ahead room flag
    obtain ⟨head, tail, eq, opening⟩ := opening
    have no_caret := (opens_range (Nat.le_refl 13) opening).2
    have here : p.tok = some head := Parser.tok_of_cons (by rw [ahead, eq]; rfl)
    refine ⟨diag, code_eq, ends_step (fun _ _ => exec_eat _) ?_⟩
    simp only [here, Option.some.injEq, no_caret, decide_false, Bool.false_eq_true, if_false]
    exact ends

theorem Refuses.fromEnd (refuses : Refuses code parseRangeEnd (.caret :: tokens) height plain) :
    Refuses code (parseTier 14) (.caret :: tokens) height plain := by
  intro depth p rest ahead room flag
  obtain ⟨diag, code_eq, ends⟩ := refuses depth p rest ahead room flag
  refine ⟨diag, code_eq, ends_step (fun _ _ => exec_get) ?_⟩
  rw [Parser.tok_of_cons ahead]
  exact ends.bind_error

theorem Refuses.rangeTo (refuses : Refuses code parseRangeEnd tokens height plain)
    (inclusive : Bool) :
    Refuses code (parseTier 14) (rangeTok inclusive :: tokens) height plain := by
  intro depth p rest ahead room flag
  rw [List.cons_append] at ahead
  obtain ⟨diag, code_eq, ends⟩ :=
    refuses depth (p.skip 1) rest (Parser.ahead_skip_one ahead) room flag
  refine ⟨diag, code_eq, ends_step (fun _ _ => exec_get) ?_⟩
  rw [Parser.tok_of_cons ahead, rangeOp_rangeTok]
  exact ends_step (fun _ _ => exec_advance) ends.bind_error

/-- The end of a range that has a start. -/
theorem Refuses.range (start : RangeEnd front height' plain' value)
    (refuses : Refuses code parseRangeEnd tokens height plain)
    (follows : ∃ head tail, tokens = head :: tail ∧ rangeEndFollows (some head) = true)
    (inclusive : Bool) :
    Refuses code (parseTier 14) (front ++ rangeTok inclusive :: tokens) (max height' height)
      (plain' && plain) := by
  intro depth p rest ahead room flag
  rw [List.append_assoc, List.cons_append] at ahead
  obtain ⟨left, -, reads⟩ := start.reads depth p _ ahead
    (by rw [List.head?_cons]; exact continues_range (by omega) inclusive) (by omega)
    flag.left
  have at_op := Parser.ahead_skip_of_append ahead
  have inside := Parser.ahead_skip_one at_op
  obtain ⟨diag, code_eq, ends⟩ := refuses depth ((p.skip front.length).skip 1) rest inside
    (by omega) flag.right
  obtain ⟨head, tail, eq, follows⟩ := follows
  obtain ⟨opener, tail', eq', -, no_range⟩ := start.opening
  have opener_here : p.tok = some opener := Parser.tok_of_cons (by rw [ahead, eq']; rfl)
  have head_here : ((p.skip front.length).skip 1).tok = some head :=
    Parser.tok_of_cons (by rw [inside, eq]; rfl)
  refine ⟨diag, code_eq, ends_step (fun _ _ => exec_get) ?_⟩
  rw [opener_here, no_range]
  refine reads.bind (ends_step (fun _ _ => exec_get) ?_)
  rw [Parser.tok_of_cons at_op, rangeOp_rangeTok]
  have stop : grammar.Ends depth parseRangeStop ((p.skip front.length).skip 1)
      (.error (.refused diag)) := by
    refine ends_step (fun _ _ => exec_get) ?_
    simp only [head_here, follows, if_true]
    exact ends.bind_error
  exact ends_step (fun _ _ => exec_advance) stop.bind_error

/-- No expression begins with a range operator where the end of a range stands. -/
theorem refuses_rangeTok (inclusive : Bool) :
    Refuses "E0201" parseRangeEnd [rangeTok inclusive] 0 true := by
  intro depth p rest ahead _ _
  have here : p.tok = some (rangeTok inclusive) := Parser.tok_of_cons ahead
  refine ⟨p.unexpected "gram.expr.primary", ?_, ?_⟩
  · rw [Parser.unexpected, here]
  · have primary : grammar.Ends depth parsePrimary p
        (.error (.refused (p.unexpected "gram.expr.primary"))) := by
      refine ends_step (fun _ _ => exec_get) ?_
      rw [here]
      cases inclusive <;> exact .of_exec fun _ _ => rfl
    have postfix_ : grammar.Ends depth parsePostfix p
        (.error (.refused (p.unexpected "gram.expr.primary"))) := by
      refine ends_step (fun _ _ => exec_get) ?_
      have unmoded : ¬ (p.tok = some .lParen ∧
          (p.tokAt 1 = some (.kw .mut_) ∨ p.tokAt 1 = some (.kw .take))) := by
        rw [here]
        cases inclusive <;> simp [rangeTok]
      simp only [unmoded, if_false]
      exact primary.bind_error
    have prefix_ : grammar.Ends depth (parseTier 3) p
        (.error (.refused (p.unexpected "gram.expr.primary"))) := by
      refine ends_step (fun _ _ => exec_get) ?_
      rw [here]
      cases inclusive <;> exact postfix_
    have climbs (tier : Nat) (least : 3 ≤ tier) (most : tier ≤ 13) :
        grammar.Ends depth (parseTier tier) p
          (.error (.refused (p.unexpected "gram.expr.primary"))) := by
      induction tier, least using Nat.le_induction with
      | base => exact prefix_
      | succ tier least induction =>
        rw [parseTier_climb (by omega) most]
        exact (induction (by omega)).bind_error
    refine ends_step (fun _ _ => exec_eat _) ?_
    rw [here]
    have no_caret : rangeTok inclusive ≠ .caret := by cases inclusive <;> simp [rangeTok]
    simp only [Option.some.injEq, no_caret, decide_false, Bool.false_eq_true, if_false]
    exact climbs 13 (by omega) (Nat.le_refl 13)

theorem opensBlock_cons {tail : List Tok} (no_brace : Tree.opensBlock (head :: tail) = false) :
    head ≠ .lBrace := by
  rintro rfl
  simp [Tree.opensBlock] at no_brace

section

variable (refuses : Refuses code (Syntax.parseExpr) tokens height plain)
  (opening : ∃ head tail, tokens = head :: tail ∧ opens 15 head = true)
  (no_brace : Tree.opensBlock tokens = false)
include refuses opening no_brace

/-- The right-hand side of an `else`. -/
theorem Refuses.elseHandler :
    Refuses code parseElseHandler tokens height true := by
  intro depth p rest ahead room flag
  obtain ⟨diag, code_eq, ends⟩ := refuses.withStructLit depth p rest ahead room flag
  obtain ⟨head, tail, rfl, opening⟩ := opening
  have here : p.tok = some head := Parser.tok_of_cons ahead
  have not_brace := opensBlock_cons no_brace
  have no_word := (opens_not opening).1
  simp only [List.mem_cons, not_or] at no_word
  refine ⟨diag, code_eq, ends_step (fun _ _ => exec_get) ?_⟩
  simp only [here, Option.some.injEq, not_brace, no_word, if_false]
  exact ends.bind_error

theorem Refuses.elseCatch (pattern : HandlerPattern) :
    Refuses code parseElseHandler (.pipe :: (pattern.tokens ++ .pipe :: tokens))
      (max pattern.height height) pattern.plain := by
  intro depth p rest ahead room flag
  rw [List.cons_append, List.append_assoc, List.cons_append] at ahead
  have here := Parser.tok_of_cons ahead
  have inside := Parser.ahead_skip_one ahead
  have read := pattern.reads depth (p.skip 1) _ inside rfl (by omega) flag
  have at_bar := Parser.ahead_skip_of_append inside
  have after := Parser.ahead_skip_one at_bar
  obtain ⟨diag, code_eq, ends⟩ :=
    refuses.withStructLit depth (((p.skip 1).skip pattern.tokens.length).skip 1) rest after
      (by omega) ⟨fun _ => rfl, flag.2⟩
  obtain ⟨head, tail, rfl, -⟩ := opening
  have at_body : (((p.skip 1).skip pattern.tokens.length).skip 1).tok = some head :=
    Parser.tok_of_cons after
  have not_brace := opensBlock_cons no_brace
  have body : grammar.Ends depth parseHandlerBody
      (((p.skip 1).skip pattern.tokens.length).skip 1) (.error (.refused diag)) := by
    refine ends_step (fun _ _ => exec_at _) ?_
    simp only [at_body, Option.some.injEq, not_brace, decide_false, Bool.false_eq_true, if_false]
    exact ends
  refine ⟨diag, code_eq, ends_step (fun _ _ => exec_get) ?_⟩
  simp only [here, Option.some.injEq, reduceCtorEq, if_false, if_true]
  exact ends_step (fun _ _ => exec_advance) (read.bind (ends_step
    (fun _ _ => (exec_expect _ _).trans (if_pos (Parser.tok_of_cons at_bar))) body.bind_error))

end

/-- The handler of an `else` is refused. -/
theorem Refuses.elseDefault {ends : Bool} (lhs : Phrase 14 front height' plain' ends value)
    (refuses : Refuses code parseElseHandler tokens height plain) :
    Refuses code (parseTier 15) (front ++ .kw .else_ :: tokens) (max height' height)
      (plain' && plain) := by
  intro depth p rest ahead room flag
  rw [List.append_assoc, List.cons_append] at ahead
  obtain ⟨left, -, reads⟩ := lhs.reads depth p _ ahead
    (by rw [List.head?_cons]; exact continues_else (by omega)) (fun _ => rfl) (by omega)
    flag.left
  have at_else := Parser.ahead_skip_of_append ahead
  obtain ⟨diag, code_eq, ends⟩ := refuses depth ((p.skip front.length).skip 1) rest
    (Parser.ahead_skip_one at_else) (by omega) flag.right
  have here : (p.skip front.length).atKw .else_ = true :=
    decide_eq_true (Parser.tok_of_cons at_else)
  refine ⟨diag, code_eq, reads.bind (ends_step (fun _ _ => exec_eatKw _) ?_)⟩
  simp only [here, if_true]
  exact ends.bind_error

theorem caret_follows (fromEnd : Bool)
    (opening : ∃ head tail, tokens = head :: tail ∧ opens 13 head = true) :
    ∃ head tail, caretTokens fromEnd ++ tokens = head :: tail ∧
      rangeEndFollows (some head) = true := by
  cases fromEnd with
  | true => exact ⟨_, _, rfl, rfl⟩
  | false =>
    obtain ⟨head, tail, eq, opening⟩ := opening
    exact ⟨head, tail, eq, rangeEndFollows_of_opens opening⟩

theorem Chain.refuses (chain : Chain code tier tokens height plain) :
    Refuses code (parseTier tier) tokens height plain := by
  induction chain with
  | comparison op op' lhs rhs unchained same =>
    exact refuses_comparison (lhs.reading.leftOperand op) (rhs.reading.rightOperand op) unchained
      same
  | ranges inclusive inclusive' start stop =>
    exact refuses_ranges start.reading.stop stop.reading.stop inclusive inclusive'
  | openRanges inclusive inclusive' start =>
    have refused := Refuses.range start.reading.stop (refuses_rangeTok inclusive')
      ⟨_, _, rfl, by cases inclusive' <;> decide⟩ inclusive
    rw [Nat.max_zero, Bool.and_true] at refused
    exact refused
  | looser chain most induction => exact induction.looser chain.opening chain.least most
  | group chain induction =>
    exact (induction.exprInner chain.opening).parseExpr.group chain.opening
  | unary op chain induction => exact induction.unary chain.opening op
  | binary op lhs chain induction => exact Refuses.binary (lhs.reading.leftOperand op) induction
  | fromEnd chain induction => exact (induction.rangeEnd chain.opening true).fromEnd
  | rangeTo inclusive fromEnd chain induction =>
    exact (induction.rangeEnd chain.opening fromEnd).rangeTo inclusive
  | range inclusive fromEnd start chain induction =>
    exact Refuses.range start.reading.stop (induction.rangeEnd chain.opening fromEnd)
      (caret_follows fromEnd chain.opening) inclusive
  | elseExpr lhs chain no_brace induction =>
    have handler := (induction.exprInner chain.opening).parseExpr.elseHandler chain.opening no_brace
    have refused := Refuses.elseDefault lhs.reading.handled handler
    rw [Bool.and_true] at refused
    exact refused
  | elseCatch lhs pattern chain no_brace induction =>
    exact Refuses.elseDefault lhs.reading.handled
      ((induction.exprInner chain.opening).parseExpr.elseCatch chain.opening no_brace pattern)

/-! ## The climb -/

/-- A range without a start is over at its end: a range operator that follows stays ahead. -/
theorem RangeEnd.rangeTo_then (stop : RangeEnd tokens height plain value)
    (inclusive inclusive' : Bool) {depth : Nat} {p : Parser} {rest : List Tok}
    (ahead : p.ahead = (rangeTok inclusive :: tokens) ++ rangeTok inclusive' :: rest)
    (room : depth + 1 + height ≤ maxNesting) (flag : p.Admits plain) :
    ∃ expr, Node.ungroup expr = Node.ungroup (.range .none (.some (value p.origin)) inclusive) ∧
      grammar.Ends depth parseExpr p
        (.ok (expr, p.skip (rangeTok inclusive :: tokens).length)) := by
  have left := Parser.ahead_skip_of_append ahead
  rw [List.cons_append] at ahead
  obtain ⟨expr, same, reads⟩ := stop.reads (depth + 1) (p.skip 1) _ (Parser.ahead_skip_one ahead)
    (by rw [List.head?_cons]; exact continues_range (by omega) inclusive') room flag
  have here := Parser.tok_of_cons ahead
  refine ⟨.range .none (.some expr) inclusive,
    congrArg (fun stop => Node.range .none (.some stop) inclusive) same,
    ends_parseExpr (by omega) (ends_step (fun _ _ => exec_get) ?_)⟩
  have length : (rangeTok inclusive :: tokens).length = 1 + tokens.length := Nat.add_comm _ _
  rw [length, ← Parser.skip_skip] at left ⊢
  have range : grammar.Ends (depth + 1) parseRangeExpr p
      (.ok (.range .none (.some expr) inclusive, (p.skip 1).skip tokens.length)) := by
    refine ends_step (fun _ _ => exec_get) ?_
    rw [here, rangeOp_rangeTok]
    exact ends_step (fun _ _ => exec_advance) (reads.bind (ends_pure _))
  have no_else : ((p.skip 1).skip tokens.length).atKw .else_ = false := by
    refine decide_eq_false ?_
    rw [Parser.tok_of_cons left]
    cases inclusive' <;> simp [rangeTok]
  have handled : grammar.Ends (depth + 1) parseElseExpr p
      (.ok (.range .none (.some expr) inclusive, (p.skip 1).skip tokens.length)) := by
    refine range.bind (ends_step (fun _ _ => exec_eatKw _) ?_)
    simp only [no_else, Bool.false_eq_true, if_false]
    exact ends_pure _
  rw [here]
  cases inclusive <;> exact handled

/-- `parse_expr` reads the tokens of every operator tree as the tree, as far as the nesting rail
reaches, and refuses chains. -/
theorem precedence_climb (depth : Nat) (p : Parser) (rest : List Tok) :
    (∀ tree : Tree, p.ahead = tree.tokens ++ rest → continues 15 rest.head? = false →
      (tree.endsOpen = true → rangeEndFollows rest.head? = false) →
      depth + 1 + tree.height ≤ maxNesting → p.Admits tree.plain →
      ∃ expr, Node.ungroup expr = Node.ungroup (tree.expr p.origin) ∧
        grammar.Ends depth parseExpr p (.ok (expr, p.skip tree.tokens.length))) ∧
    (∀ code tokens height plain, Chain code 15 tokens height plain → p.ahead = tokens ++ rest →
      depth + 1 + height ≤ maxNesting → p.Admits plain →
      ∃ diag : Diag, diag.code = code ∧ grammar.Ends depth parseExpr p (.error (.refused diag))) ∧
    (∀ (inclusive inclusive' : Bool) (stop : Tree),
      p.ahead = (rangeTok inclusive :: Tree.place stop.isRangeEnd stop.tokens) ++
        rangeTok inclusive' :: rest →
      depth + 1 + Tree.placed stop.isRangeEnd stop.height ≤ maxNesting →
      p.Admits (!stop.isRangeEnd || stop.plain) → ∃ expr, Node.ungroup expr =
          Node.ungroup (.range .none (.some (stop.expr p.origin)) inclusive) ∧
        grammar.Ends depth parseExpr p (.ok (expr, p.skip
          (rangeTok inclusive :: Tree.place stop.isRangeEnd stop.tokens).length))) := by
  refine ⟨?_, ?_, ?_⟩
  · intro tree ahead stops open_ room flag
    have phrase := tree.reading.phrase.looser tree.tier_bounds.1 tree.tier_bounds.2 (Nat.le_refl 15)
    obtain ⟨expr, same, reads⟩ := phrase.exprInner ahead stops open_ room flag
    exact ⟨expr, same, ends_parseExpr (by omega) reads⟩
  · intro code tokens height plain chain ahead room flag
    exact (chain.refuses.exprInner chain.opening).parseExpr depth p rest ahead (by omega) flag
  · intro inclusive inclusive' stop ahead room flag
    exact stop.reading.stop.rangeTo_then inclusive inclusive' ahead room flag

/-! ## Names as operands -/

/-- A name is an operand. -/
def Operand.name (ident : Ident) : Operand where
  tokens := [.ident ident]
  value _ := .path ⟨[ident]⟩
  height := 0
  plain := true
  starts := ⟨_, rfl, rfl⟩
  reads depth p rest ahead stops _ _ := by
    have here : p.tok = some (.ident ident) := Parser.tok_of_cons ahead
    have after : (p.skip 1).tok = rest.head? := by
      rw [Parser.tok_eq, Parser.ahead_skip_one ahead]
      rfl
    have no_dot : p.tokAt 1 ≠ some .dot := by
      rw [← p.tok_skip, after]
      intro dot
      rw [dot] at stops
      exact absurd stops (by decide)
    have no_brace : (p.skip 1).tok ≠ some .lBrace := by
      rw [after]
      intro brace
      rw [brace] at stops
      exact absurd stops (by decide)
    have unmoded : ¬ (p.tok = some .lParen ∧
        (p.tokAt 1 = some (.kw .mut_) ∨ p.tokAt 1 = some (.kw .take))) := by
      rw [here]
      simp
    refine ends_step (fun _ _ => exec_get) ?_
    simp only [unmoded, if_false]
    have primary : grammar.Ends depth parsePrimary p (.ok (.path ⟨[ident]⟩, p.skip 1)) := by
      refine ends_step (fun _ _ => exec_get) ?_
      rw [here]
      exact ends_step (fun _ _ => exec_parsePath_single here no_dot _) (ends_pure _)
    refine primary.bind ((ends_postfixChain (by rw [after]; exact stops)).bind
      (ends_step (fun _ _ => exec_get) ?_))
    simp only [no_brace, if_false]
    exact ends_pure _

/-- A name is a type. -/
def CastType.name (ident : Ident) : CastType where
  tokens := [.ident ident]
  value _ := .pathType ⟨[ident]⟩ .nil
  height := 1
  plain := true
  reads depth p rest ahead stops room _ := by
    have here : p.tok = some (.ident ident) := Parser.tok_of_cons ahead
    have after : (p.skip 1).tok = rest.head? := by
      rw [Parser.tok_eq, Parser.ahead_skip_one ahead]
      rfl
    have ends (tok : Tok) (goes : continuesOperand (some tok) = true) :
        (p.skip 1).tok ≠ some tok := by
      rw [after]
      intro same
      rw [same, goes] at stops
      cases stops
    refine Ends.rail (show depth < maxNesting by omega) (.of_exec fun r u => ?_)
    have named := @exec_parsePath_single r u p ident here
      (by rw [← p.tok_skip]; exact ends .dot rfl) "gram.type"
    have kind : exec r u (parseTypeKind "gram.type") p =
        .ok (.pathType ⟨[ident]⟩ .nil, p.skip 1) := by
      simp only [parseTypeKind, exec_bind, exec_get, here, named, exec_at, ends .lBracket rfl,
        decide_false, Bool.false_eq_true, if_false, exec_pure]
      rfl
    change exec r u parseTypeInner p = _
    simp only [parseTypeInner, exec_bind, exec_get, Parser.prefixTypeKw, here, kind]
    refine exec_loop_done ?_
    simp only [exec_bind, exec_get, ends .bang rfl, false_and, if_false, exec_pure]
    rfl

/-- Braces with nothing in them are a block. -/
def HandlerBlock.empty : HandlerBlock where
  tokens := [.lBrace, .rBrace]
  value _ := .block .nil .none
  height := 1
  plain := true
  starts := rfl
  reads depth p rest ahead _ room flag := by
    have opener : p.tok = some .lBrace := Parser.tok_of_cons ahead
    have closer : (p.skip 1).tok = some .rBrace := Parser.tok_of_cons (Parser.ahead_skip_one ahead)
    refine Ends.rail (show depth < maxNesting by omega) (.of_exec fun r u => ?_)
    have pending : (p.skip 1).pendingStmts = [] := flag.2.2
    have none_ : exec r u parseStmts (p.skip 1) = .ok ([], p.skip 1) := by
      refine exec_loop_done ?_
      have stays := @exec_skipWhile r u (p.skip 1) isInsertedTerm (by rw [closer]; rfl)
      simp only [exec_bind, exec_get, pending, skipInsertedTerms, stays, stopsAt, closer]
      rfl
    change exec r u parseBlockInner p = _
    have split : splitTail [] = ([], .none) := rfl
    simp only [parseBlockInner, exec_bind, exec_expect, opener, if_true, none_, split, closer,
      exec_get, exec_pure, p.skip_skip]
    rfl

/-- `_` is a pattern. -/
def HandlerPattern.wildcard : HandlerPattern where
  tokens := [.underscore]
  value _ := .wildcardPat
  height := 1
  plain := true
  reads depth p rest ahead _ room _ := by
    have here : p.tok = some .underscore := Parser.tok_of_cons ahead
    refine Ends.rail (show depth < maxNesting by omega) (.of_exec fun r u => ?_)
    change exec r u parseClosedPatternInner p = _
    simp only [parseClosedPatternInner, exec_bind, exec_get, here, startsLiteral, exec_advance,
      exec_pure, Bool.false_eq_true, if_false]
    rfl

/-- A name under as many `!` as there are levels of nesting. -/
def Tree.negated (ident : Ident) : Nat → Tree
  | 0 => .operand (.name ident)
  | count + 1 => .unary .not (negated ident count)

theorem Tree.negated_tokens (ident : Ident) (count : Nat) :
    (negated ident count).tokens = List.replicate count .bang ++ [.ident ident] := by
  induction count with
  | zero => rfl
  | succ count induction =>
    have tier : (negated ident count).tier ≤ 3 := by
      cases count <;> simp [negated, Tree.tier]
    rw [negated, Tree.tokens, induction, Tree.place, if_pos (decide_eq_true tier)]
    rfl

/-- More prefix operators than the rail has levels are refused. -/
theorem ends_bangs {count depth : Nat} {p : Parser} {rest : List Tok}
    (ahead : p.ahead = List.replicate (count + 1) .bang ++ rest)
    (no_mut : rest.head? ≠ some (.kw .mut_))
    (full : depth + count = maxNesting) :
    ∃ diag, grammar.Ends depth parsePrefix p (.error (.refused diag)) := by
  induction count generalizing depth p with
  | zero =>
    exact ⟨_, @ends_prefix_full depth p .not rest ahead no_mut (by omega)⟩
  | succ count induction =>
    have ahead : p.ahead = UnOp.not.tokens ++ (List.replicate (count + 1) .bang ++ rest) := ahead
    obtain ⟨diag, ends⟩ := @induction (depth + 1) (p.skip 1)
      (Parser.ahead_skip_one ahead) (by omega)
    exact ⟨diag, ends_prefix_error ahead (by simp [List.replicate_succ]) (by omega) ends⟩

/-- A parser at the start of tokens that come from nowhere in particular. -/
def Parser.ofToks (tokens : List Tok) : Parser := .start (tokens.map fun tok => ⟨tok, ⟨0, 0⟩⟩) ""

theorem Parser.ofToks_ahead (tokens : List Tok) : (Parser.ofToks tokens).ahead = tokens := by
  simp [Parser.ahead, Parser.ofToks, Parser.start, Function.comp_def]

/-- Without regard for the nesting rail not every tree is read: a name under one `!` for each level
of nesting is refused. -/
theorem precedence_climb_unbounded : ¬ ∀ (p : Parser) (rest : List Tok) (tree : Tree),
      p.ahead = tree.tokens ++ rest → continues 15 rest.head? = false →
      (tree.endsOpen = true → rangeEndFollows rest.head? = false) →
      p.Admits tree.plain →
      ∃ expr, Node.ungroup expr = Node.ungroup (tree.expr p.origin) ∧
        grammar.Ends 0 parseExpr p (.ok (expr, p.skip tree.tokens.length)) := by
  intro reads
  have ahead := Parser.ofToks_ahead (Tree.negated ['x'] maxNesting).tokens
  obtain ⟨expr, -, ends⟩ := reads (.ofToks (Tree.negated ['x'] maxNesting).tokens) []
    (Tree.negated ['x'] maxNesting) (by rw [ahead, List.append_nil]) rfl
    nofun ⟨nofun, rfl, rfl⟩
  have bangs := ahead.trans (Tree.negated_tokens ['x'] maxNesting)
  obtain ⟨diag, refused⟩ := @ends_bangs 255 1 _ _ bangs (by simp) rfl
  have here := Parser.tok_of_cons bangs
  have tiers (tier : Nat) (least : 3 ≤ tier) (most : tier ≤ 15) :
      grammar.Ends 1 (parseTier tier) (.ofToks (Tree.negated ['x'] maxNesting).tokens)
        (.error (.refused diag)) := by
    induction tier, least using Nat.le_induction with
    | base => exact refused
    | succ tier least induction =>
      exact ends_looser_error here (opens_mono least rfl) (by omega) most (induction (by omega))
  have railed : grammar.Ends 0 parseExpr (.ofToks (Tree.negated ['x'] maxNesting).tokens)
      (.error (.refused diag)) :=
    Ends.rail (by decide) (ends_exprInner_error here rfl (tiers 15 (by omega) (Nat.le_refl 15)))
  cases ends.unique railed

/-- `a as t else |_| { }`. -/
def Tree.defaulted : Tree :=
  .elseCatchBlock (.cast (.operand (.name ['a'])) (.name ['t'])) .wildcard .empty

/-- `a as t else |_| { }` is read as a cast with a handler, `a - b - c` to the left, `a < b < c` is
refused, and `..a..b` is read up to its second operator. -/
theorem precedence_climb_names :
    (∃ expr : Expr, Node.ungroup expr = .elseDefault
        (.cast (.path ⟨[['a']]⟩) (.pathType ⟨[['t']]⟩ .nil))
        (.elseHandler .wildcardPat (.blockExpr (.block .nil .none))) ∧
      grammar.Ends 0 parseExpr (.ofToks Tree.defaulted.tokens)
        (.ok (expr, (Parser.ofToks Tree.defaulted.tokens).skip 9))) ∧
    (∃ expr : Expr,
      Node.ungroup expr = .binary .sub (.binary .sub (.path ⟨[['a']]⟩) (.path ⟨[['b']]⟩))
        (.path ⟨[['c']]⟩) ∧
      grammar.Ends 0 parseExpr (.ofToks [.ident ['a'], .minus, .ident ['b'], .minus, .ident ['c']])
        (.ok (expr,
          (Parser.ofToks [.ident ['a'], .minus, .ident ['b'], .minus, .ident ['c']]).skip 5))) ∧
    (∃ diag : Diag, diag.code = "E0003" ∧
      grammar.Ends 0 parseExpr (.ofToks [.ident ['a'], .lt, .ident ['b'], .lt, .ident ['c']])
        (.error (.refused diag))) ∧
    (∃ expr : Expr, Node.ungroup expr = .range .none (.some (.path ⟨[['a']]⟩)) false ∧
      grammar.Ends 0 parseExpr (.ofToks [.dotDot, .ident ['a'], .dotDot, .ident ['b']])
        (.ok (expr, (Parser.ofToks [.dotDot, .ident ['a'], .dotDot, .ident ['b']]).skip 2))) := by
  refine ⟨?_, ?_, ?_, ?_⟩
  · exact (precedence_climb 0 (.ofToks Tree.defaulted.tokens) []).1 Tree.defaulted rfl rfl nofun
      (by decide) ⟨nofun, rfl, rfl⟩
  · exact (precedence_climb 0 (.ofToks [.ident ['a'], .minus, .ident ['b'], .minus, .ident ['c']])
      []).1 (.binary .sub (.binary .sub (.operand (.name ['a'])) (.operand (.name ['b'])))
        (.operand (.name ['c']))) rfl rfl nofun (by decide)
        ⟨nofun, rfl, rfl⟩
  · have chain : Chain "E0003" 15 [.ident ['a'], .lt, .ident ['b'], .lt] 0 true :=
      ((((Chain.comparison .lt .lt (.operand (.name ['a'])) (.operand (.name ['b'])) rfl rfl).looser
        (by decide)).looser (by decide)).looser (by decide)).looser (by decide)
    exact (precedence_climb 0 (.ofToks [.ident ['a'], .lt, .ident ['b'], .lt, .ident ['c']])
      [.ident ['c']]).2.1 _ _ _ _ chain rfl (by decide)
      ⟨nofun, rfl, rfl⟩
  · exact (precedence_climb 0 (.ofToks [.dotDot, .ident ['a'], .dotDot, .ident ['b']])
      [.ident ['b']]).2.2 false false (.operand (.name ['a'])) rfl (by decide)
      ⟨nofun, rfl, rfl⟩

end WolfInterp.Syntax
