import WolfInterp.Syntax.Zone

/-!
# The contract in types and expressions

Each production closes what it opens and calls for expressions only where the zone allows it. A
production whose name ends in the past is one that its caller enters behind an opener: it comes to
the level outside.
-/

namespace WolfInterp.Syntax

open WolfInterp.Lex (Text Tok Token Diag Keyword Delim)
open Descent (Prog Contract)
open Descent.Prog (meets_bind)

namespace Zone

variable {α β σ : Type} {z : Zone} {n m k : Nat} {b : Bool} {p q : Parser} {anchor : String}

/-! ## Paths, literals and rows -/

theorem Runs.parsePath : z.Runs b n n (parsePath anchor) := by
  apply Runs.expectIdent.bind
  intro first
  apply Runs.loop
  intro segments
  apply Runs.get
  intro p here
  split
  · apply here.advanced (And.left ‹_›) rfl
    exact Runs.expectIdent.bind fun _ => .pure
  · exact here

theorem Runs.parseBoundPaths : z.Runs b n n (parseBoundPaths anchor) := by
  apply Runs.parsePath.bind
  intro first
  apply Runs.loop
  intro paths
  apply (Runs.eat rfl).bind
  intro more
  exact .ite (Runs.parsePath.bind fun _ => .pure) .pure

theorem Runs.parseGenerics : z.Runs b n n parseGenerics := by
  apply Runs.ifAt
  · intro p here at_
    apply Runs.advanced (here.skip_opener at_ rfl)
    apply Runs.bind (Runs.separated _) fun out => Runs.expect_closer.bind fun _ => .pure
    apply Runs.expectIdent.bind
    intro name
    apply (Runs.eat rfl).bind
    intro bounded
    apply Runs.ite _ .pure
    apply Runs.ifAtKw
    · exact fun p here at_ => here.advanced at_ rfl .pure
    · exact Runs.parseBoundPaths.bind fun _ => .pure
  · exact .pure

theorem Runs.parseParamMode : z.Runs b n n parseParamMode := by
  apply Runs.eatKw.bind
  intro mutable
  apply Runs.ite .pure
  exact Runs.eatKw.bind fun _ => .ite .pure .pure

theorem Runs.parseFormat : z.Runs b n n parseFormat := by
  apply Runs.loop
  intro fmt
  apply Runs.get
  intro p here
  split
  · exact here.advanced ‹_› rfl .pure
  · apply Runs.advanced (here.skip_opener ‹_› rfl)
    apply (Runs.withStructLit (Runs.parseExpr ready_succ)).bind
    exact fun _ => Runs.expect_closer.bind fun _ => .pure
  · exact here

theorem Runs.parseInterpolation : z.Runs b n n parseInterpolation := by
  apply (Runs.expect_opener rfl).bind
  intro opened
  apply (Runs.withStructLit (Runs.parseExpr ready_succ)).bind
  intro expr
  apply Runs.ifAt
  · intro p here at_
    apply here.advanced at_ rfl
    exact Runs.parseFormat.bind fun _ => Runs.expect_closer.bind fun _ => .pure
  · exact Runs.expect_closer.bind fun _ => .pure

theorem Runs.parseStringLiteral : z.Runs b n n (parseStringLiteral anchor) := by
  apply Runs.get
  intro p here
  split
  · apply here.advanced ‹_› rfl
    apply Runs.loop
    intro parts
    apply Runs.get
    intro p here
    split
    · exact here.advanced ‹_› rfl .pure
    · exact (Runs.parseInterpolation.bind fun _ => .pure) here
    · exact here.advanced ‹_› rfl .pure
    · trivial
  · trivial

theorem Runs.parseErrorRow : z.Runs b n n parseErrorRow := by
  apply (Runs.expect_opener rfl).bind
  intro start
  apply Runs.bind (k := n + 1)
  · apply Runs.loop
    intro entries
    apply Runs.skipInsertedTerms.bind
    intro _
    apply Runs.get
    intro p here
    split
    · exact here
    · split
      · apply here.advanced ‹_› rfl
        exact (Runs.eat rfl).bind fun _ => .pure
      · split
        · trivial
        · apply Runs.parsePath.bind _ here
          intro path
          apply Runs.eat_openerJoin rfl _ .pure
          · intro rest
            apply (Runs.commaList (Runs.parseType ready_succ)).bind
            exact fun _ => Runs.expect_closer.bind fun _ => .bind .pure rest
          · exact fun _ => (Runs.eat rfl).bind fun _ => .ite .pure .pure
  · rintro ⟨entries, openAt⟩
    apply Runs.skipInsertedTerms.bind
    exact fun _ => Runs.expect_closer.bind fun _ => .pure

theorem Runs.parseRowOrBarePath : z.Runs b n n parseRowOrBarePath := by
  apply Runs.get
  intro p here
  split
  · exact Runs.parseErrorRow here
  · split
    · trivial
    · exact (Runs.parsePath.bind fun _ => .pure) here

/-! ## Types -/

theorem Runs.parseRetType (ready : z.Ready n b) : z.Runs b n n parseRetType := by
  apply (Runs.parseType ready).bind
  intro ty
  apply Runs.ifAt
  · intro p here at_
    apply here.advanced at_ rfl
    exact Runs.parseRowOrBarePath.bind fun _ => .pure
  · exact .pure

theorem Runs.parseTypeArgs : z.Runs b n n parseTypeArgs := by
  apply (Runs.expect_opener rfl).bind
  intro start
  apply Runs.bind (Runs.withStructLit (Runs.separated _))
  · exact fun _ => Runs.expect_closer.bind fun _ => .pure
  · apply Runs.get
    intro p here
    split
    · exact ((Runs.parseExpr ready_succ).bind fun _ => .pure) here
    · exact ((Runs.parseType ready_succ).bind fun _ => .pure) here

theorem Runs.parseTypeList : z.Runs b (n + 1) n (parseTypeList anchor) := by
  apply Runs.at_.bind
  intro empty
  apply Runs.joinThen _ .pure (Runs.commaList (Runs.parseType ready_succ)).bind
  exact fun _ => Runs.expect_closer.bind fun _ => .pure

theorem Runs.parseTypeKind (ready : z.Ready n b) : z.Runs b n n (parseTypeKind anchor) := by
  apply Runs.get
  intro p here
  split
  · apply here.advanced ‹_› rfl
    exact (Runs.parseType ready).bind fun _ => .pure
  · apply here.advanced ‹_› rfl
    exact (Runs.parseType ready).bind fun _ => .pure
  · apply here.advanced ‹_› rfl
    exact Runs.parsePath.bind fun _ => .pure
  · exact here.advanced ‹_› rfl .pure
  · exact here.advanced ‹_› rfl .pure
  · apply here.advanced ‹_› rfl
    apply (Runs.expect_opener rfl).bind
    intro start
    apply Runs.parseTypeList.bind
    intro params
    apply (Runs.eat rfl).bind
    intro arrow
    exact .ite ((Runs.parseRetType ready).bind fun _ => .pure) .pure
  · apply Runs.advanced (here.skip_opener ‹_› rfl)
    exact Runs.parseTypeList.bind fun _ => .pure
  · apply Runs.parsePath.bind _ here
    intro path
    apply Runs.at_.bind
    intro applied
    exact Runs.joinElse (fun _ => .pure) .pure Runs.parseTypeArgs.bind
  · trivial

theorem Runs.parseFallible {ty : Ty} : z.Runs b n n (parseFallible ty) := by
  apply Runs.loop
  intro ty
  apply Runs.get
  intro p here
  split
  · apply here.advanced (And.left ‹_›) rfl
    exact Runs.parseRowOrBarePath.bind fun _ => .pure
  · exact here

theorem Parser.prefixTypeKw_plain {kw : PrefixTypeKw} (at_ : p.prefixTypeKw = some kw) (tok : Tok)
    (here : p.tok = some tok) : isCloser tok = false := by
  rw [Parser.prefixTypeKw, here] at at_
  split at at_ <;> first | (obtain rfl := Option.some.inj ‹some tok = _›; rfl) | cases at_

theorem Runs.parseTypeInner (ready : z.Ready n b) : z.Runs b n n parseTypeInner := by
  apply Runs.get
  intro p here
  split
  · apply Runs.advanced (here.skip_plain (Parser.prefixTypeKw_plain ‹_›))
    exact (Runs.parseType ready).bind fun _ => .pure
  · exact ((Runs.parseTypeKind ready).bind fun _ => Runs.parseFallible) here

/-! ## Arguments and lists -/

theorem Runs.parsePattern (ready : z.Ready n b) : z.Runs b n n parsePattern := by
  apply (Runs.parseClosedPattern ready).bind
  intro first
  apply Runs.at_.bind
  intro alternatives
  apply Runs.ite .pure
  apply Runs.loop
  intro alts
  apply (Runs.eat rfl).bind
  exact fun _ => .ite ((Runs.parseClosedPattern ready).bind fun _ => .pure) .pure

theorem Runs.parseBlockFreely : z.Runs b n n parseBlockFreely := Runs.withStructLit Runs.parseBlock

theorem Runs.parseArg (ready : z.Ready n b) : z.Runs b n n parseArg :=
  Runs.parseParamMode.bind fun _ => (Runs.parseExpr ready).bind fun _ => .pure

theorem Runs.parseCallArgs : z.Runs b (n + 1) n parseCallArgs := by
  apply Runs.bind (Runs.withStructLit (Runs.separated _))
  · exact fun _ => Runs.skipInsertedTerms.bind fun _ => Runs.expect_closer.bind fun _ => .pure
  · exact (Runs.parseArg ready_succ).bind fun _ => Runs.skipInsertedTerms.bind fun _ => .pure

theorem Runs.parseIndexArgs : z.Runs b (n + 1) n parseIndexArgs := by
  apply Runs.bind (Runs.withStructLit (Runs.separated _))
  · exact fun _ => Runs.skipInsertedTerms.bind fun _ => Runs.expect_closer.bind fun _ => .pure
  · apply Runs.get
    intro p here
    have rest : ∀ arg : Node .indexArg, z.Runs false (n + 1) (n + 1)
        (Syntax.skipInsertedTerms >>= fun _ => Pure.pure arg) :=
      fun _ => Runs.skipInsertedTerms.bind fun _ => .pure
    apply Runs.ite _ _ here
    · exact (Runs.parseType ready_succ).bind fun _ => .bind .pure rest
    · exact (Runs.parseArg ready_succ).bind fun _ => .bind .pure rest

theorem Runs.parseListLiteral : z.Runs b n n parseListLiteral := by
  apply (Runs.expect_opener rfl).bind
  intro start
  apply Runs.bind (Runs.withStructLit (Runs.separated _))
  · exact fun _ => Runs.skipInsertedTerms.bind fun _ => Runs.expect_closer.bind fun _ => .pure
  · exact (Runs.parseExpr ready_succ).bind fun _ => Runs.skipInsertedTerms.bind fun _ => .pure

theorem Runs.parseParenOrTuple : z.Runs b n n parseParenOrTuple := by
  apply (Runs.expect_opener rfl).bind
  intro start
  apply Runs.bind (k := n + 1)
  · apply Runs.withStructLit
    apply Runs.loop
    rintro ⟨items, sawComma⟩
    apply Runs.skipInsertedTerms.bind
    intro _
    apply Runs.at_.bind
    intro closed
    apply Runs.ite .pure
    apply (Runs.parseExpr ready_succ).bind
    intro item
    apply Runs.skipInsertedTerms.bind
    exact fun _ => (Runs.eat rfl).bind fun _ => .ite .pure .pure
  · rintro ⟨items, sawComma⟩
    apply Runs.skipInsertedTerms.bind
    intro _
    apply Runs.expect_closer.bind
    intro close p here
    split <;> exact here

/-! ## Arms -/

theorem Runs.parseArmBody (ready : z.Ready n b) : z.Runs b n n parseArmBody := by
  apply Runs.at_.bind
  intro block
  exact .ite (Runs.parseBlockFreely.bind fun _ => .pure)
    ((Runs.parseExpr ready).bind fun _ => .pure)

theorem Runs.consumeArmSeparator {blockBodied : Bool} :
    z.Runs b n n (consumeArmSeparator blockBodied anchor) := by
  apply (Runs.eat rfl).bind
  intro comma
  apply Runs.ite .pure
  apply Runs.get
  intro p here
  apply Runs.ite .pure _ here
  apply Runs.ite (Runs.skipTerms.bind fun _ => .pure)
  apply Runs.get
  intro p here
  apply Runs.skipTerms.bind _ here
  intro _
  apply Runs.get
  intro p here
  split
  · exact here
  · exact trivial

/-- The arms come behind the `{` and through the `}`. -/
theorem Runs.parseArms {arm : P (α × Bool)} (runs : z.Runs false (n + 1) (n + 1) arm) :
    z.Runs b (n + 1) n (parseArms anchor arm) := by
  apply Runs.bind (k := n + 1)
  · apply Runs.withStructLit
    apply Runs.loop
    intro arms
    apply Runs.skipInsertedTerms.bind
    intro _
    apply Runs.get
    intro p here
    apply Runs.ite .pure _ here
    apply runs.bind
    rintro ⟨arm, blockBodied⟩
    exact Runs.consumeArmSeparator.bind fun _ => .ite .pure .pure
  · exact fun _ => Runs.skipInsertedTerms.bind fun _ => Runs.expect_closer.bind fun _ => .pure

/-- A condition, an `in` header or a scrutinee is under the restriction. -/
theorem Runs.header : z.Runs b n n (Syntax.withStructLit false Syntax.parseExpr) :=
  Runs.withStructLit (Runs.parseExpr ready_true)

theorem Runs.parseMatch : z.Runs b n n parseMatch := by
  apply Runs.expectKw.bind
  intro start
  apply Runs.header.bind
  intro scrutinee
  apply (Runs.expect_opener rfl).bind
  intro opened
  apply (Runs.parseArms _).bind fun _ => .pure
  apply (Runs.parsePattern ready_succ).bind
  intro pattern
  apply Runs.eatKw.bind
  intro guarded
  apply Runs.joinElse _ .pure fun rest => Runs.header.bind fun _ => .bind .pure rest
  intro guard
  apply (Runs.expect rfl).bind
  intro arrow
  exact (Runs.parseArmBody ready_succ).bind fun ⟨_, _⟩ => .pure

theorem Runs.parseSelect : z.Runs b n n parseSelect := by
  apply Runs.expectKw.bind
  intro start
  apply (Runs.expect_opener rfl).bind
  intro opened
  apply (Runs.parseArms _).bind fun _ => .pure
  have rest (kind : Node .selectArmKind) : z.Runs false (n + 1) (n + 1) (do
      let _ ← Syntax.expect .fatArrow "gram.expr.conc"
      let arm ← Syntax.parseArmBody
      return (Node.selectArm kind arm.1 arm.2, arm.2)) :=
    (Runs.expect rfl).bind fun _ => (Runs.parseArmBody ready_succ).bind fun _ => .pure
  apply Runs.get
  intro p here
  split
  · rename_i timeout
    have reached := here.skip_known (of_decide_eq_true timeout.1) rfl
    apply meets_advance.2
    apply Runs.advanced (reached.skip_opener ((p.tok_skip 1).trans timeout.2) rfl)
    apply (Runs.parseExpr ready_succ).bind
    exact fun _ => Runs.expect_closer.bind fun _ => .bind .pure rest
  · apply (Runs.parsePattern ready_succ).bind _ here
    intro pattern
    apply Runs.expectCtx.bind
    exact fun _ => (Runs.parseExpr ready_succ).bind fun _ => .bind .pure rest

/-! ## Control flow -/

theorem Runs.callRangeExpr : z.Runs b n n callRangeExpr := by
  apply Gives.runs
    (Gives.call .rangeExpr nofun fun p here covered => ⟨here.base, fun guarded => ?_⟩)
  exact .inr (List.length_pos_of_ne_nil fun outside => covered guarded (.inl ⟨trivial, outside⟩))

theorem Runs.callElseExpr : z.Runs b n n callElseExpr := by
  apply Gives.runs (Gives.call .elseExpr nofun fun p here covered => ⟨here.base, fun guarded => ?_⟩)
  exact .inr (List.length_pos_of_ne_nil fun outside => covered guarded (.inl ⟨trivial, outside⟩))

theorem Runs.callIf (ready : z.Ready n b) : z.Runs b n n callIf :=
  (Gives.call .if_ nofun fun _ here _ => ⟨here.base, here.ready ready⟩).runs

theorem Runs.callPrefix (ready : z.Ready n b) : z.Runs b n n callPrefix :=
  (Gives.call .prefix_ nofun fun _ here _ => ⟨here.base, here.ready ready⟩).runs

theorem Runs.parseBareBranch : z.Runs b n n parseBareBranch := by
  apply Runs.get
  intro p here
  split
  · trivial
  · trivial
  · trivial
  · apply Runs.bind (Runs.withStructLit _) (fun _ => .pure) here
    have operand : z.Runs false n n (do
        let p ← Syntax.get
        if isExprEnd p.tok ∨ p.atKw .else_ then return Node.none
        else return .some (← Syntax.callRangeExpr)) := by
      apply Runs.get
      exact fun _ here => Runs.ite .pure (Runs.callRangeExpr.bind fun _ => .pure) here
    apply Runs.get
    intro p here
    split
    · exact here.advanced ‹_› rfl (operand.bind fun _ => .pure)
    · exact here.advanced ‹_› rfl (operand.bind fun _ => .pure)
    · exact here.advanced ‹_› rfl .pure
    · exact Runs.callRangeExpr here

theorem Runs.parseIf (ready : z.Ready n b) : z.Runs b n n parseIf := by
  apply Runs.expectKw.bind
  intro start
  apply Runs.header.bind
  intro cond
  apply Runs.eatCtx.bind
  intro thenKw
  apply Runs.at_.bind
  intro block
  apply Runs.ite
  · apply Runs.parseBlockFreely.bind
    intro then_
    apply Runs.get
    intro p here
    split
    · apply here.advanced (of_decide_eq_true (And.left ‹_›)) rfl
      exact (Runs.callIf ready).bind fun _ => .pure
    · split
      · apply here.advanced (of_decide_eq_true (And.left ‹_›)) rfl
        exact Runs.parseBlockFreely.bind fun _ => .pure
      · exact here
  · apply Runs.ite
    · apply Runs.parseBareBranch.bind
      intro then_
      apply Runs.eatKw.bind
      intro otherwise
      apply Runs.ite
      · apply Runs.atKw.bind
        intro elseIf
        apply Runs.ite ((Runs.callIf ready).bind fun _ => .pure)
        apply Runs.at_.bind
        intro braced
        exact .ite .refuse (Runs.parseBareBranch.bind fun _ => .pure)
      · exact .pure
    · exact .refuse

theorem Runs.parseWhile : z.Runs b n n parseWhile :=
  Runs.expectKw.bind fun _ => Runs.header.bind fun _ => Runs.parseBlockFreely.bind fun _ => .pure

theorem Runs.parseFor (ready : z.Ready n b) : z.Runs b n n parseFor := by
  apply Runs.expectKw.bind
  intro start
  apply (Runs.parsePattern ready).bind
  intro pattern
  apply Runs.expectKw.bind
  intro in_
  exact Runs.header.bind fun _ => Runs.parseBlockFreely.bind fun _ => .pure

theorem Runs.parseClosure : z.Runs b n n parseClosure := by
  apply Runs.expectKw.bind
  intro start
  apply (Runs.expect_opener rfl).bind
  intro opened
  apply Runs.bind (Runs.withStructLit (Runs.separated _))
  · intro params
    apply Runs.expect_closer.bind
    intro close
    apply Runs.at_.bind
    intro block
    exact .ite (Runs.parseBlockFreely.bind fun _ => .pure)
      ((Runs.withStructLit Runs.callElseExpr).bind fun _ => .pure)
  · apply Runs.parseParamMode.bind
    intro mode
    apply Runs.expectIdent.bind
    intro name
    apply (Runs.eat rfl).bind
    exact fun _ => .ite ((Runs.parseType ready_succ).bind fun _ => .pure) .pure

/-! ## Regions, `when` and `unsafe` -/

/-- The cap of a region is enclosed. -/
theorem Runs.parseRegionCap : z.Runs b (n + 1) (n + 1) parseRegionCap := by
  apply Runs.get
  intro p here
  split
  · rename_i cap
    apply here.advanced (of_decide_eq_true (of_decide_eq_true cap).1) rfl
    exact (Runs.expect rfl).bind fun _ => Runs.withStructLit (Runs.parseExpr ready_succ)
  · trivial

theorem Runs.parseRegionStrategy : z.Runs b n n parseRegionStrategy := by
  apply Runs.get
  intro p here
  split
  · exact here.advanced (of_decide_eq_true ‹_›) rfl .pure
  · split
    · apply here.advanced (of_decide_eq_true ‹_›) rfl
      apply (Runs.expect_opener rfl).bind
      intro opened
      apply (Runs.parseType ready_succ).bind
      exact fun _ => Runs.expect_closer.bind fun _ => .pure
    · trivial

theorem Runs.parseRegion : z.Runs b n n parseRegion := by
  apply Runs.expectKw.bind
  intro start
  apply Runs.get
  intro p here
  split
  · apply Runs.advanced (here.skip_opener ‹_› rfl)
    have close (value : Expr) : z.Runs b (n + 1) n
        (Syntax.expect .rParen "gram.expr.region" >>= fun _ => Pure.pure value) :=
      Runs.expect_closer.bind fun _ => .pure
    apply Runs.get
    intro q reached
    apply Runs.ite (.bind .pure close) _ reached
    apply Runs.ite (Runs.parseRegionCap.bind fun _ => .bind .pure close)
    apply (Runs.parseRegionStrategy).bind
    intro strategy
    apply (Runs.eat rfl).bind
    intro capped
    exact .ite (Runs.parseRegionCap.bind fun _ => .bind .pure close) (.bind .pure close)
  · have rest (name : Option Ident) (cap : Node (.opt .expr)) : z.Runs b n n (do
        let strategy : Node (.opt .regionStrategy) ←
          if ← Syntax.eat .colon then do Pure.pure (.some (← Syntax.parseRegionStrategy))
          else Pure.pure .none
        return Node.regionSugar name cap strategy (← Syntax.parseBlockFreely)) := by
      apply (Runs.eat rfl).bind
      intro strategy
      apply Runs.joinElse _ .pure
      · exact fun rest => (Runs.parseRegionStrategy).bind fun _ => .bind .pure rest
      · exact fun _ => Runs.parseBlockFreely.bind fun _ => .pure
    apply Runs.joinElse _ .pure (fun rest => Runs.expectIdent.bind fun _ => .bind .pure rest) here
    intro name
    apply Runs.ifAt
    · intro p here at_
      cases name with
      | none => exact (Runs.bind .pure (rest none)) here
      | some name =>
        apply Runs.advanced (here.skip_opener at_ rfl)
        apply Runs.parseRegionCap.bind
        exact fun cap => Runs.expect_closer.bind fun _ => .bind .pure (rest (some name))
    · rw [Bool.and_false, if_neg nofun]
      exact .bind .pure (rest name)

theorem Runs.parseWhen : z.Runs b n n parseWhen := by
  apply Runs.get
  intro p here
  apply Runs.expectKw.bind _ here
  intro start
  apply (Runs.expect_opener rfl).bind
  intro opened
  apply (Runs.withStructLit (Runs.separated (Runs.parseExpr ready_succ))).bind
  intro operands
  apply Runs.expect_closer.bind
  intro close
  exact .ite .refuse (Runs.parseBlockFreely.bind fun _ => .pure)

/-- A token opens a delimiter, leaves all as they are, or closes the innermost one. -/
theorem delim_step_cases (delims : List Delim) (tok : Tok) :
    (∃ delim, Delim.step delims tok = delim :: delims ∧ (tok = .lBrace → delim = .brace)) ∨
      (Delim.step delims tok = delims ∧ tok ≠ .lBrace) ∨
      ∃ delim, delims = delim :: Delim.step delims tok ∧ tok ≠ .lBrace ∧
        (delim = .brace → tok = .rBrace) := by
  fun_cases Delim.step delims tok with
  | case5 => exact .inl ⟨_, rfl, fun _ => rfl⟩
  | case1 | case2 | case3 | case4 | case6 => exact .inl ⟨_, rfl, by simp⟩
  | case10 => exact .inr (.inr ⟨_, rfl, by simp, fun _ => rfl⟩)
  | case7 | case8 | case9 | case11 => exact .inr (.inr ⟨_, rfl, by simp, by simp⟩)
  | case12 => exact .inr (.inl ⟨rfl, by assumption⟩)

/-- Inside of a C body, above the delimiters that were open before it. -/
def InC (z : Zone) (below : List Delim) (depth : Nat) (p : Parser) : Prop :=
  ∃ above, p.openSince z.start = above ++ below ∧ depth ≤ above.count .brace

/-- A `}` takes one from the depth of a C body, a `{` adds one, and nothing else counts. -/
theorem InC.skip {below : List Delim} {depth depth' : Nat} (inside : z.InC below depth p)
    (positive : depth ≠ 0) (start : z.start ≤ p.pos) {tok : Tok} (at_ : p.tok = some tok)
    (less : depth' ≤ depth + 1) (opened : tok ≠ .lBrace → depth' ≤ depth)
    (closed : tok = .rBrace → depth' + 1 ≤ depth) : z.InC below depth' (p.skip 1) := by
  obtain ⟨above, stack, le⟩ := inside
  have step : (p.skip 1).openSince z.start = Delim.step (above ++ below) tok := by
    rw [Parser.openSince_skip start, at_, stack]
  rw [InC, step]
  rcases delim_step_cases (above ++ below) tok with
    ⟨delim, pushed, brace⟩ | ⟨same, ne⟩ | ⟨delim, popped, ne, brace⟩
  · refine ⟨delim :: above, pushed, ?_⟩
    rw [List.count_cons]
    by_cases opens : tok = .lBrace
    · rw [brace opens, if_pos BEq.rfl]
      omega
    · have := opened opens
      omega
  · exact ⟨above, same, by have := opened ne; omega⟩
  · obtain ⟨top, above, rfl⟩ : ∃ top rest, above = top :: rest := by
      rcases above with _ | ⟨top, rest⟩
      · rw [List.count_nil] at le
        omega
      · exact ⟨top, rest, rfl⟩
    obtain ⟨rfl, rest⟩ := List.cons.inj popped
    refine ⟨above, rest.symm, ?_⟩
    rw [List.count_cons] at le
    have := opened ne
    by_cases inner : top = .brace
    · have := closed (brace inner)
      rw [if_pos (by rw [inner]; exact BEq.rfl)] at le
      omega
    · rw [if_neg (by simpa using inner)] at le
      omega

/-- The tokens of an inline C body, behind its `{` and through the `}` that closes it. -/
theorem Runs.skipCBody (here : z.At n b p) (at_ : p.tok = some .lBrace) :
    (Syntax.skipCBody anchor).Meets z.contract (fun _ q => z.At n b q) (p.skip 1) := by
  have begun : z.InC (p.openSince z.start) 1 (p.skip 1) := by
    refine ⟨[.brace], ?_, Nat.le_refl 1⟩
    rw [Parser.openSince_skip here.start, at_]
    rfl
  apply Prog.Meets.loop (fun depth q => z.At 0 b q ∧ z.InC (p.openSince z.start) depth q) _ _
    ⟨(here.skip_opener at_ rfl).mono (Nat.zero_le _), begun⟩
  rintro depth q ⟨reached, inside⟩
  by_cases done : depth = 0
  · rw [if_pos done]
    obtain ⟨above, stack, -⟩ := inside
    refine { reached with level := fun guarded => ?_ }
    rw [stack, List.length_append]
    exact (here.level guarded).trans (Nat.le_add_left _ _)
  · rw [if_neg done]
    have moved : z.At 0 b (q.skip 1) := by
      exact { reached with
        level := fun _ => Nat.zero_le _, start := reached.start.trans (Nat.le_succ _) }
    apply meets_get.2
    split
    · trivial
    · exact ⟨moved, inside.skip done reached.start ‹_› (Nat.le_refl _) (absurd rfl) (by simp)⟩
    · refine ⟨moved, inside.skip done reached.start ‹_› ?_ ?_ ?_⟩
      · omega
      · exact fun _ => Nat.sub_le depth 1
      · exact fun _ => by omega
    · rename_i none_ open_ close
      obtain ⟨tok, at_⟩ : ∃ tok, q.tok = some tok := Option.ne_none_iff_exists'.1 none_
      refine ⟨moved, inside.skip done reached.start at_ (Nat.le_succ _) (fun _ => Nat.le_refl _) ?_⟩
      rintro rfl
      exact absurd at_ close

theorem Runs.parseUnsafe : z.Runs b n n parseUnsafe := by
  apply Runs.expectKw.bind
  intro start
  apply Runs.eatCtx.bind
  intro inlineC
  apply Runs.ite
  · have rest (captures : List Ident) : z.Runs b n n (do
        let opener ← Syntax.expect .lBrace "gram.expr.unsafe"
        Syntax.skipCBody "gram.expr.unsafe"
        let p ← Syntax.get
        return Node.unsafeC captures ⟨opener.stop, p.prevSpan.start⟩) := by
      intro p here
      rw [meets_bind, Syntax.expect, meets_expectIf]
      intro at_
      apply (Runs.skipCBody here (of_decide_eq_true at_)).bind
      exact fun _ _ reached => reached
    apply Runs.eat_openerJoin rfl rest .pure
    intro rest
    apply Runs.bind (k := n + 1)
    · apply Runs.loop
      intro captures
      apply Runs.at_.bind
      intro closed
      apply Runs.ite .pure
      apply Runs.expectIdent.bind
      exact fun _ => (Runs.eat rfl).bind fun _ => .ite .pure .pure
    · exact fun captures => Runs.expect_closer.bind fun _ => .bind .pure rest
  · exact Runs.parseBlockFreely.bind fun _ => .pure

theorem Runs.parseAsmOperand (ready : z.Ready n b) : z.Runs b n n parseAsmOperand := by
  have rest (name : Option Ident) : z.Runs b n n (do
      let anchor := "gram.expr.unsafe"
      let direction ← do
        if ← Syntax.eatKw .in_ then Pure.pure AsmDir.in_
        else if ← Syntax.eatCtx "out" then Pure.pure .out
        else if ← Syntax.eatCtx "inout" then Pure.pure .inOut
        else if ← Syntax.eatCtx "lateout" then Pure.pure .lateOut
        else Syntax.refuse fun p => p.unexpected anchor
      let _ ← Syntax.expect .lParen anchor
      let constraint ← Syntax.expectIdent anchor
      let _ ← Syntax.expect .rParen anchor
      return Node.asmOperand name direction constraint (← Syntax.parseExpr)) := by
    have rest (direction : AsmDir) : z.Runs b n n (do
        let anchor := "gram.expr.unsafe"
        let _ ← Syntax.expect .lParen anchor
        let constraint ← Syntax.expectIdent anchor
        let _ ← Syntax.expect .rParen anchor
        return Node.asmOperand name direction constraint (← Syntax.parseExpr)) := by
      apply (Runs.expect_opener rfl).bind
      intro opened
      apply Runs.expectIdent.bind
      intro constraint
      apply Runs.expect_closer.bind
      exact fun _ => (Runs.parseExpr ready).bind fun _ => .pure
    apply Runs.eatKw.bind
    intro in_
    apply Runs.ite (.bind .pure rest)
    apply Runs.eatCtx.bind
    intro out
    apply Runs.ite (.bind .pure rest)
    apply Runs.eatCtx.bind
    intro inOut
    apply Runs.ite (.bind .pure rest)
    exact Runs.eatCtx.bind fun _ => .ite (.bind .pure rest) (.bind .refuse rest)
  apply Runs.get
  intro p here
  split
  · rename_i named
    have moved : z.At n b ((p.skip 1).skip 1) := by
      apply (here.skip_plain _).skip_known ((p.tok_skip 1).trans named.2) rfl
      intro tok at_
      rw [at_] at named
      cases tok <;> first | rfl | cases named.1
    apply meets_bind.2
    apply meets_expectIdent
    exact fun name => Runs.advanced moved (.bind .pure rest)
  · exact (Runs.bind .pure rest) here

theorem Runs.parseAsm : z.Runs b n n parseAsm := by
  apply Runs.expectKw.bind
  intro start
  apply (Runs.expect_opener rfl).bind
  intro opened
  apply Runs.skipInsertedTerms.bind
  intro _
  apply Runs.parseStringLiteral.bind
  intro template
  apply Runs.bind (k := n + 1)
  · apply Runs.loop
    intro operands
    apply Runs.skipInsertedTerms.bind
    intro _
    apply (Runs.eat rfl).bind
    intro more
    apply Runs.ite .pure
    apply Runs.skipInsertedTerms.bind
    intro _
    apply Runs.at_.bind
    intro closed
    exact .ite .pure ((Runs.parseAsmOperand ready_succ).bind fun _ => .pure)
  · exact fun _ => Runs.skipInsertedTerms.bind fun _ => Runs.expect_closer.bind fun _ => .pure

/-! ## Primaries -/

theorem Runs.parsePrimary (ready : z.Ready n b) : z.Runs b n n parsePrimary := by
  have block {f : Block → Expr} : z.Runs b n n
      (Syntax.parseBlockFreely >>= fun body => Pure.pure (f body)) :=
    Runs.parseBlockFreely.bind fun _ => .pure
  apply Runs.get
  intro p here
  split
  · exact here.advanced ‹_› rfl .pure
  · exact here.advanced ‹_› rfl .pure
  · exact here.advanced ‹_› rfl .pure
  · exact here.advanced ‹_› rfl .pure
  · exact here.advanced ‹_› rfl .pure
  · exact (Runs.parseStringLiteral.bind fun _ => .pure) here
  · exact here.advanced ‹_› rfl .pure
  · exact (Runs.parsePath.bind fun _ => .pure) here
  · exact Runs.parseParenOrTuple here
  · exact block here
  · exact Runs.parseIf ready here
  · exact Runs.parseMatch here
  · exact Runs.parseFor ready here
  · exact Runs.parseWhile here
  · exact here.advanced ‹_› rfl block
  · exact Runs.parseClosure here
  · exact Runs.parseRegion here
  · exact here.advanced ‹_› rfl (Runs.header.bind fun _ => block)
  · apply here.advanced ‹_› rfl
    exact (Runs.callPrefix ready).bind fun _ => .pure
  · apply here.advanced ‹_› rfl
    apply Runs.get
    intro p here
    apply Runs.joinElse _ .pure (fun rest => Runs.expectIdent.bind fun _ => .bind .pure rest) here
    exact fun name => block
  · apply here.advanced ‹_› rfl
    apply Runs.expectKw.bind
    intro proc
    apply Runs.parsePath.bind
    intro path
    apply (Runs.expect_opener rfl).bind
    exact fun _ => Runs.parseCallArgs.bind fun _ => .pure
  · exact Runs.parseSelect here
  · exact Runs.parseWhen here
  · exact Runs.parseUnsafe here
  · exact Runs.parseAsm here
  · apply here.advanced ‹_› rfl
    apply (Runs.callPrefix ready).bind
    intro place
    apply Runs.expectCtx.bind
    exact fun _ => (Runs.callPrefix ready).bind fun _ => .pure
  · exact Runs.parseListLiteral here
  · trivial

/-! ## Postfix forms -/

theorem Runs.parseModedReceiver : z.Runs b n n parseModedReceiver := by
  apply (Runs.expect_opener rfl).bind
  intro start
  apply Runs.parseParamMode.bind
  intro mode
  apply (Runs.withStructLit (Runs.parseExpr ready_succ)).bind
  intro place
  apply Runs.skipInsertedTerms.bind
  intro _
  apply Runs.expect_closer.bind
  intro close
  exact Runs.at_.bind fun _ => .ite .pure .refuse

theorem Runs.parseMember : z.Runs b n n parseMember := by
  apply Runs.get
  intro p here
  split
  · exact here.advanced ‹_› rfl .pure
  · exact here.advanced ‹_› rfl .pure
  · exact here.advanced ‹_› rfl .pure
  · trivial

theorem Runs.parseStructLitBody {path : Path} : z.Runs b n n (parseStructLitBody path) := by
  apply (Runs.expect_opener rfl).bind
  intro start
  apply Runs.bind (Runs.withStructLit (Runs.separated _))
  · exact fun _ => Runs.skipInsertedTerms.bind fun _ => Runs.expect_closer.bind fun _ => .pure
  · apply Runs.expectIdent.bind
    intro name
    apply (Runs.eat rfl).bind
    intro colon
    apply Runs.joinElse _ .pure (Runs.parseExpr ready_succ).bind
    exact fun value => Runs.skipInsertedTerms.bind fun _ => .pure

theorem Runs.parsePostfixChain {receiver : Expr} : z.Runs b n n (parsePostfixChain receiver) := by
  apply Runs.loop
  intro expr
  apply Runs.get
  intro p here
  split
  · apply Runs.advanced (here.skip_opener ‹_› rfl)
    exact Runs.parseCallArgs.bind fun _ => .pure
  · apply Runs.advanced (here.skip_opener ‹_› rfl)
    exact Runs.parseIndexArgs.bind fun _ => .get fun _ reached => reached
  · apply here.advanced ‹_› rfl
    exact Runs.parseMember.bind fun _ => .pure
  · exact here.advanced ‹_› rfl .pure
  · exact here

/-! ## No struct literal under the restriction

A primary is no struct literal, and what the postfix chain and the climb build on one holds none
that is not enclosed. The literal itself is the one production that looks at the restriction.
-/

/-- Whatever answers its calls, the program gives no struct literal. -/
abbrev Plain (program : P Expr) : Prop := program.Yields fun expr => expr.plain = true

theorem parseParenOrTuple_plain : Plain parseParenOrTuple := by
  apply Prog.Yields.last
  intro start
  apply Prog.Yields.last
  rintro ⟨items, sawComma⟩
  apply Prog.Yields.last
  intro _
  apply Prog.Yields.last
  intro close
  split <;> rfl

theorem parseIf_plain : Plain parseIf := by
  apply Prog.Yields.last
  intro start
  apply Prog.Yields.last
  intro cond
  apply Prog.Yields.last
  intro thenKw
  apply Prog.Yields.last
  intro block
  split
  · apply Prog.Yields.last
    intro then_
    apply Prog.Yields.last
    intro p
    split
    · exact .last fun _ => .last fun _ => rfl
    · split
      · exact .last fun _ => .last fun _ => rfl
      · exact rfl
  · split
    · apply Prog.Yields.last
      intro then_
      apply Prog.Yields.last
      intro otherwise
      split
      · apply Prog.Yields.last
        intro elseIf
        split
        · exact .last fun _ => rfl
        · apply Prog.Yields.last
          intro braced
          split
          · exact fun _ => trivial
          · exact .last fun _ => rfl
      · exact rfl
    · exact fun _ => trivial

theorem parseClosure_plain : Plain parseClosure := by
  apply Prog.Yields.last
  intro start
  apply Prog.Yields.last
  intro opened
  apply Prog.Yields.last
  intro params
  apply Prog.Yields.last
  intro close
  apply Prog.Yields.last
  intro block
  split <;> exact .last fun _ => rfl

theorem parseRegion_plain : Plain parseRegion := by
  apply Prog.Yields.last
  intro start
  apply Prog.Yields.last
  intro p
  have close (value : Expr) (plain : value.plain = true) :
      Plain (expect .rParen "gram.expr.region" >>= fun _ => pure value) := .last fun _ => plain
  split
  · apply Prog.Yields.last
    intro opened
    apply Prog.Yields.last
    intro q
    split
    · exact close _ rfl
    · split
      · exact .last fun _ => close _ rfl
      · apply Prog.Yields.last
        intro strategy
        apply Prog.Yields.last
        intro capped
        split
        · exact .last fun _ => close _ rfl
        · exact close _ rfl
  · have strategy (name : Option Ident) (cap : Node (.opt .expr)) : Plain (do
        let strategy : Node (.opt .regionStrategy) ←
          if ← eat .colon then do pure (.some (← parseRegionStrategy)) else pure .none
        return Node.regionSugar name cap strategy (← parseBlockFreely)) := by
      apply Prog.Yields.last
      intro colon
      split
      · exact .last fun _ => .last fun _ => .last fun _ => rfl
      · exact .last fun _ => .last fun _ => rfl
    have cap (name : Option Ident) : Plain (do
        let cap : Node (.opt .expr) ←
          if name.isSome && (← at_ .lParen) then do
            let _ ← advance
            let cap ← parseRegionCap
            let _ ← expect .rParen "gram.expr.region"
            pure (.some cap)
          else pure .none
        let strategy : Node (.opt .regionStrategy) ←
          if ← eat .colon then do pure (.some (← parseRegionStrategy)) else pure .none
        return Node.regionSugar name cap strategy (← parseBlockFreely)) := by
      apply Prog.Yields.last
      intro opened
      split
      · exact .last fun _ => .last fun _ => .last fun _ => strategy _ _
      · exact strategy _ _
    split
    · exact .last fun _ => cap _
    · exact cap _

theorem parseUnsafe_plain : Plain parseUnsafe := by
  apply Prog.Yields.last
  intro start
  apply Prog.Yields.last
  intro inlineC
  split
  · apply Prog.Yields.last
    intro listed
    split
    · apply Prog.Yields.last
      intro captures
      exact .last fun _ => .last fun _ => .last fun _ => .last fun _ => .last fun _ => rfl
    · exact .last fun _ => .last fun _ => .last fun _ => .last fun _ => rfl
  · exact .last fun _ => rfl

theorem parseWhen_plain : Plain parseWhen := by
  apply Prog.Yields.last
  intro p
  apply Prog.Yields.last
  intro start
  apply Prog.Yields.last
  intro opened
  apply Prog.Yields.last
  intro operands
  apply Prog.Yields.last
  intro close
  split
  · exact fun _ => trivial
  · exact .last fun _ => rfl

theorem parsePrimary_plain : Plain parsePrimary := by
  apply Prog.Yields.last
  intro p
  split
  · exact .last fun _ => rfl
  · exact .last fun _ => rfl
  · exact .last fun _ => rfl
  · exact .last fun _ => rfl
  · exact .last fun _ => rfl
  · exact .last fun _ => rfl
  · exact .last fun _ => rfl
  · exact .last fun _ => rfl
  · exact parseParenOrTuple_plain
  · exact .last fun _ => rfl
  · exact parseIf_plain
  · exact .last fun _ => .last fun _ => .last fun _ => .last fun _ => rfl
  · exact .last fun _ => .last fun _ => .last fun _ => .last fun _ => .last fun _ => rfl
  · exact .last fun _ => .last fun _ => .last fun _ => rfl
  · exact .last fun _ => .last fun _ => rfl
  · exact parseClosure_plain
  · exact parseRegion_plain
  · exact .last fun _ => .last fun _ => .last fun _ => rfl
  · exact .last fun _ => .last fun _ => rfl
  · apply Prog.Yields.last
    intro scope
    apply Prog.Yields.last
    intro p
    split
    · exact .last fun _ => .last fun _ => .last fun _ => rfl
    · exact .last fun _ => .last fun _ => rfl
  · exact .last fun _ => .last fun _ => .last fun _ => .last fun _ => .last fun _ => rfl
  · exact .last fun _ => .last fun _ => .last fun _ => rfl
  · exact parseWhen_plain
  · exact parseUnsafe_plain
  · exact .last fun _ => .last fun _ => .last fun _ => .last fun _ => .last fun _ => .last fun _ =>
      .last fun _ => rfl
  · exact .last fun _ => .last fun _ => .last fun _ => .last fun _ => rfl
  · exact .last fun _ => .last fun _ => .last fun _ => .last fun _ => rfl
  · exact fun _ => trivial

/-- A link of the postfix chain keeps what its receiver is. -/
theorem parsePostfixChain_plain {receiver : Expr} (plain : receiver.plain = true) :
    Plain (parsePostfixChain receiver) := by
  intro p
  apply Prog.Yields.loop (fun expr => expr.plain = true) _ _ plain
  intro expr plain
  apply Prog.Yields.last
  intro q
  split
  · exact .last fun _ => .last fun _ => plain
  · exact .last fun _ => .last fun _ => .last fun _ => plain
  · exact .last fun _ => .last fun _ => plain
  · exact .last fun _ => plain
  · exact plain

theorem parseModedReceiver_plain : Plain parseModedReceiver := by
  apply Prog.Yields.last
  intro start
  apply Prog.Yields.last
  intro mode
  apply Prog.Yields.last
  intro place
  apply Prog.Yields.last
  intro _
  apply Prog.Yields.last
  intro close
  apply Prog.Yields.last
  intro dotted
  split
  · exact rfl
  · exact fun _ => trivial

/-! ## The climb -/

/-- No struct literal under the restriction. -/
abbrev Kept (b : Bool) (expr : Expr) : Prop := b = true → expr.plain = true

theorem Gives.chain (receiver : Expr) (plain : receiver.plain = true) : z.Gives b n n (do
    let expr ← Syntax.parsePostfixChain receiver
    let p ← Syntax.get
    match expr with
    | .path path =>
      if p.tok = some .lBrace then
        if p.noStructLit then
          if p.structLitInCondition then
            Syntax.refuse fun p => p.error "E0006" "gram.amb.structlit"
          else return expr
        else Syntax.parseStructLitBody path
      else return expr
    | _ => return expr) (Kept b) := by
  apply (Runs.parsePostfixChain.gives_yields (parsePostfixChain_plain plain)).bind
  intro expr plain
  apply Gives.get
  intro p here
  split
  · split
    · split
      · split
        · trivial
        · exact ⟨here, fun _ => plain⟩
      · have free : b = false := by
          rw [← here.restricted]
          exact Bool.not_eq_true _ ▸ ‹_›
        apply (Runs.parseStructLitBody here).mono
        intro value q reached
        exact ⟨reached, fun restricted => by rw [free] at restricted; cases restricted⟩
    · exact ⟨here, fun _ => plain⟩
  · exact ⟨here, fun _ => plain⟩

theorem Gives.parsePostfix (ready : z.Ready n b) : z.Gives b n n parsePostfix (Kept b) := by
  apply Gives.get
  intro p here
  exact Gives.ite ((Runs.parseModedReceiver.gives_yields parseModedReceiver_plain).bind Gives.chain)
    (((Runs.parsePrimary ready).gives_yields parsePrimary_plain).bind Gives.chain) here

theorem Runs.parsePrefixOperand (ready : z.Ready n b) : z.Runs b n n parsePrefixOperand :=
  (Gives.rail .prefix_ nofun fun _ here _ => ⟨here.base, here.ready ready⟩).runs

theorem prefixOp_plain {op : UnOp} {tok : Tok} (prefixed : prefixOp (some tok) = some op) :
    isCloser tok = false := by
  cases tok <;> first | rfl | cases prefixed

theorem Gives.parsePrefix (ready : z.Ready n b) : z.Gives b n n parsePrefix (Kept b) := by
  apply Gives.get
  intro p here
  have operand (op : UnOp) : z.Gives b n n
      (Syntax.parsePrefixOperand >>= fun operand => Pure.pure (Node.unary op operand)) (Kept b) :=
    (Runs.parsePrefixOperand ready).gives fun _ => .pure fun _ => rfl
  split
  · exact Gives.parsePostfix ready here
  · rename_i op prefixed
    have moved : z.At n b (p.skip 1) := by
      apply here.skip_plain
      intro tok at_
      rw [at_] at prefixed
      exact prefixOp_plain prefixed
    split
    · apply meets_advance.2
      apply Gives.advanced _ (operand .borrowMut)
      exact moved.skip_known ((p.tok_skip 1).trans (And.right ‹_›)) rfl
    · exact Gives.advanced moved (operand _)

/-- What a round of a climb carries, and what it ends with. -/
abbrev KeptRound (b : Bool) (out : Expr ⊕ Expr) : Prop := out.elim (Kept b) (Kept b)

theorem Gives.castRound (ready : z.Ready n b) {expr : Expr} (kept : Kept b expr) :
    z.Gives b n n (castRound expr) (KeptRound b) := by
  apply Runs.eatKw.gives
  intro cast
  exact .ite ((Runs.parseType ready).gives fun _ => .pure kept) (.pure kept)

theorem Gives.parseCast (ready : z.Ready n b) : z.Gives b n n parseCast (Kept b) := by
  apply (Gives.parsePrefix ready).bind
  intro expr kept
  exact Gives.loop (Kept b) (fun _ kept => Gives.castRound ready kept) kept

theorem binaryOpAtTier_plain {tier : Nat} {op : BinOp} {tok : Tok}
    (operator : binaryOpAtTier tier (some tok) = some op) : isCloser tok = false := by
  generalize at_ : some tok = token at operator
  revert at_ operator
  fun_cases binaryOpAtTier tier token <;> rintro ⟨⟩ operator <;> first | rfl | cases operator

theorem Gives.binaryRound {tier : Nat} {below : P Expr} (operand : z.Gives b n n below (Kept b))
    {lhs : Expr} (kept : Kept b lhs) :
    z.Gives b n n (binaryRound tier below lhs) (KeptRound b) := by
  apply Gives.get
  intro p here
  split
  · exact ⟨here, kept⟩
  · rename_i op operator
    have moved : z.At n b (p.skip 1) := by
      apply here.skip_plain
      intro tok at_
      rw [at_] at operator
      exact binaryOpAtTier_plain operator
    apply Gives.advanced moved
    apply operand.bind
    intro rhs kept'
    have both : Kept b (.binary op lhs rhs) := fun restricted =>
      Bool.and_eq_true_iff.2 ⟨kept restricted, kept' restricted⟩
    apply Gives.ite
    · apply Gives.get
      intro p here
      split
      · trivial
      · exact ⟨here, both⟩
    · exact .pure both

theorem Gives.parseBinary (ready : z.Ready n b) (tier : Nat) :
    z.Gives b n n (parseBinary tier) (Kept b) := by
  induction tier with
  | zero => exact Gives.parseCast ready
  | succ tier induction =>
    rw [Syntax.parseBinary]
    apply Gives.ite (Gives.parseCast ready)
    apply induction.bind
    intro lhs kept
    exact Gives.loop (Kept b) (fun _ kept => Gives.binaryRound induction kept) kept

theorem Gives.parseRangeEnd (ready : z.Ready n b) : z.Gives b n n parseRangeEnd (Kept b) := by
  apply (Runs.eat rfl).gives
  intro fromEnd
  exact .ite ((Gives.parseBinary ready 13).bind fun _ kept => .pure kept)
    (Gives.parseBinary ready 13)

theorem rangeOp_plain {inclusive : Bool} {tok : Tok}
    (operator : rangeOp (some tok) = some inclusive) :
    isCloser tok = false := by
  cases tok <;> first | rfl | cases operator

theorem Gives.parseRangeStop (ready : z.Ready n b) :
    z.Gives b n n parseRangeStop fun stop => b = true → stop.plain = true := by
  apply Gives.get
  intro p here
  split
  · apply (Gives.parseRangeEnd ready).bind _ here
    exact fun _ kept => .pure fun restricted => kept restricted
  · exact ⟨here, fun _ => rfl⟩

theorem Gives.parseRangeExpr (ready : z.Ready n b) : z.Gives b n n parseRangeExpr (Kept b) := by
  have moved {p : Parser} (here : z.At n b p) {inclusive : Bool}
      (operator : rangeOp p.tok = some inclusive) : z.At n b (p.skip 1) := by
    apply here.skip_plain
    intro tok at_
    rw [at_] at operator
    exact rangeOp_plain operator
  apply Gives.get
  intro p here
  split
  · apply Gives.advanced (moved here ‹_›)
    exact (Gives.parseRangeEnd ready).bind fun _ kept => .pure kept
  · apply (Gives.parseRangeEnd ready).bind _ here
    intro lhs kept
    apply Gives.get
    intro p here
    split
    · exact ⟨here, kept⟩
    · apply Gives.advanced (moved here ‹_›)
      apply (Gives.parseRangeStop ready).bind
      intro stop kept'
      apply Gives.get
      intro p here
      split
      · trivial
      · exact ⟨here, fun restricted =>
          Bool.and_eq_true_iff.2 ⟨kept restricted, kept' restricted⟩⟩

/-- The handler of a defaulting `else` is called for behind a token that lifts the restriction, and
so is enclosed in a covered run. -/
theorem Runs.parseHandler (lifting : p.prevTok = some (.kw .else_) ∨ p.prevTok = some .pipe)
    (here : z.At n b p) :
    (Syntax.withStructLit true Syntax.parseExpr).Meets z.contract (fun _ q => z.At n b q) p := by
  rw [meets_withStructLit]
  have free := here.restrict false
  apply (free.asks .expr nofun fun covered => ⟨free.base, fun guarded => .inr ?_⟩).mono
  · rintro value q ⟨reached, -⟩
    exact { reached with restricted := here.restricted }
  · exact List.length_pos_of_ne_nil fun outside => covered guarded (.inl ⟨lifting, outside⟩)

theorem Runs.parseHandlerBody (lifting : p.prevTok = some .pipe) (here : z.At n b p) :
    parseHandlerBody.Meets z.contract (fun _ q => z.At n b q) p := by
  change (if decide (p.tok = some .lBrace) then _ else _ : P _).Meets _ _ p
  split
  · exact (Runs.parseBlockFreely.bind fun _ => .pure) here
  · exact Runs.parseHandler (.inr lifting) here

theorem Runs.parseElseHandler (ready : z.Ready n b) (lifting : p.prevTok = some (.kw .else_))
    (here : z.At n b p) : parseElseHandler.Meets z.contract (fun _ q => z.At n b q) p := by
  change (if p.tok = some .lBrace then _ else _ : P _).Meets _ _ p
  split
  · exact (Runs.parseBlockFreely.bind fun _ => .pure) here
  · split
    · apply here.advanced ‹_› rfl
      apply (Runs.parseClosedPattern ready).bind
      intro pattern p here
      apply meets_bind.2
      rw [Syntax.expect, meets_expectIf]
      intro at_
      have lifting : (p.skip 1).prevTok = some .pipe := of_decide_eq_true at_
      have moved := here.skip_known (of_decide_eq_true at_) rfl
      exact (Runs.parseHandlerBody lifting moved).bind fun _ _ reached => reached
    · exact (Runs.parseHandler (.inl lifting) here).bind fun _ _ reached => reached

theorem Gives.parseElseExpr (ready : z.Ready n b) : z.Gives b n n parseElseExpr (Kept b) := by
  apply (Gives.parseRangeExpr ready).bind
  intro lhs kept p here
  rw [meets_bind, Syntax.eatKw, meets_eatIf]
  split
  · rename_i at_
    have moved := here.skip_known (of_decide_eq_true at_) rfl
    have lifting : (p.skip 1).prevTok = some (.kw .else_) := of_decide_eq_true at_
    rw [if_pos rfl]
    apply (Runs.parseElseHandler ready lifting moved).bind
    exact fun handler q reached => ⟨reached, kept⟩
  · exact ⟨here, kept⟩

theorem Runs.parseJumpOperand (ready : z.Ready n b) : z.Runs b n n parseJumpOperand := by
  apply Runs.get
  intro p here
  exact Runs.ite .pure ((Runs.parseExpr ready).bind fun _ => .pure) here

theorem Gives.parseExprInner (ready : z.Ready n b) : z.Gives b n n parseExprInner (Kept b) := by
  apply Gives.get
  intro p here
  split
  · apply Gives.advanced (here.skip_known ‹_› rfl)
    exact (Runs.parseJumpOperand ready).gives fun _ => .pure fun _ => rfl
  · apply Gives.advanced (here.skip_known ‹_› rfl)
    exact (Runs.parseJumpOperand ready).gives fun _ => .pure fun _ => rfl
  · exact Gives.advanced (here.skip_known ‹_› rfl) (.pure fun _ => rfl)
  · exact Gives.parseElseExpr ready here

end Zone

end WolfInterp.Syntax
