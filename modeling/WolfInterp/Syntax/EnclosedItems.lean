import WolfInterp.Syntax.Climb
import WolfInterp.Syntax.Enclosed

/-!
# The contract in patterns, attributes, items and statements

An item or a statement leaves the tail of its comma group pending; everything else leaves the queues
as it finds them.
-/

namespace WolfInterp.Syntax

open WolfInterp.Lex (Text Tok Token Diag Keyword Delim)
open Descent (Prog Contract)
open Descent.Prog (meets_bind)

namespace Zone

variable {α β σ : Type} {z : Zone} {n m k : Nat} {b : Bool} {p q : Parser} {anchor : String}

/-! ## Patterns -/

theorem Runs.parseLiteralOnly (ready : z.Ready n b) : z.Runs b n n parseLiteralOnly := by
  apply Runs.get
  intro p here
  split
  · exact Runs.parsePrimary ready here
  · split
    · apply here.advanced ‹_› rfl
      apply Runs.bind (k := n) _ fun _ => .pure
      exact (Gives.call .literalOnly nofun fun _ here _ => ⟨here.base, here.ready ready⟩).runs
    · trivial

theorem Runs.literalOrRange (ready : z.Ready n b) {lo : Expr} :
    z.Runs b n n (literalOrRange lo) := by
  apply Runs.get
  intro p here
  split
  · exact here
  · rename_i inclusive operator
    have moved : z.At n b (p.skip 1) := by
      apply here.skip_plain
      intro tok at_
      rw [at_] at operator
      exact rangeOp_plain operator
    apply Runs.advanced moved
    apply Runs.get
    intro p here
    apply Runs.ite ((Runs.parsePrimary ready).bind fun _ => .pure) _ here
    exact .ite ((Runs.parseLiteralOnly ready).bind fun _ => .pure) .refuse

theorem Runs.parsePatternList : z.Runs b (n + 1) n (parsePatternList anchor) := by
  apply Runs.at_.bind
  intro empty
  apply Runs.joinThen _ .pure (Runs.commaList (Runs.parsePattern ready_succ)).bind
  exact fun _ => Runs.expect_closer.bind fun _ => .pure

theorem Runs.parseStructPattern {path : Path} : z.Runs b n n (parseStructPattern path) := by
  apply (Runs.expect_opener rfl).bind
  intro start
  apply Runs.bind (k := n + 1)
  · apply Runs.loop
    intro fields
    apply Runs.at_.bind
    intro closed
    apply Runs.ite .pure
    apply (Runs.eat rfl).bind
    intro rest
    apply Runs.ite .pure
    apply Runs.expectIdent.bind
    intro name
    apply (Runs.eat rfl).bind
    intro colon
    apply Runs.joinElse _ .pure
    · exact fun rest => (Runs.parsePattern ready_succ).bind fun _ => .bind .pure rest
    · exact fun pattern => (Runs.eat rfl).bind fun _ => .ite .pure .pure
  · exact fun ⟨_, _⟩ => Runs.expect_closer.bind fun _ => .pure

theorem Runs.parseClosedPatternInner (ready : z.Ready n b) :
    z.Runs b n n parseClosedPatternInner := by
  apply Runs.get
  intro p here
  split
  · exact ((Runs.parsePrimary ready).bind fun _ => Runs.literalOrRange ready) here
  · split
    · exact here.advanced ‹_› rfl .pure
    · exact ((Runs.parseLiteralOnly ready).bind fun _ => Runs.literalOrRange ready) here
    · trivial
    · trivial
    · apply Runs.advanced (here.skip_opener ‹_› rfl)
      exact Runs.parsePatternList.bind fun _ => .pure
    · apply Runs.parsePath.bind _ here
      intro path
      apply Runs.at_.bind
      intro struct
      apply Runs.ite Runs.parseStructPattern
      apply Runs.eat_opener rfl
      · exact Runs.parsePatternList.bind fun _ => .pure
      · rw [if_neg Bool.false_ne_true]
        intro p here
        split
        · apply (Runs.eat rfl).bind _ here
          exact fun _ => .ite ((Runs.parseClosedPattern ready).bind fun _ => .pure) .pure
        · exact here
    · trivial

/-! ## Attributes -/

theorem Runs.callAttr (ready : z.Ready n b) : z.Runs b n n callAttr :=
  (Gives.call .attr nofun fun _ here _ => ⟨here.base, here.ready ready⟩).runs

theorem Runs.parseAttrArg (ready : z.Ready n b) : z.Runs b n n parseAttrArg := by
  apply Runs.get
  intro p here
  exact Runs.ite ((Runs.callAttr ready).bind fun _ => .pure)
    ((Runs.parseLiteralOnly ready).bind fun _ => .pure) here

theorem Runs.parseAttr (ready : z.Ready n b) : z.Runs b n n parseAttr := by
  apply Runs.parsePath.bind
  intro path
  apply Runs.eat_opener rfl
  · rw [if_pos rfl]
    apply Runs.at_.bind
    intro empty
    apply Runs.joinThen _ .pure (Runs.commaList (Runs.parseAttrArg ready_succ)).bind
    exact fun _ => Runs.expect_closer.bind fun _ => .pure
  · rw [if_neg nofun]
    apply (Runs.eat rfl).bind
    exact fun _ => .ite ((Runs.parseLiteralOnly ready).bind fun _ => .pure) .pure

theorem Runs.parseAttrGroup : z.Runs b (n + 1) n (parseAttrGroup anchor) :=
  (Runs.commaList (Runs.parseAttr ready_succ)).bind fun _ => Runs.expect_closer.bind fun _ => .pure

theorem Runs.parseAttributes : z.Runs b n n parseAttributes := by
  apply Runs.loop
  intro out
  apply Runs.skipInsertedTerms.bind
  intro _
  apply Runs.eat_opener rfl
  · exact Runs.parseAttrGroup.bind fun _ => .pure
  · exact .pure

theorem Runs.parseInnerAttributes : z.Runs b n n parseInnerAttributes := by
  apply Runs.loop
  intro out
  apply Runs.skipInsertedTerms.bind
  intro _
  apply Runs.ifAt
  · intro p here at_
    change (if out ≠ [] then _ else _ : P _).Meets _ _ p
    split
    · trivial
    · apply Runs.advanced (here.skip_opener at_ rfl)
      exact Runs.parseAttrGroup.bind fun _ => .pure
  · exact .pure

/-! ## Functions and bindings -/

theorem Runs.parseVisibility : z.Runs b n n parseVisibility := by
  apply Runs.eatKw.bind
  intro public_
  apply Runs.ite _ .pure
  apply Runs.eat_opener rfl
  · exact Runs.expectCtx.bind fun _ => Runs.expect_closer.bind fun _ => .pure
  · exact .pure

theorem Runs.parseTypeAnnotation (ready : z.Ready n b) : z.Runs b n n parseTypeAnnotation := by
  apply (Runs.eat rfl).bind
  exact fun _ => .ite ((Runs.parseType ready).bind fun _ => .pure) .pure

/-- An initializer is free of the restriction, and stands where the zone is. -/
theorem Runs.initializer (ready : z.Ready n false) :
    z.Runs b n n (Syntax.withStructLit true Syntax.parseExpr) :=
  Runs.withStructLit (Runs.parseExpr ready)

theorem afterString_texts (kind : Lex.StrKind) (texts : List Text) (rest : List Tok) :
    afterString (.strStart kind :: (texts.map Tok.strText ++ .strEnd :: rest)) 0 = rest.head? := by
  have behind : afterString (texts.map Tok.strText ++ .strEnd :: rest) 1 = rest.head? := by
    induction texts with
    | nil => rfl
    | cons text texts induction => exact induction
  exact behind

theorem bindingKind_plain {tok : Tok} (binding : (bindingKind (some tok)).isSome = true) :
    isCloser tok = false := by
  cases tok <;> first | rfl | cases binding

/-- The string of an `extern` binding ends where the lookahead has seen it end: a covered run calls
for no interpolation in it. -/
theorem abi_meets (guarded : z.guarded) (at_ : p.tok = some (.kw .extern_))
    (ahead : p.externBindingAhead = true) (here : z.At n b p) :
    (parseStringLiteral anchor).Meets z.contract
      (fun _ q => z.At n b q ∧ (bindingKind q.tok).isSome = true) (p.skip 1) := by
  have first := here.skip_known at_ rfl
  apply meets_get.2
  split
  · rename_i kind opened
    apply meets_advance.2
    apply Prog.Meets.loop (fun _ q => z.At n b q ∧ ∃ texts, ((p.skip 1).skip 1).ahead =
      texts.map Tok.strText ++ q.ahead) _ _ ⟨first.skip_known opened rfl, [], rfl⟩
    rintro parts q ⟨reached, texts, read⟩
    apply meets_get.2
    split
    · rename_i text at_
      refine ⟨reached.skip_known at_ rfl, texts ++ [text], ?_⟩
      rw [read, Parser.ahead_eq at_, List.map_append, List.append_assoc]
      rfl
    · rename_i interpolated
      have inside : { q.skip 1 with noStructLit := false }.inAbi := by
        refine ⟨p, kind, texts, here.tokens.trans reached.tokens.symm, ahead, ?_⟩
        change p.ahead = .kw .extern_ :: .strStart kind :: (_ ++ .interpStart :: (q.skip 1).ahead)
        rw [← Parser.ahead_eq interpolated, ← read, ← Parser.ahead_eq opened]
        exact Parser.ahead_eq at_
      apply meets_bind.2
      apply meets_bind.2
      apply meets_expectIf.2
      intro _
      apply meets_bind.2
      apply meets_withStructLit.2
      exact fun covered => absurd (.inr inside) (covered guarded)
    · rename_i closed
      refine ⟨reached.skip_known closed rfl, ?_⟩
      have seen : p.externBindingAhead = (bindingKind (q.skip 1).ahead.head?).isSome := by
        have shown := Parser.ahead_eq opened
        rw [read, Parser.ahead_eq closed] at shown
        change (p.tokens.drop (p.pos + 1)).map Token.tok = _ at shown
        rw [Parser.externBindingAhead, shown]
        simp only [afterString_texts]
      rw [Parser.tok_eq, ← seen]
      exact ahead
    · trivial
  · trivial

theorem Runs.parseExternLet (ready : z.Ready n false) (here : z.At n b p)
    (at_ : p.tok = some (.kw .extern_)) (ahead : p.externBindingAhead = true) :
    parseExternLet.Meets z.contract (fun _ q => z.At n b q) p := by
  have rest (abi : StrLit) (kind : BindingKind) : z.Runs b n n (do
      let name ← Syntax.expectIdent "gram.item.let"
      let ty ← Syntax.parseTypeAnnotation
      let value : Node (.opt .expr) ←
        if ← Syntax.eat .assign then do
          Pure.pure (.some (← Syntax.withStructLit true Syntax.parseExpr))
        else Pure.pure .none
      Syntax.expectTerm "gram.item.let"
      return Node.externLet abi kind name ty value) := by
    apply Runs.expectIdent.bind
    intro name
    apply (Runs.parseTypeAnnotation ready.free).bind
    intro ty
    apply (Runs.eat rfl).bind
    intro assigned
    apply Runs.joinElse _ .pure
    · exact fun rest => (Runs.initializer ready).bind fun _ => .bind .pure rest
    · exact fun _ => Runs.expectTerm.bind fun _ => .pure
  apply meets_bind.2
  rw [Syntax.expectKw, meets_expectIf]
  intro _
  by_cases guarded : z.guarded
  · apply (abi_meets guarded at_ ahead here).bind
    rintro abi q ⟨reached, binding⟩
    apply meets_get.2
    apply Runs.advanced (reached.skip_plain _) (rest abi _)
    intro tok at_
    rw [at_] at binding
    exact bindingKind_plain binding
  · apply Runs.parseStringLiteral.bind _ (here.skip_known at_ rfl)
    intro abi q reached
    apply meets_get.2
    exact Runs.advanced (reached.skip_free guarded) (rest abi _)

theorem Runs.misplacedEllipsis {α : Type} : z.Runs b n m (misplacedEllipsis : P α) :=
  fun _ _ => trivial

theorem Runs.parseEllipsis {membrane : Bool} {params : List (Node .param)}
    {mode : Option ParamMode} (here : z.At n b p) (at_ : p.tok = some .dotDot) :
    (parseEllipsis membrane params mode).Meets z.contract (fun _ q => z.At n b q) p := by
  have moved := here.skip_known at_ rfl
  apply meets_advance.2
  apply meets_get.2
  have rest (contiguous : Bool) (diag : Diag) : z.Runs b n n (do
      if !contiguous ∨ !membrane ∨ params = [] ∨ mode.isSome ∨
          (← Syntax.get).tok ≠ some .rParen then
        Syntax.refuse fun _ => diag
      else return (params, true)) := by
    apply Runs.get
    exact fun p here => Runs.ite .refuse .pure here
  by_cases contiguous : (p.skip 1).tok = some .dot ∧ (p.skip 1).span.start = p.span.stop
  · simp only [contiguous, and_self, decide_true, if_true]
    exact moved.advanced contiguous.1 rfl (rest true _)
  · simp only [contiguous, decide_false, Bool.false_eq_true, if_false]
    exact rest false _ moved

theorem Runs.parseParamKind (ready : z.Ready n b) : z.Runs b n n (parseParamKind anchor) := by
  apply Runs.eatCtx.bind
  intro self
  apply Runs.ite
  · apply Runs.get
    intro p here
    split
    · rename_i viewed
      have reached := here.skip_known viewed.1 rfl
      apply meets_advance.2
      apply Runs.advanced (reached.skip_opener ((p.tok_skip 1).trans viewed.2) rfl)
      apply Runs.bind (k := n + 1)
      · apply Runs.loop
        intro viewSet
        apply Runs.expectIdent.bind
        exact fun _ => (Runs.eat rfl).bind fun _ => .ite .pure .pure
      · exact fun _ => Runs.expect_closer.bind fun _ => .pure
    · exact here
  · apply Runs.expectIdent.bind
    intro name
    apply (Runs.expect rfl).bind
    intro colon
    apply Runs.at_.bind
    exact fun _ => .ite Runs.misplacedEllipsis ((Runs.parseType ready).bind fun _ => .pure)

theorem Runs.parseParams (ready : z.Ready n b) {membrane : Bool} :
    z.Runs b n n (parseParams membrane) := by
  apply Runs.at_.bind
  intro empty
  apply Runs.ite .pure
  apply Runs.loop
  intro params
  apply Runs.skipInsertedTerms.bind
  intro _
  apply Runs.parseParamMode.bind
  intro mode
  apply Runs.ifAt
  · intro p here at_
    exact (Runs.parseEllipsis here at_).bind fun _ _ reached => reached
  · rw [if_neg nofun]
    apply (Runs.parseParamKind ready).bind
    intro kind
    apply Runs.skipInsertedTerms.bind
    intro _
    apply (Runs.eat rfl).bind
    intro more
    apply Runs.ite
    · apply Runs.at_.bind
      exact fun _ => .ite Runs.misplacedEllipsis .pure
    · apply Runs.skipInsertedTerms.bind
      intro _
      apply Runs.at_.bind
      exact fun _ => .ite .pure .pure

theorem Runs.parseFnQuals : z.Runs b n n (parseFnQuals anchor) := by
  apply Runs.loop
  intro quals
  apply Runs.eatKw.bind
  intro comptime
  apply Runs.ite .pure
  apply Runs.eatKw.bind
  intro export_
  apply Runs.ite .pure
  apply Runs.eatKw.bind
  exact fun _ => .ite (Runs.parseStringLiteral.bind fun _ => .pure) .pure

theorem Runs.parseFnDecl (ready : z.Ready n false) : z.Runs b n n parseFnDecl := by
  apply Runs.parseFnQuals.bind
  intro quals
  apply Runs.expectKw.bind
  intro start
  apply Runs.expectIdent.bind
  intro name
  apply Runs.parseGenerics.bind
  intro generics
  apply (Runs.expect_opener rfl).bind
  intro opened
  apply (Runs.withStructLit (Runs.parseParams ready_succ)).bind
  rintro ⟨params, variadic⟩
  apply Runs.expect_closer.bind
  intro close
  apply (Runs.eat rfl).bind
  intro arrow
  apply Runs.joinElse _ .pure
  · exact fun rest => (Runs.parseRetType ready.free).bind fun _ => .bind .pure rest
  intro ret
  apply Runs.at_.bind
  intro block
  apply Runs.ite
  · exact (Runs.withTraitBody Runs.parseBlockFreely).bind fun _ => .pure
  · apply Runs.get
    intro p here
    exact Runs.ite .refuse (Runs.expectTerm.bind fun _ => .pure) here

theorem Runs.parseBinder (ready : z.Ready n false) {kind : BindingKind} :
    z.Runs b n n (parseBinder kind) := by
  have rest (pattern : Pattern) : z.Runs b n n (do
      let ty ← Syntax.parseTypeAnnotation
      if isBinderEnd (← Syntax.get).tok then
        Syntax.refuse fun p => p.error "E0201" "gram.item.let"
      else
        let _ ← Syntax.expect .assign "gram.item.let"
        return Node.binding kind pattern ty (← Syntax.withStructLit true Syntax.parseExpr)) := by
    apply (Runs.parseTypeAnnotation ready.free).bind
    intro ty
    apply Runs.get
    intro p here
    apply Runs.ite .refuse _ here
    apply (Runs.expect rfl).bind
    exact fun _ => (Runs.initializer ready).bind fun _ => .pure
  exact .ite (Runs.expectIdent.bind fun _ => .bind .pure rest)
    ((Runs.parsePattern ready.free).bind rest)

theorem Runs.parseBindingGroup (ready : z.Ready n false) : z.Runs b n n parseBindingGroup := by
  have rest (kind : BindingKind) : z.Runs b n n (do
      let first ← Syntax.parseBinder kind
      let rest ← Syntax.loop [] fun rest => do
        if kind = .const then return .inr rest
        else if ← Syntax.eat .comma then return .inl (rest ++ [← Syntax.parseBinder kind])
        else return .inr rest
      Syntax.expectTerm "gram.item.let"
      return (first, rest)) := by
    apply (Runs.parseBinder ready).bind
    intro first
    apply Runs.bind (k := n)
    · apply Runs.loop
      intro rest
      apply Runs.ite .pure
      apply (Runs.eat rfl).bind
      exact fun _ => .ite ((Runs.parseBinder ready).bind fun _ => .pure) .pure
    · exact fun _ => Runs.expectTerm.bind fun _ => .pure
  apply Runs.eatKw.bind
  intro let_
  apply Runs.ite (.bind .pure rest)
  apply Runs.eatKw.bind
  intro var
  apply Runs.ite (.bind .pure rest)
  exact Runs.expectKw.bind fun _ => .bind .pure rest

/-! ## Types, traits and uses -/

theorem Runs.parseField (ready : 1 ≤ n) : z.Runs b n n (parseField anchor) := by
  have free : z.Ready n false := fun _ => .inr ready
  apply Runs.parseAttributes.bind
  intro attrs
  apply Runs.skipTerms.bind
  intro _
  apply Runs.parseVisibility.bind
  intro visibility
  apply Runs.expectIdent.bind
  intro name
  apply (Runs.expect rfl).bind
  intro colon
  apply (Runs.withStructLit (Runs.parseType free)).bind
  exact fun _ => (Runs.eat rfl).bind fun _ => .pure

theorem Runs.parseDefHead {named : Bool} : z.Runs b n n (parseDefHead named anchor) :=
  .ite (Runs.expectIdent.bind fun _ => Runs.parseGenerics.bind fun _ => .pure) .pure

theorem Runs.parseStructDef {named : Bool} : z.Runs b n n (parseStructDef named) := by
  apply Runs.expectKw.bind
  intro start
  apply Runs.parseDefHead.bind
  rintro ⟨name, generics⟩
  apply (Runs.expect_opener rfl).bind
  intro opened
  apply Runs.bind (k := n + 1)
  · apply Runs.loop
    intro fields
    apply Runs.skipTerms.bind
    intro _
    apply Runs.get
    intro p here
    exact Runs.ite .pure ((Runs.parseField (Nat.succ_pos n)).bind fun _ => .pure) here
  · exact fun fields => Runs.expect_closer.bind fun _ => .get fun _ here => here

theorem Runs.parseEnumDef {named : Bool} : z.Runs b n n (parseEnumDef named) := by
  apply Runs.expectKw.bind
  intro start
  apply Runs.parseDefHead.bind
  rintro ⟨name, generics⟩
  apply (Runs.expect_opener rfl).bind
  intro opened
  apply Runs.bind (k := n + 1)
  · apply Runs.loop
    intro variants
    apply Runs.skipTerms.bind
    intro _
    apply Runs.get
    intro p here
    apply Runs.ite .pure _ here
    apply Runs.expectIdent.bind
    intro name
    apply Runs.eat_openerJoin rfl _ .pure
    · intro rest
      apply (Runs.commaList (Runs.withStructLit (Runs.parseType ready_succ))).bind
      exact fun _ => Runs.expect_closer.bind fun _ => .bind .pure rest
    · intro payload
      apply Runs.skipTerms.bind
      exact fun _ => (Runs.eat rfl).bind fun _ => .ite .pure .pure
  · exact fun _ => Runs.skipTerms.bind fun _ => Runs.expect_closer.bind fun _ => .pure

theorem Runs.parseTypeAlias (ready : z.Ready n b) : z.Runs b n n parseTypeAlias := by
  apply Runs.expectKw.bind
  intro start
  apply Runs.expectIdent.bind
  intro name
  apply Runs.parseGenerics.bind
  intro generics
  apply (Runs.expect rfl).bind
  intro assign
  apply Runs.get
  intro p here
  have rest (def_ : Node .typeDef) : z.Runs b n n
      (Syntax.eatTerm >>= fun _ => Pure.pure (Node.typeAlias name generics def_)) :=
    Runs.eatTerm.bind fun _ => .pure
  apply Runs.ite (Runs.parseStructDef.bind fun _ => .bind .pure rest) _ here
  exact .ite (Runs.parseEnumDef.bind fun _ => .bind .pure rest)
    ((Runs.parseType ready).bind fun _ => .bind .pure rest)

theorem Runs.parseErrorAlias : z.Runs b n n parseErrorAlias := by
  apply Runs.expectCtx.bind
  intro start
  apply Runs.expectIdent.bind
  intro name
  apply (Runs.expect rfl).bind
  intro assign
  apply Runs.parseErrorRow.bind
  intro row p here
  split
  · trivial
  · exact (Runs.eatTerm.bind fun _ => .pure) here

theorem Runs.parseUseList : z.Runs b (n + 1) n (parseUseList anchor) := by
  apply Runs.bind (k := n + 1)
  · apply Runs.loop
    intro list
    apply Runs.skipInsertedTerms.bind
    intro _
    apply Runs.expectIdent.bind
    intro name
    apply (Runs.eat rfl).bind
    intro more
    apply Runs.ite .pure
    apply Runs.skipInsertedTerms.bind
    intro _
    exact Runs.at_.bind fun _ => .ite .pure .pure
  · exact fun _ => Runs.expect_closer.bind fun _ => .pure

theorem Runs.parseUseDecl : z.Runs b n n parseUseDecl := by
  apply Runs.expectKw.bind
  intro start
  apply Runs.expectIdent.bind
  intro first
  apply Runs.bind (k := n)
  · apply Runs.loop
    intro segments
    apply Runs.get
    intro p here
    split
    · exact here
    · rename_i dotted
      have reached := here.skip_known (Classical.not_not.1 dotted) rfl
      split
      · apply meets_advance.2
        apply Runs.advanced (reached.skip_opener ((p.tok_skip 1).trans ‹_›) rfl)
        exact Runs.parseUseList.bind fun _ => .pure
      · apply Runs.advanced reached
        exact Runs.expectIdent.bind fun _ => .pure
  · rintro ⟨segments, list⟩
    apply Runs.eatKw.bind
    intro renamed
    apply Runs.joinElse _ .pure
    · exact fun rest => Runs.expectIdent.bind fun _ => .bind .pure rest
    · exact fun _ => Runs.expectTerm.bind fun _ => .pure

/-! ## Items -/

section

variable {attrs : List Attribute} {visibility : Option Visibility} (ready : z.Ready n false)
  (here : z.At n b p)
include ready here

/-- A comma group leaves its tail to the item loops. -/
theorem bindingItem_meets :
    (do
      let (first, rest) ← parseBindingGroup
      modify fun p => { p with
        pendingItems := p.pendingItems ++
          rest.map fun binding => .item attrs visibility (.bindingItem binding) }
      return Node.bindingItem first : P (Node .itemKind)).Meets z.contract
        (fun _ q => z.past.At n b q) p := by
  apply (Runs.parseBindingGroup ready here).bind
  rintro ⟨first, rest⟩ q reached
  exact { reached with items := trivial }

/-- Every item but a trait and an `impl`, whose members are items themselves. -/
theorem parseItemKind_meets (notTrait : p.tok ≠ some (.kw .trait))
    (notImpl : p.tok ≠ some (.kw .impl)) :
    (parseItemKind attrs visibility).Meets z.contract (fun _ q => z.past.At n b q) p := by
  have past {program : P (Node .itemKind)} (runs : z.Runs b n n program) :
      program.Meets z.contract (fun _ q => z.past.At n b q) p :=
    (runs here).mono fun _ _ => At.past
  have function : z.Runs b n n (parseFnDecl >>= fun decl => pure (Node.fnItem decl)) :=
    (Runs.parseFnDecl ready).bind fun _ => .pure
  apply meets_get.2
  split
  · split
    · exact (Runs.parseExternLet ready here ‹_› ‹_›).mono fun _ _ => At.past
    · exact past function
  · exact past function
  · exact past function
  · exact past function
  · exact bindingItem_meets ready here
  · exact bindingItem_meets ready here
  · exact bindingItem_meets ready here
  · exact past (Runs.parseTypeAlias ready.free)
  · exact past (Runs.parseStructDef.bind fun _ => .pure)
  · exact past (Runs.parseEnumDef.bind fun _ => .pure)
  · exact absurd ‹_› notTrait
  · exact absurd ‹_› notImpl
  · exact past Runs.parseUseDecl
  · apply Prog.Meets.mono (here.advanced ‹_› rfl _) fun _ _ => At.past
    apply Runs.expectCtx.bind
    exact fun _ => Runs.parseStringLiteral.bind fun _ => Runs.expectTerm.bind fun _ => .pure
  · split
    · exact past Runs.parseErrorAlias
    · split <;> trivial

end

/-! ## Statements -/

theorem Runs.parseAssume (ready : z.Ready n b) : z.Runs b n n parseAssume := by
  apply Runs.expectKw.bind
  intro start
  apply Runs.expectCtx.bind
  intro noalias
  apply (Runs.parseExpr ready).bind
  intro first
  apply Runs.bind (k := n)
  · apply Runs.loop
    intro operands
    apply (Runs.eat rfl).bind
    exact fun _ => .ite ((Runs.parseExpr ready).bind fun _ => .pure) .pure
  · exact fun operands => .ite .refuse (Runs.expectTerm.bind fun _ => .pure)

theorem assignOp_plain {op : AssignOp} {tok : Tok} (assigns : assignOp (some tok) = some op) :
    isCloser tok = false := by
  cases tok <;> first | rfl | cases assigns

theorem Runs.parseExprStmt (ready : z.Ready n b) : z.Runs b n n parseExprStmt := by
  apply (Runs.parseExpr ready).bind
  intro expr
  apply Runs.get
  intro p here
  split
  · rename_i op assigns
    have moved : z.At n b (p.skip 1) := by
      apply here.skip_plain
      intro tok at_
      rw [at_] at assigns
      exact assignOp_plain assigns
    have rest (take : Bool) : z.Runs b n n (do
        let value ← Syntax.parseExpr
        Syntax.expectTerm "gram.expr.assign"
        return Node.assign expr op value take) :=
      (Runs.parseExpr ready).bind fun _ => Runs.expectTerm.bind fun _ => .pure
    apply Runs.advanced moved
    exact .ite (Runs.eatKw.bind rest) (.bind .pure rest)
  · exact (Runs.expectTerm.bind fun _ => .pure) here

/-! ## Where anything may be pending -/

/-- The zone says nothing of the queues. -/
def Loose (z : Zone) : Prop := (∀ items, z.items items) ∧ ∀ stmts, z.stmts stmts

theorem At.queues (here : z.At n b p) (loose : z.Loose) (items : List Item) (stmts : List Stmt) :
    z.At n b { p with pendingItems := items, pendingStmts := stmts } :=
  { here with items := loose.1 items, stmts := loose.2 stmts }

section

variable (loose : z.Loose)
include loose

theorem At.ofPast (here : z.past.At n b p) : z.At n b p :=
  { here with items := loose.1 _ }

theorem Runs.callItem (ready : z.Ready n false) : z.Runs b n n callItem := by
  intro p here covered
  refine ⟨⟨here.base, fun guarded => ?_⟩, fun answer q post => ?_⟩
  · exact (ready guarded).imp_right (here.level guarded).trans'
  · have reached := post.2.ofPast loose
    rw [here.restricted] at reached
    exact here.raise reached

theorem Runs.parseItemsUntil {ended : Parser → Option (P (List Item))} {skip : P PUnit}
    {item : P Item} (skips : z.Runs b n n skip) (runs : z.Runs b n n item)
    (ends : ∀ p ending, ended p = some ending → z.Runs b n n ending) :
    z.Runs b n n (parseItemsUntil ended skip item) := by
  apply Runs.loop
  intro items
  apply Runs.get
  intro p here
  split
  · exact here.queues loose _ _
  · apply skips.bind _ here
    intro _
    apply Runs.get
    intro p here
    split
    · exact ((ends p _ ‹_›).bind fun _ => .pure) here
    · exact (runs.bind fun _ => .pure) here

theorem Runs.parseMembers (ready : z.Ready n false) : z.Runs b n n parseMembers := by
  apply Runs.get
  intro p here
  apply Runs.bind (Runs.modify _) _ here
  · exact fun p => ⟨rfl, rfl, rfl, rfl, rfl⟩
  · intro _
    apply Runs.bind (k := n)
    · apply (Runs.parseItemsUntil loose Runs.skipTerms (Runs.callItem loose ready) _).bind
      · exact fun _ => .get fun _ here => here
      · intro p ending ends
        split at ends
        · cases ends
          exact .pure
        · cases ends
    · intro members
      apply (Runs.modify _).bind fun _ => .pure
      exact fun p => ⟨rfl, rfl, rfl, rfl, rfl⟩

theorem Runs.parseTraitDef : z.Runs b n n parseTraitDef := by
  apply Runs.expectKw.bind
  intro start
  apply Runs.expectIdent.bind
  intro name
  apply Runs.parseGenerics.bind
  intro generics
  apply (Runs.eat rfl).bind
  intro alias_
  apply Runs.ite
  · exact Runs.parseBoundPaths.bind fun _ => Runs.eatTerm.bind fun _ => .pure
  · apply (Runs.expect_opener rfl).bind
    intro opened
    apply (Runs.withTraitBody (Runs.parseMembers loose ready_succ)).bind
    exact fun _ => Runs.expect_closer.bind fun _ => .pure

theorem Runs.parseImplDef : z.Runs b n n parseImplDef := by
  apply Runs.expectKw.bind
  intro start
  apply Runs.parseGenerics.bind
  intro generics
  apply (Runs.withStructLit (Runs.parseType ready_true)).bind
  intro first
  have rest (subject : Node (.opt .ty)) : z.Runs b n n (do
      let _ ← Syntax.expect .lBrace "gram.item.trait"
      let members ← Syntax.withTraitBody false Syntax.parseMembers
      let _ ← Syntax.expect .rBrace "gram.item.trait"
      return Node.implItem generics first subject members) := by
    apply (Runs.expect_opener rfl).bind
    intro opened
    apply (Runs.withTraitBody (Runs.parseMembers loose ready_succ)).bind
    exact fun _ => Runs.expect_closer.bind fun _ => .pure
  apply Runs.eatKw.bind
  intro for_
  apply Runs.joinElse rest .pure
  exact fun rest => (Runs.withStructLit (Runs.parseType ready_true)).bind fun _ => .bind .pure rest

theorem Runs.parseItem (ready : z.Ready n false) : z.Runs b n n parseItem := by
  apply Runs.parseAttributes.bind
  intro attrs
  apply Runs.withOrigin
  apply Runs.skipInsertedTerms.bind
  intro _
  apply Runs.parseVisibility.bind
  intro visibility
  apply Runs.at_.bind
  intro misplaced
  apply Runs.ite .refuse
  apply Runs.bind (k := n) _ fun _ => .pure
  intro p here
  by_cases trait : p.tok = some (.kw .trait)
  · apply meets_get.2
    simp only [trait]
    exact Runs.parseTraitDef loose here
  · by_cases impl : p.tok = some (.kw .impl)
    · apply meets_get.2
      simp only [impl]
      exact Runs.parseImplDef loose here
    · exact (parseItemKind_meets ready here trait impl).mono fun _ _ => At.ofPast loose

theorem Runs.parseStmt (ready : z.Ready n false) : z.Runs b n n parseStmt := by
  apply Runs.parseAttributes.bind
  intro attrs
  apply Runs.withOrigin
  apply Runs.skipInsertedTerms.bind
  intro _
  apply Runs.get
  intro p here
  split
  · trivial
  split
  · exact ((Runs.parseAssume ready.free).bind fun _ => .pure) here
  split
  · apply Runs.advanced (here.skip_plain _)
    · exact (Runs.parseExpr ready.free).bind fun _ => Runs.expectTerm.bind fun _ => .pure
    · intro tok at_
      rename_i deferred
      simp only [Parser.atKw, at_, decide_eq_true_eq, Option.some.injEq] at deferred
      rcases deferred with rfl | rfl <;> rfl
  split
  · apply (Runs.parseBindingGroup ready).bind _ here
    rintro ⟨first, rest⟩ q reached
    exact { reached with stmts := loose.2 _ }
  split
  · exact ((Runs.parseItem loose ready).bind fun _ => .pure) here
  · exact ((Runs.parseExprStmt ready.free).bind fun _ => .pure) here

end

/-- A list that stops does no more. -/
theorem Runs.stopsAt {α : Type} {ended : Option Tok → Bool} {ending : P (List α)}
    (stops : stopsAt ended p = some ending) : z.Runs b n n ending := by
  rw [Syntax.stopsAt] at stops
  split at stops
  · cases stops
    exact .pure
  · split at stops
    · cases stops
      exact .refuse
    · split at stops
      · cases stops
        exact .refuse
      · cases stops

theorem Runs.parseStmts (loose : z.Loose) (ready : z.Ready n false) : z.Runs b n n parseStmts := by
  apply Runs.loop
  intro stmts
  apply Runs.get
  intro p here
  split
  · exact here.queues loose _ _
  · apply Runs.skipInsertedTerms.bind _ here
    intro _
    apply Runs.get
    intro p here
    split
    · exact ((Runs.stopsAt ‹_›).bind fun _ => .pure) here
    · exact ((Runs.parseStmt loose ready).bind fun _ => .pure) here

theorem Runs.parseBlockInner (loose : z.Loose) : z.Runs b n n parseBlockInner := by
  apply (Runs.expect_opener rfl).bind
  intro opened
  apply (Runs.parseStmts loose ready_succ).bind
  intro stmts
  apply Runs.expect_closer.bind
  exact fun _ => .get fun _ here => here

/-! ## The grammar -/

/-- Every production but a block and an item keeps the contract of any zone. -/
theorem body_meets {target : Call} (notBlock : target ≠ .block) (notItem : target ≠ .item)
    (pre : z.contract.pre target p) :
    (body target).Meets z.contract (z.contract.post target p) p := by
  obtain ⟨here, ready⟩ := pre
  have base : z.At (z.level p) p.noStructLit p := { here with level := fun _ => Nat.le_refl _ }
  have kept {program : P Expr} (gives : z.Ready (z.level p) p.noStructLit →
      z.Gives p.noStructLit (z.level p) (z.level p) program (Kept p.noStructLit))
      (ready : z.Ready (z.level p) p.noStructLit) :
      program.Meets z.contract (fun expr q => (p.noStructLit = true → expr.plain = true) ∧
        z.At (z.level p) p.noStructLit q) p :=
    (gives ready base).mono fun _ _ => And.symm
  have free {α : Type} {program : P α} (runs : z.Ready (z.level p) p.noStructLit →
      z.Runs p.noStructLit (z.level p) (z.level p) program)
      (ready : z.Ready (z.level p) p.noStructLit) :
      program.Meets z.contract (fun _ q => (p.noStructLit = true → True) ∧
        z.At (z.level p) p.noStructLit q) p :=
    (runs ready base).mono fun _ _ reached => ⟨fun _ => trivial, reached⟩
  cases target with
  | type => exact free Runs.parseTypeInner ready
  | closedPattern => exact free Runs.parseClosedPatternInner ready
  | block => exact absurd rfl notBlock
  | expr => exact kept Gives.parseExprInner ready
  | prefix_ => exact kept Gives.parsePrefix ready
  | if_ =>
    apply kept _ ready
    exact fun ready => ((Runs.parseIf ready).gives_yields parseIf_plain).mono fun _ plain _ => plain
  | rangeExpr => exact kept Gives.parseRangeExpr ready
  | elseExpr => exact kept Gives.parseElseExpr ready
  | attr => exact free Runs.parseAttr ready
  | literalOnly => exact free Runs.parseLiteralOnly ready
  | item => exact absurd rfl notItem

/-- Every production keeps the contract of a zone that says nothing of the queues. -/
theorem keeps (loose : z.Loose) : grammar.Keeps z.contract := by
  intro target p pre
  by_cases block : target = .block
  · subst block
    apply (Runs.parseBlockInner loose { pre.1 with level := fun _ => Nat.le_refl _ }).mono
    exact fun _ _ reached => ⟨fun _ => trivial, reached⟩
  · by_cases item : target = .item
    · subst item
      apply (Runs.parseItem loose pre.2 { pre.1 with level := fun _ => Nat.le_refl _ }).mono
      exact fun _ _ reached => ⟨fun _ => trivial, reached.past⟩
    · exact body_meets block item pre

end Zone

end WolfInterp.Syntax
