import WolfInterp.Lib.SideBySide
import WolfInterp.Syntax.EnclosedItems
import WolfInterp.Syntax.InPlace

/-!
# Comma groups

The parser goes side by side with the grammar that puts the bindings of a comma group in place.
Between two nodes of a list nothing is pending but the rest of the group that the list has just
read: what the loop has together with what is pending is what the grammar in place has. A statement
that is a group with a visibility breaks this, as its rest is pending where only a list of items
looks for it.
-/

namespace WolfInterp.Syntax

open WolfInterp.Lex (Tok Token Diag)
open Descent (Prog Outcome Halt Leads Alike Rounds exec exec_bind)

/-- The zone of a whole parse in which nothing is pending between the productions. -/
def tidy (tokens : List Token) : Zone where
  tokens
  start := 0
  guarded := False
  items items := items = []
  stmts stmts := stmts = []

theorem tidy_ready {tokens : List Token} {n : Nat} {b : Bool} : (tidy tokens).Ready n b :=
  fun guarded => guarded.elim

theorem tidy_any {tokens : List Token} {n m : Nat} {b : Bool} {p : Parser}
    (here : (tidy tokens).At n b p) : (tidy tokens).At m b p :=
  { here with level := fun guarded => guarded.elim }

/-- Answers to the calls of two parses side by side. -/
structure Sides (z : Zone) (halt : Halt Diag) where
  railed : ∀ target, Parser → Outcome Parser Diag (Answer target)
  unrailed : ∀ target, Parser → Outcome Parser Diag (Answer target)
  railed' : ∀ target, Parser → Outcome Parser Diag (Answer target)
  unrailed' : ∀ target, Parser → Outcome Parser Diag (Answer target)
  railed_leads : z.contract.Leads halt railed railed'
  unrailed_leads : z.contract.Leads halt unrailed unrailed'

namespace Sides

variable {tokens : List Token} {halt : Halt Diag} {α β γ δ : Type} {b : Bool} {n m : Nat}
  {s : Sides (tidy tokens) halt}

/-- From a tidy state one program leads to another. -/
def Goes (s : Sides (tidy tokens) halt) (b : Bool) (rel : α → Parser → β → Parser → Prop)
    (program : P α) (program' : P β) : Prop :=
  ∀ ⦃p⦄, (tidy tokens).At 0 b p →
    Leads halt rel (exec s.railed s.unrailed program p) (exec s.railed' s.unrailed' program' p)

/-- The same answer, in the same tidy state. -/
def Tidy (tokens : List Token) (b : Bool) : α → Parser → α → Parser → Prop :=
  Alike fun _ q => (tidy tokens).At 0 b q

/-- The same item, and the same rest of its group pending. -/
def Past (tokens : List Token) (b : Bool) : α → Parser → α → Parser → Prop :=
  Alike fun _ q => (tidy tokens).past.At 0 b q

theorem Tidy.unseen {change : Parser → Parser} (unseen : Zone.Unseen change) {value value' : α}
    {q q' : Parser} (tidied : Tidy tokens b value q value' q') :
    Tidy tokens b value (change q) value' (change q') := by
  obtain ⟨rfl, rfl, reached⟩ := tidied
  exact ⟨rfl, rfl, reached.unseen unseen⟩

theorem of_meets {program : P α} {goal : α → Parser → Prop} {p : Parser}
    (meets : program.Meets (tidy tokens).contract goal p) :
    Leads halt (Alike goal) (exec s.railed s.unrailed program p)
      (exec s.railed' s.unrailed' program p) :=
  meets.leads (fun _ _ guarded => guarded.elim) s.railed_leads s.unrailed_leads

namespace Goes

variable {rel rel' : α → Parser → β → Parser → Prop}

theorem of_runs {program : P α} (runs : (tidy tokens).Runs b m 0 program) :
    s.Goes b (Tidy tokens b) program program :=
  fun _ here => of_meets ((runs (tidy_any here)).mono fun _ _ => tidy_any)

/-- Behind a program that both run. -/
theorem behind {program : P α} {next : α → P β} {next' : α → P γ}
    {rel : β → Parser → γ → Parser → Prop} (first : (tidy tokens).Runs b 0 n program)
    (second : ∀ value, s.Goes b rel (next value) (next' value)) :
    s.Goes b rel (program >>= next) (program >>= next') := by
  intro p here
  apply (of_meets (first here)).bind
  rintro _ _ value q ⟨rfl, rfl, reached⟩
  exact second value (tidy_any reached)

theorem get {next : Parser → P α} {next' : Parser → P β}
    (reads : ∀ p, (tidy tokens).At 0 b p → Leads halt rel
      (exec s.railed s.unrailed (next p) p) (exec s.railed' s.unrailed' (next' p) p)) :
    s.Goes b rel (Syntax.get >>= next) (Syntax.get >>= next') :=
  fun p here => reads p here

theorem ite {c : Prop} [Decidable c] {yes no : P α} {yes' no' : P β} (left : s.Goes b rel yes yes')
    (right : s.Goes b rel no no') :
    s.Goes b rel (if c then yes else no) (if c then yes' else no') := by
  split
  · exact left
  · exact right

theorem refuse {diag : Parser → Diag} {program' : P β} :
    s.Goes b rel (Syntax.refuse diag : P α) program' :=
  fun _ _ => .error

/-- Both programs inside of a setting that is put back behind them. -/
theorem around {f : P α} {f' : P β} {change : Parser → Parser}
    {restore : Parser → Parser → Parser} (unseen : Zone.Unseen change) (inner : s.Goes b rel f f')
    (keeps : ∀ p value q value' q', rel value q value' q' →
      rel' value (restore p q) value' (restore p q')) :
    s.Goes b rel'
      (do let p ← Syntax.get; modify change; let out ← f; modify (restore p); return out)
      (do let p ← Syntax.get; modify change; let out ← f'; modify (restore p); return out) := by
  apply get
  intro p here
  apply (of_meets (Zone.Runs.modify unseen here)).bind
  rintro _ _ _ q ⟨rfl, rfl, reached⟩
  apply (inner reached).bind
  intro value after value' after' related
  exact .ok (keeps p value after value' after' related)

end Goes

/-! ## Items -/

namespace Goes

theorem withTraitBody {inside : Bool} {f f' : P α} (inner : s.Goes b (Tidy tokens b) f f') :
    s.Goes b (Tidy tokens b) (Syntax.withTraitBody inside f) (Syntax.withTraitBody inside f') := by
  apply around _ inner
  · intro p value q value' q' related
    have unseen : Zone.Unseen fun q => { q with inTraitBody := p.inTraitBody } :=
      fun q => ⟨rfl, rfl, rfl, rfl, rfl⟩
    exact Tidy.unseen unseen related
  · exact fun p => ⟨rfl, rfl, rfl, rfl, rfl⟩

section

variable {members members' : P (List Item)} (inner : s.Goes b (Tidy tokens b) members members')
include inner

theorem traitDefOf :
    s.Goes b (Tidy tokens b) (Syntax.traitDefOf members) (Syntax.traitDefOf members') := by
  apply behind .expectKw
  intro start
  apply behind .expectIdent
  intro name
  apply behind .parseGenerics
  intro generics
  apply behind (.eat rfl)
  intro alias_
  apply ite
  · exact of_runs (.bind .parseBoundPaths fun _ => .bind .eatTerm fun _ => .pure)
  · apply behind (.expect_opener rfl)
    intro opened p here
    apply (withTraitBody inner here).bind
    rintro _ _ members q ⟨rfl, rfl, reached⟩
    exact of_runs (.bind .expect_closer fun _ => .pure) reached

theorem implDefOf :
    s.Goes b (Tidy tokens b) (Syntax.implDefOf members) (Syntax.implDefOf members') := by
  have rest (generics : List GenericParam) (first : Ty) (subject : Node (.opt .ty)) :
      s.Goes b (Tidy tokens b)
        (do
          let _ ← Syntax.expect .lBrace "gram.item.trait"
          let members ← Syntax.withTraitBody false members
          let _ ← Syntax.expect .rBrace "gram.item.trait"
          return Node.implItem generics first subject members)
        (do
          let _ ← Syntax.expect .lBrace "gram.item.trait"
          let members ← Syntax.withTraitBody false members'
          let _ ← Syntax.expect .rBrace "gram.item.trait"
          return Node.implItem generics first subject members) := by
    apply behind (.expect_opener rfl)
    intro opened p here
    apply (withTraitBody inner here).bind
    rintro _ _ members q ⟨rfl, rfl, reached⟩
    exact of_runs (.bind .expect_closer fun _ => .pure) reached
  apply behind .expectKw
  intro start
  apply behind .parseGenerics
  intro generics
  apply behind (.withStructLit (.parseType tidy_ready))
  intro first
  apply behind .eatKw
  intro for_
  apply ite
  · apply behind (.withStructLit (.parseType tidy_ready))
    intro subject
    exact behind .pure (rest generics first)
  · exact behind .pure (rest generics first)

end

/-! ## Lists of items -/

/-- What the parser has read of a list with what is pending is what the grammar in place has. -/
def Carried (tokens : List Token) (b : Bool) (items : List Item) (p : Parser) (items' : List Item)
    (p' : Parser) : Prop :=
  (tidy tokens).At 0 b p' ∧
    ∃ tail, p = { p' with pendingItems := tail } ∧ items' = items ++ tail

theorem itemsUntil {ended : Parser → Option (P (List Item))} {skip : P PUnit} {item item' : P Item}
    (skips : (tidy tokens).Runs b 0 0 skip) (reads : s.Goes b (Past tokens b) item item')
    (ends : ∀ p ending, ended p = some ending → (tidy tokens).Runs b 0 0 ending) :
    s.Goes b (Tidy tokens b) (parseItemsUntil ended skip item)
      (placedItemsUntil ended skip item') := by
  intro p here
  apply Leads.loop (Carried tokens b) _ (Nat.le_refl _)
  · exact ⟨here, [], by rw [← here.items], rfl⟩
  rintro items _ items' q ⟨reached, tail, rfl, rfl⟩
  cases tail with
  | cons pending rest =>
    left
    refine ⟨items ++ [pending], { q with pendingItems := rest }, rfl, reached, rest, rfl, ?_⟩
    rw [List.append_assoc]
    rfl
  | nil =>
    right
    have same : { q with pendingItems := [] } = q := by rw [← reached.items]
    have empty : q.pendingItems = [] := reached.items
    rw [same, List.append_nil, exec_bind, exec_get]
    simp only [empty]
    apply behind skips _ reached
    intro _
    apply get
    intro p here
    cases stops : ended p with
    | some ending =>
      apply (of_runs (ends p ending stops) here).bind
      rintro _ _ more after ⟨rfl, rfl, reached⟩
      exact .ok ⟨rfl, rfl, reached⟩
    | none =>
      apply (reads here).bind
      rintro _ _ first after ⟨rfl, rfl, reached⟩
      rw [exec_bind]
      apply Leads.ok
      refine ⟨{ reached with items := rfl }, after.pendingItems, rfl, ?_⟩
      rw [List.append_assoc]
      rfl

theorem callItem : s.Goes b (Past tokens b) Syntax.callItem Syntax.callItem := by
  intro p here
  apply of_meets
  intro covered
  refine ⟨⟨here.base, tidy_ready⟩, fun answer q post => ?_⟩
  have reached := post.2
  rw [here.restricted] at reached
  exact { reached with level := fun guarded => guarded.elim }

theorem members : s.Goes b (Tidy tokens b) parseMembers placedMembers := by
  apply around _ (_ : s.Goes b (Tidy tokens b) parseMembersInner placedMembersInner)
  · intro p value q value' q' related
    have unseen : Zone.Unseen fun q => { q with inMembers := p.inMembers } :=
      fun q => ⟨rfl, rfl, rfl, rfl, rfl⟩
    exact Tidy.unseen unseen related
  · exact fun p => ⟨rfl, rfl, rfl, rfl, rfl⟩
  · intro p here
    apply (itemsUntil .skipTerms callItem _ here).bind
    · rintro _ _ members q ⟨rfl, rfl, reached⟩
      exact get (fun _ here => .ok ⟨rfl, rfl, here⟩) reached
    · intro p ending stops
      split at stops
      · cases stops
        exact .pure
      · cases stops

variable {attrs : List Attribute}

theorem itemKind {visibility : Option Visibility} :
    s.Goes b (Past tokens b) (parseItemKind attrs visibility)
      (itemKindOf placedMembers attrs visibility) := by
  intro p here
  have tidied {program program' : P (Node .itemKind)}
      (goes : s.Goes b (Tidy tokens b) program program') :
      Leads halt (Past tokens b) (exec s.railed s.unrailed program p)
        (exec s.railed' s.unrailed' program' p) := by
    apply (goes here).mono
    rintro _ _ kind q ⟨rfl, rfl, reached⟩
    exact ⟨rfl, rfl, reached.past⟩
  by_cases trait : p.tok = some (.kw .trait)
  · rw [parseItemKind, itemKindOf, exec_bind, exec_bind, exec_get, exec_get]
    simp only [trait]
    exact tidied (traitDefOf members)
  · by_cases impl : p.tok = some (.kw .impl)
    · rw [parseItemKind, itemKindOf, exec_bind, exec_bind, exec_get, exec_get]
      simp only [impl]
      exact tidied (implDefOf members)
    · have same : exec s.railed' s.unrailed' (itemKindOf placedMembers attrs visibility) p =
          exec s.railed' s.unrailed' (parseItemKind attrs visibility) p := by
        simp only [itemKindOf, exec_bind, exec_get]
      rw [same]
      exact of_meets (Zone.parseItemKind_meets tidy_ready here trait impl)

theorem itemInner :
    s.Goes b (Past tokens b) (parseItemInner attrs) (itemInnerOf placedMembers attrs) := by
  apply behind .skipInsertedTerms
  intro _
  apply behind .parseVisibility
  intro visibility
  apply behind .at_
  intro misplaced
  apply ite refuse
  intro p here
  apply (itemKind here).bind
  rintro _ _ kind q ⟨rfl, rfl, reached⟩
  exact .ok ⟨rfl, rfl, reached⟩

theorem item : s.Goes b (Past tokens b) parseItem placedItem := by
  apply behind .parseAttributes
  intro attrs
  apply around _ itemInner
  · rintro p _ _ item q ⟨rfl, rfl, reached⟩
    have unseen : Zone.Unseen fun q => { q with origin := p.origin } :=
      fun q => ⟨rfl, rfl, rfl, rfl, rfl⟩
    exact ⟨rfl, rfl, reached.unseen unseen⟩
  · exact fun p => ⟨rfl, rfl, rfl, rfl, rfl⟩

/-! ## Statements -/

/-- The same statement; the rest of its group is pending, and is what the grammar in place has. -/
def Grouped (tokens : List Token) (b : Bool) (stmt : Stmt) (p : Parser) (placed : Stmt × List Stmt)
    (p' : Parser) : Prop :=
  (tidy tokens).At 0 b p' ∧ p = { p' with pendingStmts := placed.2 } ∧ placed.1 = stmt

theorem grouped_nil {stmt : Stmt} {p : Parser} (here : (tidy tokens).At 0 b p) :
    Grouped tokens b stmt p (stmt, []) p :=
  ⟨here, by rw [← here.stmts], rfl⟩

theorem single {program : P (Node .stmtKind)} (runs : (tidy tokens).Runs b 0 0 program) :
    s.Goes b (Grouped tokens b) (do return .stmt attrs (← program))
      (do return (.stmt attrs (← program), [])) := by
  apply behind runs
  intro kind p here
  exact .ok (grouped_nil here)

theorem stmtInner (refused : halt = .refused visibleGroup) :
    s.Goes b (Grouped tokens b) (parseStmtInner attrs) (placedStmtInner true attrs) := by
  apply behind .skipInsertedTerms
  intro _
  apply get
  intro p here
  split
  · exact .error
  split
  · exact single (.parseAssume tidy_ready) here
  split
  · have moved : (tidy tokens).At 0 b (p.skip 1) := here.skip_free id
    rw [exec_bind, exec_bind, exec_advance, exec_advance]
    apply (of_runs (.parseExpr tidy_ready) moved).bind
    rintro _ _ expr q ⟨rfl, rfl, reached⟩
    apply (of_runs .expectTerm reached).bind
    rintro _ _ _ q ⟨rfl, rfl, reached⟩
    exact .ok (grouped_nil reached)
  split
  · apply (of_runs (.parseBindingGroup tidy_ready) here).bind
    rintro _ _ ⟨first, rest⟩ q ⟨rfl, rfl, reached⟩
    have empty : q.pendingStmts = [] := reached.stmts
    rw [exec_bind, exec_modify]
    apply Leads.ok
    refine ⟨reached, ?_, rfl⟩
    rw [empty, List.nil_append]
  split
  · apply (item here).bind
    rintro _ _ item q ⟨rfl, rfl, reached⟩
    simp only [takeItems, exec_bind, exec_get, exec_modify, exec_pure]
    by_cases rest : q.pendingItems = []
    · have same : { q with pendingItems := [] } = q := by rw [← rest]
      simp only [rest, same, ne_eq, not_true_eq_false, and_false, if_false, List.map_nil]
      exact .ok (grouped_nil { reached with items := rest })
    · simp only [rest, ne_eq, not_false_eq_true, and_self, if_true, refused]
      exact .halted
  · exact single (.parseExprStmt tidy_ready) here

theorem stmt (refused : halt = .refused visibleGroup) :
    s.Goes b (Grouped tokens b) parseStmt (placedStmt true) := by
  apply behind .parseAttributes
  intro attrs
  apply around _ (stmtInner refused)
  · rintro p _ _ item q ⟨reached, rfl, rfl⟩
    have unseen : Zone.Unseen fun q => { q with origin := p.origin } :=
      fun q => ⟨rfl, rfl, rfl, rfl, rfl⟩
    exact ⟨reached.unseen unseen, rfl, rfl⟩
  · exact fun p => ⟨rfl, rfl, rfl, rfl, rfl⟩

/-- What the parser has read of a block with what is pending is what the grammar in place has. -/
def CarriedStmts (tokens : List Token) (b : Bool) (stmts : List Stmt) (p : Parser)
    (stmts' : List Stmt) (p' : Parser) : Prop :=
  (tidy tokens).At 0 b p' ∧
    ∃ tail, p = { p' with pendingStmts := tail } ∧ stmts' = stmts ++ tail

theorem stmts (refused : halt = .refused visibleGroup) :
    s.Goes b (Tidy tokens b) parseStmts (placedStmts true) := by
  intro p here
  apply Leads.loop (CarriedStmts tokens b) _ (Nat.le_refl _)
  · exact ⟨here, [], by rw [← here.stmts], rfl⟩
  rintro stmts _ stmts' q ⟨reached, tail, rfl, rfl⟩
  cases tail with
  | cons pending rest =>
    left
    refine ⟨stmts ++ [pending], { q with pendingStmts := rest }, rfl, reached, rest, rfl, ?_⟩
    rw [List.append_assoc]
    rfl
  | nil =>
    right
    have same : { q with pendingStmts := [] } = q := by rw [← reached.stmts]
    have empty : q.pendingStmts = [] := reached.stmts
    rw [same, List.append_nil, exec_bind, exec_get]
    simp only [empty]
    apply behind .skipInsertedTerms _ reached
    intro _
    apply get
    intro p here
    cases stops : @stopsAt Stmt (fun tok => tok = none ∨ tok = some .rBrace) p with
    | some ending =>
      apply (of_runs (.stopsAt stops) here).bind
      rintro _ _ more after ⟨rfl, rfl, reached⟩
      exact .ok ⟨rfl, rfl, reached⟩
    | none =>
      apply (stmt refused here).bind
      rintro _ _ ⟨first, rest⟩ after ⟨reached, rfl, rfl⟩
      apply Leads.ok
      refine ⟨reached, rest, rfl, ?_⟩
      rw [List.append_assoc]
      rfl

theorem block (refused : halt = .refused visibleGroup) :
    s.Goes b (Tidy tokens b) parseBlockInner (placedBlock true) := by
  apply behind (.expect_opener rfl)
  intro opened p here
  apply (stmts refused here).bind
  rintro _ _ stmts q ⟨rfl, rfl, reached⟩
  apply behind (n := 0) _ _ reached
  · exact fun p here => Zone.Runs.expect_closer (tidy_any here)
  · exact fun _ => get fun _ here => .ok ⟨rfl, rfl, here⟩

/-! ## Units -/

theorem unit : s.Goes b (Tidy tokens b) parseUnit placedUnit := by
  apply behind .parseInnerAttributes
  intro innerAttrs
  apply behind (.modify _)
  · intro _ p here
    apply (itemsUntil .skipInsertedTerms item _ here).bind
    · rintro _ _ items q ⟨rfl, rfl, reached⟩
      exact get (fun _ here => .ok ⟨rfl, rfl, here⟩) reached
    · exact fun p ending stops => .stopsAt stops
  · exact fun p => ⟨rfl, rfl, rfl, rfl, rfl⟩

end Goes

end Sides

/-! ## Grammars side by side -/

/-- Every production leads to the strict grammar's. -/
theorem grammar_leads (tokens : List Token) :
    grammar.Leads (inPlace true) (tidy tokens).contract (.refused visibleGroup) := by
  intro railed unrailed railed' unrailed' railed_leads unrailed_leads target p pre
  let s : Sides (tidy tokens) (.refused visibleGroup) :=
    ⟨railed, unrailed, railed', unrailed', railed_leads, unrailed_leads⟩
  have here : (tidy tokens).At 0 p.noStructLit p := pre.1
  by_cases block : target = .block
  · subst block
    apply (Sides.Goes.block (s := s) rfl here).mono
    rintro _ _ block q ⟨rfl, rfl, reached⟩
    exact ⟨rfl, rfl, fun _ => trivial, tidy_any reached⟩
  · by_cases item : target = .item
    · subst item
      apply (Sides.Goes.item (s := s) here).mono
      rintro _ _ item q ⟨rfl, rfl, reached⟩
      exact ⟨rfl, rfl, fun _ => trivial, { reached with level := fun guarded => guarded.elim }⟩
    · have same : (inPlace true).body target = grammar.body target := by
        cases target <;> first | rfl | exact absurd rfl block | exact absurd rfl item
      rw [same]
      exact Sides.of_meets (s := s) (Zone.body_meets block item pre)

/-! ## The strict grammar and the other one -/

section Strict

variable {halt : Halt Diag} {α β : Type}
  {railed unrailed railed' unrailed' : ∀ target, Parser → Outcome Parser Diag (Answer target)}

/-- One program leads to the other, from any state. -/
def Freely
    (railed unrailed railed' unrailed' : ∀ target, Parser → Outcome Parser Diag (Answer target))
    (halt : Halt Diag) (program program' : P α) : Prop :=
  ∀ p, Leads halt (Alike fun _ _ => True) (exec railed unrailed program p)
    (exec railed' unrailed' program' p)

theorem Freely.bind {program program' : P α} {next next' : α → P β}
    (first : Freely railed unrailed railed' unrailed' halt program program')
    (second : ∀ value, Freely railed unrailed railed' unrailed' halt (next value) (next' value)) :
    Freely railed unrailed railed' unrailed' halt (program >>= next) (program' >>= next') := by
  intro p
  apply (first p).bind
  rintro _ _ value q ⟨rfl, rfl, -⟩
  exact second value q

theorem Freely.ite {c : Prop} [Decidable c] {yes yes' no no' : P α}
    (left : Freely railed unrailed railed' unrailed' halt yes yes')
    (right : Freely railed unrailed railed' unrailed' halt no no') :
    Freely railed unrailed railed' unrailed' halt (if c then yes else no)
      (if c then yes' else no') := by
  split
  · exact left
  · exact right

theorem Freely.refl (railed_leads : Descent.Contract.any.Leads halt railed railed')
    (unrailed_leads : Descent.Contract.any.Leads halt unrailed unrailed') (program : P α) :
    Freely railed unrailed railed' unrailed' halt program program :=
  fun p => (Prog.meets_any program p).leads (fun _ _ => trivial) railed_leads unrailed_leads

theorem Freely.loop {σ : Type} {start : σ} {round round' : σ → P (σ ⊕ α)}
    (keeps : ∀ carried,
      Freely railed unrailed railed' unrailed' halt (round carried) (round' carried)) :
    Freely railed unrailed railed' unrailed' halt (Syntax.loop start round)
      (Syntax.loop start round') := by
  intro p
  apply Leads.loop (Alike fun _ _ => True) _ (Nat.le_refl _) ⟨rfl, rfl, trivial⟩
  rintro _ _ carried q ⟨rfl, rfl, -⟩
  right
  apply (keeps carried q).mono
  rintro _ _ (carried | result) q ⟨rfl, rfl, -⟩
  · exact ⟨rfl, rfl, trivial⟩
  · exact ⟨rfl, rfl, trivial⟩

section

variable (railed_leads : Descent.Contract.any.Leads halt railed railed')
  (unrailed_leads : Descent.Contract.any.Leads halt unrailed unrailed')
include railed_leads unrailed_leads

/-- What the strict grammar reads as a statement, the other one reads so too. -/
theorem placedStmt_freely :
    Freely railed unrailed railed' unrailed' halt (placedStmt true) (placedStmt false) := by
  have refl {α : Type} (program : P α) :
      Freely railed unrailed railed' unrailed' halt program program :=
    .refl railed_leads unrailed_leads program
  have inner (attrs : List Attribute) : Freely railed unrailed railed' unrailed' halt
      (placedStmtInner true attrs) (placedStmtInner false attrs) := by
    apply Freely.bind (refl _)
    intro _
    apply Freely.bind (refl _)
    intro p
    apply Freely.ite (refl _)
    apply Freely.ite (refl _)
    apply Freely.ite (refl _)
    apply Freely.ite (refl _)
    apply Freely.ite _ (refl _)
    apply Freely.bind (refl _)
    intro item
    apply Freely.bind (refl _)
    intro rest q
    -- the strict grammar goes on only where there is no more of a group
    split
    · exact .error
    · rw [if_neg nofun]
      exact refl _ q
  apply Freely.bind (refl _)
  intro attrs
  apply Freely.bind (refl _)
  intro p
  apply Freely.bind (refl _)
  intro _
  exact Freely.bind (inner attrs) fun _ => refl _

theorem placedBlock_freely :
    Freely railed unrailed railed' unrailed' halt (placedBlock true) (placedBlock false) := by
  have refl {α : Type} (program : P α) :
      Freely railed unrailed railed' unrailed' halt program program :=
    .refl railed_leads unrailed_leads program
  have stmts : Freely railed unrailed railed' unrailed' halt (placedStmts true)
      (placedStmts false) := by
    apply Freely.loop
    intro stmts
    apply Freely.bind (refl _)
    intro _
    apply Freely.bind (refl _)
    intro p
    cases @stopsAt Stmt (fun tok => tok = none ∨ tok = some .rBrace) p with
    | some ending => exact refl _
    | none => exact (placedStmt_freely railed_leads unrailed_leads).bind fun _ => refl _
  apply Freely.bind (refl _)
  intro _
  apply Freely.bind stmts
  intro stmts
  exact refl _

end

end Strict

/-- Every production of the strict grammar leads to the other's. -/
theorem strict_leads (halt : Halt Diag) :
    (inPlace true).Leads (inPlace false) Descent.Contract.any halt := by
  intro railed unrailed railed' unrailed' railed_leads unrailed_leads target p pre
  cases target with
  | block => exact placedBlock_freely railed_leads unrailed_leads p
  | _ => exact Freely.refl railed_leads unrailed_leads _ p

/-- The bindings of a comma group are where the group is: what parses is what the grammar in place
makes of it. -/
def BindsInPlace (tokens : List Token) (buildTarget : String) : Prop :=
  ∀ unit after, grammar.Ends 0 parseUnit (.start tokens buildTarget) (.ok (unit, after)) →
    ∃ after', (inPlace false).Ends 0 placedUnit (.start tokens buildTarget) (.ok (unit, after'))

/-- Where no statement of a block is a group with a visibility, the bindings are in place. -/
theorem bindsInPlace {tokens : List Token} {buildTarget : String}
    (unseen : ¬ (inPlace true).Ends 0 placedUnit (.start tokens buildTarget)
      (.error (.refused visibleGroup))) : BindsInPlace tokens buildTarget := by
  intro unit after ends
  have here : (tidy tokens).At 0 false (.start tokens buildTarget) :=
    ⟨rfl, Nat.le_refl _, False.elim, rfl, rfl, rfl⟩
  obtain ⟨unit, after, strict, rfl, rfl, -⟩ := (grammar_leads tokens).ends rfl
    (fun railed unrailed railed' unrailed' railed_leads unrailed_leads =>
      Sides.Goes.unit
        (s := ⟨railed, unrailed, railed', unrailed', railed_leads, unrailed_leads⟩) here)
    ends unseen
  -- the other grammar cannot end with two refusals
  have placed (refusal : Diag)
      (differs : ¬ (inPlace false).Ends 0 placedUnit (.start tokens buildTarget)
      (.error (.refused refusal))) :
      ∃ after',
        (inPlace false).Ends 0 placedUnit (.start tokens buildTarget) (.ok (unit, after')) := by
    obtain ⟨unit, after', placed, rfl, -, -⟩ := (strict_leads (.refused refusal)).ends rfl
      (fun railed unrailed railed' unrailed' railed_leads unrailed_leads =>
        Freely.refl railed_leads unrailed_leads placedUnit _) strict differs
    exact ⟨after', placed⟩
  by_cases refused : (inPlace false).Ends 0 placedUnit (.start tokens buildTarget)
      (.error (.refused visibleGroup))
  · apply placed { visibleGroup with span := Lex.Span.empty 1 }
    intro other
    cases refused.unique other
  · exact placed visibleGroup refused

/-- `fn f() { … }` -/
def functionTokens (body : List Token) : List Token :=
  [⟨.kw .fn, ⟨0, 2⟩⟩, ⟨.ident ['f'], ⟨3, 4⟩⟩, ⟨.lParen, ⟨4, 5⟩⟩, ⟨.rParen, ⟨5, 6⟩⟩,
    ⟨.lBrace, ⟨7, 8⟩⟩] ++ body ++ [⟨.rBrace, ⟨30, 31⟩⟩]

/-- `let a = 1, b = 2` -/
def groupTokens : List Token :=
  [⟨.kw .let_, ⟨13, 16⟩⟩, ⟨.ident ['a'], ⟨17, 18⟩⟩, ⟨.assign, ⟨19, 20⟩⟩, ⟨.int ['1'], ⟨21, 22⟩⟩,
    ⟨.comma, ⟨22, 23⟩⟩, ⟨.ident ['b'], ⟨24, 25⟩⟩, ⟨.assign, ⟨26, 27⟩⟩, ⟨.int ['2'], ⟨28, 29⟩⟩]

def letInt (name value : Char) : Node .binding :=
  .binding .let_ (.bindingPat [name]) .none (.int [value])

/-- `f` with these statements. -/
def function (stmts : List Stmt) : Item :=
  .item .nil none (.fnItem (.fnDecl .nil ['f'] .nil .nil false .none (.some (.block stmts .none))))

/-- `fn f() { let a = 1, b = 2 }`: both bindings are in the block. -/
theorem bindsInPlace_group : BindsInPlace (functionTokens groupTokens) "" := by
  apply bindsInPlace
  intro refused
  have parsed : (inPlace true).run 9 9 0 placedUnit (.start (functionTokens groupTokens) "") =
      .ok (⟨[], [function [.stmt .nil (.bindingStmt (letInt 'a' '1')),
          .stmt .nil (.bindingStmt (letInt 'b' '2'))]]⟩,
        { Parser.start (functionTokens groupTokens) "" with pos := 14 }) := rfl
  cases refused.unique (.of_run parsed)

/-- `fn f() { pub let a = 1, b = 2 }` -/
def visible : List Token := functionTokens (⟨.kw .pub, ⟨9, 12⟩⟩ :: groupTokens)

/-- The second binding of a group with a visibility leaves its block and becomes an item of the
unit. -/
theorem not_bindsInPlace_visible : ¬ BindsInPlace visible "" := by
  intro placed
  let first : Item := .item .nil (some ⟨false⟩) (.bindingItem (letInt 'a' '1'))
  let second : Item := .item .nil (some ⟨false⟩) (.bindingItem (letInt 'b' '2'))
  have parsed : grammar.run 9 9 0 parseUnit (.start visible "") =
      .ok (⟨[], [function [.stmt .nil (.itemStmt first)], second]⟩,
        { Parser.start visible "" with pos := 15 }) := rfl
  have inside : (inPlace false).run 9 9 0 placedUnit (.start visible "") =
      .ok (⟨[], [function [.stmt .nil (.itemStmt first), .stmt .nil (.itemStmt second)]]⟩,
        { Parser.start visible "" with pos := 15 }) := rfl
  obtain ⟨after, ends⟩ := placed _ _ (.of_run parsed)
  cases ends.unique (.of_run inside)

end WolfInterp.Syntax
