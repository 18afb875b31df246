import WolfInterp.Syntax.EnclosedItems

/-!
# Headers

A condition, an `in` header or a scrutinee is an expression under the struct-literal restriction:
the `{` behind it opens the construct's block. The restriction is lifted by an opening delimiter,
and also by the handler of a defaulting `else`, by the branch of an `if` without braces and by the
body of a closure, which open none.
-/

namespace WolfInterp.Syntax

open WolfInterp.Lex (Tok Token)
open Descent (exec)

/-- A condition, an `in` header or a scrutinee. -/
def header : P Expr := withStructLit false parseExpr

/-- Whatever expression a header reads outside of the delimiters that it has opened, a struct
literal is no part of it that is not enclosed itself. -/
def KeepsBraces (depth : Nat) (h : Parser) : Prop :=
  ∀ depth' target p answer q, grammar.Reaches depth header h depth' target p →
    p.openSince h.pos = [] →
      grammar.Ends depth' (body target) p (.ok (answer, q)) → target.plain answer

/-- The zone of a header. -/
def headerZone (h : Parser) : Zone where
  tokens := h.tokens
  start := h.pos
  guarded := True
  items _ := True
  stmts _ := True

/-- A header that lifts the restriction only where a delimiter of its own is open, and that reads no
interpolation in the string of an `extern` binding, reads no struct literal outside of these
delimiters. -/
theorem header_keepsBraces {depth : Nat} {h : Parser}
    (enclosed : ∀ depth' target p, grammar.Reaches depth header h depth' target p →
      ¬ p.strays h.pos target) : KeepsBraces depth h := by
  intro depth' target p answer q reaches outside ends
  have keeps := Zone.keeps (z := headerZone h) ⟨fun _ => trivial, fun _ => trivial⟩
  have here : (headerZone h).At 0 h.noStructLit h :=
    ⟨rfl, Nat.le_refl _, fun _ => Nat.zero_le _, rfl, trivial, trivial⟩
  have meets := Zone.Runs.header here
  have covered : ∀ depth' target p, grammar.Reaches depth header h depth' target p →
      (headerZone h).contract.covers target p :=
    fun depth' target p reaches _ => enclosed depth' target p reaches
  have free : ¬ 1 ≤ (headerZone h).level p := by
    rw [Zone.level, show p.openSince (headerZone h).start = [] from outside]
    decide
  have plain := (keeps.post meets covered reaches ends).1
  have ready := (keeps.pre meets covered reaches).2
  cases target <;>
    first
      | exact trivial
      | exact plain ((ready trivial).resolve_right free)

/-- What a header reaches beyond its own call, the body of that call reaches. -/
theorem header_reaches {depth depth' : Nat} {h p : Parser} {target : Call}
    (reaches : grammar.Reaches depth header h depth' target p) :
    p = { h with noStructLit := true } ∧ target = .expr ∨
      grammar.Reaches (depth + 1) (body .expr) { h with noStructLit := true } depth' target p := by
  change grammar.Reaches depth (.read fun s => .read fun p => .write { p with noStructLit := true }
    (.rail .expr fun out => .read fun q => .write { q with noStructLit := s.noStructLit }
      (.pure out))) h depth' target p at reaches
  cases reaches with
  | read reaches =>
    cases reaches with
    | read reaches =>
      cases reaches with
      | write reaches =>
        cases reaches with
        | rail room => exact .inl ⟨rfl, rfl⟩
        | inRail room inside => exact .inr inside
        | pastRail room answered later =>
          exact absurd later (Descent.Grammar.Reaches.false_of_exec rfl)

/-- `a {`: the brace is left. -/
theorem header_keepsBraces_name :
    KeepsBraces 0 (.start [⟨.ident ['a'], ⟨0, 1⟩⟩, ⟨.lBrace, ⟨2, 3⟩⟩] "") := by
  apply header_keepsBraces
  intro depth' target p reaches
  rcases header_reaches reaches with ⟨rfl, rfl⟩ | inside
  · rintro (⟨prev | prev, -⟩ | ⟨q, kind, texts, same, -, ahead⟩)
    · cases prev
    · cases prev
    · rw [Parser.ahead, same] at ahead
      cases place : q.pos with
      | zero =>
        rw [place] at ahead
        cases ahead
      | succ i =>
        rw [place] at ahead
        cases i with
        | zero => cases ahead
        | succ i => simp [Parser.start] at ahead
  · exact absurd inside (Descent.Grammar.Reaches.false_of_exec rfl)

/-- `a else b { }`, the header of a loop and its block. -/
def defaulted : Parser :=
  .start [⟨.ident ['a'], ⟨0, 1⟩⟩, ⟨.kw .else_, ⟨2, 6⟩⟩, ⟨.ident ['b'], ⟨7, 8⟩⟩,
    ⟨.lBrace, ⟨9, 10⟩⟩, ⟨.rBrace, ⟨11, 12⟩⟩] ""

/-- The handler of a defaulting `else` takes the braces that the block is to be. -/
theorem not_keepsBraces_handler : ¬ KeepsBraces 0 defaulted := by
  intro keeps
  have handler : grammar.Reaches 1 parseElseExpr { defaulted with noStructLit := true } 2 .expr
      (defaulted.skip 2) := by
    apply Descent.Grammar.Reaches.behind (show exec _ _ parseRangeExpr _ = _ from rfl)
    apply Descent.Grammar.Reaches.behind (show exec _ _ (eatKw .else_) _ = _ from rfl)
    apply Descent.Grammar.Reaches.first
    apply Descent.Grammar.Reaches.behind (show exec _ _ get _ = _ from rfl)
    apply Descent.Grammar.Reaches.first
    apply Descent.Grammar.Reaches.behind (show exec _ _ get _ = _ from rfl)
    apply Descent.Grammar.Reaches.behind (show exec _ _ (modify _) _ = _ from rfl)
    exact Descent.Grammar.Reaches.rail (by decide)
  have reaches : grammar.Reaches 0 header defaulted 2 .expr (defaulted.skip 2) := by
    apply Descent.Grammar.Reaches.behind (show exec _ _ get _ = _ from rfl)
    apply Descent.Grammar.Reaches.behind (show exec _ _ (modify _) _ = _ from rfl)
    apply Descent.Grammar.Reaches.inRail (by decide)
    exact Descent.Grammar.Reaches.behind (show exec _ _ get _ = _ from rfl) handler
  have literal : grammar.Ends 2 (body .expr) (defaulted.skip 2)
      (.ok (.structLit ⟨[['b']]⟩ .nil, defaulted.skip 5)) :=
    Descent.Grammar.Ends.of_exec fun _ _ => rfl
  have plain := keeps _ _ _ _ _ reaches rfl literal
  cases plain

end WolfInterp.Syntax
