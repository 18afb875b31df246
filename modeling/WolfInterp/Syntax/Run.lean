import WolfInterp.Syntax.Items

/-!
# Running the plumbing

What each plumbing operation does to a parser, whatever answers the calls.
-/

namespace WolfInterp.Syntax

open WolfInterp.Lex (Text Tok Token Diag Keyword)
open Descent (Prog Outcome exec exec_bind)

namespace Parser

variable (p : Parser)

@[simp] theorem skip_tokens (n : Nat) : (p.skip n).tokens = p.tokens := rfl

@[simp] theorem skip_pos (n : Nat) : (p.skip n).pos = p.pos + n := rfl

@[simp] theorem skip_noStructLit (n : Nat) : (p.skip n).noStructLit = p.noStructLit := rfl

@[simp] theorem skip_origin (n : Nat) : (p.skip n).origin = p.origin := rfl

@[simp] theorem skip_rounds (n : Nat) : (p.skip n).rounds = p.rounds := rfl

@[simp] theorem skip_zero : p.skip 0 = p := rfl

@[simp] theorem skip_skip (n m : Nat) : (p.skip n).skip m = p.skip (n + m) := by
  simp only [skip, Nat.add_assoc]

@[simp] theorem tokAt_skip (n m : Nat) : (p.skip n).tokAt m = p.tokAt (n + m) := by
  simp only [tokAt, skip, Nat.add_assoc]

theorem tok_skip (n : Nat) : (p.skip n).tok = p.tokAt n := p.tokAt_skip n 0

theorem rounds_pos : ∃ n, p.rounds = n + 1 := ⟨_, rfl⟩

end Parser

variable {α β σ : Type} {r u : ∀ target, Parser → Outcome Parser Diag (Answer target)} {p : Parser}

@[simp]
theorem exec_pure (value : α) : exec r u (pure value : P α) p = .ok (value, p) := rfl

@[simp]
theorem exec_get : exec r u get p = .ok (p, p) := rfl

@[simp]
theorem exec_modify (change : Parser → Parser) :
    exec r u (modify change) p = .ok ((), change p) := rfl

@[simp]
theorem exec_advance : exec r u advance p = .ok (p.span, p.skip 1) := rfl

@[simp]
theorem exec_at (tok : Tok) : exec r u (at_ tok) p = .ok (decide (p.tok = some tok), p) := rfl

theorem exec_eatIf (here : Parser → Bool) :
    exec r u (eatIf here) p = .ok (here p, if here p then p.skip 1 else p) := by
  simp only [eatIf, exec_bind, exec_get]
  cases here p <;> rfl

@[simp]
theorem exec_eat (tok : Tok) :
    exec r u (eat tok) p =
      .ok (decide (p.tok = some tok), if p.tok = some tok then p.skip 1 else p) := by
  rw [eat, exec_eatIf]
  simp only [decide_eq_true_eq]

@[simp]
theorem exec_eatKw (keyword : Keyword) :
    exec r u (eatKw keyword) p = .ok (p.atKw keyword, if p.atKw keyword then p.skip 1 else p) :=
  exec_eatIf _

theorem exec_expectIf (here : Parser → Bool) (anchor : String) : exec r u (expectIf here anchor) p =
      if here p then .ok (p.span, p.skip 1) else .error (.refused (p.unexpected anchor)) := by
  simp only [expectIf, exec_bind, exec_get]
  cases here p <;> rfl

@[simp]
theorem exec_expect (tok : Tok) (anchor : String) : exec r u (expect tok anchor) p =
      if p.tok = some tok then .ok (p.span, p.skip 1)
      else .error (.refused (p.unexpected anchor)) := by
  rw [expect, exec_expectIf]
  simp only [decide_eq_true_eq]

theorem exec_expectIdent {name : Ident} (here : p.tok = some (.ident name)) (anchor : String) :
    exec r u (expectIdent anchor) p = .ok (name, p.skip 1) := by
  simp only [expectIdent, exec_bind, exec_get, here, exec_advance, exec_pure]

/-! ## Loops -/

theorem exec_loop_succ (round : σ → P (σ ⊕ β)) (rounds : Nat) (carried : σ) :
    exec r u (Prog.loop round (rounds + 1) carried) p =
      match exec r u (round carried) p with
      | .ok (.inl carried, q) => exec r u (Prog.loop round rounds carried) q
      | .ok (.inr result, q) => .ok (result, q)
      | .error halt => .error halt := by
  rw [Prog.loop, exec_bind]
  rcases exec r u (round carried) p with halt | ⟨carried | result, q⟩ <;> rfl

/-- A loop whose first round ends it. -/
theorem exec_loop_done {start : σ} {round : σ → P (σ ⊕ β)} {result : β} {q : Parser}
    (ends : exec r u (round start) p = .ok (.inr result, q)) :
    exec r u (loop start round) p = .ok (result, q) := by
  change exec r u (Prog.loop round p.rounds start) p = _
  obtain ⟨n, positive⟩ := p.rounds_pos
  rw [positive, exec_loop_succ, ends]

theorem exec_skipWhile {test : Option Tok → Bool} (stays : test p.tok = false) :
    exec r u (skipWhile test) p = .ok ((), p) := by
  refine exec_loop_done ?_
  simp only [exec_bind, exec_eatIf, stays, Bool.false_eq_true, if_false, exec_pure]

theorem exec_parsePath_single {r u : ∀ target, Parser → Outcome Parser Diag (Answer target)}
    {p : Parser} {name : Ident} (here : p.tok = some (.ident name)) (ends : p.tokAt 1 ≠ some .dot)
    (anchor : String) : exec r u (parsePath anchor) p = .ok (⟨[name]⟩, p.skip 1) := by
  simp only [parsePath, exec_bind, exec_expectIdent here]
  refine exec_loop_done ?_
  simp only [exec_bind, exec_get, p.tok_skip, ends, false_and, if_false, exec_pure]

end WolfInterp.Syntax
