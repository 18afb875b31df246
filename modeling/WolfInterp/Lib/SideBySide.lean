import WolfInterp.Lib.Contracts

/-!
# Two descents side by side

Relational rules for programs that run side by side, each with answers of its own. Where the first
run has a result, the second one has a result that goes with it, unless it ends with a halt of its
own choosing: so a grammar can be compared with one that refuses where the two would part.
-/

namespace Descent

variable {State Error Call : Type} {Answer : Call → Type} {α β γ δ σ τ : Type}

/-- Where the first run has a result, the second one ends with the halt or has a result in this
relation to it. -/
def Leads (halt : Halt Error) (rel : α → State → β → State → Prop)
    (first : Outcome State Error α) (second : Outcome State Error β) : Prop :=
  ∀ value state, first = .ok (value, state) →
    second = .error halt ∨ ∃ value' state', second = .ok (value', state') ∧
      rel value state value' state'

/-- Both results are the same, and of this kind. -/
def Alike (goal : α → State → Prop) (value : α) (state : State) (value' : α) (state' : State) :
    Prop :=
  value' = value ∧ state' = state ∧ goal value state

variable {halt : Halt Error} {rel rel' : α → State → β → State → Prop} {state state' : State}
  {program : Prog State Error Call Answer α}

theorem Leads.ok {value : α} {value' : β} (related : rel value state value' state') :
    Leads halt rel (.ok (value, state)) (.ok (value', state')) := by
  rintro _ _ ⟨⟩
  exact .inr ⟨value', state', rfl, related⟩

theorem Leads.error {error : Halt Error} {second : Outcome State Error β} :
    Leads halt rel (.error error : Outcome State Error α) second :=
  nofun

theorem Leads.halted {first : Outcome State Error α} :
    Leads halt rel first (.error halt : Outcome State Error β) :=
  fun _ _ _ => .inl rfl

theorem Leads.mono {first : Outcome State Error α} {second : Outcome State Error β}
    (leads : Leads halt rel first second)
    (le : ∀ value state value' state', rel value state value' state' →
      rel' value state value' state') : Leads halt rel' first second := by
  intro value state ended
  rcases leads value state ended with halted | ⟨value', state', ended', related⟩
  · exact .inl halted
  · exact .inr ⟨value', state', ended', le _ _ _ _ related⟩

variable {railed unrailed railed' unrailed' : ∀ target, State → Outcome State Error (Answer target)}

/-- The rule of sequencing. -/
theorem Leads.bind {program' : Prog State Error Call Answer β}
    {next : α → Prog State Error Call Answer γ} {next' : β → Prog State Error Call Answer δ}
    {rel' : γ → State → δ → State → Prop}
    (first : Leads halt rel (exec railed unrailed program state)
      (exec railed' unrailed' program' state'))
    (second : ∀ value after value' after', rel value after value' after' →
      Leads halt rel' (exec railed unrailed (next value) after)
        (exec railed' unrailed' (next' value') after')) :
    Leads halt rel' (exec railed unrailed (program >>= next) state)
      (exec railed' unrailed' (program' >>= next') state') := by
  rw [exec_bind, exec_bind]
  cases ended : exec railed unrailed program state with
  | error error => exact .error
  | ok result =>
    rcases first _ _ ended with halted | ⟨value', after', ended', related⟩
    · rw [halted]
      exact .halted
    · rw [ended']
      exact second _ _ _ _ related

/-- What two rounds of loops are compared by: both go on, or both have their results. -/
def Rounds (carry : σ → State → τ → State → Prop) (rel : α → State → β → State → Prop) :
    σ ⊕ α → State → τ ⊕ β → State → Prop
  | .inl carried, state, .inl carried', state' => carry carried state carried' state'
  | .inr value, state, .inr value', state' => rel value state value' state'
  | _, _, _, _ => False

/-- The rule of loops. The first loop may go some rounds by itself, and so needs no fewer of
them. -/
theorem Leads.loop {round : σ → Prog State Error Call Answer (σ ⊕ α)}
    {round' : τ → Prog State Error Call Answer (τ ⊕ β)} (carry : σ → State → τ → State → Prop)
    (keeps : ∀ carried state carried' state', carry carried state carried' state' →
      (∃ carried₂ state₂, exec railed unrailed (round carried) state = .ok (.inl carried₂, state₂) ∧
        carry carried₂ state₂ carried' state') ∨
      Leads halt (Rounds carry rel) (exec railed unrailed (round carried) state)
        (exec railed' unrailed' (round' carried') state')) {rounds rounds' : Nat}
    (le : rounds ≤ rounds') {carried : σ} {carried' : τ}
    (holds : carry carried state carried' state') :
    Leads halt rel (exec railed unrailed (Prog.loop round rounds carried) state)
      (exec railed' unrailed' (Prog.loop round' rounds' carried') state') := by
  induction rounds generalizing rounds' carried carried' state state' with
  | zero => exact .error
  | succ rounds induction =>
    obtain ⟨rounds', rfl⟩ : ∃ fewer, rounds' = fewer + 1 := ⟨rounds' - 1, by omega⟩
    rcases keeps carried state carried' state' holds with ⟨carried₂, state₂, ended, holds⟩ | leads
    · rw [Prog.loop, exec_bind, ended]
      exact induction (Nat.le_of_succ_le le) holds
    · apply leads.bind
      rintro (carried | value) after (carried' | value') after' reached
      · exact induction (Nat.le_of_succ_le_succ le) reached
      · exact reached.elim
      · exact reached.elim
      · exact .ok reached

/-! ## Answers side by side -/

variable {contract : Contract State Call Answer}

/-- Calls as the contract asks for them lead to answers that are alike, and as it says. -/
def Contract.Leads (contract : Contract State Call Answer) (halt : Halt Error)
    (answers answers' : ∀ target, State → Outcome State Error (Answer target)) : Prop :=
  ∀ target state, contract.pre target state →
    Descent.Leads halt (Alike (contract.post target state)) (answers target state)
      (answers' target state)

/-- A program that meets a contract goes alike with answers that do. -/
theorem Prog.Meets.leads {goal : α → State → Prop} (meets : program.Meets contract goal state)
    (covers : ∀ target state, contract.covers target state)
    (railed_leads : contract.Leads halt railed railed')
    (unrailed_leads : contract.Leads halt unrailed unrailed') :
    Descent.Leads halt (Alike goal) (exec railed unrailed program state)
      (exec railed' unrailed' program state) := by
  induction program generalizing state with
  | pure value => exact .ok ⟨rfl, rfl, meets⟩
  | refuse error => exact .error
  | endless => exact .error
  | read rest induction => exact induction state meets
  | write written rest induction => exact induction meets
  | rail target rest induction =>
    obtain ⟨pre, rests⟩ := meets (covers target state)
    simp only [exec]
    cases answered : railed target state with
    | error error => exact .error
    | ok result =>
      rcases railed_leads target state pre _ _ answered with halted | ⟨_, _, same, rfl, rfl, post⟩
      · rw [halted]
        exact .halted
      · rw [same]
        exact induction _ (rests _ _ post)
  | call target rest induction =>
    obtain ⟨pre, rests⟩ := meets (covers target state)
    simp only [exec]
    cases answered : unrailed target state with
    | error error => exact .error
    | ok result =>
      rcases unrailed_leads target state pre _ _ answered with halted | ⟨_, _, same, rfl, rfl, post⟩
      · rw [halted]
        exact .halted
      · rw [same]
        exact induction _ (rests _ _ post)

/-- The contract that asks for nothing and says nothing. -/
def Contract.any : Contract State Call Answer where
  covers _ _ := True
  pre _ _ := True
  post _ _ _ _ := True

theorem Prog.meets_any (program : Prog State Error Call Answer α) (state : State) :
    program.Meets Contract.any (fun _ _ => True) state := by
  induction program generalizing state with
  | pure value | refuse error | endless => exact trivial
  | read rest induction => exact induction state state
  | write written rest induction => exact induction written
  | rail target rest induction | call target rest induction =>
    exact fun _ => ⟨trivial, fun answer after _ => induction answer after⟩

/-! ## Grammars side by side -/

/-- The productions of one grammar lead to those of another, given answers that do. -/
def Grammar.Leads (grammar grammar' : Grammar State Error Call Answer)
    (contract : Contract State Call Answer) (halt : Halt Error) : Prop :=
  ∀ railed unrailed railed' unrailed', contract.Leads halt railed railed' →
    contract.Leads halt unrailed unrailed' → ∀ target state, contract.pre target state →
      Descent.Leads halt (Alike (contract.post target state))
        (exec railed unrailed (grammar.body target) state)
        (exec railed' unrailed' (grammar'.body target) state)

variable {grammar grammar' : Grammar State Error Call Answer}

/-- Two grammars under the same rail, the productions of one leading to those of the other, answer
so. -/
theorem Grammar.Leads.answers (leads : grammar.Leads grammar' contract halt)
    (limit : grammar'.limit = grammar.limit) (frames unrailed depth : Nat) :
    contract.Leads halt (grammar.railed frames unrailed depth)
        (grammar'.railed frames unrailed depth) ∧
      contract.Leads halt (grammar.unrailed frames unrailed depth)
        (grammar'.unrailed frames unrailed depth) := by
  induction frames generalizing unrailed depth with
  | zero =>
    constructor <;> intro target state pre
    · rw [railed]
      split <;> exact .error
    · cases unrailed <;> exact .error
  | succ frames induction =>
    constructor <;> intro target state pre
    · rw [railed, railed, limit]
      split
      · exact .error
      · rw [answer_succ, answer_succ]
        have answers := induction unrailed (depth + 1)
        exact leads _ _ _ _ answers.1 answers.2 target state pre
    · cases unrailed with
      | zero => exact .error
      | succ unrailed =>
        rw [Grammar.unrailed, Grammar.unrailed, answer_succ, answer_succ]
        have answers := induction unrailed depth
        exact leads _ _ _ _ answers.1 answers.2 target state pre

/-- A program with a result leads to one with a result, unless that one is refused so. -/
theorem Grammar.Leads.ends {refusal : Error}
    (leads : grammar.Leads grammar' contract (.refused refusal))
    (limit : grammar'.limit = grammar.limit) {depth : Nat} {after : State}
    {program' : Prog State Error Call Answer β} {value : α}
    (goes : ∀ railed unrailed railed' unrailed', contract.Leads (.refused refusal) railed railed' →
      contract.Leads (.refused refusal) unrailed unrailed' →
        Descent.Leads (.refused refusal) rel (exec railed unrailed program state)
          (exec railed' unrailed' program' state'))
    (ends : grammar.Ends depth program state (.ok (value, after)))
    (unrefused : ¬ grammar'.Ends depth program' state' (.error (.refused refusal))) :
    ∃ value' after', grammar'.Ends depth program' state' (.ok (value', after')) ∧
      rel value after value' after' := by
  obtain ⟨enough, ends⟩ := ends
  have answers := leads.answers limit enough enough depth
  have ended := ends enough (Nat.le_refl _) enough (Nat.le_refl _)
  rcases goes _ _ _ _ answers.1 answers.2 _ _ ended with halted | ⟨value', after', ended', related⟩
  · exact absurd (.of_outcome halted nofun nofun) unrefused
  · exact ⟨value', after', .of_run ended', related⟩

end Descent
