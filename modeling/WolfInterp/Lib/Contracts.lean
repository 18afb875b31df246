import WolfInterp.Lib.Descent

/-!
# Contracts of a descent

A contract says what every call is made with and what its answer is made of. A program meets its
contract from a state when it makes its calls so, given that they were answered so, and ends in its
goal. When the body of each production meets the contract, then so does every call that a descent
reaches. A contract may leave some calls open: it is about the runs that make none of these.
-/

namespace Descent

variable {State Error Call : Type} {Answer : Call → Type} {α β σ : Type}

/-- What calls are made with, and what their answers are made of. -/
structure Contract (State Call : Type) (Answer : Call → Type) where
  /-- The calls that the contract is about. -/
  covers : Call → State → Prop
  pre : Call → State → Prop
  post : ∀ target, State → Answer target → State → Prop

variable {contract : Contract State Call Answer}

/-- A call is made as the contract asks, and an answer that the contract allows leaves `rest`. -/
def Contract.Asks (contract : Contract State Call Answer) (target : Call) (state : State)
    (rest : Answer target → State → Prop) : Prop :=
  contract.covers target state →
    contract.pre target state ∧
      ∀ answer after, contract.post target state answer after → rest answer after

variable {target : Call} {state state' after : State} {depth depth' frames unrailed : Nat}
  {program : Prog State Error Call Answer α} {value : α} {goal : α → State → Prop}

theorem Contract.Asks.mono {rest rest' : Answer target → State → Prop}
    (asks : contract.Asks target state rest)
    (le : ∀ answer after, rest answer after → rest' answer after) :
    contract.Asks target state rest' := by
  intro covered
  obtain ⟨pre, rests⟩ := asks covered
  exact ⟨pre, fun answer after post => le answer after (rests answer after post)⟩

namespace Prog

/-- A program makes its calls as the contract asks and ends in its goal. -/
def Meets (contract : Contract State Call Answer) :
    Prog State Error Call Answer α → (α → State → Prop) → State → Prop
  | pure value, goal, state => goal value state
  | refuse _, _, _ => True
  | endless, _, _ => True
  | read next, goal, state => (next state).Meets contract goal state
  | write state next, goal, _ => next.Meets contract goal state
  | rail target next, goal, state =>
    contract.Asks target state fun answer after => (next answer).Meets contract goal after
  | call target next, goal, state =>
    contract.Asks target state fun answer after => (next answer).Meets contract goal after

variable {program : Prog State Error Call Answer α} {state : State}
  {next : α → Prog State Error Call Answer β} {goal : β → State → Prop}

theorem Meets.mono {goal goal' : α → State → Prop} (meets : program.Meets contract goal state)
    (le : ∀ value after, goal value after → goal' value after) :
    program.Meets contract goal' state := by
  induction program generalizing state with
  | pure value => exact le value state meets
  | refuse error => exact meets
  | endless => exact meets
  | read rest induction => exact induction state meets
  | write written rest induction => exact induction meets
  | rail target rest induction =>
    apply Contract.Asks.mono meets
    intro answer after rests
    exact induction answer rests
  | call target rest induction =>
    apply Contract.Asks.mono meets
    intro answer after rests
    exact induction answer rests

theorem meets_bind : (program >>= next).Meets contract goal state ↔
      program.Meets contract (fun value after => (next value).Meets contract goal after) state := by
  change (program.bind next).Meets contract goal state ↔ _
  induction program generalizing state with
  | pure value | refuse error | endless => exact Iff.rfl
  | read rest induction => exact induction state
  | write written rest induction => exact induction
  | rail target rest induction =>
    simp only [bind, Meets, Contract.Asks, induction]
  | call target rest induction =>
    simp only [bind, Meets, Contract.Asks, induction]

/-- The rule of sequencing. -/
theorem Meets.bind {middle : α → State → Prop} (first : program.Meets contract middle state)
    (second : ∀ value after, middle value after → (next value).Meets contract goal after) :
    (program >>= next).Meets contract goal state :=
  meets_bind.2 (first.mono second)

/-- The rule of loops, with an invariant that each round keeps until it has its result. -/
theorem Meets.loop {round : σ → Prog State Error Call Answer (σ ⊕ β)} (invariant : σ → State → Prop)
    (keeps : ∀ carried state, invariant carried state →
      (round carried).Meets contract (fun out after => out.elim (invariant · after) (goal · after))
        state) (rounds : Nat) {carried : σ} (holds : invariant carried state) :
    (Prog.loop round rounds carried).Meets contract goal state := by
  induction rounds generalizing carried state with
  | zero => exact trivial
  | succ rounds induction =>
    apply (keeps carried state holds).bind
    rintro (carried | result) after reached
    · exact induction reached
    · exact reached

/-- Whatever it reads and whatever answers its calls, a program has a result of this kind. -/
def Yields (goal : α → Prop) : Prog State Error Call Answer α → Prop
  | pure value => goal value
  | refuse _ => True
  | endless => True
  | read next => ∀ state, (next state).Yields goal
  | write _ next => next.Yields goal
  | rail _ next | call _ next => ∀ answer, (next answer).Yields goal

theorem Yields.bind {middle : α → Prop} {goal : β → Prop} (first : program.Yields middle)
    (second : ∀ value, middle value → (next value).Yields goal) :
    (program >>= next).Yields goal := by
  change (program.bind next).Yields goal
  induction program with
  | pure value => exact second value first
  | refuse error => exact trivial
  | endless => exact trivial
  | read rest induction => exact fun state => induction state (first state)
  | write written rest induction => exact induction first
  | rail target rest induction | call target rest induction =>
    exact fun answer => induction answer (first answer)

theorem yields_true (program : Prog State Error Call Answer α) : program.Yields fun _ => True := by
  induction program with
  | pure value | refuse error | endless => exact trivial
  | read rest induction | write written rest induction | rail target rest induction
  | call target rest induction => exact induction

/-- What a program ends with is decided behind its first part. -/
theorem Yields.last {goal : β → Prop} (second : ∀ value, (next value).Yields goal) :
    (program >>= next).Yields goal :=
  (yields_true program).bind fun value _ => second value

theorem Yields.loop {round : σ → Prog State Error Call Answer (σ ⊕ β)} (invariant : σ → Prop)
    {goal : β → Prop} (keeps : ∀ carried, invariant carried → (round carried).Yields fun out =>
      out.elim invariant goal) (rounds : Nat) {carried : σ} (holds : invariant carried) :
    (Prog.loop round rounds carried).Yields goal := by
  induction rounds generalizing carried with
  | zero => exact trivial
  | succ rounds induction =>
    apply (keeps carried holds).bind
    rintro (carried | result) reached
    · exact induction reached
    · exact reached

theorem Meets.and_yields {goal : α → State → Prop} {kind : α → Prop}
    (meets : program.Meets contract goal state) (yields : program.Yields kind) :
    program.Meets contract (fun value after => goal value after ∧ kind value) state := by
  induction program generalizing state with
  | pure value => exact ⟨meets, yields⟩
  | refuse error => exact trivial
  | endless => exact trivial
  | read rest induction => exact induction state meets (yields state)
  | write written rest induction => exact induction meets yields
  | rail target rest induction =>
    apply Contract.Asks.mono meets
    exact fun answer _ rests => induction answer rests (yields answer)
  | call target rest induction =>
    apply Contract.Asks.mono meets
    exact fun answer _ rests => induction answer rests (yields answer)

end Prog

/-! ## Calls that a descent reaches -/

variable {grammar : Grammar State Error Call Answer}

/-- Running a program so many railed calls deep asks, so many railed calls deep, for a call. -/
inductive Grammar.Reaches (grammar : Grammar State Error Call Answer) :
    {α : Type} → Nat → Prog State Error Call Answer α → State → Nat → Call → State → Prop
  | read {α : Type} {depth depth' : Nat} {next : State → Prog State Error Call Answer α}
      {state state' : State} {target : Call}
      (later : grammar.Reaches depth (next state) state depth' target state') :
      grammar.Reaches depth (.read next) state depth' target state'
  | write {α : Type} {depth depth' : Nat} {next : Prog State Error Call Answer α}
      {state written state' : State} {target : Call}
      (later : grammar.Reaches depth next written depth' target state') :
      grammar.Reaches depth (.write written next) state depth' target state'
  | rail {α : Type} {depth : Nat} {target : Call}
      {next : Answer target → Prog State Error Call Answer α} {state : State}
      (room : depth < grammar.limit) :
      grammar.Reaches depth (.rail target next) state (depth + 1) target state
  | inRail {α : Type} {depth depth' : Nat} {target target' : Call}
      {next : Answer target → Prog State Error Call Answer α} {state state' : State}
      (room : depth < grammar.limit)
      (inside : grammar.Reaches (depth + 1) (grammar.body target) state depth' target' state') :
      grammar.Reaches depth (.rail target next) state depth' target' state'
  | pastRail {α : Type} {depth depth' : Nat} {target target' : Call}
      {next : Answer target → Prog State Error Call Answer α} {state after state' : State}
      {answer : Answer target} (room : depth < grammar.limit)
      (answered : grammar.Ends (depth + 1) (grammar.body target) state (.ok (answer, after)))
      (later : grammar.Reaches depth (next answer) after depth' target' state') :
      grammar.Reaches depth (.rail target next) state depth' target' state'
  | call {α : Type} {depth : Nat} {target : Call}
      {next : Answer target → Prog State Error Call Answer α} {state : State} :
      grammar.Reaches depth (.call target next) state depth target state
  | inCall {α : Type} {depth depth' : Nat} {target target' : Call}
      {next : Answer target → Prog State Error Call Answer α} {state state' : State}
      (inside : grammar.Reaches depth (grammar.body target) state depth' target' state') :
      grammar.Reaches depth (.call target next) state depth' target' state'
  | pastCall {α : Type} {depth depth' : Nat} {target target' : Call}
      {next : Answer target → Prog State Error Call Answer α} {state after state' : State}
      {answer : Answer target}
      (answered : grammar.Ends depth (grammar.body target) state (.ok (answer, after)))
      (later : grammar.Reaches depth (next answer) after depth' target' state') :
      grammar.Reaches depth (.call target next) state depth' target' state'

/-- What a call reaches, a program that reaches the call reaches. -/
theorem Grammar.Reaches.trans {depth'' : Nat} {state'' : State} {target' : Call}
    (reaches : grammar.Reaches depth program state depth' target state')
    (inside : grammar.Reaches depth' (grammar.body target) state' depth'' target' state'') :
    grammar.Reaches depth program state depth'' target' state'' := by
  induction reaches with
  | read later induction => exact .read (induction inside)
  | write later induction => exact .write (induction inside)
  | rail room => exact .inRail room inside
  | inRail room reached induction => exact .inRail room (induction inside)
  | pastRail room answered later induction => exact .pastRail room answered (induction inside)
  | call => exact .inCall inside
  | inCall reached induction => exact .inCall (induction inside)
  | pastCall answered later induction => exact .pastCall answered (induction inside)

/-- What the first part of a program reaches. -/
theorem Grammar.Reaches.first {next : α → Prog State Error Call Answer β}
    (reaches : grammar.Reaches depth program state depth' target state') :
    grammar.Reaches depth (program >>= next) state depth' target state' := by
  change grammar.Reaches depth (program.bind next) state depth' target state'
  induction reaches with
  | read later induction => exact .read induction
  | write later induction => exact .write induction
  | rail room => exact .rail room
  | inRail room inside induction => exact .inRail room inside
  | pastRail room answered later induction => exact .pastRail room answered induction
  | call => exact .call
  | inCall inside induction => exact .inCall inside
  | pastCall answered later induction => exact .pastCall answered induction

/-- What a program reaches behind a first part that asks for no call. -/
theorem Grammar.Reaches.behind {next : α → Prog State Error Call Answer β}
    (ends : exec (fun _ _ => .error .exhausted) (fun _ _ => .error .exhausted) program state =
      .ok (value, after))
      (reaches : grammar.Reaches depth (next value) after depth' target state') :
    grammar.Reaches depth (program >>= next) state depth' target state' := by
  change grammar.Reaches depth (program.bind next) state depth' target state'
  induction program generalizing state with
  | pure value => cases ends; exact reaches
  | refuse error => cases ends
  | endless => cases ends
  | read rest induction => exact .read (induction state ends)
  | write written rest induction => exact .write (induction ends)
  | rail target rest induction => cases ends
  | call target rest induction => cases ends

/-- A program that ends without an answer to any call reaches none. -/
theorem Grammar.Reaches.false_of_exec {result : α × State}
    (ends : exec (fun _ _ => .error .exhausted) (fun _ _ => .error .exhausted) program state =
      .ok result) : ¬ grammar.Reaches depth program state depth' target state' := by
  intro reaches
  induction reaches with
  | read later induction | write later induction => exact induction ends
  | rail room | inRail room inside induction | pastRail room answered later induction | call
  | inCall inside induction | pastCall answered later induction => cases ends

/-- Every production of a grammar meets a contract. -/
def Grammar.Keeps (grammar : Grammar State Error Call Answer)
    (contract : Contract State Call Answer) : Prop :=
  ∀ target state, contract.pre target state →
    (grammar.body target).Meets contract (contract.post target state) state

/-- A run that comes to a result comes to it however much it is given. -/
theorem Grammar.Ends.of_outcome {outcome : Outcome State Error α}
    (ends : grammar.run frames unrailed depth program state = outcome)
    (framed : outcome ≠ .error .exhausted) (roomy : outcome ≠ .error .crowded) :
    grammar.Ends depth program state outcome := by
  refine ⟨max frames unrailed, fun more le spare le' => ?_⟩
  have wider : grammar.run more unrailed depth program state = outcome := by
    rw [grammar.run_frames (show frames ≤ more by omega) program state, ends]
    rwa [ends]
  rw [grammar.run_unrailed (show unrailed ≤ spare by omega) program state, wider]
  rwa [wider]

theorem Grammar.Ends.of_run {result : α × State}
    (ends : grammar.run frames unrailed depth program state = .ok result) :
    grammar.Ends depth program state (.ok result) :=
  .of_outcome ends nofun nofun

/-- An answered railed call is a run of its production, with fewer frames. -/
theorem Grammar.railed_eq_ok {result : Answer target × State}
    (answered : grammar.railed frames unrailed depth target state = .ok result) :
    depth < grammar.limit ∧ ∃ fewer < frames,
      grammar.run fewer unrailed (depth + 1) (grammar.body target) state = .ok result := by
  rw [railed] at answered
  split at answered
  · cases answered
  · cases frames with
    | zero => cases answered
    | succ frames =>
      rw [answer_succ] at answered
      exact ⟨by omega, frames, Nat.lt_succ_self frames, answered⟩

/-- An answered unrailed call is a run of its production, with fewer frames. -/
theorem Grammar.unrailed_eq_ok {result : Answer target × State}
    (answered : grammar.unrailed frames unrailed depth target state = .ok result) :
    ∃ fewer < frames, ∃ less,
      grammar.run fewer less depth (grammar.body target) state = .ok result := by
  cases unrailed with
  | zero => cases answered
  | succ unrailed =>
    cases frames with
    | zero => cases answered
    | succ frames =>
      rw [Grammar.unrailed, answer_succ] at answered
      exact ⟨frames, Nat.lt_succ_self frames, unrailed, answered⟩

section

variable (keeps : grammar.Keeps contract) (meets : program.Meets contract goal state)
include keeps meets

section

variable
    (covered : ∀ depth' target state', grammar.Reaches depth program state depth' target state' →
  contract.covers target state')
include covered

/-- A run that makes only covered calls ends in its goal. -/
theorem Grammar.Keeps.run
    (ends : grammar.run frames unrailed depth program state = .ok (value, after)) :
    goal value after := by
  induction frames using Nat.strong_induction_on generalizing
    unrailed depth α state after value with
  | _ frames outer =>
  induction program generalizing state with
  | pure value => cases ends; exact meets
  | refuse error => cases ends
  | endless => cases ends
  | read rest induction =>
    exact induction state meets (fun _ _ _ later => covered _ _ _ (.read later)) ends
  | write written rest induction =>
    exact induction meets (fun _ _ _ later => covered _ _ _ (.write later)) ends
  | rail target rest induction =>
    simp only [Grammar.run, exec] at ends
    cases result : grammar.railed frames unrailed depth target state with
    | error halt => rw [result] at ends; cases ends
    | ok answered =>
      rw [result] at ends
      obtain ⟨room, fewer, lt, inside⟩ := Grammar.railed_eq_ok result
      obtain ⟨pre, rests⟩ := meets (covered _ _ _ (.rail room))
      have post : contract.post target state answered.1 answered.2 :=
        outer fewer lt (keeps target state pre)
          (fun _ _ _ reached => covered _ _ _ (.inRail room reached)) inside
      exact induction answered.1 (rests _ _ post)
        (fun _ _ _ later => covered _ _ _ (.pastRail room (.of_run inside) later)) ends
  | call target rest induction =>
    simp only [Grammar.run, exec] at ends
    cases result : grammar.unrailed frames unrailed depth target state with
    | error halt => rw [result] at ends; cases ends
    | ok answered =>
      rw [result] at ends
      obtain ⟨fewer, lt, less, inside⟩ := Grammar.unrailed_eq_ok result
      obtain ⟨pre, rests⟩ := meets (covered _ _ _ .call)
      have post : contract.post target state answered.1 answered.2 :=
        outer fewer lt (keeps target state pre)
          (fun _ _ _ reached => covered _ _ _ (.inCall reached)) inside
      exact induction answered.1 (rests _ _ post)
        (fun _ _ _ later => covered _ _ _ (.pastCall (.of_run inside) later)) ends

theorem Grammar.Keeps.ends (ends : grammar.Ends depth program state (.ok (value, after))) :
    goal value after := by
  obtain ⟨enough, ends⟩ := ends
  exact keeps.run meets covered (ends enough (Nat.le_refl _) enough (Nat.le_refl _))

/-- A run that makes only covered calls makes each of them as the contract asks. -/
theorem Grammar.Keeps.pre (reaches : grammar.Reaches depth program state depth' target state') :
    contract.pre target state' := by
  induction reaches with
  | read later induction =>
    exact induction meets fun _ _ _ reaches => covered _ _ _ (.read reaches)
  | write later induction =>
    exact induction meets fun _ _ _ reaches => covered _ _ _ (.write reaches)
  | rail room => exact (meets (covered _ _ _ (.rail room))).1
  | inRail room inside induction =>
    apply induction (keeps _ _ (meets (covered _ _ _ (.rail room))).1)
    exact fun _ _ _ reaches => covered _ _ _ (.inRail room reaches)
  | pastRail room answered later induction =>
    obtain ⟨pre, rests⟩ := meets (covered _ _ _ (.rail room))
    have post := keeps.ends (keeps _ _ pre)
      (fun _ _ _ reaches => covered _ _ _ (.inRail room reaches)) answered
    apply induction (rests _ _ post)
    exact fun _ _ _ reaches => covered _ _ _ (.pastRail room answered reaches)
  | call => exact (meets (covered _ _ _ .call)).1
  | inCall inside induction =>
    apply induction (keeps _ _ (meets (covered _ _ _ .call)).1)
    exact fun _ _ _ reaches => covered _ _ _ (.inCall reaches)
  | pastCall answered later induction =>
    obtain ⟨pre, rests⟩ := meets (covered _ _ _ .call)
    have post := keeps.ends (keeps _ _ pre)
      (fun _ _ _ reaches => covered _ _ _ (.inCall reaches)) answered
    apply induction (rests _ _ post)
    exact fun _ _ _ reaches => covered _ _ _ (.pastCall answered reaches)

end

end

/-- A run that makes only covered calls has each of them answered as the contract says. -/
theorem Grammar.Keeps.post (keeps : grammar.Keeps contract) {answer : Answer target}
    (meets : program.Meets contract goal state)
    (covered : ∀ depth' target state', grammar.Reaches depth program state depth' target state' →
      contract.covers target state')
    (reaches : grammar.Reaches depth program state depth' target state')
    (answered : grammar.Ends depth' (grammar.body target) state' (.ok (answer, after))) :
    contract.post target state' answer after :=
  keeps.ends (keeps target state' (keeps.pre meets covered reaches))
    (fun _ _ _ inside => covered _ _ _ (reaches.trans inside)) answered

end Descent
