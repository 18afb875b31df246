import Mathlib.Data.Set.Basic

/-!
# Recursive descent under a rail

A program reads and writes a state, refuses, and calls productions. A call is either railed, and
then refused below a fixed depth of railed calls, or unrailed. The descent answers each call by
running the production's own program one frame further down, with a bound on the frames that are
open and a bound on the unrailed calls that are open.
-/

namespace Descent

/-- Why a descent ends without an answer. -/
inductive Halt (Error : Type) where
  | refused (error : Error)
  /-- A call that would open a frame too many. -/
  | exhausted
  /-- A call that would open an unrailed call too many. -/
  | crowded
  /-- A loop past the rounds it is given. -/
  | endless

variable {State Error Call : Type} {Answer : Call → Type}

/-- A program over the productions `Call`. -/
inductive Prog (State Error Call : Type) (Answer : Call → Type) (α : Type) : Type where
  | pure (value : α)
  | refuse (error : Error)
  | endless
  | read (next : State → Prog State Error Call Answer α)
  | write (state : State) (next : Prog State Error Call Answer α)
  | rail (target : Call) (next : Answer target → Prog State Error Call Answer α)
  | call (target : Call) (next : Answer target → Prog State Error Call Answer α)

namespace Prog

variable {α β σ : Type}

def bind : Prog State Error Call Answer α → (α → Prog State Error Call Answer β) →
    Prog State Error Call Answer β
  | pure value, f => f value
  | refuse error, _ => refuse error
  | endless, _ => endless
  | read next, f => read fun state => (next state).bind f
  | write state next, f => write state (next.bind f)
  | rail target next, f => rail target fun answer => (next answer).bind f
  | call target next, f => call target fun answer => (next answer).bind f

instance : Monad (Prog State Error Call Answer) where
  pure := Prog.pure
  bind := Prog.bind

/-- Repeat a round until it has a result, for at most a number of rounds. -/
def loop (round : σ → Prog State Error Call Answer (σ ⊕ β)) :
    Nat → σ → Prog State Error Call Answer β
  | 0, _ => endless
  | rounds + 1, carried => do
    match ← round carried with
    | .inl carried => loop round rounds carried
    | .inr result => return result

end Prog

/-! ## Execution -/

/-- What a run ends with. -/
abbrev Outcome (State Error α : Type) := Except (Halt Error) (α × State)

variable {α β : Type}

/-- Run a program, given the answers to its calls. -/
def exec (railed unrailed : ∀ target, State → Outcome State Error (Answer target)) :
    Prog State Error Call Answer α → State → Outcome State Error α
  | .pure value, state => .ok (value, state)
  | .refuse error, _ => .error (.refused error)
  | .endless, _ => .error .endless
  | .read next, state => exec railed unrailed (next state) state
  | .write state next, _ => exec railed unrailed next state
  | .rail target next, state =>
    match railed target state with
    | .ok (answer, state) => exec railed unrailed (next answer) state
    | .error halt => .error halt
  | .call target next, state =>
    match unrailed target state with
    | .ok (answer, state) => exec railed unrailed (next answer) state
    | .error halt => .error halt

theorem exec_bind (railed unrailed : ∀ target, State → Outcome State Error (Answer target))
    (program : Prog State Error Call Answer α) (next : α → Prog State Error Call Answer β)
    (state : State) :
    exec railed unrailed (program >>= next) state =
      match exec railed unrailed program state with
      | .ok (value, state) => exec railed unrailed (next value) state
      | .error halt => .error halt := by
  change exec railed unrailed (program.bind next) state = _
  induction program generalizing state with
  | pure value => rfl
  | refuse error => rfl
  | endless => rfl
  | read rest induction => exact induction state state
  | write written rest induction => exact induction written
  | rail target rest induction =>
    simp only [Prog.bind, exec]
    cases railed target state with
    | error halt => rfl
    | ok result => exact induction result.1 result.2
  | call target rest induction =>
    simp only [Prog.bind, exec]
    cases unrailed target state with
    | error halt => rfl
    | ok result => exact induction result.1 result.2

/-- Better answers to the calls leave every run that does not end with `halt` as it is. -/
theorem exec_congr {halt : Halt Error}
    {railed unrailed railed' unrailed' : ∀ target, State → Outcome State Error (Answer target)}
    (better_railed : ∀ target state,
      railed target state ≠ .error halt → railed' target state = railed target state)
    (better_unrailed : ∀ target state,
      unrailed target state ≠ .error halt → unrailed' target state = unrailed target state)
    (program : Prog State Error Call Answer α) (state : State)
    (ends : exec railed unrailed program state ≠ .error halt) :
    exec railed' unrailed' program state = exec railed unrailed program state := by
  induction program generalizing state with
  | pure value => rfl
  | refuse error => rfl
  | endless => rfl
  | read rest induction => exact induction state state ends
  | write written rest induction => exact induction written ends
  | rail target rest induction =>
    simp only [exec] at ends ⊢
    have answered : railed target state ≠ .error halt := by
      intro failed
      simp only [failed, ne_eq, not_true_eq_false] at ends
    rw [better_railed target state answered]
    cases result : railed target state with
    | error other => rfl
    | ok answer =>
      rw [result] at ends
      exact induction answer.1 answer.2 ends
  | call target rest induction =>
    simp only [exec] at ends ⊢
    have answered : unrailed target state ≠ .error halt := by
      intro failed
      simp only [failed, ne_eq, not_true_eq_false] at ends
    rw [better_unrailed target state answered]
    cases result : unrailed target state with
    | error other => rfl
    | ok answer =>
      rw [result] at ends
      exact induction answer.1 answer.2 ends

/-- The productions, the rail on their depth, and what a call past the rail is refused with. -/
structure Grammar (State Error Call : Type) (Answer : Call → Type) where
  body : ∀ target, Prog State Error Call Answer (Answer target)
  limit : Nat
  tooDeep : State → Error

namespace Grammar

variable (grammar : Grammar State Error Call Answer)

/-- Answer one call with so many frames and unrailed calls to spare, `depth` railed calls deep. -/
def answer : (frames unrailed depth : Nat) → ∀ target, State → Outcome State Error (Answer target)
  | 0, _, _, _, _ => .error .exhausted
  | frames + 1, unrailed, depth, target, state =>
    exec
      (fun target state =>
        if grammar.limit ≤ depth then .error (.refused (grammar.tooDeep state))
        else answer frames unrailed (depth + 1) target state)
      (fun target state =>
        match unrailed with
        | 0 => .error .crowded
        | unrailed + 1 => answer frames unrailed depth target state)
      (grammar.body target) state

/-- Answer a railed call. -/
def railed (frames unrailed depth : Nat) (target : Call) (state : State) :
    Outcome State Error (Answer target) :=
  if grammar.limit ≤ depth then .error (.refused (grammar.tooDeep state))
  else grammar.answer frames unrailed (depth + 1) target state

/-- Answer an unrailed call. -/
def unrailed (frames : Nat) : (unrailed depth : Nat) → ∀ target, State →
    Outcome State Error (Answer target)
  | 0, _, _, _ => .error .crowded
  | unrailed + 1, depth, target, state => grammar.answer frames unrailed depth target state

/-- Run a program with so many frames and unrailed calls to spare, `depth` railed calls deep. -/
def run (frames unrailed depth : Nat) (program : Prog State Error Call Answer α) (state : State) :
    Outcome State Error α :=
  exec (grammar.railed frames unrailed depth) (grammar.unrailed frames unrailed depth) program state

theorem answer_succ (frames unrailed depth : Nat) (target : Call) (state : State) :
    grammar.answer (frames + 1) unrailed depth target state =
      grammar.run frames unrailed depth (grammar.body target) state := by
  cases unrailed with
  | zero => rfl
  | succ unrailed => rfl

/-! ## Frames -/

variable {frames unrailed : Nat} {program : Prog State Error Call Answer α}

/-- A run that is not out of frames is the same with more of them. -/
theorem run_frames {more depth : Nat} (le : frames ≤ more)
    (program : Prog State Error Call Answer α) (state : State)
    (ends : grammar.run frames unrailed depth program state ≠ .error .exhausted) :
    grammar.run more unrailed depth program state =
      grammar.run frames unrailed depth program state := by
  induction frames generalizing more unrailed depth α state with
  | zero =>
    refine exec_congr ?_ ?_ program state ends <;> intro target state answered
    · rw [railed] at answered ⊢
      split at answered
      · rw [railed, if_pos ‹_›, if_pos ‹_›]
      · exact absurd rfl answered
    · cases unrailed with
      | zero => rfl
      | succ unrailed => exact absurd rfl answered
  | succ frames induction =>
    obtain ⟨more, rfl⟩ : ∃ rest, more = rest + 1 := ⟨more - 1, by omega⟩
    refine exec_congr ?_ ?_ program state ends <;> intro target state answered
    · rw [railed] at answered ⊢
      rw [railed]
      split
      · rfl
      · rw [if_neg ‹_›, grammar.answer_succ] at answered
        rw [grammar.answer_succ, grammar.answer_succ]
        exact induction (by omega) _ state answered
    · cases unrailed with
      | zero => rfl
      | succ unrailed =>
        rw [Grammar.unrailed, grammar.answer_succ] at answered
        rw [Grammar.unrailed, Grammar.unrailed, grammar.answer_succ, grammar.answer_succ]
        exact induction (by omega) _ state answered

/-- A run that asks for no unrailed call too many is the same with more of them to spare. -/
theorem run_unrailed {more depth : Nat} (le : unrailed ≤ more)
    (program : Prog State Error Call Answer α) (state : State)
    (ends : grammar.run frames unrailed depth program state ≠ .error .crowded) :
    grammar.run frames more depth program state =
      grammar.run frames unrailed depth program state := by
  induction frames generalizing more unrailed depth α state with
  | zero =>
    refine exec_congr ?_ ?_ program state ends <;> intro target state answered
    · rfl
    · cases unrailed with
      | zero => exact absurd rfl answered
      | succ unrailed =>
        obtain ⟨more, rfl⟩ : ∃ rest, more = rest + 1 := ⟨more - 1, by omega⟩
        rfl
  | succ frames induction =>
    refine exec_congr ?_ ?_ program state ends <;> intro target state answered
    · rw [railed] at answered ⊢
      rw [railed]
      split
      · rfl
      · rw [if_neg ‹_›, grammar.answer_succ] at answered
        rw [grammar.answer_succ, grammar.answer_succ]
        exact induction le _ state answered
    · cases unrailed with
      | zero => exact absurd rfl answered
      | succ unrailed =>
        obtain ⟨more, rfl⟩ : ∃ rest, more = rest + 1 := ⟨more - 1, by omega⟩
        rw [Grammar.unrailed, grammar.answer_succ] at answered
        rw [Grammar.unrailed, Grammar.unrailed, grammar.answer_succ, grammar.answer_succ]
        exact induction (by omega) _ state answered

/-! ## Results of a descent -/

/-- A program ends so, given enough frames and unrailed calls. -/
def Ends (depth : Nat) (program : Prog State Error Call Answer α) (state : State)
    (outcome : Outcome State Error α) : Prop :=
  ∃ enough, ∀ frames ≥ enough, ∀ unrailed ≥ enough,
    grammar.run frames unrailed depth program state = outcome

variable {grammar} {depth : Nat} {state : State}

/-- A program that does not depend on its calls. -/
theorem Ends.of_exec {outcome : Outcome State Error α}
    (ends : ∀ railed unrailed, exec railed unrailed program state = outcome) :
    grammar.Ends depth program state outcome :=
  ⟨0, fun _ _ _ _ => ends _ _⟩

theorem Ends.bind {next : α → Prog State Error Call Answer β} {value : α} {after : State}
    {outcome : Outcome State Error β}
    (first : grammar.Ends depth program state (.ok (value, after)))
    (second : grammar.Ends depth (next value) after outcome) :
    grammar.Ends depth (program >>= next) state outcome := by
  obtain ⟨enough, first⟩ := first
  obtain ⟨more, second⟩ := second
  refine ⟨max enough more, fun frames le unrailed le' => ?_⟩
  rw [run, exec_bind]
  change (match grammar.run frames unrailed depth program state with
    | .ok (value, state) => _
    | .error halt => _) = _
  rw [first frames (by omega) unrailed (by omega)]
  exact second frames (by omega) unrailed (by omega)

theorem Ends.bind_error {next : α → Prog State Error Call Answer β} {halt : Halt Error}
    (first : grammar.Ends depth program state (.error halt)) :
    grammar.Ends depth (program >>= next) state (.error halt) := by
  obtain ⟨enough, first⟩ := first
  refine ⟨enough, fun frames le unrailed le' => ?_⟩
  rw [run, exec_bind]
  change (match grammar.run frames unrailed depth program state with
    | .ok (value, state) => _
    | .error halt => _) = _
  rw [first frames le unrailed le']

/-- A railed call above the limit ends as its production does one level further down. -/
theorem Ends.rail {target : Call} {outcome : Outcome State Error (Answer target)}
    (room : depth < grammar.limit)
    (ends : grammar.Ends (depth + 1) (grammar.body target) state outcome) :
    grammar.Ends depth (.rail target .pure) state outcome := by
  obtain ⟨enough, ends⟩ := ends
  refine ⟨enough + 1, fun frames le unrailed le' => ?_⟩
  obtain ⟨frames, rfl⟩ : ∃ rest, frames = rest + 1 := ⟨frames - 1, by omega⟩
  rw [run, exec, railed, if_neg (by omega), answer_succ, ends frames (by omega) unrailed (by omega)]
  rcases outcome with halt | ⟨value, after⟩ <;> rfl

/-- A railed call at the limit is refused. -/
theorem Ends.rail_refused {target : Call} (full : grammar.limit ≤ depth) :
    grammar.Ends depth (.rail target .pure) state (.error (.refused (grammar.tooDeep state))) := by
  refine ⟨0, fun frames _ unrailed _ => ?_⟩
  rw [run, exec, railed, if_pos full]

/-- A program ends in one way only. -/
theorem Ends.unique {outcome outcome' : Outcome State Error α}
    (ends : grammar.Ends depth program state outcome)
    (ends' : grammar.Ends depth program state outcome') : outcome = outcome' := by
  obtain ⟨enough, ends⟩ := ends
  obtain ⟨more, ends'⟩ := ends'
  rw [← ends (max enough more) (by omega) (max enough more) (by omega)]
  exact ends' (max enough more) (by omega) (max enough more) (by omega)

end Grammar

end Descent
