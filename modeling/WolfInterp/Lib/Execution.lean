import Mathlib.Data.List.Basic

/-!
# Runs of a partial machine

A machine is a partial step function. Its runs are the executions of finite lists of operations.
The rules below lift facts about one step to facts about every state of a run: an invariant under
a guard on the steps, an exact guard, and a relation that every two states of a run satisfy.
-/

namespace Execution

variable {State Op : Type*} (step : State → Op → Option State)

/-- The state after a list of operations, or `none` once the machine has refused one of them. -/
def exec : State → List Op → Option State
  | state, [] => some state
  | state, op :: ops => (step state op).bind fun next => exec next ops

@[simp]
theorem exec_nil (state : State) : exec step state [] = some state := rfl

@[simp]
theorem exec_cons (state : State) (op : Op) (ops : List Op) :
    exec step state (op :: ops) = (step state op).bind fun next => exec step next ops := rfl

theorem exec_append (state : State) (front rest : List Op) : exec step state (front ++ rest) =
      (exec step state front).bind fun next => exec step next rest := by
  induction front generalizing state with
  | nil => rfl
  | cons op front induction =>
    simp only [List.cons_append, exec_cons]
    cases step state op with
    | none => rfl
    | some next => exact induction next

/-- Every state a run passes through satisfies `inv`. -/
def Always (inv : State → Prop) (start : State) (ops : List Op) : Prop :=
  ∀ front rest state, ops = front ++ rest → exec step start front = some state → inv state

/-- Every operation a run performs satisfies `guard` in the state it is performed in. -/
def Guarded (guard : State → Op → Prop) (start : State) (ops : List Op) : Prop :=
  ∀ front op rest state next, ops = front ++ op :: rest → exec step start front = some state →
    step state op = some next → guard state op

/-- Every operation a run attempts satisfies `guard` in the state it is attempted in. -/
def Attempted (guard : State → Op → Prop) (start : State) (ops : List Op) : Prop :=
  ∀ front op rest state, ops = front ++ op :: rest → exec step start front = some state →
    guard state op

/-- Any two states of a run, in the order they are reached, satisfy `rel`. -/
def Evolves (rel : State → State → Prop) (start : State) (ops : List Op) : Prop :=
  ∀ front middle rest before after, ops = front ++ middle ++ rest →
    exec step start front = some before → exec step before middle = some after → rel before after

variable {step} {start : State} {ops : List Op} {op : Op}

theorem exec_snoc_eq_some {final : State} : exec step start (ops ++ [op]) = some final ↔
      ∃ state, exec step start ops = some state ∧ step state op = some final := by
  simp [exec_append, Option.bind_eq_some_iff]

/-- A guard on the whole run is a guard on each of its prefixes. -/
theorem Guarded.left {guard : State → Op → Prop} (guarded : Guarded step guard start ops)
    {front rest : List Op} (split : ops = front ++ rest) : Guarded step guard start front := by
  intro first op last state next firstSplit run performed
  exact guarded first op (last ++ rest) state next (by simp [split, firstSplit]) run performed

theorem Guarded.tail {guard : State → Op → Prop} {next : State}
    (guarded : Guarded step guard start (op :: ops)) (performed : step start op = some next) :
    Guarded step guard next ops := by
  intro front later rest state after split run laterPerformed
  refine guarded (op :: front) later rest state after (by simp [split]) ?_ laterPerformed
  simpa [performed] using run

theorem Attempted.guarded {guard : State → Op → Prop} (attempted : Attempted step guard start ops) :
    Guarded step guard start ops :=
  fun front op rest state _ split run _ => attempted front op rest state split run

theorem Attempted.tail {guard : State → Op → Prop} {next : State}
    (attempted : Attempted step guard start (op :: ops)) (performed : step start op = some next) :
    Attempted step guard next ops := by
  intro front later rest state split run
  refine attempted (op :: front) later rest state (by simp [split]) ?_
  simpa [performed] using run

theorem guarded_nil (guard : State → Op → Prop) (start : State) : Guarded step guard start [] := by
  intro front op rest state next split
  simp at split

theorem guarded_cons_iff {guard : State → Op → Prop} : Guarded step guard start (op :: ops) ↔
      ∀ next, step start op = some next → guard start op ∧ Guarded step guard next ops := by
  constructor
  · exact fun guarded next performed =>
      ⟨guarded [] op ops start next rfl rfl performed, guarded.tail performed⟩
  · intro both front later last state after split run laterPerformed
    cases front with
    | nil =>
      obtain ⟨rfl, rfl⟩ := List.cons.inj split
      obtain rfl : start = state := by simpa using run
      exact (both after laterPerformed).1
    | cons first front =>
      obtain ⟨rfl, rfl⟩ := List.cons.inj split
      obtain ⟨next, performed, rest⟩ := Option.bind_eq_some_iff.mp run
      exact (both next performed).2 front later last state after rfl rest laterPerformed

theorem attempted_nil (guard : State → Op → Prop) (start : State) :
    Attempted step guard start [] := by
  intro front op rest state split
  simp at split

theorem attempted_cons_iff {guard : State → Op → Prop} : Attempted step guard start (op :: ops) ↔
      guard start op ∧ ∀ next, step start op = some next → Attempted step guard next ops := by
  constructor
  · exact fun attempted =>
      ⟨attempted [] op ops start rfl rfl, fun next performed => attempted.tail performed⟩
  · rintro ⟨here, later⟩ front other last state split run
    cases front with
    | nil =>
      obtain ⟨rfl, rfl⟩ := List.cons.inj split
      obtain rfl : start = state := by simpa using run
      exact here
    | cons first front =>
      obtain ⟨rfl, rfl⟩ := List.cons.inj split
      obtain ⟨next, performed, rest⟩ := Option.bind_eq_some_iff.mp run
      exact later next performed front other last state rfl rest

section Decide

variable {guard : State → Op → Prop} [decided : ∀ state op, Decidable (guard state op)]

instance decidableGuarded : ∀ start ops, Decidable (Guarded step guard start ops)
  | start, [] => isTrue (guarded_nil guard start)
  | start, op :: ops =>
    match performed : step start op with
    | none => isTrue (guarded_cons_iff.mpr (by simp [performed]))
    | some next =>
      have := decidableGuarded next ops
      decidable_of_iff (guard start op ∧ Guarded step guard next ops)
        (by simp [guarded_cons_iff, performed])

instance decidableAttempted : ∀ start ops, Decidable (Attempted step guard start ops)
  | start, [] => isTrue (attempted_nil guard start)
  | start, op :: ops =>
    match performed : step start op with
    | none => decidable_of_iff (guard start op) (by simp [attempted_cons_iff, performed])
    | some next =>
      have := decidableAttempted next ops
      decidable_of_iff (guard start op ∧ Attempted step guard next ops)
        (by simp [attempted_cons_iff, performed])

end Decide

section

variable (inv : State → Prop) (guard : State → Op → Prop) (initial : inv start)
  (preserve : ∀ state op next, inv state → guard state op → step state op = some next → inv next)
  (guarded : Guarded step guard start ops)
include initial preserve guarded

/-- The final state of a guarded run satisfies every invariant the guarded steps preserve. -/
theorem inv_of_guarded {final : State} (run : exec step start ops = some final) :
    inv final := by
  induction ops generalizing start with
  | nil =>
    obtain rfl : start = final := by simpa using run
    exact initial
  | cons op ops induction =>
    obtain ⟨next, performed, rest⟩ := Option.bind_eq_some_iff.mp run
    have holds : guard start op := guarded [] op ops start next rfl rfl performed
    exact induction (preserve start op next initial holds performed) (guarded.tail performed) rest

/-- An invariant of the guarded steps holds in every state of a guarded run. -/
theorem always_of_guarded : Always step inv start ops :=
  fun _ _ _ split run => inv_of_guarded inv guard initial preserve (guarded.left split) run

end

/-- An invariant of every step holds in the final state of every run. -/
theorem inv_of_exec (inv : State → Prop) {final : State} (initial : inv start)
    (preserve : ∀ state op next, inv state → step state op = some next → inv next)
    (run : exec step start ops = some final) : inv final :=
  inv_of_guarded inv (fun _ _ => True) initial
    (fun state op next holds _ => preserve state op next holds)
    (fun _ _ _ _ _ _ _ _ => trivial) run

/-- When the guard is exactly what one step needs to keep the invariant, the runs that keep it
throughout are exactly the guarded ones. -/
theorem always_iff_guarded {inv : State → Prop} {guard : State → Op → Prop} (initial : inv start)
    (sharp : ∀ state op next, inv state → step state op = some next →
      (inv next ↔ guard state op)) : Always step inv start ops ↔ Guarded step guard start ops := by
  constructor
  · intro always front op rest state next split run performed
    have here : inv state := always front (op :: rest) state split run
    have there : inv next := by
      refine always (front ++ [op]) rest next (by simp [split]) ?_
      exact exec_snoc_eq_some.mpr ⟨state, run, performed⟩
    exact (sharp state op next here performed).mp there
  · exact always_of_guarded inv guard initial fun state op next holds guarded performed =>
      (sharp state op next holds performed).mpr guarded

/-- The same with an invariant of the guarded steps that is stronger than what the runs are to keep,
when a guard is needed wherever the step before it left the stronger invariant. -/
theorem always_iff_guarded_of {strong inv : State → Prop} {guard : State → Op → Prop}
    (initial : strong start) (weaken : ∀ state, strong state → inv state)
    (needed : ∀ state op next, strong state → step state op = some next → inv next →
      guard state op)
    (enough : ∀ state op next, strong state → step state op = some next → guard state op →
      strong next) : Always step inv start ops ↔ Guarded step guard start ops := by
  constructor
  · intro always
    induction ops generalizing start with
    | nil => exact guarded_nil guard start
    | cons op ops induction =>
      refine guarded_cons_iff.mpr fun next performed => ?_
      have there : inv next := always [op] ops next rfl (by simp [performed])
      have here : guard start op := needed start op next initial performed there
      refine ⟨here, induction (enough start op next initial performed here) ?_⟩
      intro front rest state split run
      exact always (op :: front) rest state (by rw [split, List.cons_append])
        (by rw [exec_cons, performed, Option.bind_some, run])
  · intro guarded front rest state split run
    exact weaken state (inv_of_guarded strong guard initial
      (fun state op next holds guarded performed => enough state op next holds performed guarded)
      (guarded.left split) run)

/-- A preorder relates all states of a run as soon as it relates the two ends of each step. -/
theorem evolves_iff_guarded {rel : State → State → Prop} [IsPreorder State rel]
    {guard : State → Op → Prop}
    (sharp : ∀ state op next, step state op = some next → (rel state next ↔ guard state op)) :
    Evolves step rel start ops ↔ Guarded step guard start ops := by
  constructor
  · intro evolves front op rest state next split run performed
    refine (sharp state op next performed).mp ?_
    exact evolves front [op] rest state next (by simp [split]) run (by simp [performed])
  · intro guarded front middle rest before after split run later
    have fromHere : Guarded step guard before middle := by
      intro first op last state next firstSplit firstRun performed
      refine guarded (front ++ first) op (last ++ rest) state next ?_ ?_ performed
      · simp [split, firstSplit]
      · simp [exec_append, run, firstRun]
    refine inv_of_guarded (rel before) guard (refl before) ?_ fromHere later
    intro state op next related holds performed
    exact Trans.trans related ((sharp state op next performed).mpr holds)

/-! ## Machines that answer -/

section Answers

variable {Answer View : Type*} (perform : State → Op → Option (Answer × State))

/-- The machine without its answers. -/
def silence (state : State) (op : Op) : Option State := (perform state op).map Prod.snd

/-- The answers to a list of operations, or `none` once the machine has refused one of them. -/
def transcript : State → List Op → Option (List Answer)
  | _, [] => some []
  | state, op :: ops => (perform state op).bind fun answered =>
    (transcript answered.2 ops).map (answered.1 :: ·)

variable {perform}

theorem transcript_cons_of_some {state next : State} {op : Op} {answer : Answer} (ops : List Op)
    (performed : perform state op = some (answer, next)) : transcript perform state (op :: ops) =
      (transcript perform next ops).map (answer :: ·) := by
  rw [transcript, performed, Option.bind_some]

theorem transcript_cons_of_none {state : State} {op : Op} (ops : List Op)
    (refused : perform state op = none) : transcript perform state (op :: ops) = none := by
  rw [transcript, refused, Option.bind_none]

/-- Dropping silent operations from a run changes nothing that `view` shows, when a relation holds
through every silent operation of the first run and every other operation of both. -/
theorem transcript_filter (related : State → State → Prop) (guard : State → Op → Prop)
    (silent : Op → Bool) (view : Answer → Option View)
    (quiet : ∀ state other op, related state other → guard state op → silent op = true →
      ∃ answer next, perform state op = some (answer, next) ∧ view answer = none ∧
        related next other)
    (lockstep : ∀ state other op, related state other → guard state op → silent op = false →
      (perform state op = none ∧ perform other op = none) ∨
        ∃ answer next otherAnswer otherNext, perform state op = some (answer, next) ∧
          perform other op = some (otherAnswer, otherNext) ∧ view answer = view otherAnswer ∧
          related next otherNext) {state other : State} {ops : List Op}
    (start : related state other) (guarded : Attempted (silence perform) guard state ops) :
    (transcript perform state ops).map (List.filterMap view) =
      (transcript perform other (ops.filter fun op => !silent op)).map (List.filterMap view) := by
  induction ops generalizing state other with
  | nil => rfl
  | cons op ops induction =>
    have holds : guard state op := guarded [] op ops state rfl rfl
    cases muted : silent op with
    | true =>
      obtain ⟨answer, next, performed, hidden, later⟩ := quiet state other op start holds muted
      have rest := induction later (guarded.tail (by rw [silence, performed]; rfl))
      rw [transcript_cons_of_some ops performed, Option.map_map]
      rw [List.filter_cons_of_neg (by simp [muted]), ← rest]
      refine congrArg (Option.map · (transcript perform next ops)) ?_
      funext answers
      simp [hidden]
    | false =>
      rw [List.filter_cons_of_pos (by simp [muted])]
      obtain ⟨refused, otherRefused⟩ | ⟨answer, next, otherAnswer, otherNext, performed,
        otherPerformed, shown, later⟩ := lockstep state other op start holds muted
      · rw [transcript_cons_of_none ops refused, transcript_cons_of_none _ otherRefused]
      · have rest := induction later (guarded.tail (by rw [silence, performed]; rfl))
        rw [transcript_cons_of_some ops performed, transcript_cons_of_some _ otherPerformed]
        cases first : transcript perform next ops with
        | none =>
          rw [first, Option.map_none, eq_comm, Option.map_eq_none_iff] at rest
          rw [rest, Option.map_none]
          rfl
        | some answers =>
          rw [first, Option.map_some, eq_comm, Option.map_eq_some_iff] at rest
          obtain ⟨otherAnswers, second, same⟩ := rest
          rw [second]
          simp [List.filterMap_cons, shown, same]

end Answers

end Execution
