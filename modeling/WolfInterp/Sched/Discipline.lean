import WolfInterp.Sched.Sessions

/-!
# The baton discipline

In every run at most one task runs, the ready queue lists the ready tasks and nobody else, whoever
is ready has a wake and whoever is blocked has none and is listed where its wake will come from, and
the search for the next task gives up only when nothing is left to wait for. The one task that is
listed nowhere is blocked in a `select` without an arm and without a timeout.
-/

namespace WolfInterp.Sched

open Execution Board

variable {Data : Type}

namespace State

/-- The wake that a task has been given and has not taken yet. -/
def wakeOf (state : State Data) (task : TaskId) : Option (Wake Data) :=
  (state.tasks[task]?).bind Tcb.wake

theorem wakeOf_of_alive {state : State Data} {task : TaskId}
    (alive : state.stateOf task ≠ .done) : state.wakeOf task = state.board.wake task := by
  obtain ⟨tcb, found⟩ := state.found_of_alive alive
  rw [wakeOf, found, Option.bind_some, state.wake_of_found found]
  rw [← state.doing_of_found found]
  exact alive

/-! ## The searches of a turn -/

/-- The searches for the next task when nobody runs: one, and another one once a deadlock has been
declared. -/
def searches (state : State Data) : List (State Data) :=
  match state.chooseNext with
  | (some _, _) => [state]
  | (none, after) => [state, after.declareDeadlock]

/-- The states in which a turn searches for the next task. A task that has ended hands the baton on
without a second search when nobody is blocked. -/
def turnSearches : Turn Data → List (State Data)
  | .keeps .. => []
  | .parks me state => (state.lieDown me).searches
  | .hands state => if state.chooseNext.2.blocked.isEmpty then [state] else state.searches

/-- A search has nothing left: nobody is ready, no timer is pending and nobody sleeps. -/
def Exhausted (state : State Data) : Prop :=
  (∀ task, state.stateOf task ≠ .ready) ∧ state.timers = [] ∧ state.realSleeps = []

section Searches

variable {state : State Data} {calls : Calls Data}

/-- Nobody runs, and whoever is ready is queued with its wake. -/
structure Calm (calls : Calls Data) (state : State Data) : Prop where
  stands : Stands calls state
  idle : state.Idle
  awake : ∀ task, state.Awake task

section

variable (calm : Calm calls state)
include calm

theorem Calm.chooseNext (missing : state.chooseNext.1 = none) :
    Calm calls state.chooseNext.2 := by
  have chosen := calm.stands.chooseNext calm.idle
  rw [missing] at chosen
  cases chosen with
  | nothing tracks =>
    exact ⟨tracks.stands, tracks.idle calm.idle, fun task => tracks.awake task (calm.awake task)⟩

theorem Calm.declareDeadlock : Calm calls state.declareDeadlock := by
  have declared := calm.stands.declareDeadlock
  exact ⟨declared.stands, declared.idle calm.idle, fun task =>
    declared.awake task (calm.awake task)⟩

theorem Calm.exhausted (missing : state.chooseNext.1 = none) :
    state.chooseNext.2.Exhausted := by
  obtain ⟨ready, timers, sleeps⟩ := chooseNext_exhausted missing
  refine ⟨fun task waits => ?_, timers, sleeps⟩
  have queued := ((calm.chooseNext missing).awake task waits).1
  rw [ready] at queued
  cases queued

theorem Calm.searches :
    ∀ search ∈ state.searches, search.chooseNext.1 = none → search.chooseNext.2.Exhausted := by
  intro search member missing
  cases choice : state.chooseNext with
  | mk found after =>
    cases found with
    | some _ =>
      simp only [State.searches, choice, List.mem_singleton] at member
      obtain rfl := member
      exact calm.exhausted missing
    | none =>
      simp only [State.searches, choice, List.mem_cons, List.not_mem_nil, or_false] at member
      rcases member with rfl | rfl
      · exact calm.exhausted missing
      · have later := calm.chooseNext (by rw [choice])
        rw [choice] at later
        exact later.declareDeadlock.exhausted missing

end

theorem Sane.lieDown {dealt : TaskId → List (Traffic Data)} {me : TaskId}
    (sane : Sane calls dealt state) (runs : state.stateOf me = .running)
    (inside : calls me ≠ none) :
    Calm calls (state.lieDown me) := by
  have lain := sane.stands.lieDown runs inside
  have idle := sane.stands.idle_lieDown runs inside fun task running =>
    sane.solo task me running runs
  exact ⟨lain.stands, idle, fun task => lain.awake task (sane.awake task)⟩

end Searches

end State

/-! ## The discipline -/

/-- The baton discipline in one state. -/
structure Disciplined (world : World Data) : Prop where
  solo : ∀ task other, world.sched.stateOf task = .running →
    world.sched.stateOf other = .running → task = other
  once : world.sched.ready.Nodup
  queued : ∀ task, task ∈ world.sched.ready ↔ world.sched.stateOf task = .ready
  woken : ∀ task, world.sched.stateOf task = .ready → world.sched.wakeOf task ≠ none
  asleep : ∀ task, world.sched.stateOf task = .blocked → world.sched.wakeOf task = none
  listed : ∀ task, world.sched.stateOf task = .blocked →
    (∃ post, task ∈ world.sched.queue post) ∨ world.sched.Joined task ∨
      world.calls task = some (.select task [] none)
  gone : ∀ task, world.sched.stateOf task = .done →
    task ∉ world.sched.ready ∧ ∀ post, task ∉ world.sched.queue post
  searching : ∀ op turn, World.keepsTo world.sched op = true → world.sched.door op = some turn →
    ∀ search ∈ State.turnSearches turn, search.chooseNext.1 = none →
      search.chooseNext.2.Exhausted

namespace World

variable {world : World Data}

/-- A search in a turn gives up only when nothing is left. -/
theorem Sound.searching (sound : world.Sound) {op : Op Data} {turn : Turn Data}
    (keeps : keepsTo world.sched op = true) (admitted : world.sched.admits op = true)
    (entered : world.sched.enter op = some turn) :
    ∀ search ∈ State.turnSearches turn, search.chooseNext.1 = none →
      search.chooseNext.2.Exhausted := by
  intro search member missing
  cases turn with
  | keeps answer state => cases member
  | parks me middle =>
    obtain ⟨_, running, sane⟩ := sound.parks keeps admitted entered
    have inside : Function.update world.calls me (some op) me ≠ none := by
      rw [Function.update_self]
      simp
    exact (sane.lieDown running inside).searches search member missing
  | hands state =>
    cases sound.enters keeps admitted entered with
    | handed door _ =>
      obtain rfl := door
      have calm : State.Calm world.calls world.sched :=
        ⟨sound.sane.stands, idle_of_admits admitted, sound.sane.awake⟩
      rw [State.turnSearches] at member
      split at member
      · obtain rfl := List.mem_singleton.mp member
        exact calm.exhausted missing
      · exact calm.searches search member missing

theorem Sound.disciplined (sound : world.Sound) : Disciplined world := by
  have sane := sound.sane
  have placed := sane.stands.placed
  have alive : ∀ {task doing}, world.sched.stateOf task = doing → doing ≠ .done →
      world.sched.wakeOf task = world.sched.board.wake task := by
    rintro task doing rfl living
    exact State.wakeOf_of_alive living
  refine { solo := sane.solo, once := placed.ready, queued := fun task => ⟨placed.queued task, ?_⟩
           woken := ?_, asleep := ?_, listed := ?_, gone := ?_, searching := ?_ }
  · exact fun ready => (sane.awake task ready).1
  · intro task ready
    rw [alive ready (by simp)]
    exact (sane.awake task ready).2
  · intro task blocked
    rw [alive blocked (by simp)]
    exact placed.asleep task blocked
  · intro task blocked
    obtain ⟨op, called⟩ := Option.ne_none_iff_exists'.mp (sane.inside task blocked)
    rcases sane.listed task op called ⟨.inl blocked, placed.asleep task blocked⟩ with
      there | joined | bare
    · exact .inl there
    · exact .inr (.inl joined)
    · rw [bare] at called
      exact .inr (.inr called)
  · intro task beyond
    have beyond : world.sched.board.doing task = .done := beyond
    refine ⟨placed.not_mem_ready ?_, placed.free_of_not_unwoken fun waits => ?_⟩
    · rw [beyond]
      simp
    · rcases waits.1 with same | same <;> cases beyond.symm.trans same
  · intro op turn keeps opened search member missing
    unfold State.door at opened
    split at opened
    · rename_i admitted
      exact sound.searching keeps admitted opened search member missing
    · cases opened

end World

/-- The baton discipline holds in every state of every run whose callers keep to their contract. -/
theorem baton_discipline (chooser : Chooser) (ops : List (Op Data)) :
    Always World.step Disciplined (World.initial chooser) ops := by
  intro front rest world _ run
  exact (World.sound_run chooser front run).disciplined

/-- The discipline rests on what callers keep to: the root that is answered by the end of its child
is still a receiver when it ends itself. -/
theorem undisciplined_after_cutShort : ¬ ∀ chooser (ops : List (Op Unit)),
    Always (silence World.unbound) Disciplined (World.initial chooser) ops := by
  intro claim
  let ops := cutShort ++ [.dispatchNext, .endTask 0 (.value .unit)]
  obtain ⟨world, run⟩ : ∃ world, exec (silence World.unbound) (World.initial (.seeded 0 0)) ops =
      some world := ⟨_, rfl⟩
  have disciplined := claim (.seeded 0 0) ops ops [] world (List.append_nil ops) run
  cases run
  exact (disciplined.gone 0 rfl).2 (.receiver 0) (List.mem_singleton_self 0)

/-- In every state of every run whose callers keep to their contract a task listed in a queue is
blocked without a wake inside a door that stands there. It is listed once, and nowhere else unless
it waits in a `select`. -/
theorem waits_in_place (chooser : Chooser) (ops : List (Op Data)) :
    Always World.step (fun world => ∀ post, ∀ task ∈ world.sched.queue post,
      world.sched.stateOf task = .blocked ∧ world.sched.wakeOf task = none ∧
        (∃ op ∈ world.calls task, op.StandsAt post) ∧
        (post.alone = true → (world.sched.queue post).count task = 1 ∧
          ∀ other, task ∈ world.sched.queue other → other = post)) (World.initial chooser) ops := by
  intro front rest world _ run post task member
  have sound := World.sound_run chooser front run
  have placed := sound.sane.stands.placed
  obtain ⟨⟨waits, asleep⟩, op, inside, stands⟩ := placed.posted post task member
  have blocked : world.sched.stateOf task = .blocked := by
    rcases waits with blocked | runs
    · exact blocked
    · rw [sound.outside task runs] at inside
      cases inside
  refine ⟨blocked, ?_, ⟨op, inside, stands⟩, fun alone => ⟨?_, fun other there => ?_⟩⟩
  · rw [State.wakeOf_of_alive (by simp [blocked])]
    exact asleep
  · exact List.count_eq_one_of_mem (placed.single post alone) member
  · obtain ⟨-, op', inside', stands'⟩ := placed.posted other task there
    obtain rfl := Option.mem_unique inside inside'
    exact stands.unique alone stands'

/-- A task that blocks in a `select` without an arm and without a timeout is listed nowhere. -/
theorem bare_select_unlisted : ∃ world : World Unit, exec World.step (World.initial (.seeded 0 0))
        [.spawnTask 0 none "worker", .select 0 [] none] = some world ∧
      world.sched.stateOf 0 = .blocked ∧ (∀ post, 0 ∉ world.sched.queue post) ∧
        ¬ world.sched.Joined 0 := by
  refine ⟨_, rfl, rfl, fun post => ?_, ?_⟩
  · cases post <;> exact List.not_mem_nil
  · rintro ⟨scope, entry, found, _⟩
    cases found

end WolfInterp.Sched
