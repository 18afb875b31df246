import WolfInterp.Sched.Turns

/-!
# The scheduler with the doors its tasks are inside of

Beside the scheduler runs an account of the door that each task is inside of and of what it has
sent since it entered its last door. The account decides nothing, but a task calls the doors as the
evaluator does: only its owner joins a scope, and an owner whose join was cut short enters nothing
that parks but another join.
-/

namespace WolfInterp.Sched

open Execution Board

variable {Data : Type}

namespace State

section Joins

variable {state next : State Data} {turn : Turn Data}

theorem SameJoins.joined (same : SameJoins state next) (task : TaskId) :
    next.Joined task ↔ state.Joined task := by
  constructor
  · rintro ⟨scope, entry, found, owner, joining⟩
    obtain ⟨before, there, same_owner, same_joining⟩ := same.found found
    exact ⟨scope, before, there, same_owner.trans owner, same_joining.trans joining⟩
  · rintro ⟨scope, entry, found, owner, joining⟩
    have both := same scope
    rw [found] at both
    obtain ⟨after, there, shown⟩ := Option.map_eq_some_iff.mp both
    obtain ⟨same_owner, same_joining⟩ := Prod.mk.inj shown
    exact ⟨scope, after, there, same_owner.trans owner, same_joining.trans joining⟩

theorem Still.joined (still : Still state next) (task : TaskId) :
    next.Joined task ↔ state.Joined task :=
  (SameJoins.of_scopes still.scopes).joined task

theorem scopes_deliverExit (state : State Data) (proc : ProcId) (reason : ExitReason Data) :
    (state.deliverExit proc reason).2.scopes = state.scopes :=
  have ⟨_, recorded, _⟩ := deliverExit_spec state proc reason
  recorded.scopes

theorem joined_modifyScope {scope : ScopeId} {entry : ScopeState Data} {task : TaskId}
    (found : state.scopes[scope]? = some entry) (foreign : entry.owner ≠ task) (joining : Bool) :
    (state.modifyScope scope fun entry => { entry with joining }).Joined task ↔
      state.Joined task := by
  constructor
  · rintro ⟨other, after, there, mine, joined⟩
    rw [modifyScope, List.getElem?_modify] at there
    by_cases here : scope = other
    · subst here
      rw [found] at there
      simp only [if_true] at there
      cases there
      exact absurd mine foreign
    · simp only [here, if_false] at there
      exact ⟨other, after, by simpa using there, mine, joined⟩
  · rintro ⟨other, before, there, mine, joined⟩
    have differs : scope ≠ other := by
      rintro rfl
      obtain rfl := Option.eq_some_unique found there
      exact foreign mine
    refine ⟨other, before, ?_, mine, joined⟩
    rw [modifyScope, List.getElem?_modify]
    simp [differs, there]

/-- Only a join changes whether a scope is being joined, and only for its owner. -/
theorem joined_enter {op : Op Data}
    (owns : ∀ me scope, op = .joinScope me scope → ∀ entry, state.scopes[scope]? = some entry →
      entry.owner = me) (entered : state.enter op = some turn) (task : TaskId)
    (elsewhere : ∀ scope, op ≠ .joinScope task scope) :
    turn.state.Joined task ↔ state.Joined task := by
  by_cases steady : op.steady = true
  · exact (quiet_enter steady entered).joined task
  cases entered_of_enter entered with
  | newChan | spawnProc | link => rfl
  | @openScope owner =>
    change (∃ (scope : ScopeId) (entry : ScopeState Data),
      (state.scopes ++ [({ owner } : ScopeState Data)])[scope]? = some entry ∧
        entry.owner = task ∧ entry.joining = true) ↔ _
    constructor
    · rintro ⟨scope, entry, found, mine, joining⟩
      rw [Worklist.getElem?_snoc] at found
      split at found
      · cases found
        cases joining
      · exact ⟨scope, entry, found, mine, joining⟩
    · rintro ⟨scope, entry, found, mine, joining⟩
      refine ⟨scope, entry, ?_, mine, joining⟩
      rw [Worklist.getElem?_snoc, if_neg (Nat.ne_of_lt (List.getElem?_eq_some_iff.mp found).1)]
      exact found
  | @spawnTask parent scope =>
    refine SameJoins.joined ?_ task
    cases scope with
    | none => exact .of_scopes rfl
    | some scope =>
      exact SameJoins.modifyScope scope (fun entry =>
        { entry with children := entry.children ++ [state.tasks.length] })
        fun _ => ⟨rfl, rfl⟩
  | @joinScope me scope _ joined =>
    have differs : me ≠ task := by
      rintro rfl
      exact elsewhere scope rfl
    obtain ⟨entry, there, turned⟩ := joinScope_cases joined
    have mine := owns me scope rfl entry there
    have set : ∀ joining, (state.modifyScope scope fun entry =>
        { entry with joining }).Joined task ↔ state.Joined task :=
      joined_modifyScope there (by rw [mine]; exact differs)
    obtain ⟨_, rfl⟩ | rfl := turned
    · exact ((still_joinEdges ..).joined task).trans (set false)
    · exact set true
  | monitor monitored => exact (SameJoins.of_scopes (monitor_leaves monitored).1).joined task
  | @kill proc =>
    obtain ⟨exits, recorded, _⟩ := killProc_spec state proc
    exact (SameJoins.of_scopes recorded.scopes).joined task
  | @endTask me ended _ _ finished =>
    obtain ⟨tcb, _, answered⟩ := Option.map_eq_some_iff.mp finished
    have recorded : SameJoins state ((state.op me (.taskCtl me) false).recordEnd me tcb.scope
        (TaskEnd.settled ended tcb.cancelled tcb.killed)) :=
      sameJoins_recordEnd (state.op me (.taskCtl me) false) me tcb.scope _
    refine SameJoins.joined ?_ task
    dsimp only at answered
    split at answered
    · refine recorded.trans (.of_scopes ?_)
      have same := scopes_deliverExit ((state.op me (.taskCtl me) false).recordEnd me tcb.scope
        (TaskEnd.settled ended tcb.cancelled tcb.killed)) tcb.proc
        (TaskEnd.reason (TaskEnd.settled ended tcb.cancelled tcb.killed))
      rw [answered] at same
      exact same
    · obtain ⟨_, rfl⟩ := Prod.mk.inj answered
      exact recorded
  | deliverPending =>
    exact (SameJoins.of_scopes (quiet_publishPending state).scopes).joined task
  | _ => exact absurd rfl steady

end Joins

end State

/-! ## The sessions -/

/-- The scheduler with the doors its tasks are inside of, and what each task has dealt since it
entered its last door. -/
structure World (Data : Type) where
  sched : State Data
  calls : Calls Data := fun _ => none
  dealt : TaskId → List (Traffic Data) := fun _ => []

namespace World

def initial (chooser : Chooser) : World Data := { sched := Sched.initial chooser }

/-- What a task is to keep to: it joins scopes of its own, and once a join of its own was cut short
by a kill or a deadlock it waits in nothing but joins. A program's task unwinds then, without
running any more of its code. The root of a REPL session does not: it is given its next input. -/
def keepsTo (state : State Data) : Op Data → Bool
  | .joinScope me scope => (state.scopes[scope]?).all fun entry => entry.owner = me
  | .send me .. | .recv me _ | .select me .. | .acquire me _ | .netYield me | .sleepPark me _ =>
    !state.scopes.any fun entry => entry.owner = me ∧ entry.joining
  | _ => true

/-- The doors the tasks are inside of once a door has left the baton. -/
def enters (calls : Calls Data) (op : Op Data) : Turn Data → Calls Data
  | .parks me _ => Function.update calls me (some op)
  | .keeps .. | .hands _ => calls

/-- Whoever resumes leaves its door. -/
def leaves (calls : Calls Data) : Answer Data → Calls Data
  | .resumed task _ => Function.update calls task none
  | _ => calls

/-- What each task has dealt since it entered its last door. -/
def tally (world : World Data) (op : Op Data) (task : TaskId) : List (Traffic Data) :=
  (if op.caller = some task then [] else world.dealt task) ++ dealtBy task (world.sched.traffic op)

/-- A turn of the scheduler beside the account of it. -/
def settle (world : World Data) (op : Op Data) (turn : Turn Data) : Answer Data × World Data :=
  let (answer, sched) := State.settleTurn turn
  (answer, { sched, calls := leaves (enters world.calls op turn) answer, dealt := world.tally op })

/-- A door, whatever its caller keeps to. -/
def unbound (world : World Data) (op : Op Data) : Option (Answer Data × World Data) :=
  (world.sched.door op).map (world.settle op)

def perform (world : World Data) (op : Op Data) : Option (Answer Data × World Data) :=
  if keepsTo world.sched op then world.unbound op else none

def step : World Data → Op Data → Option (World Data) := silence perform

end World

/-- The root of a REPL session receives after its join has ended in a deadlock, and the child that
it joined ends. -/
def cutShort : List (Op Unit) :=
  [.newChan 0, .openScope 0, .spawnTask 0 (some 0) "child", .joinScope 0 0, .recv 1 0, .recv 0 0,
    .endTask 1 (.trapped .deadlock)]

namespace State

/-- Tasks wait where they can be found, whoever runs waits for nothing, and the wake of a task
inside a door tells what it has dealt. -/
structure Sane (calls : Calls Data) (dealt : TaskId → List (Traffic Data)) (state : State Data) :
    Prop where
  stands : Stands calls state
  solo : ∀ task other, state.stateOf task = .running → state.stateOf other = .running →
    task = other
  rests : ∀ task, state.stateOf task = .running → calls task = none → state.board.wake task = none
  awake : ∀ task, state.Awake task
  alive : ∀ task, calls task ≠ none → state.stateOf task ≠ .done
  inside : ∀ task, state.stateOf task = .blocked → calls task ≠ none
  listed : ∀ task, ∀ op ∈ calls task, state.board.Unwoken task → state.Listed task op
  joins : ∀ task, ∀ op ∈ calls task, state.board.Unwoken task → state.Joined task →
    ∃ scope, op = .joinScope task scope
  paid : ∀ task op, calls task = some op → Paid task op (state.board.wake task) (dealt task)

section Sanity

variable {state next : State Data} {calls : Calls Data} {dealt : TaskId → List (Traffic Data)}
  {log : List (Traffic Data)} {me : TaskId}

section

variable (sane : Sane calls dealt state)
include sane

theorem Sane.joinsOnly : JoinsOnly calls state := by
  intro scope entry found joining blocked
  have inside := sane.inside _ blocked
  obtain ⟨op, called⟩ := Option.ne_none_iff_exists'.mp inside
  have unwoken : state.board.Unwoken entry.owner :=
    ⟨.inl blocked, sane.stands.placed.asleep _ blocked⟩
  obtain ⟨other, rfl⟩ := sane.joins _ op called unwoken ⟨scope, entry, found, rfl, joining⟩
  exact ⟨other, called⟩

/-- What follows a sane state is sane, when nobody that waits starts or ends a join. -/
theorem Sane.follows (follows : Follows calls nobody log state next)
    (joined : ∀ task, state.board.Unwoken task → calls task ≠ none →
      (next.Joined task ↔ state.Joined task)) :
    Sane calls (fun task => dealt task ++ dealtBy task log) next where
  stands := follows.stands
  solo task other runs runs' :=
    sane.solo task other (follows.runs task runs).1 (follows.runs other runs').1
  rests task runs outside := by
    obtain ⟨before, same⟩ := follows.runs task runs
    exact (same outside).trans (sane.rests task before outside)
  awake task := follows.awake task (sane.awake task)
  alive task inside := follows.alive task inside (sane.alive task inside)
  inside task blocked := by
    rcases follows.blocks task blocked with before | ⟨_, inside⟩
    · exact sane.inside task before
    · exact inside
  listed task op called waits := by
    have before := follows.asleep task waits
    have inside : calls task ≠ none := by
      rw [Option.mem_def.mp called]
      simp
    rcases sane.listed task op called before with ⟨post, there⟩ | joining | bare
    · exact .inl ⟨post, follows.kept task post id waits there⟩
    · exact .inr (.inl ((joined task before inside).mpr joining))
    · exact .inr (.inr bare)
  joins task op called waits joining := by
    have before := follows.asleep task waits
    have inside : calls task ≠ none := by
      rw [Option.mem_def.mp called]
      simp
    exact sane.joins task op called before ((joined task before inside).mp joining)
  paid task op called :=
    follows.pays task op called (sane.alive task (by simp [called])) _ (sane.paid task op called)

/-- A running task has entered a door that it may wait in. -/
theorem Sane.enter (outside : ∀ task, state.stateOf task = .running → calls task = none)
    (runs : state.stateOf me = .running) {op : Op Data} (caller : op.caller = some me)
    (tracks : Tracks (Function.update calls me (some op)) nobody log state next)
    (joined : ∀ task, task ≠ me → (next.Joined task ↔ state.Joined task))
    (listed : next.board.wake me = none → next.Listed me op)
    (joins : next.board.wake me = none → next.Joined me → ∃ scope, op = .joinScope me scope) :
    Sane (Function.update calls me (some op))
      (fun task =>
        (if op.caller = some task then [] else dealt task) ++ dealtBy task log) next := by
  have unwoken : state.board.wake me = none := sane.rests me runs (outside me runs)
  have others : ∀ {task}, task ≠ me → Function.update calls me (some op) task = calls task :=
    fun differs => Function.update_of_ne differs ..
  have inside : Function.update calls me (some op) me ≠ none := by
    rw [Function.update_self]
    simp
  have entered : ∀ task, Function.update calls me (some op) task ≠ none →
      state.stateOf task ≠ .done := by
    intro task called
    rcases eq_or_ne task me with rfl | differs
    · rw [runs]
      simp
    · rw [others differs] at called
      exact sane.alive task called
  refine { stands := tracks.stands, solo := ?_, rests := ?_, awake := ?_, alive := ?_, inside := ?_
           listed := ?_, joins := ?_, paid := ?_ }
  · exact fun task other runs runs' =>
      sane.solo task other (tracks.runs task runs).1 (tracks.runs other runs').1
  · intro task running out
    obtain ⟨before, same⟩ := tracks.runs task running
    have differs : task ≠ me := by
      rintro rfl
      exact inside out
    rw [others differs] at out
    exact (same ((others differs).trans out)).trans (sane.rests task before out)
  · exact fun task => tracks.awake task (sane.awake task)
  · exact fun task called => tracks.alive task called (entered task called)
  · intro task blocked
    rcases eq_or_ne task me with rfl | differs
    · exact inside
    · rw [others differs]
      rcases tracks.blocks task blocked with before | ⟨_, called⟩
      · exact sane.inside task before
      · rw [others differs] at called
        exact called
  · intro task other called waits
    rcases eq_or_ne task me with rfl | differs
    · rw [Function.update_self] at called
      cases called
      exact listed waits.2
    · rw [others differs] at called
      rcases sane.listed task other called (tracks.asleep task waits) with
        ⟨post, there⟩ | here | bare
      · exact .inl ⟨post, tracks.kept task post id waits there⟩
      · exact .inr (.inl ((joined task differs).mpr here))
      · exact .inr (.inr bare)
  · intro task other called waits here
    rcases eq_or_ne task me with rfl | differs
    · rw [Function.update_self] at called
      cases called
      exact joins waits.2 here
    · rw [others differs] at called
      exact sane.joins task other called (tracks.asleep task waits) ((joined task differs).mp here)
  · intro task other called
    refine tracks.pays task other called (entered task (by simp [called])) _ ?_
    rcases eq_or_ne task me with rfl | differs
    · rw [if_pos caller, unwoken]
      exact .unwoken
    · have foreign : op.caller ≠ some task := by
        rw [caller]
        exact fun same => differs (Option.some.inj same).symm
      rw [others differs] at called
      rw [if_neg foreign]
      exact sane.paid task other called

/-- A woken task runs on and leaves its door; nobody else runs. -/
theorem Sane.resume (woken : state.board.wake me ≠ none)
    (alone : ∀ task, state.stateOf task = .running → task = me)
    (board : next.board = { state.board.set me .running none with ready := next.ready })
    (nodup : next.ready.Nodup) (absent : me ∉ next.ready)
    (left : ∀ other, other ≠ me → (other ∈ next.ready ↔ other ∈ state.ready))
    (chans : next.chans = state.chans) (scopes : next.scopes = state.scopes) :
    Sane (Function.update calls me none) dealt next := by
  have queue : next.queue = state.queue := congrArg Board.queue board
  have doing : ∀ {task}, task ≠ me → next.stateOf task = state.stateOf task := by
    intro task differs
    have shown : next.stateOf = (state.board.set me .running none).doing :=
      congrArg Board.doing board
    rw [shown]
    exact Board.set_doing_of_ne differs .running none
  have wake : ∀ {task}, task ≠ me → next.board.wake task = state.board.wake task := by
    intro task differs
    rw [board]
    exact Board.set_wake_of_ne differs .running none
  have running : next.stateOf me = .running := by
    have shown : next.stateOf = (state.board.set me .running none).doing :=
      congrArg Board.doing board
    rw [shown]
    exact Board.set_doing_self .running none
  have unwoken : next.board.wake me = none := by
    rw [board]
    exact Board.set_wake_self .running none
  have others : ∀ {task}, task ≠ me → Function.update calls me none task = calls task :=
    fun differs => Function.update_of_ne differs ..
  have free : ∀ post, me ∉ state.queue post :=
    sane.stands.placed.free_of_not_unwoken fun waits => woken waits.2
  have foreign : ∀ {task : TaskId} {op : Op Data}, op ∈ Function.update calls me none task →
      task ≠ me := by
    rintro task op called rfl
    rw [Function.update_self] at called
    cases called
  have joined : ∀ task, next.Joined task ↔ state.Joined task := fun task => by
    rw [State.Joined, State.Joined, scopes]
  have waiting : ∀ {task}, task ≠ me → next.board.Unwoken task → state.board.Unwoken task := by
    intro task differs waits
    refine ⟨?_, (wake differs).symm.trans waits.2⟩
    have before : next.stateOf task = .blocked ∨ next.stateOf task = .running := waits.1
    rw [doing differs] at before
    exact before
  refine { stands := ⟨⟨?_, ?_, nodup, ?_, ?_⟩, ?_⟩, solo := ?_, rests := ?_, awake := ?_, alive :=
    ?_
           inside := ?_, listed := ?_, joins := ?_, paid := ?_ }
  · intro post task member
    change task ∈ next.queue post at member
    rw [queue] at member
    have differs : task ≠ me := by
      rintro rfl
      exact free post member
    obtain ⟨⟨waits, given⟩, op, called, here⟩ := sane.stands.placed.posted post task member
    refine ⟨⟨?_, (wake differs).trans given⟩, op, ?_, here⟩
    · change next.stateOf task = .blocked ∨ next.stateOf task = .running
      rw [doing differs]
      exact waits
    · rw [others differs]
      exact called
  · intro post alone
    change (next.queue post).Nodup
    rw [queue]
    exact sane.stands.placed.single post alone
  · intro task member
    change next.stateOf task = .ready
    have differs : task ≠ me := by
      rintro rfl
      exact absent member
    rw [doing differs]
    exact sane.stands.placed.queued task ((left task differs).mp member)
  · intro task blocked
    change next.stateOf task = .blocked at blocked
    have differs : task ≠ me := by
      rintro rfl
      cases running.symm.trans blocked
    rw [doing differs] at blocked
    rw [wake differs]
    exact sane.stands.placed.asleep task blocked
  · intro chan pair member
    rw [sendersOf_of_chans chans] at member
    have differs : pair.1 ≠ me := by
      intro same
      exact free (.sender chan) (same ▸ List.mem_map_of_mem member)
    rw [messageOf, others differs]
    exact sane.stands.voiced chan pair member
  · have only : ∀ task, next.stateOf task = .running → task = me := by
      intro task runs
      by_contra differs
      rw [doing differs] at runs
      exact differs (alone task runs)
    exact fun task other runs runs' => (only task runs).trans (only other runs').symm
  · intro task runs _
    rcases eq_or_ne task me with rfl | differs
    · exact unwoken
    · rw [doing differs] at runs
      exact absurd (alone task runs) differs
  · intro task ready
    have differs : task ≠ me := by
      rintro rfl
      cases running.symm.trans ready
    rw [doing differs] at ready
    rw [wake differs]
    exact ⟨(left task differs).mpr (sane.awake task ready).1, (sane.awake task ready).2⟩
  · intro task called
    obtain ⟨op, there⟩ := Option.ne_none_iff_exists'.mp called
    have differs := foreign there
    rw [others differs] at called
    rw [doing differs]
    exact sane.alive task called
  · intro task blocked
    have differs : task ≠ me := by
      rintro rfl
      cases running.symm.trans blocked
    rw [doing differs] at blocked
    rw [others differs]
    exact sane.inside task blocked
  · intro task op called waits
    have differs := foreign called
    rw [others differs] at called
    rcases sane.listed task op called (waiting differs waits) with ⟨post, there⟩ | here | bare
    · exact .inl ⟨post, by rw [queue]; exact there⟩
    · exact .inr (.inl ((joined task).mpr here))
    · exact .inr (.inr bare)
  · intro task op called waits here
    have differs := foreign called
    rw [others differs] at called
    exact sane.joins task op called (waiting differs waits) ((joined task).mp here)
  · intro task op called
    have differs := foreign called
    rw [others differs] at called
    rw [wake differs]
    exact sane.paid task op called

/-- The account matters as far as the tasks inside of doors are concerned. -/
theorem Sane.retold {told : TaskId → List (Traffic Data)}
    (same : ∀ task, calls task ≠ none → told task = dealt task) : Sane calls told state :=
  { sane with
    paid := fun task op called => by
      rw [same task (by simp [called])]
      exact sane.paid task op called }

theorem Sane.quiet (follows : Follows calls nobody [] state next)
    (scopes : next.scopes = state.scopes) : Sane calls dealt next := by
  have moved := sane.follows follows fun task _ _ => by rw [State.Joined, State.Joined, scopes]
  refine moved.retold fun task _ => ?_
  rw [dealtBy_nil, List.append_nil]

end

/-- The baton goes on from a sane state. Whoever resumes has been woken. -/
theorem Sane.hands (sane : Sane calls dealt state) {answer : Answer Data}
    (hands : Hands calls state answer next) (scopes : next.scopes = state.scopes) :
    (Sane (World.leaves calls answer) dealt next ∧
      ∀ task, next.stateOf task = .running → World.leaves calls answer task = none) ∧
      (∀ task, answer ≠ .resumed task none) ∧
        ∀ caller task wake op, answer.Tells caller task wake → calls task = some op →
          Paid task op (some wake) (dealt task) := by
  cases hands with
  | idle follows idle =>
    refine ⟨⟨sane.quiet follows scopes, fun task runs => absurd runs (idle task)⟩, by simp, ?_⟩
    exact fun _ _ _ _ told => told.elim
  | resumed follows idle queued nodup left board chans same =>
    rename_i middle task
    have calm := sane.quiet follows (same.symm.trans scopes)
    have ready : middle.stateOf task = .ready := calm.stands.placed.queued task queued
    have woken := (calm.awake task ready).2
    have runs := calm.resume woken (fun other running => absurd running (idle other)) board nodup
      (fun member => ((left task).mp member).2 rfl)
      (fun other differs => (left other).trans (and_iff_left differs)) chans same
    refine ⟨⟨runs, fun other running => ?_⟩, ?_, ?_⟩
    · by_contra inside
      have shown : next.stateOf = (middle.board.set task .running none).doing :=
        congrArg Board.doing board
      rcases eq_or_ne other task with rfl | differs
      · exact inside (Function.update_self ..)
      · rw [shown, Board.set_doing_of_ne differs] at running
        exact idle other running
    · intro other same
      obtain ⟨rfl, given⟩ := Answer.resumed.inj same
      exact woken given
    · rintro _ _ wake op ⟨rfl, given⟩ called
      rw [← given]
      exact calm.paid _ op called

end Sanity

end State

namespace World

/-- The scheduler is sane, and whoever runs is outside of every door. -/
structure Sound (world : World Data) : Prop where
  sane : world.sched.Sane world.calls world.dealt
  outside : ∀ task, world.sched.stateOf task = .running → world.calls task = none

section Steps

variable {world next : World Data} {op : Op Data} {answer : Answer Data}

theorem sound_initial (chooser : Chooser) : (initial chooser : World Data).Sound := by
  have doing : ∀ task, (Sched.initial chooser : State Data).stateOf task =
      if task = 0 then .running else .done := by
    intro task
    cases task <;> simp [State.stateOf, Sched.initial]
  have empty : ∀ post, (Sched.initial chooser : State Data).queue post = [] := by
    intro post
    cases post <;> simp [State.queue, Sched.initial]
  have only : ∀ task, (Sched.initial chooser : State Data).stateOf task = .running → task = 0 := by
    intro task runs
    by_contra other
    rw [doing, if_neg other] at runs
    cases runs
  have never : ∀ task state, state ≠ .running → state ≠ .done →
      (Sched.initial chooser : State Data).stateOf task ≠ state := by
    intro task state first second same
    rw [doing] at same
    split at same
    · exact first same.symm
    · exact second same.symm
  refine ⟨{ stands := ⟨⟨?_, ?_, ?_, ?_, ?_⟩, ?_⟩, solo := ?_, rests := ?_, awake := ?_, alive := ?_
            inside := ?_, listed := ?_, joins := ?_, paid := ?_ }, fun _ _ => rfl⟩
  · intro post task member
    change task ∈ (Sched.initial chooser : State Data).queue post at member
    rw [empty] at member
    cases member
  · intro post _
    change ((Sched.initial chooser : State Data).queue post).Nodup
    rw [empty]
    exact List.nodup_nil
  · exact List.nodup_nil
  · exact fun task member => absurd member List.not_mem_nil
  · exact fun task blocked => absurd blocked (never task .blocked (by simp) (by simp))
  · intro chan pair member
    simp [State.sendersOf, initial, Sched.initial] at member
  · exact fun task other runs runs' => (only task runs).trans (only other runs').symm
  · intro task runs _
    obtain rfl := only task runs
    rfl
  · exact fun task ready => absurd ready (never task .ready (by simp) (by simp))
  · exact fun task called => absurd rfl called
  · exact fun task blocked => absurd blocked (never task .blocked (by simp) (by simp))
  · rintro _ _ ⟨⟩
  · rintro _ _ ⟨⟩
  · rintro _ _ ⟨⟩

/-- The door that a task is inside of when it resumes: its last, unless it enters one now. -/
def inside (world : World Data) (op : Op Data) (task : TaskId) : Option (Op Data) :=
  if op.caller = some task then some op else world.calls task

/-- Whoever hears that its door is over has dealt what the wake tells, and whoever is inside of no
door deals nothing. -/
structure Settles (world : World Data) (op : Op Data) (answer : Answer Data) (next : World Data) :
    Prop where
  woken : ∀ task, answer ≠ .resumed task none
  told : ∀ task wake door, answer.Tells op.caller task wake → world.inside op task = some door →
    Paid task door (some wake) (next.dealt task)
  silent : ∀ task, world.inside op task = none → dealtBy task (world.sched.traffic op) = []

theorem perform_eq (performed : world.perform op = some (answer, next)) :
    keepsTo world.sched op = true ∧ ∃ turn, world.sched.admits op = true ∧
      world.sched.enter op = some turn ∧ world.settle op turn = (answer, next) := by
  unfold perform unbound at performed
  split at performed
  · rename_i keeps
    obtain ⟨turn, entered, settled⟩ := Option.map_eq_some_iff.mp performed
    unfold State.door at entered
    split at entered
    · rename_i admitted
      exact ⟨keeps, turn, admitted, entered, settled⟩
    · cases entered
  · cases performed

theorem owns_of_keepsTo {state : State Data} (keeps : keepsTo state op = true) :
    ∀ me scope, op = .joinScope me scope → ∀ entry, state.scopes[scope]? = some entry →
      entry.owner = me := by
  rintro me scope rfl entry found
  rw [keepsTo, found] at keeps
  exact of_decide_eq_true keeps

/-- Nobody that waits starts or ends a join, and whoever waits in a join waits on. -/
theorem elsewhere_of_inside {state : State Data} {calls : Calls Data} {task : TaskId}
    (admitted : state.admits op = true)
    (outside : ∀ task, state.stateOf task = .running → calls task = none)
    (called : calls task ≠ none) (scope : ScopeId) : op ≠ .joinScope task scope := by
  rintro rfl
  exact called (outside task (State.runs_of_admits admitted rfl))

/-- A door that can park its caller finds no join of the caller cut short, unless it is a join. -/
theorem joins_of_keepsTo {state middle : State Data} {me : TaskId} (keeps : keepsTo state op = true)
    (caller : op.caller = some me) (door : op.waits = true)
    (joined : (∀ scope, op ≠ .joinScope me scope) → (middle.Joined me ↔ state.Joined me))
    (here : middle.Joined me) : ∃ scope, op = .joinScope me scope := by
  have none_joined : (∀ scope, op ≠ .joinScope me scope) →
      (!state.scopes.any fun entry => entry.owner = me ∧ entry.joining) = false := by
    intro elsewhere
    obtain ⟨scope, entry, found, owner, joining⟩ := (joined elsewhere).mp here
    rw [Bool.not_eq_false', List.any_eq_true]
    exact ⟨entry, List.mem_of_getElem? found, decide_eq_true ⟨owner, joining⟩⟩
  cases op with
  | joinScope other scope =>
    cases caller
    exact ⟨scope, rfl⟩
  | send _ _ _ | recv _ _ | select _ _ _ | acquire _ _ | netYield _ | sleepPark _ _ =>
    cases caller
    rw [keepsTo, none_joined (by simp)] at keeps
    cases keeps
  | _ => cases door

theorem inside_of_caller {me : TaskId} (caller : op.caller = some me) :
    world.inside op = Function.update world.calls me (some op) := by
  funext task
  rw [inside, caller]
  rcases eq_or_ne task me with rfl | differs
  · rw [if_pos rfl, Function.update_self]
  · rw [if_neg (fun same => differs (Option.some.inj same).symm), Function.update_of_ne differs]

theorem leaves_of_keeps {calls : Calls Data} (keeps : ∀ task wake, answer ≠ .resumed task wake) :
    leaves calls answer = calls := by
  cases answer with
  | resumed task wake => exact absurd rfl (keeps task wake)
  | _ => rfl

theorem Sound.enters (sound : world.Sound) {turn : Turn Data}
    (keeps : keepsTo world.sched op = true) (admitted : world.sched.admits op = true)
    (entered : world.sched.enter op = some turn) :
    State.Enters world.calls world.sched op (world.sched.traffic op) turn :=
  sound.sane.stands.enters admitted
    (fun task runs =>
      ⟨sound.outside task runs, sound.sane.rests task runs (sound.outside task runs)⟩)
    sound.sane.joinsOnly (owns_of_keepsTo keeps) entered

/-- A door that parks its caller leaves it running, inside of the door. -/
theorem Sound.parks (sound : world.Sound) {me : TaskId} {middle : State Data}
    (keeps : keepsTo world.sched op = true) (admitted : world.sched.admits op = true)
    (entered : world.sched.enter op = some (.parks me middle)) :
    op.caller = some me ∧ middle.stateOf me = .running ∧
      middle.Sane (Function.update world.calls me (some op)) (world.tally op) := by
  have joined := State.joined_enter (owns_of_keepsTo keeps) entered
  cases sound.enters keeps admitted entered with
  | parked caller door tracks listed =>
    have runs := State.runs_of_admits admitted caller
    refine ⟨caller, ?_, ?_⟩
    · refine tracks.stays me runs ?_
      rw [Function.update_self]
      simp
    · exact sound.sane.enter sound.outside runs caller tracks
        (fun task differs => joined task fun scope same => by
          rw [same] at caller
          exact differs (Option.some.inj caller)) listed
        fun _ here => joins_of_keepsTo keeps caller door (joined me) here

theorem idle_of_admits {state : State Data} (admitted : state.admits .dispatchNext = true) :
    state.Idle := by
  intro task runs
  obtain ⟨tcb, found⟩ := state.found_of_alive (by
    change state.stateOf task ≠ .done
    rw [runs]
    simp)
  have still := List.all_eq_true.mp admitted tcb (List.mem_of_getElem? found)
  exact of_decide_eq_true still ((state.doing_of_found found).symm.trans runs)

theorem sound_perform (sound : world.Sound) (performed : world.perform op = some (answer, next)) :
    next.Sound ∧ world.Settles op answer next := by
  obtain ⟨keeps, turn, admitted, entered, settled⟩ := perform_eq performed
  have joined := State.joined_enter (owns_of_keepsTo keeps) entered
  have uncalled : ∀ me, op.caller = some me → world.calls me = none := fun me caller =>
    sound.outside me (State.runs_of_admits admitted caller)
  cases sound.enters keeps admitted entered with
  | plain tracks stays apart tells =>
    cases settled
    have moved := sound.sane.follows tracks.toFollows fun task _ called =>
      joined task (elsewhere_of_inside admitted sound.outside called)
    have same : leaves world.calls _ = world.calls := leaves_of_keeps stays
    refine ⟨⟨?_, fun task runs => ?_⟩, ⟨fun task => stays task none, ?_, ?_⟩⟩
    · change State.Sane (leaves world.calls _) _ _
      rw [same]
      refine moved.retold fun task called => ?_
      have foreign : op.caller ≠ some task := fun caller => called (uncalled task caller)
      change world.tally op task = world.dealt task ++ _
      rw [tally, if_neg foreign, apart task foreign]
    · change leaves world.calls _ task = none
      rw [same]
      exact sound.outside task (tracks.runs task runs).1
    · intro task wake door hears inside_
      have paid := tells task wake hears
      have caller := hears.caller stays
      rw [inside, if_pos caller] at inside_
      cases inside_
      change Paid task op (some wake) (world.tally op task)
      rw [tally, if_pos caller]
      exact paid
    · intro task outside
      have foreign : op.caller ≠ some task := by
        intro caller
        rw [inside, if_pos caller] at outside
        cases outside
      rw [inside, if_neg foreign] at outside
      rw [apart task foreign]
      exact tracks.silent task outside
  | consumed caller tracks given resolves =>
    rename_i me middle wake resolved
    cases settled
    have runs := State.runs_of_admits admitted caller
    have entered := sound.sane.enter sound.outside runs caller tracks
      (fun task differs => joined task fun scope same => by
        rw [same] at caller
        exact differs (Option.some.inj caller))
      (fun waits => by
        rw [given] at waits
        cases waits)
      (fun waits => by
        rw [given] at waits
        cases waits)
    have called : Function.update world.calls me (some op) me ≠ none := by
      rw [Function.update_self]
      simp
    have running : middle.board.doing me = .running := tracks.stays me runs called
    have alive : middle.board.doing me ≠ .done := by
      rw [running]
      simp
    obtain ⟨tcb, found⟩ := middle.found_of_alive alive
    have shown := middle.board_modifyTask_set (fun tcb => { tcb with wake := none }) found
    have doing : tcb.state = .running := (middle.doing_of_found found).symm.trans running
    rw [doing, if_neg (by simp)] at shown
    have resumed : State.Sane (Function.update (Function.update world.calls me (some op)) me none)
        (world.tally op) (middle.modifyTask me fun tcb => { tcb with wake := none }) := by
      refine entered.resume ?_ (fun task runs => entered.solo task me runs running) shown
        entered.stands.placed.ready ?_ (fun _ _ => Iff.rfl) rfl rfl
      · rw [given]
        simp
      · exact entered.stands.placed.not_mem_ready (by rw [running]; simp)
    have back : Function.update (Function.update world.calls me (some op)) me none =
        world.calls := by
      rw [Function.update_idem, ← uncalled me caller, Function.update_eq_self]
    rw [back] at resumed
    refine ⟨⟨resumed, fun task again => ?_⟩, ⟨by simp, ?_, ?_⟩⟩
    · have runs_on : (middle.modifyTask me fun tcb => { tcb with wake := none }).stateOf me =
          .running := (congrFun (congrArg Board.doing shown) me).trans (Board.set_doing_self ..)
      obtain rfl := resumed.solo task me again runs_on
      exact uncalled task caller
    · rintro other wake' door ⟨same, resolves'⟩ inside_
      obtain rfl := Option.eq_some_unique caller same
      rw [inside_of_caller caller] at inside_
      have paid := entered.paid me door inside_
      rw [given, Wake.resolve_inj resolves resolves'] at paid
      exact paid
    · intro task outside
      refine tracks.silent task ?_
      rw [← inside_of_caller caller]
      exact outside
  | parked caller door tracks listed =>
    rename_i me middle
    obtain ⟨_, running, sane⟩ := sound.parks keeps admitted entered
    have called : Function.update world.calls me (some op) me ≠ none := by
      rw [Function.update_self]
      simp
    have hands := sane.stands.park running called fun task runs =>
      sane.solo task me runs running
    obtain ⟨⟨sane, outside⟩, woken⟩ := sane.hands hands (State.unmoved_park middle me).scopes
    cases settled
    refine ⟨⟨sane, outside⟩, ⟨woken.1, fun task wake door hears inside_ => ?_, ?_⟩⟩
    · rw [inside_of_caller caller] at inside_
      exact woken.2 _ task wake door hears inside_
    · intro task outside
      refine tracks.silent task ?_
      rw [← inside_of_caller caller]
      exact outside
  | handed door silent =>
    obtain rfl := door
    have idle := idle_of_admits admitted
    have hands := sound.sane.stands.dispatchNext idle
    obtain ⟨⟨sane, outside⟩, woken⟩ := sound.sane.hands hands
      (State.unmoved_dispatchNext world.sched).scopes
    cases settled
    have told : ∀ task, world.tally .dispatchNext task = world.dealt task := by
      intro task
      rw [tally, silent, dealtBy_nil, List.append_nil]
      rfl
    refine ⟨⟨sane.retold fun task _ => told task, outside⟩,
      ⟨woken.1, fun task wake door hears inside_ => ?_, ?_⟩⟩
    · change Paid task door (some wake) (world.tally .dispatchNext task)
      rw [told]
      exact woken.2 _ task wake door hears inside_
    · intro task _
      rw [silent]
      rfl

theorem sound_run (chooser : Chooser) (ops : List (Op Data))
    (run : exec step (initial chooser) ops = some world) : world.Sound := by
  refine inv_of_exec Sound (sound_initial chooser) ?_ run
  intro state op next sound performed
  obtain ⟨⟨answer, after⟩, answered, rfl⟩ := Option.map_eq_some_iff.mp performed
  exact (sound_perform sound answered).1

end Steps

end World

end WolfInterp.Sched
