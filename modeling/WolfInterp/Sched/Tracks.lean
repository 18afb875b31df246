import WolfInterp.Sched.Posts
import WolfInterp.Sched.Traffic

/-!
# What becomes of waiting tasks

Whoever leaves a queue is woken: a task that still waits after an operation stands where it stood.
Whoever is ready stands in the ready queue with a wake. And the wake of a task inside a send tells
whether its message was taken: a send that is completed has delivered its message once, and one
that is refused has not.
-/

namespace WolfInterp.Sched

open Board

variable {Data : Type}

/-- The task an event is about: the sender of a message, or its receiver once it is handed on. -/
def Traffic.party : Traffic Data → Option TaskId
  | .sent sender _ _ => sender
  | .handed receiver _ _ => some receiver

/-- What a task has dealt: the events about it. -/
def dealtBy (task : TaskId) (log : List (Traffic Data)) : List (Traffic Data) :=
  log.filter fun event => event.party = some task

@[simp]
theorem dealtBy_nil (task : TaskId) : dealtBy task ([] : List (Traffic Data)) = [] := rfl

@[simp]
theorem dealtBy_append (task : TaskId) (first second : List (Traffic Data)) :
    dealtBy task (first ++ second) = dealtBy task first ++ dealtBy task second :=
  List.filter_append ..

theorem dealtBy_own {task : TaskId} {event : Traffic Data} (own : event.party = some task) :
    dealtBy task [event] = [event] := by
  simp [dealtBy, own]

theorem dealtBy_other {task other : TaskId} {event : Traffic Data}
    (foreign : event.party = some other) (differs : task ≠ other) : dealtBy task [event] = [] := by
  simp [dealtBy, foreign, differs.symm]

/-- The message a door sends. -/
def Op.message : Op Data → Option (ChanId × Value Data)
  | .send _ chan value => some (chan, value)
  | _ => none

/-- The message of the send that a task is inside of. -/
def messageOf (calls : Calls Data) (task : TaskId) : Option (ChanId × Value Data) :=
  (calls task).bind Op.message

/-- The event that completes a wait in a door, as the wake tells it. -/
def Op.Completes (me : TaskId) : Op Data → Wake Data → Traffic Data → Prop
  | .send _ chan value, .ok _, event => event = .sent (some me) chan value
  | .recv _ chan, .ok value, event => event = .handed me chan value
  | .select _ arms _, .arm _ (some value), event =>
    ∃ pair ∈ arms, event = .handed me pair.2 value
  | _, _, _ => False

/-- The wakes that end a wait in a door without a message. -/
def Op.Quiet : Op Data → Wake Data → Prop
  | .send .., .ok _ | .recv .., .ok _ | .send .., .arm .. | .recv .., .arm .. => False
  | .select .., .arm _ (some value) => value = closedError
  | _, _ => True

/-- What a task has dealt since it entered a door, as its wake tells. A kill may come after the
completion. -/
inductive Paid (me : TaskId) (op : Op Data) : Option (Wake Data) → List (Traffic Data) → Prop
  | unwoken : Paid me op none []
  | quiet {wake : Wake Data} (quiet : op.Quiet wake) : Paid me op (some wake) []
  | done {wake : Wake Data} {event : Traffic Data} (completes : op.Completes me wake event) :
      Paid me op (some wake) [event]
  | killed {wake : Wake Data} {event : Traffic Data} (completes : op.Completes me wake event) :
      Paid me op (some .killed) [event]

/-- A wake that ends the wait in any door without a message. -/
def Wake.bare : Wake Data → Bool
  | .closed | .cancelled | .killed | .deadlock _ => true
  | .ok _ | .arm .. => false

theorem Op.quiet_of_bare (op : Op Data) {wake : Wake Data} (bare : wake.bare = true) :
    op.Quiet wake := by
  cases wake with
  | ok _ | arm _ _ => cases bare
  | closed | cancelled | killed | deadlock _ => cases op <;> trivial

theorem Paid.struck {me : TaskId} {op : Op Data} {wake : Option (Wake Data)}
    {dealt : List (Traffic Data)} (paid : Paid me op wake dealt) :
    Paid me op (some .killed) dealt := by
  cases paid with
  | unwoken | quiet _ => exact .quiet (op.quiet_of_bare rfl)
  | done completes | killed completes => exact .killed completes

/-- No task. -/
def nobody : TaskId → Prop := fun _ => False

namespace State

/-- The blocked senders of a channel with their messages. -/
def sendersOf (state : State Data) (chan : ChanId) : List (TaskId × Value Data) :=
  (state.chans[chan]?).elim [] Chan.senders

/-- Every task in a queue is inside a door that registers it there, and a blocked sender is inside
the send of its message. -/
structure Stands (calls : Calls Data) (state : State Data) : Prop where
  placed : state.board.Placed calls
  voiced : ∀ chan, ∀ pair ∈ state.sendersOf chan, messageOf calls pair.1 = some (chan, pair.2)

/-- A ready task is in the ready queue with its wake. -/
def Awake (state : State Data) (task : TaskId) : Prop :=
  state.stateOf task = .ready → task ∈ state.ready ∧ state.board.wake task ≠ none

/-- What becomes of the tasks while the doors they are inside of stay the same. The tasks that are
due have left a queue and are still to be woken. -/
structure Follows (calls : Calls Data) (due : TaskId → Prop) (log : List (Traffic Data))
    (state next : State Data) : Prop where
  stands : Stands calls next
  kept : ∀ task post, ¬ due task → next.board.Unwoken task → task ∈ state.queue post →
    task ∈ next.queue post
  asleep : ∀ task, next.board.Unwoken task → state.board.Unwoken task
  awake : ∀ task, state.Awake task → next.Awake task
  runs : ∀ task, next.stateOf task = .running → state.stateOf task = .running ∧
    (calls task = none → next.board.wake task = state.board.wake task)
  blocks : ∀ task, next.stateOf task = .blocked →
    state.stateOf task = .blocked ∨ state.stateOf task = .running ∧ calls task ≠ none
  alive : ∀ task, calls task ≠ none → state.stateOf task ≠ .done → next.stateOf task ≠ .done
  pays : ∀ task op, calls task = some op → state.stateOf task ≠ .done →
    ∀ dealt, Paid task op (state.board.wake task) dealt →
      Paid task op (next.board.wake task) (dealt ++ dealtBy task log)
  silent : ∀ task, calls task = none → dealtBy task log = []

/-- The same, while the baton stays where it is. -/
structure Tracks (calls : Calls Data) (due : TaskId → Prop) (log : List (Traffic Data))
    (state next : State Data) : Prop extends Follows calls due log state next where
  stays : ∀ task, state.stateOf task = .running → calls task ≠ none →
    next.stateOf task = .running

section Basics

variable {state middle next : State Data} {calls : Calls Data} {due later : TaskId → Prop}
  {first second log : List (Traffic Data)}

theorem Follows.trans (early : Follows calls due first state middle)
    (late : Follows calls later second middle next) :
    Follows calls (fun task => due task ∨ later task) (first ++ second) state next where
  stands := late.stands
  kept task post spared waits member := by
    rw [not_or] at spared
    exact late.kept task post spared.2 waits
      (early.kept task post spared.1 (late.asleep task waits) member)
  asleep task waits := early.asleep task (late.asleep task waits)
  awake task awake := late.awake task (early.awake task awake)
  runs task running := by
    obtain ⟨before, same⟩ := late.runs task running
    obtain ⟨start, same'⟩ := early.runs task before
    exact ⟨start, fun outside => (same outside).trans (same' outside)⟩
  blocks task blocked := by
    rcases late.blocks task blocked with before | ⟨running, inside⟩
    · exact early.blocks task before
    · exact .inr ⟨(early.runs task running).1, inside⟩
  alive task inside living := late.alive task inside (early.alive task inside living)
  pays task op called living dealt paid := by
    rw [dealtBy_append, ← List.append_assoc]
    exact late.pays task op called (early.alive task (by simp [called]) living) _
      (early.pays task op called living dealt paid)
  silent task outside := by
    rw [dealtBy_append, early.silent task outside, late.silent task outside]
    rfl

theorem Tracks.trans (early : Tracks calls due first state middle)
    (late : Tracks calls later second middle next) :
    Tracks calls (fun task => due task ∨ later task) (first ++ second) state next :=
  { early.toFollows.trans late.toFollows with
    stays := fun task running inside =>
      late.stays task (early.stays task running inside) inside }

/-- Whoever was due has been woken. -/
theorem Follows.close (follows : Follows calls due log state next)
    (woken : ∀ task, due task → ¬ next.board.Unwoken task) : Follows calls nobody log state next :=
  { follows with
    kept :=
      fun task post _ waits => follows.kept task post (fun due => woken task due waits) waits }

theorem Tracks.close (tracks : Tracks calls due log state next)
    (woken : ∀ task, due task → ¬ next.board.Unwoken task) : Tracks calls nobody log state next :=
  { tracks.toFollows.close woken with stays := tracks.stays }

/-- Nobody is due after two steps that leave nobody due. -/
theorem Follows.after (early : Follows calls nobody first state middle)
    (late : Follows calls nobody second middle next) :
    Follows calls nobody (first ++ second) state next :=
  (early.trans late).close fun _ due => by rcases due with due | due <;> exact due.elim

theorem Tracks.after (early : Tracks calls nobody first state middle)
    (late : Tracks calls nobody second middle next) :
    Tracks calls nobody (first ++ second) state next :=
  (early.trans late).close fun _ due => by rcases due with due | due <;> exact due.elim

theorem Follows.then (early : Follows calls nobody first state middle)
    (late : Follows calls nobody [] middle next) : Follows calls nobody first state next := by
  have both := early.after late
  rw [List.append_nil] at both
  exact both

theorem Tracks.then (early : Tracks calls nobody first state middle)
    (late : Tracks calls nobody [] middle next) : Tracks calls nobody first state next := by
  have both := early.after late
  rw [List.append_nil] at both
  exact both

/-- The log matters as far as it says what the tasks have dealt. -/
theorem Tracks.relog (tracks : Tracks calls due first state next)
    (same : ∀ task, dealtBy task second = dealtBy task first) :
    Tracks calls due second state next :=
  { tracks with
    pays := fun task op called living dealt paid => by
      rw [same]
      exact tracks.pays task op called living dealt paid
    silent := fun task outside => by
      rw [same]
      exact tracks.silent task outside }

/-- Everybody does what they did, with the wakes and the ready queue as they were. -/
theorem Stands.idle (stands : Stands calls next) (doing : next.stateOf = state.stateOf)
    (ready : next.ready = state.ready) (wake : next.board.wake = state.board.wake)
    (kept : ∀ task post, ¬ due task → task ∈ state.queue post → task ∈ next.queue post) :
    Tracks calls due [] state next where
  stands := stands
  kept task post spared _ := kept task post spared
  asleep task waits := by
    have same : next.board.doing = state.board.doing := doing
    rw [Board.Unwoken, same, wake] at waits
    exact waits
  awake task awake := by
    rw [Awake, doing, ready, wake]
    exact awake
  runs task := by
    rw [doing, wake]
    exact fun running => ⟨running, fun _ => rfl⟩
  blocks task := by
    rw [doing]
    exact .inl
  alive task _ := by
    rw [doing]
    exact id
  pays task op _ _ dealt paid := by
    rw [wake, dealtBy_nil, List.append_nil]
    exact paid
  silent _ _ := rfl
  stays task running _ := by
    rw [doing]
    exact running

/-- Who holds which mutex is nothing to the waiting tasks. -/
theorem Stands.holding (stands : Stands calls state)
    (board : next.board = { state.board with holder := next.board.holder })
    (senders : ∀ chan, next.sendersOf chan = state.sendersOf chan) :
    Tracks calls nobody [] state next := by
  have queue : next.queue = state.queue := congrArg Board.queue board
  have placed : next.board.Placed calls := by
    rw [board]
    exact ⟨stands.placed.posted, stands.placed.single, stands.placed.ready,
      stands.placed.queued, stands.placed.asleep⟩
  have voiced : ∀ chan, ∀ pair ∈ next.sendersOf chan,
      messageOf calls pair.1 = some (chan, pair.2) := by
    intro chan pair
    rw [senders]
    exact stands.voiced chan pair
  have still : Stands calls next := ⟨placed, voiced⟩
  refine still.idle (congrArg Board.doing board) (congrArg Board.ready board) ?_ ?_
  · rw [board]
  · intro task post _
    rw [queue]
    exact id

/-- What neither the board nor the blocked senders show. -/
theorem Stands.hidden (stands : Stands calls state) (board : next.board = state.board)
    (senders : ∀ chan, next.sendersOf chan = state.sendersOf chan) :
    Tracks calls nobody [] state next :=
  stands.holding (by rw [board]) senders

theorem Stands.refl (stands : Stands calls state) : Tracks calls nobody [] state state :=
  stands.hidden rfl fun _ => rfl

theorem sendersOf_of_chans (same : next.chans = state.chans) (chan : ChanId) :
    next.sendersOf chan = state.sendersOf chan := by
  rw [sendersOf, sendersOf, same]

end Basics

/-! ## Waking a task -/

section Waking

variable {state next : State Data} {calls : Calls Data} {task : TaskId}
  {log : List (Traffic Data)}

theorem doing_makeReady_self (alive : state.stateOf task ≠ .done) (wake : Wake Data) :
    ((state.makeReady task wake).stateOf task = .ready ∨
      state.stateOf task = .running ∧ (state.makeReady task wake).stateOf task = .running) ∧
      (state.makeReady task wake).board.wake task = some wake := by
  have shown := state.board_makeReady task wake
  have doing : (state.makeReady task wake).stateOf task =
      (state.board.makeReady task wake).doing task := congrFun (congrArg Board.doing shown) task
  rw [doing, shown, Board.makeReady]
  change state.board.doing task ≠ .done at alive
  change _ ∧ _
  have same : state.stateOf task = state.board.doing task := rfl
  rw [same]
  cases was : state.board.doing task with
  | blocked | fresh | ready =>
    exact ⟨.inl (Board.set_doing_self .ready (some wake)), Board.set_wake_self .ready (some wake)⟩
  | running =>
    exact ⟨.inr ⟨rfl, Board.set_doing_self .running (some wake)⟩,
      Board.set_wake_self .running (some wake)⟩
  | done => exact absurd was alive

theorem doing_makeReady_running (runs : state.stateOf task = .running) (wake : Wake Data) :
    (state.makeReady task wake).stateOf task = .running := by
  have shown := congrFun (congrArg Board.doing (state.board_makeReady task wake)) task
  change (state.makeReady task wake).stateOf task =
    (state.board.makeReady task wake).doing task at shown
  change state.board.doing task = .running at runs
  rw [shown, Board.makeReady, runs]
  exact Board.set_doing_self .running (some wake)

theorem board_makeReady_of_ne (state : State Data) {other : TaskId} (differs : other ≠ task)
    (wake : Wake Data) :
    (state.makeReady task wake).stateOf other = state.stateOf other ∧
      (state.makeReady task wake).board.wake other = state.board.wake other := by
  have shown := state.board_makeReady task wake
  have doing : (state.makeReady task wake).stateOf other =
      (state.board.makeReady task wake).doing other := congrFun (congrArg Board.doing shown) other
  rw [doing, shown, Board.makeReady_doing_of_ne differs]
  refine ⟨rfl, ?_⟩
  rw [Board.makeReady]
  split
  · exact Board.set_wake_of_ne differs .ready (some wake)
  · exact Board.set_wake_of_ne differs .ready (some wake)
  · exact Board.set_wake_of_ne differs .ready (some wake)
  · exact Board.set_wake_of_ne differs .running (some wake)
  · rfl

theorem subset_makeReady (task : TaskId) (wake : Wake Data) :
    state.ready ⊆ (state.makeReady task wake).ready := by
  have shown := congrArg Board.ready (state.board_makeReady task wake)
  change (state.makeReady task wake).ready = (state.board.makeReady task wake).ready at shown
  rw [shown, Board.makeReady]
  split
  · exact List.subset_append_left _ _
  · exact List.subset_append_left _ _
  · exact List.Subset.refl _
  · exact List.Subset.refl _
  · exact List.Subset.refl _

/-- Whoever is made ready is in the ready queue. -/
theorem mem_ready_makeReady (awake : state.Awake task) (wake : Wake Data)
    (ready : (state.makeReady task wake).stateOf task = .ready) :
    task ∈ (state.makeReady task wake).ready := by
  have shown := state.board_makeReady task wake
  have queued : (state.makeReady task wake).ready = (state.board.makeReady task wake).ready :=
    congrArg Board.ready shown
  have doing : (state.makeReady task wake).stateOf task =
      (state.board.makeReady task wake).doing task := congrFun (congrArg Board.doing shown) task
  rw [doing, Board.makeReady] at ready
  rw [queued, Board.makeReady]
  cases was : state.board.doing task with
  | blocked | fresh => exact List.mem_append_right _ (List.mem_singleton_self task)
  | ready => exact (awake was).1
  | running =>
    simp only [was, Board.set_doing_self] at ready
    cases ready
  | done =>
    simp only [was] at ready
    cases ready

section

variable (stands : Stands calls state) (free : ∀ post, task ∉ state.queue post)
include stands free

theorem Stands.placed_set {doing : TaskState} (sleeps : doing ≠ .blocked)
    (stays : task ∈ state.ready → doing = .ready) (wake : Option (Wake Data)) :
    (state.board.set task doing wake).Placed calls := by
  have placed := stands.placed
  constructor
  · exact placed.posted_set free doing wake
  · exact placed.single
  · exact placed.ready
  · intro other member
    rcases eq_or_ne other task with rfl | differs
    · rw [Board.set_doing_self]
      exact stays member
    · rw [Board.set_doing_of_ne differs]
      exact placed.queued other member
  · intro other blocked
    rcases eq_or_ne other task with rfl | differs
    · rw [Board.set_doing_self] at blocked
      exact absurd blocked sleeps
    · rw [Board.set_doing_of_ne differs] at blocked
      rw [Board.set_wake_of_ne differs]
      exact placed.asleep other blocked

theorem Stands.placed_makeReady (wake : Wake Data) : (state.board.makeReady task wake).Placed calls
    := by
  have placed := stands.placed
  have pushed : state.board.doing task ≠ .ready → Board.Placed
      { state.board.set task .ready (some wake) with ready := state.board.ready ++ [task] }
      calls := by
    intro busy
    have ready : (state.board.set task .ready (some wake)).Placed calls :=
      stands.placed_set free (by simp) (fun _ => rfl) _
    exact (ready.push (Board.set_doing_self ..) (placed.not_mem_ready busy)).placed
  rw [Board.makeReady]
  cases doing : state.board.doing task with
  | blocked | fresh => exact pushed (by simp [doing])
  | ready => exact stands.placed_set free (by simp) (fun _ => rfl) _
  | running =>
    refine stands.placed_set free (by simp) (fun member => ?_) _
    exact absurd member (placed.not_mem_ready (by simp [doing]))
  | done => exact placed

/-- Waking a task that no queue lists, with what its wake says it has dealt. -/
theorem Stands.makeReady (living : state.stateOf task ≠ .done)
    (inside : state.stateOf task = .running → calls task ≠ none) (wake : Wake Data)
    (pays : ∀ op, calls task = some op → ∀ dealt, Paid task op (state.board.wake task) dealt →
      Paid task op (some wake) (dealt ++ dealtBy task log))
    (silent : calls task = none → dealtBy task log = [])
    (others : ∀ other, other ≠ task → dealtBy other log = []) :
    Tracks calls nobody log state (state.makeReady task wake) := by
  have shown := state.board_makeReady task wake
  have queue : (state.makeReady task wake).queue = state.queue := by
    have same := congrArg Board.queue shown
    rw [Board.makeReady_queue] at same
    exact same
  obtain ⟨doing, woken⟩ := doing_makeReady_self living wake
  refine { stands := ?_, kept := ?_, asleep := ?_, awake := ?_, runs := ?_, blocks := ?_
           alive := ?_, pays := ?_, silent := ?_, stays := ?_ }
  · constructor
    · rw [shown]
      exact stands.placed_makeReady free wake
    · intro chan pair
      rw [sendersOf_of_chans (chans_makeReady state task wake)]
      exact stands.voiced chan pair
  · intro other post _ _ member
    rw [queue]
    exact member
  · intro other waits
    have differs : other ≠ task := by
      rintro rfl
      rw [waits.2] at woken
      cases woken
    obtain ⟨same, wake⟩ := board_makeReady_of_ne state differs wake
    have doing := waits.1
    change (state.makeReady task _).stateOf other = .blocked ∨
      (state.makeReady task _).stateOf other = .running at doing
    rw [same] at doing
    exact ⟨doing, wake.symm.trans waits.2⟩
  · intro other awake ready
    rcases eq_or_ne other task with rfl | differs
    · refine ⟨mem_ready_makeReady awake wake ready, ?_⟩
      rw [woken]
      simp
    · obtain ⟨same, given⟩ := board_makeReady_of_ne state differs wake
      rw [same] at ready
      rw [given]
      exact ⟨subset_makeReady task wake (awake ready).1, (awake ready).2⟩
  · intro other running
    rcases eq_or_ne other task with rfl | differs
    · rcases doing with ready | ⟨before, _⟩
      · rw [ready] at running
        cases running
      · exact ⟨before, fun outside => absurd outside (inside before)⟩
    · obtain ⟨same, given⟩ := board_makeReady_of_ne state differs wake
      rw [same] at running
      exact ⟨running, fun _ => given⟩
  · intro other blocked
    rcases eq_or_ne other task with rfl | differs
    · rcases doing with ready | ⟨_, running⟩
      · rw [ready] at blocked
        cases blocked
      · rw [running] at blocked
        cases blocked
    · rw [(board_makeReady_of_ne state differs wake).1] at blocked
      exact .inl blocked
  · intro other _ before
    rcases eq_or_ne other task with rfl | differs
    · rcases doing with ready | ⟨_, running⟩
      · rw [ready]
        simp
      · rw [running]
        simp
    · rw [(board_makeReady_of_ne state differs wake).1]
      exact before
  · intro other op called _ dealt paid
    rcases eq_or_ne other task with rfl | differs
    · rw [woken]
      exact pays op called dealt paid
    · rw [(board_makeReady_of_ne state differs wake).2, others other differs,
        List.append_nil]
      exact paid
  · intro other outside
    rcases eq_or_ne other task with rfl | differs
    · exact silent outside
    · exact others other differs
  · intro other running _
    rcases eq_or_ne other task with rfl | differs
    · exact doing_makeReady_running running wake
    · rw [(board_makeReady_of_ne state differs wake).1]
      exact running

end

/-- Queues may lose tasks that are due. -/
theorem Stands.thin (stands : Stands calls state) {due : TaskId → Prop}
    (board : next.board = { state.board with queue := next.queue })
    (thinner : ∀ post, (next.queue post).Sublist (state.queue post))
    (senders : ∀ chan, next.sendersOf chan ⊆ state.sendersOf chan)
    (rest : ∀ task post, ¬ due task → task ∈ state.queue post → task ∈ next.queue post) :
    Tracks calls due [] state next := by
  have placed : next.board.Placed calls := by
    rw [board]
    exact (stands.placed.thin thinner).placed
  have still : Stands calls next :=
    ⟨placed, fun chan pair member => stands.voiced chan pair (senders chan member)⟩
  exact still.idle (congrArg Board.doing board) (congrArg Board.ready board) (by rw [board]) rest

theorem Stands.deregister (stands : Stands calls state) (task : TaskId) :
    Tracks calls (fun other => other = task) [] state (state.deregister task) := by
  have shown := state.board_deregister task
  have queue : ∀ post, (state.deregister task).queue post =
      (state.queue post).filter (· ≠ task) := fun post => congrFun (congrArg Board.queue shown) post
  refine stands.thin ?_ ?_ ?_ ?_
  · have same : (state.deregister task).queue = (state.board.deregister task).queue :=
      congrArg Board.queue shown
    rw [shown, same]
    rfl
  · intro post
    rw [queue]
    exact List.filter_sublist
  · intro chan
    rw [sendersOf, sendersOf, chans_deregister, List.getElem?_map]
    cases state.chans[chan]? with
    | none => exact List.Subset.refl _
    | some entry => exact List.filter_sublist.subset
  · intro other post spared member
    rw [queue]
    exact List.mem_filter.mpr ⟨member, by simpa using spared⟩

theorem not_mem_queue_deregister (state : State Data) (task : TaskId) (post : Post) :
    task ∉ (state.deregister task).queue post := by
  have same : (state.deregister task).queue post = (state.board.deregister task).queue post :=
    congrFun (congrArg Board.queue (state.board_deregister task)) post
  rw [same]
  exact Board.not_mem_deregister post

theorem not_unwoken_rouse (living : state.stateOf task ≠ .done) (wake : Wake Data) :
    ¬ ((state.deregister task).makeReady task wake).board.Unwoken task := by
  intro waits
  have doing : (state.deregister task).stateOf = state.stateOf :=
    congrArg Board.doing (state.board_deregister task)
  have given := (doing_makeReady_self (by rw [doing]; exact living) wake).2
  rw [waits.2] at given
  cases given

/-- Taking a task out of every queue and waking it. -/
theorem Stands.rouse (stands : Stands calls state) (living : state.stateOf task ≠ .done)
    (inside : state.stateOf task = .running → calls task ≠ none) (wake : Wake Data)
    (pays : ∀ op, calls task = some op → ∀ dealt, Paid task op (state.board.wake task) dealt →
      Paid task op (some wake) (dealt ++ dealtBy task log))
    (silent : calls task = none → dealtBy task log = [])
    (others : ∀ other, other ≠ task → dealtBy other log = []) :
    Tracks calls nobody log state ((state.deregister task).makeReady task wake) := by
  have gone := stands.deregister task
  have shown := state.board_deregister task
  have doing : (state.deregister task).stateOf = state.stateOf := congrArg Board.doing shown
  have given : (state.deregister task).board.wake = state.board.wake := by
    rw [shown]
    rfl
  have woken : Tracks calls nobody log (state.deregister task)
      ((state.deregister task).makeReady task wake) :=
    gone.stands.makeReady (not_mem_queue_deregister state task) (by rw [doing]; exact living)
      (by rw [doing]; exact inside) wake (by rw [given]; exact pays) silent others
  refine (gone.trans woken).close fun other due => ?_
  rcases due with rfl | due
  · exact not_unwoken_rouse living wake
  · exact due.elim

/-- Waking a blocked task without a message. -/
theorem Stands.rouse_blocked (stands : Stands calls state) (blocked : state.stateOf task = .blocked)
    {wake : Wake Data} (quiet : ∀ op, calls task = some op → op.Quiet wake) :
    Tracks calls nobody [] state ((state.deregister task).makeReady task wake) := by
  refine stands.rouse (by rw [blocked]; simp) (fun running => ?_) wake ?_ (fun _ => rfl)
    fun _ _ => rfl
  · rw [blocked] at running
    cases running
  · intro op called dealt paid
    rw [stands.placed.asleep task blocked] at paid
    cases paid
    exact .quiet (quiet op called)

variable {post : Post} {chan : ChanId} {entry : Chan Data}

section

variable (stands : Stands calls state)
include stands

/-- One queue may lose tasks that are due. -/
theorem Stands.leave {tasks : List TaskId} (board : next.board = state.board.line post tasks)
    (thinner : tasks.Sublist (state.queue post))
    (senders : ∀ chan, next.sendersOf chan ⊆ state.sendersOf chan) :
    Tracks calls (fun other => other ∈ state.queue post ∧ other ∉ tasks) [] state next := by
  have queue : next.queue = Function.update state.queue post tasks := by
    have shown := congrArg Board.queue board
    exact shown
  refine stands.thin ?_ ?_ senders ?_
  · rw [board, queue]
    rfl
  · intro other
    rw [queue]
    rcases eq_or_ne other post with rfl | differs
    · rw [Function.update_self]
      exact thinner
    · rw [Function.update_of_ne differs]
  · intro task other spared member
    rw [queue]
    rcases eq_or_ne other post with rfl | differs
    · rw [Function.update_self]
      by_contra gone
      exact spared ⟨member, gone⟩
    · rw [Function.update_of_ne differs]
      exact member

/-- Changing a channel otherwise than in who waits on it. -/
theorem Stands.modifyChan (chan : ChanId) (update : Chan Data → Chan Data)
    (same : ∀ entry, (update entry).senders = entry.senders ∧
      (update entry).receivers = entry.receivers ∧ (update entry).selecters = entry.selecters) :
    Tracks calls nobody [] state (state.modifyChan chan update) := by
  refine stands.hidden (state.board_modifyChan chan update same) fun other => ?_
  rw [sendersOf, sendersOf, State.modifyChan, List.getElem?_modify]
  cases state.chans[other]? with
  | none => rfl
  | some entry => by_cases here : chan = other <;> simp [here, (same entry).1]

/-- A task in a queue is alive and inside a door. -/
theorem Stands.waiting (member : task ∈ state.queue post) :
    state.stateOf task ≠ .done ∧ calls task ≠ none ∧ state.board.wake task = none := by
  obtain ⟨⟨doing, given⟩, op, inside, _⟩ := stands.placed.posted post task member
  refine ⟨?_, ?_, given⟩
  · change state.board.doing task ≠ .done
    rcases doing with same | same <;> rw [same] <;> simp
  · rw [Option.mem_def.mp inside]
    simp

/-- The door of a task in a queue registers it there. -/
theorem Stands.standsAt {op : Op Data} (member : task ∈ state.queue post)
    (called : calls task = some op) : op.StandsAt post := by
  obtain ⟨_, other, inside, here⟩ := stands.placed.posted post task member
  obtain rfl := Option.eq_some_unique inside called
  exact here

/-- The first blocked sender leaves its queue and is told that its message is taken. -/
theorem Stands.popSender {sender : TaskId} {value : Value Data} {rest : List (TaskId × Value Data)}
    (found : state.chans[chan]? = some entry) (waiting : entry.senders = (sender, value) :: rest)
    (update : Chan Data → Chan Data) (same : ∀ entry, (update entry).senders = entry.senders ∧
      (update entry).receivers = entry.receivers ∧ (update entry).selecters = entry.selecters) :
    Tracks calls nobody [.sent (some sender) chan value] state
      ((((state.modifyChan chan fun entry => { entry with senders := rest }).tick sender).modifyChan
        chan update).makeReady sender (.ok .unit)) ∧ ∀ other, other ≠ sender →
      ((((state.modifyChan chan fun entry => { entry with senders := rest }).tick sender).modifyChan
        chan update).makeReady sender (.ok .unit)).board.wake other = state.board.wake other := by
  have senders : state.sendersOf chan = (sender, value) :: rest := by
    rw [sendersOf, found]
    exact waiting
  have queue : state.queue (.sender chan) = sender :: rest.map Prod.fst :=
    congrArg (List.map Prod.fst) senders
  have head : sender ∈ state.queue (.sender chan) := by
    rw [queue]
    exact List.mem_cons_self
  have nodup := stands.placed.single (.sender chan) rfl
  have apart : sender ∉ rest.map Prod.fst := by
    change (state.queue (.sender chan)).Nodup at nodup
    rw [queue] at nodup
    exact (List.nodup_cons.mp nodup).1
  have shown : (state.modifyChan chan fun entry => { entry with senders := rest }).board =
      state.board.line (.sender chan) (rest.map Prod.fst) := by
    refine board_modifyChan_line state found (.sender chan) _ (Function.update_self ..) ?_ ?_
      (.inl rfl)
    · rw [Function.update_of_ne (by simp), State.queue, found]
      rfl
    · rw [Function.update_of_ne (by simp), State.queue, found]
      rfl
  have left := stands.leave shown (by rw [queue]; exact List.sublist_cons_self ..) (by
    intro other
    rw [sendersOf, sendersOf, State.modifyChan, List.getElem?_modify]
    by_cases here : chan = other
    · subst here
      rw [found]
      simp only [if_true, Option.elim_some, waiting]
      exact List.subset_cons_self _ _
    · simp [here])
  have counted := left.stands.hidden (board_tick _ sender) fun other =>
    sendersOf_of_chans (chans_tick _ sender) other
  have quiet := counted.stands.modifyChan chan update same
  have before := counted.after quiet
  have board : (((state.modifyChan chan fun entry => { entry with senders := rest }).tick
      sender).modifyChan chan update).board =
      state.board.line (.sender chan) (rest.map Prod.fst) := by
    rw [board_modifyChan _ chan update same, board_tick, shown]
  generalize (((state.modifyChan chan fun entry => { entry with senders := rest }).tick
    sender).modifyChan chan update) = acting at before board ⊢
  have doing : acting.stateOf = state.stateOf := congrArg Board.doing board
  have given : acting.board.wake = state.board.wake := by
    rw [board]
    rfl
  have free : ∀ post, sender ∉ acting.queue post := by
    intro post
    have moved : acting.queue post =
        (state.board.line (.sender chan) (rest.map Prod.fst)).queue post :=
      congrFun (congrArg Board.queue board) post
    rw [moved]
    exact stands.placed.free_of_left rfl head apart post
  obtain ⟨living, inside, unwoken⟩ := stands.waiting head
  have message : messageOf calls sender = some (chan, value) :=
    stands.voiced chan (sender, value) (by rw [senders]; exact List.mem_cons_self)
  have woken : Tracks calls nobody [.sent (some sender) chan value] acting
      (acting.makeReady sender (.ok .unit)) := by
    refine before.stands.makeReady free (by rw [doing]; exact living) (fun _ => inside) _ ?_ ?_ ?_
    · intro op called dealt paid
      rw [given, unwoken] at paid
      cases paid
      rw [dealtBy_own rfl]
      rw [messageOf, called] at message
      refine .done ?_
      cases op <;> cases message
      rfl
    · exact fun outside => absurd outside inside
    · exact fun other differs => dealtBy_other rfl differs
  refine ⟨((left.trans before).trans woken).close fun other due waits => ?_, fun other differs =>
    ?_⟩
  rotate_left
  · rw [(board_makeReady_of_ne acting differs _).2, given]
  rcases due with (⟨member, gone⟩ | due) | due
  · rw [queue] at member
    rcases List.mem_cons.mp member with rfl | later
    · have answered := (doing_makeReady_self (by rw [doing]; exact living) (.ok .unit)).2
      rw [waits.2] at answered
      cases answered
    · exact gone later
  · exact due.elim
  · exact due.elim

/-- A message is taken for whoever it will be handed to, and only its sender is woken. -/
theorem Stands.takeMessage {message : Value Data × Clock}
    (taken : state.takeMessage chan = some (message, next)) : ∃ sent : List (Traffic Data),
      (∀ receiver, state.takeLog chan receiver = sent ++ [.handed receiver chan message.1]) ∧
        Tracks calls nobody sent state next ∧ ∀ task, messageOf calls task = none →
          dealtBy task sent = [] ∧ next.board.wake task = state.board.wake task := by
  obtain ⟨entry, found, answered⟩ := Option.bind_eq_some_iff.mp taken
  simp only [takeLog, found]
  cases buffered : entry.buf with
  | cons first rest =>
    simp only [buffered, Option.some.injEq, Prod.mk.injEq] at answered ⊢
    obtain ⟨rfl, rfl⟩ := answered
    refine ⟨[], fun _ => rfl, stands.modifyChan chan (fun entry => { entry with buf := rest })
      fun _ => ⟨rfl, rfl, rfl⟩, fun task _ => ⟨rfl, ?_⟩⟩
    rw [board_modifyChan state chan (fun entry => { entry with buf := rest })
      fun _ => ⟨rfl, rfl, rfl⟩]
  | nil =>
    cases waiting : entry.senders with
    | nil => simp [buffered, waiting] at answered
    | cons first rest =>
      obtain ⟨sender, value⟩ := first
      simp only [buffered, waiting, Option.some.injEq, Prod.mk.injEq] at answered ⊢
      obtain ⟨rfl, rfl⟩ := answered
      obtain ⟨popped, others⟩ := stands.popSender found waiting
        (fun entry => { entry with sends := entry.sends + 1 }) fun _ => ⟨rfl, rfl, rfl⟩
      refine ⟨[.sent (some sender) chan value], fun _ => rfl, popped, fun task silent => ?_⟩
      have sends : messageOf calls sender = some (chan, value) := by
        refine stands.voiced chan (sender, value) ?_
        rw [sendersOf, found, Option.elim_some, waiting]
        exact List.mem_cons_self
      have differs : task ≠ sender := by
        rintro rfl
        cases silent.symm.trans sends
      exact ⟨dealtBy_other rfl differs, others task differs⟩

/-- Whoever stands in another queue than that of the senders sends nothing. -/
theorem Stands.unsending (member : task ∈ state.queue post)
    (elsewhere : ∀ chan, post ≠ .sender chan) : messageOf calls task = none := by
  obtain ⟨_, op, inside, here⟩ := stands.placed.posted post task member
  rw [messageOf, Option.mem_def.mp inside]
  revert here
  fun_cases Op.StandsAt op post with
  | case1 => exact absurd rfl (elsewhere _)
  | case7 => exact fun here => here.elim
  | _ => exact fun _ => rfl

end

/-- The waiter a message goes to stands in a queue of the channel. -/
theorem mem_queue_target (found : state.chans[chan]? = some entry) {arm : Option Nat}
    (waiter : target entry = some (task, arm)) :
    ∃ post, task ∈ state.queue post ∧
      ((arm = none ∧ post = .receiver chan) ∨ (arm.isSome ∧ post = .selecter chan)) := by
  unfold target at waiter
  cases receivers : entry.receivers with
  | cons receiver rest =>
    simp only [receivers, Option.some.injEq, Prod.mk.injEq] at waiter
    obtain ⟨rfl, rfl⟩ := waiter
    exact ⟨.receiver chan, by simp [State.queue, found, receivers], .inl ⟨rfl, rfl⟩⟩
  | nil =>
    cases selecters : entry.selecters with
    | nil => simp [receivers, selecters] at waiter
    | cons first rest =>
      obtain ⟨selecter, index⟩ := first
      simp only [receivers, selecters, Option.some.injEq, Prod.mk.injEq] at waiter
      obtain ⟨rfl, rfl⟩ := waiter
      exact ⟨.selecter chan, by simp [State.queue, found, selecters], .inr ⟨rfl, rfl⟩⟩

theorem takeLog_of_none (untaken : state.takeMessage chan = none) (receiver : TaskId) :
    state.takeLog chan receiver = [] := by
  rw [takeLog]
  cases found : state.chans[chan]? with
  | none => rfl
  | some entry =>
    rw [State.takeMessage, found, Option.bind_some] at untaken
    cases buffered : entry.buf with
    | cons first rest => simp [buffered] at untaken
    | nil =>
      cases waiting : entry.senders with
      | cons first rest => simp [buffered, waiting] at untaken
      | nil => simp only [buffered, waiting]

/-- The wake of a waiter completes the wait in its door. -/
theorem Stands.completes (stands : Stands calls state) (member : task ∈ state.queue post)
    {arm : Option Nat} (waiter : (arm = none ∧ post = .receiver chan) ∨
      (arm.isSome ∧ post = .selecter chan)) {op : Op Data} (called : calls task = some op)
    (value : Value Data) : op.Completes task (arm.elim (.ok value) fun arm => .arm arm (some value))
      (.handed task chan value) := by
  have here := stands.standsAt member called
  rcases waiter with ⟨rfl, rfl⟩ | ⟨armed, rfl⟩
  · cases op with
    | recv _ _ =>
      cases here
      rfl
    | _ => exact here.elim
  · obtain ⟨arm, rfl⟩ := Option.isSome_iff_exists.mp armed
    cases op with
    | select _ _ _ =>
      obtain ⟨pair, among, rfl⟩ := here
      exact ⟨pair, among, rfl⟩
    | _ => exact here.elim

theorem Stands.deliver (stands : Stands calls state) (member : task ∈ state.queue post)
    {arm : Option Nat} (waiter : (arm = none ∧ post = .receiver chan) ∨
      (arm.isSome ∧ post = .selecter chan)) :
    Tracks calls nobody (state.takeLog chan task) state (state.deliver chan task arm) := by
  have noted : Tracks calls nobody [] state
      (if arm.isSome then state.opSelectConsume task else state) := by
    split
    · exact stands.hidden (board_opSelectConsume state task)
        (sendersOf_of_chans (chans_opSelectConsume state task))
    · exact stands.refl
  have same : (if arm.isSome then state.opSelectConsume task else state).takeLog chan task =
      state.takeLog chan task := by
    split
    · rw [takeLog, takeLog, chans_opSelectConsume]
    · rfl
  have board : (if arm.isSome then state.opSelectConsume task else state).board = state.board := by
    split
    · exact board_opSelectConsume state task
    · rfl
  obtain ⟨living, inside, unwoken⟩ := stands.waiting member
  have silent : messageOf calls task = none := by
    refine stands.unsending member fun chan => ?_
    rcases waiter with ⟨_, rfl⟩ | ⟨_, rfl⟩ <;> simp
  have completes := fun op (called : calls task = some op) => stands.completes member waiter called
  rw [State.deliver, ← same]
  dsimp only
  generalize (if arm.isSome then state.opSelectConsume task else state) = acting at noted board ⊢
  split
  · rename_i untaken
    rw [takeLog_of_none untaken]
    exact noted
  · rename_i value senderVc next taken
    obtain ⟨sent, logged, took, others⟩ := noted.stands.takeMessage taken
    have counted := took.stands.modifyChan chan
      (fun entry => { entry with recvs := entry.recvs + 1 }) fun _ => ⟨rfl, rfl, rfl⟩
    have synced : Tracks calls nobody [] _ ((next.modifyChan chan fun entry =>
        { entry with recvs := entry.recvs + 1 }).hbEdge senderVc task) :=
      counted.stands.hidden (board_hbEdge _ senderVc task)
        (sendersOf_of_chans (chans_hbEdge _ senderVc task))
    have before := (took.then counted).then synced
    have reached := noted.after before
    have asleep : ((next.modifyChan chan fun entry =>
        { entry with recvs := entry.recvs + 1 }).hbEdge senderVc task).board.wake task = none := by
      rw [board_hbEdge, board_modifyChan next chan (fun entry =>
        { entry with recvs := entry.recvs + 1 }) fun _ => ⟨rfl, rfl, rfl⟩, (others task silent).2,
        board]
      exact unwoken
    have woken := synced.stands.rouse
      (reached.alive task inside living) (fun _ => inside)
      (arm.elim (.ok value) fun arm => .arm arm (some value)) (fun op called dealt paid => by
        rw [asleep] at paid
        cases paid
        rw [dealtBy_own rfl]
        exact .done (completes op called value)) (fun outside => absurd outside inside)
      fun other differs => show dealtBy other [.handed task chan value] = [] from
        dealtBy_other rfl differs
    rw [logged]
    exact reached.after woken

/-- A fold that wakes the task of each entry, as long as something stays so on the way. -/
theorem Stands.foldl_wakes {Entry : Type} (stands : Stands calls state)
    (step : State Data → Entry → State Data) (key : Entry → TaskId) (Stays : State Data → Prop)
    {entries : List Entry} (start : Stays state)
    (each : ∀ acting, Tracks calls nobody [] state acting → Stays acting → ∀ entry ∈ entries,
      Tracks calls nobody [] acting (step acting entry) ∧ Stays (step acting entry) ∧
        ¬ (step acting entry).board.Unwoken (key entry)) :
    Tracks calls nobody [] state (entries.foldl step state) ∧ Stays (entries.foldl step state) ∧
      ∀ entry ∈ entries, ¬ (entries.foldl step state).board.Unwoken (key entry) := by
  have from_here : ∀ rest : List Entry, rest ⊆ entries → ∀ acting,
      Tracks calls nobody [] state acting → Stays acting →
      Tracks calls nobody [] acting (rest.foldl step acting) ∧ Stays (rest.foldl step acting) ∧
        ∀ entry ∈ rest, ¬ (rest.foldl step acting).board.Unwoken (key entry) := by
    intro rest
    induction rest with
    | nil =>
      intro _ acting tracks stays
      exact ⟨tracks.stands.refl, stays, fun _ member => absurd member List.not_mem_nil⟩
    | cons entry rest induction =>
      intro within acting tracks stays
      obtain ⟨moved, stays, woken⟩ := each acting tracks stays entry (within List.mem_cons_self)
      obtain ⟨later, stays, others⟩ := induction
        (fun _ member => within (List.mem_cons_of_mem entry member)) _ (tracks.then moved) stays
      refine ⟨moved.then later, stays, fun other member => ?_⟩
      rcases List.mem_cons.mp member with rfl | member
      · exact fun waits => woken (later.asleep _ waits)
      · exact others other member
  exact from_here entries (List.Subset.refl _) state stands.refl start

theorem queue_makeReady (state : State Data) (task : TaskId) (wake : Wake Data) :
    (state.makeReady task wake).queue = state.queue := by
  have same := congrArg Board.queue (state.board_makeReady task wake)
  rw [Board.makeReady_queue] at same
  exact same

/-- Whoever waits on a channel that closes is told so. -/
theorem Stands.tell_closed (stands : Stands calls state) {tasks : List TaskId}
    (free : ∀ other ∈ tasks, ∀ post, other ∉ state.queue post)
    (living : ∀ other ∈ tasks, state.stateOf other ≠ .done)
    (inside : ∀ other ∈ tasks, calls other ≠ none)
    (unwoken : ∀ other ∈ tasks, state.board.wake other = none) : Tracks calls nobody [] state
        (tasks.foldl (fun acting other => acting.makeReady other .closed) state) ∧
      (tasks.foldl (fun acting other => acting.makeReady other .closed) state).queue = state.queue ∧
      ∀ other ∈ tasks,
        ¬ (tasks.foldl (fun acting other => acting.makeReady other .closed) state).board.Unwoken
          other := by
  have each : ∀ acting, Tracks calls nobody [] state acting →
      (acting.queue = state.queue ∧ ∀ other,
        acting.board.wake other = state.board.wake other ∨
          acting.board.wake other = some .closed) → ∀ other ∈ tasks,
      Tracks calls nobody [] acting (acting.makeReady other .closed) ∧
        ((acting.makeReady other .closed).queue = state.queue ∧ ∀ third,
          (acting.makeReady other .closed).board.wake third = state.board.wake third ∨
            (acting.makeReady other .closed).board.wake third = some .closed) ∧
        ¬ (acting.makeReady other .closed).board.Unwoken other := by
    intro acting tracks ⟨queue, wakes⟩ other member
    have alive := tracks.alive other (inside other member) (living other member)
    have answered := (doing_makeReady_self alive (.closed : Wake Data)).2
    refine ⟨tracks.stands.makeReady (by rw [queue]; exact free other member) alive
      (fun _ => inside other member) .closed ?_ (fun _ => rfl) (fun _ _ => rfl),
      ⟨(queue_makeReady acting other .closed).trans queue, ?_⟩, ?_⟩
    · intro op _ dealt paid
      rw [dealtBy_nil, List.append_nil]
      rcases wakes other with same | closed
      · rw [same, unwoken other member] at paid
        cases paid
        exact .quiet (op.quiet_of_bare rfl)
      · rw [closed] at paid
        exact paid
    · intro third
      rcases eq_or_ne third other with rfl | differs
      · exact .inr answered
      · rw [(board_makeReady_of_ne acting differs .closed).2]
        exact wakes third
    · intro waits
      rw [waits.2] at answered
      cases answered
  obtain ⟨tracks, ⟨queue, _⟩, woken⟩ := stands.foldl_wakes _ id _ ⟨rfl, fun _ => .inl rfl⟩ each
  exact ⟨tracks, queue, woken⟩

theorem queue_modifyChan (chan : ChanId) (update : Chan Data → Chan Data)
    (thinner : ∀ entry, (update entry).senders.Sublist entry.senders ∧
      (update entry).receivers.Sublist entry.receivers ∧
      (update entry).selecters.Sublist entry.selecters) (post : Post) :
    ((state.modifyChan chan update).queue post).Sublist (state.queue post) := by
  cases post with
  | sender other | receiver other | selecter other =>
    simp only [queue, State.modifyChan, List.getElem?_modify]
    cases state.chans[other]? with
    | none => exact List.Sublist.refl _
    | some entry =>
      obtain ⟨senders, receivers, selecters⟩ := thinner entry
      by_cases here : chan = other
      · simp [here, senders, receivers, selecters, List.Sublist.map]
      · simp [here]
  | timer | sleep | waiter _ => exact List.Sublist.refl _

section

variable (stands : Stands calls state)
include stands

/-- A channel may lose tasks that are due. -/
theorem Stands.thinChan (found : state.chans[chan]? = some entry) (update : Chan Data → Chan Data)
    (thinner : ∀ entry, (update entry).senders.Sublist entry.senders ∧
      (update entry).receivers.Sublist entry.receivers ∧
      (update entry).selecters.Sublist entry.selecters) {due : TaskId → Prop}
    (rest : ∀ other, ¬ due other →
      (other ∈ entry.senders.map Prod.fst → other ∈ (update entry).senders.map Prod.fst) ∧
      (other ∈ entry.receivers → other ∈ (update entry).receivers) ∧
      (other ∈ entry.selecters.map Prod.fst → other ∈ (update entry).selecters.map Prod.fst)) :
    Tracks calls due [] state (state.modifyChan chan update) := by
  refine stands.thin rfl (queue_modifyChan chan update thinner) ?_ ?_
  · intro other
    rw [sendersOf, sendersOf, State.modifyChan, List.getElem?_modify]
    cases state.chans[other]? with
    | none => exact List.Subset.refl _
    | some entry =>
      by_cases here : chan = other
      · simpa [here] using (thinner entry).1.subset
      · simp [here]
  · intro task post spared member
    obtain ⟨senders, receivers, selecters⟩ := rest task spared
    cases post with
    | sender other | receiver other | selecter other =>
      simp only [queue, State.modifyChan, List.getElem?_modify] at member ⊢
      by_cases here : chan = other
      · subst here
        simp only [found, Option.elim_some] at member
        simp only [found, if_true]
        first | exact senders member | exact receivers member | exact selecters member
      · simpa [here] using member
    | timer | sleep | waiter _ => exact member

/-- Whoever leaves the one queue it stands in stands in none. -/
theorem Stands.gone (alone : post.alone = true) (member : task ∈ state.queue post)
    (thinner : ∀ post, next.queue post ⊆ state.queue post) (left : task ∉ next.queue post)
    (other : Post) : task ∉ next.queue other := by
  intro again
  obtain ⟨_, op, inside, here⟩ := stands.placed.posted post task member
  obtain ⟨_, op', inside', there⟩ := stands.placed.posted other task (thinner other again)
  obtain rfl := Option.eq_some_unique inside inside'
  obtain rfl := here.unique alone there
  exact left again

/-- A queue is emptied, and everybody in it is told that the channel is closed. -/
theorem Stands.dismiss (alone : post.alone = true)
    (left : Tracks calls (· ∈ state.queue post) [] state next)
    (board : next.board = { state.board with queue := next.queue })
    (thinner : ∀ post, next.queue post ⊆ state.queue post) (emptied : next.queue post = []) :
    Tracks calls nobody [] state
      ((state.queue post).foldl (fun acting other => acting.makeReady other .closed) next) := by
  have doing : next.stateOf = state.stateOf := congrArg Board.doing board
  have wake : next.board.wake = state.board.wake := by rw [board]
  have free : ∀ other ∈ state.queue post, ∀ post, other ∉ next.queue post := by
    intro other member
    refine stands.gone alone member thinner ?_
    rw [emptied]
    exact List.not_mem_nil
  obtain ⟨told, _, woken⟩ := left.stands.tell_closed free
    (fun other member => by
      rw [doing]
      exact (stands.waiting member).1)
    (fun other member => (stands.waiting member).2.1)
    (fun other member => by
      rw [wake]
      exact (stands.waiting member).2.2)
  refine (left.trans told).close fun other due waits => ?_
  rcases due with member | due
  · exact woken other member waits
  · exact due.elim

/-- Everything that waits on a drained closed channel is told so. -/
theorem Stands.releaseDrained (found : state.chans[chan]? = some entry) :
    Tracks calls nobody [] state (state.releaseDrained chan entry) := by
  have receivers : state.queue (.receiver chan) = entry.receivers := by
    rw [queue, found]
    rfl
  have selecters : state.queue (.selecter chan) = entry.selecters.map Prod.fst := by
    rw [queue, found]
    rfl
  let cleared := state.modifyChan chan fun entry => { entry with receivers := [] }
  have thinner : ∀ entry : Chan Data, entry.senders.Sublist entry.senders ∧
      ([] : List TaskId).Sublist entry.receivers ∧ entry.selecters.Sublist entry.selecters :=
    fun entry => ⟨List.Sublist.refl _, List.nil_sublist _, List.Sublist.refl _⟩
  have left : Tracks calls (· ∈ entry.receivers) [] state cleared := by
    refine stands.thinChan found (fun entry => { entry with receivers := [] }) thinner
      fun other spared => ?_
    exact ⟨id, fun member => absurd member spared, id⟩
  have emptied : cleared.queue (.receiver chan) = [] := by
    simp [cleared, queue, State.modifyChan, found]
  have first : Tracks calls nobody [] state (entry.receivers.foldl
      (fun acting receiver => acting.makeReady receiver .closed) cleared) := by
    rw [← receivers]
    refine stands.dismiss rfl ?_ rfl (fun post => ?_) emptied
    · rw [receivers]
      exact left
    · exact (queue_modifyChan chan _ thinner post).subset
  have chans : (entry.receivers.foldl (fun acting receiver => acting.makeReady receiver .closed)
      cleared).chans[chan]? = some { entry with receivers := [] } := by
    rw [chans_foldl _ _ fun acting receiver => chans_makeReady acting receiver .closed]
    simp [cleared, State.modifyChan, found]
  rw [State.releaseDrained]
  change Tracks calls nobody [] state (entry.selecters.foldl _ ((entry.receivers.foldl
    (fun acting receiver => acting.makeReady receiver .closed) cleared).modifyChan chan _))
  generalize entry.receivers.foldl (fun acting receiver => acting.makeReady receiver .closed)
    cleared = acting at first chans ⊢
  have quiet : Tracks calls (· ∈ entry.selecters.map Prod.fst) [] acting
      (acting.modifyChan chan fun entry => { entry with selecters := [] }) := by
    refine first.stands.thinChan chans (fun entry => { entry with selecters := [] })
      (fun entry => ⟨List.Sublist.refl _, List.Sublist.refl _, List.nil_sublist _⟩)
      fun other spared => ?_
    exact ⟨id, id, fun member => absurd member spared⟩
  have before := first.trans quiet
  have inside : ∀ pair ∈ entry.selecters, pair.1 ∈ state.queue (.selecter chan) := by
    intro pair member
    rw [selecters]
    exact List.mem_map_of_mem member
  have unwoken : ∀ pair ∈ entry.selecters, (acting.modifyChan chan fun entry =>
      { entry with selecters := [] }).board.wake pair.1 = none := by
    intro pair member
    have stood : pair.1 ∈ acting.queue (.selecter chan) := by
      rw [queue, chans]
      exact List.mem_map_of_mem member
    exact (first.stands.waiting stood).2.2
  obtain ⟨roused, _, beyond⟩ := quiet.stands.foldl_wakes
    (fun acting pair => ((acting.opSelectConsume pair.1).deregister pair.1).makeReady pair.1
      (.arm pair.2 (some closedError))) Prod.fst
    (fun acting => ∀ pair ∈ entry.selecters, acting.board.wake pair.1 = none ∨
      ∃ arm, acting.board.wake pair.1 = some (.arm arm (some closedError)))
    (fun pair member => .inl (unwoken pair member)) (by
      intro acting tracks told pair member
      have noted : Tracks calls nobody [] acting (acting.opSelectConsume pair.1) :=
        tracks.stands.hidden (board_opSelectConsume acting pair.1)
          (sendersOf_of_chans (chans_opSelectConsume acting pair.1))
      obtain ⟨living, called, _⟩ := stands.waiting (inside pair member)
      have alive := noted.alive _ called (tracks.alive _ called (before.alive _ called living))
      have woken := noted.stands.rouse alive (fun _ => called) (.arm pair.2 (some closedError))
        (fun op inside_ dealt paid => by
          rw [dealtBy_nil, List.append_nil]
          have selects := stands.standsAt (inside pair member) inside_
          rw [board_opSelectConsume] at paid
          cases op with
          | select _ _ _ =>
            rcases told pair member with none_ | ⟨arm, given⟩
            · rw [none_] at paid
              cases paid
              exact .quiet rfl
            · rw [given] at paid
              cases paid with
              | quiet _ => exact .quiet rfl
              | done completes => exact .done completes
          | _ => exact selects.elim) (fun _ => rfl) fun _ _ => rfl
      refine ⟨noted.then woken, fun other among => ?_, not_unwoken_rouse alive _⟩
      rcases eq_or_ne other.1 pair.1 with same | differs
      · rw [same]
        exact .inr ⟨_, (doing_makeReady_self (by
          rw [show ((acting.opSelectConsume pair.1).deregister pair.1).stateOf = _ from
            congrArg Board.doing (board_deregister _ pair.1)]
          exact alive) _).2⟩
      · rw [(board_makeReady_of_ne _ differs _).2, board_deregister]
        change (acting.opSelectConsume pair.1).board.wake other.1 = none ∨ _
        rw [board_opSelectConsume]
        exact told other among)
  refine (before.trans roused).close fun other due waits => ?_
  rcases due with (due | member) | due
  · exact due.elim
  · obtain ⟨pair, there, rfl⟩ := List.mem_map.mp member
    exact beyond pair there waits
  · exact due.elim

omit stands in
theorem tracks_settling : Settling fun log (state next : State Data) =>
    Stands calls state → Tracks calls nobody log state next where
  refl _ stands := stands.refl
  trans first second stands := (first stands).after (second (first stands).stands)
  buffers found waiting stands :=
    And.left (stands.popSender found waiting _ fun _ => ⟨rfl, rfl, rfl⟩)
  drains found stands := stands.releaseDrained found
  delivers found _ waiter stands :=
    have ⟨_, member, waiting⟩ := mem_queue_target found waiter
    stands.deliver member waiting

theorem Stands.settleChan (chan : ChanId) :
    Tracks calls nobody (state.settleLog chan) state (state.settleChan chan) :=
  tracks_settling.settleChan state chan stands

end

end Waking

/-! ## Cancellation and kills -/

section Ends

variable {state next : State Data} {calls : Calls Data} {task : TaskId}

/-- A fold of steps that leave nobody due leaves nobody due. -/
theorem Stands.foldl {Entry : Type} (stands : Stands calls state)
    (step : State Data → Entry → State Data) (entries : List Entry)
    (each : ∀ acting : State Data, Stands calls acting → ∀ entry,
      Tracks calls nobody [] acting (step acting entry)) :
    Tracks calls nobody [] state (entries.foldl step state) :=
  List.foldlRecOn (motive := fun acting : State Data => Tracks calls nobody [] state acting)
    entries step stands.refl fun acting tracks entry _ =>
      tracks.then (each acting tracks.stands entry)

section

variable (stands : Stands calls state)
include stands

/-- Marks on tasks that the board does not show. -/
theorem Stands.mark (task : TaskId) (update : Tcb Data → Tcb Data)
    (same : ∀ tcb, (update tcb).state = tcb.state ∧ (update tcb).wake = tcb.wake) :
    Tracks calls nobody [] state (state.modifyTask task update) :=
  stands.hidden (state.board_modifyTask task update same)
    (sendersOf_of_chans (chans_modifyTask state task update))

theorem Stands.cancelTask (fuel : Nat) (task : TaskId) :
    Tracks calls nobody [] state (state.cancelTask fuel task) := by
  induction fuel generalizing state task with
  | zero => exact stands.refl
  | succ fuel induction =>
    obtain ⟨same, _⟩ | ⟨tcb, ops, found, ⟨same, _⟩ | ⟨owned, flagged, is_, same⟩⟩ :=
      cancelTask_cases fuel state task
    · rw [same]
      exact stands.refl
    · rw [same]
      exact stands.hidden rfl fun _ => rfl
    · rw [same]
      have noted : Tracks calls nobody [] state { state with ops } := stands.hidden rfl fun _ => rfl
      have marked := noted.then (noted.stands.mark task
        (fun tcb => { tcb with cancelled := true }) fun _ => ⟨rfl, rfl⟩)
      have doing : flagged.stateOf = state.stateOf := by
        rw [is_]
        exact congrArg Board.doing (State.board_modifyTask { state with ops } task
          (fun tcb => { tcb with cancelled := true }) fun _ => ⟨rfl, rfl⟩)
      rw [← is_] at marked
      have woken : Tracks calls nobody [] state (if tcb.state = .blocked then
          (flagged.deregister task).makeReady task .cancelled else flagged) := by
        split
        · rename_i blocked
          refine marked.then (marked.stands.rouse_blocked ?_ fun op _ => op.quiet_of_bare rfl)
          rw [doing]
          exact (state.doing_of_found found).trans blocked
        · exact marked
      exact woken.then (woken.stands.foldl _ _ fun acting there child => induction there child)

theorem Stands.cancel (task : TaskId) : Tracks calls nobody [] state (state.cancel task) :=
  stands.cancelTask _ task

theorem Stands.cancelAll (tasks : List TaskId) :
    Tracks calls nobody [] state (tasks.foldl State.cancel state) :=
  stands.foldl _ tasks fun _ there task => there.cancel task

/-- One task that no queue lists is doing something else, and the ready queue may have it. -/
theorem Stands.restate (free : ∀ post, task ∉ state.queue post) {doing : TaskState}
    {wake : Option (Wake Data)}
    (board : next.board = { state.board.set task doing wake with ready := next.ready })
    (chans : next.chans = state.chans) (nodup : next.ready.Nodup)
    (queued : ∀ other ∈ next.ready, other ∈ state.ready ∨ other = task)
    (kept : ∀ other ∈ state.ready, other ∈ next.ready) (ready : task ∈ next.ready → doing = .ready)
    (sleeps : doing ≠ .blocked)
    (awake : doing = .ready → state.Awake task → task ∈ next.ready ∧ wake ≠ none)
    (runs : doing = .running → state.stateOf task = .running ∧
      (calls task = none → wake = state.board.wake task) ∧
      (wake = none → state.board.wake task = none))
    (alive : calls task ≠ none → state.stateOf task ≠ .done → doing ≠ .done)
    (pays : ∀ op, calls task = some op → state.stateOf task ≠ .done →
      ∀ dealt, Paid task op (state.board.wake task) dealt → Paid task op wake dealt)
    (stays : state.stateOf task = .running → calls task ≠ none → doing = .running) :
    Tracks calls nobody [] state next := by
  have queue : next.queue = state.queue := congrArg Board.queue board
  have shown : next.stateOf = (state.board.set task doing wake).doing := congrArg Board.doing board
  have given : next.board.wake = (state.board.set task doing wake).wake := by rw [board]
  have self : next.stateOf task = doing := by
    rw [shown]
    exact Board.set_doing_self doing wake
  have others : ∀ other, other ≠ task → next.stateOf other = state.stateOf other ∧
      next.board.wake other = state.board.wake other := by
    intro other differs
    rw [shown, given]
    exact ⟨Board.set_doing_of_ne differs doing wake, Board.set_wake_of_ne differs doing wake⟩
  have woken : next.board.wake task = wake := by
    rw [given]
    exact Board.set_wake_self doing wake
  refine { stands := ?_, kept := ?_, asleep := ?_, awake := ?_, runs := ?_, blocks := ?_
           alive := ?_, pays := ?_, silent := ?_, stays := ?_ }
  · constructor
    · rw [board]
      refine ⟨stands.placed.posted_set free doing wake, stands.placed.single, nodup, ?_, ?_⟩
      · intro other member
        change (state.board.set task doing wake).doing other = .ready
        rcases eq_or_ne other task with rfl | differs
        · exact (Board.set_doing_self doing wake).trans (ready member)
        · rw [Board.set_doing_of_ne differs]
          rcases queued other member with before | same
          · exact stands.placed.queued other before
          · exact absurd same differs
      · intro other blocked
        change (state.board.set task doing wake).doing other = .blocked at blocked
        change (state.board.set task doing wake).wake other = none
        rcases eq_or_ne other task with rfl | differs
        · exact absurd ((Board.set_doing_self doing wake).symm.trans blocked) sleeps
        · rw [Board.set_doing_of_ne differs] at blocked
          rw [Board.set_wake_of_ne differs]
          exact stands.placed.asleep other blocked
    · intro chan pair
      rw [sendersOf_of_chans chans]
      exact stands.voiced chan pair
  · intro other post _ _ member
    rw [queue]
    exact member
  · intro other waits
    have before : next.stateOf other = .blocked ∨ next.stateOf other = .running := waits.1
    have unwoken := waits.2
    rcases eq_or_ne other task with rfl | differs
    · rw [self] at before
      rw [woken] at unwoken
      rcases before with blocked | running
      · exact absurd blocked sleeps
      · exact ⟨.inr (runs running).1, (runs running).2.2 unwoken⟩
    · rw [(others other differs).1] at before
      rw [(others other differs).2] at unwoken
      exact ⟨before, unwoken⟩
  · intro other before turned
    rcases eq_or_ne other task with rfl | differs
    · rw [self] at turned
      rw [woken]
      exact awake turned before
    · rw [(others other differs).1] at turned
      rw [(others other differs).2]
      exact ⟨kept other (before turned).1, (before turned).2⟩
  · intro other running
    rcases eq_or_ne other task with rfl | differs
    · rw [self] at running
      rw [woken]
      exact ⟨(runs running).1, (runs running).2.1⟩
    · rw [(others other differs).1] at running
      exact ⟨running, fun _ => (others other differs).2⟩
  · intro other blocked
    rcases eq_or_ne other task with rfl | differs
    · rw [self] at blocked
      exact absurd blocked sleeps
    · rw [(others other differs).1] at blocked
      exact .inl blocked
  · intro other inside living
    rcases eq_or_ne other task with rfl | differs
    · rw [self]
      exact alive inside living
    · rw [(others other differs).1]
      exact living
  · intro other op called living dealt paid
    rw [dealtBy_nil, List.append_nil]
    rcases eq_or_ne other task with rfl | differs
    · rw [woken]
      exact pays op called living dealt paid
    · rw [(others other differs).2]
      exact paid
  · exact fun _ _ => rfl
  · intro other running inside
    rcases eq_or_ne other task with rfl | differs
    · rw [self]
      exact stays running inside
    · rw [(others other differs).1]
      exact running

/-- A kill supersedes the wake of a task that has not run on. -/
theorem Stands.supersede (free : ∀ post, task ∉ state.queue post)
    (waiting : state.stateOf task = .ready ∨ state.stateOf task = .fresh) :
    Tracks calls nobody [] state
      (state.modifyTask task fun tcb => { tcb with wake := some .killed }) := by
  have living : state.board.doing task ≠ .done := by
    change state.stateOf task ≠ .done
    rcases waiting with same | same <;> rw [same] <;> simp
  obtain ⟨tcb, found⟩ := state.found_of_alive living
  have doing : tcb.state = state.stateOf task := (state.doing_of_found found).symm
  have shown := state.board_modifyTask_set (fun tcb => { tcb with wake := some .killed }) found
  rw [if_neg (by rw [doing]; exact living), doing] at shown
  refine stands.restate free shown rfl stands.placed.ready (fun _ => .inl) (fun _ => id)
    (fun member => stands.placed.queued task member) ?_ ?_ ?_ (fun _ => id) ?_
    fun running _ => running
  · rcases waiting with same | same <;> rw [same] <;> simp
  · exact fun ready awake => ⟨(awake ready).1, by simp⟩
  · intro running
    rcases waiting with same | same <;> rw [same] at running <;> cases running
  · exact fun op _ _ dealt paid => paid.struck

theorem Stands.killTask (actor task : TaskId) :
    Tracks calls nobody [] state (State.killTask actor state task) := by
  have marked := stands.mark task (fun tcb => { tcb with killed := true }) fun _ => ⟨rfl, rfl⟩
  have flagged : Tracks calls nobody [] state ((state.op actor (.taskCtl task) true).modifyTask task
      fun tcb => { tcb with killed := true }) :=
    marked.then (marked.stands.hidden rfl fun _ => rfl)
  rw [State.killTask]
  generalize (state.op actor (.taskCtl task) true).modifyTask task
    (fun tcb => { tcb with killed := true }) = acting at flagged ⊢
  have struck : (acting.stateOf task = .ready ∨ acting.stateOf task = .fresh) →
      Tracks calls nobody [] state ((acting.deregister task).modifyTask task
        fun tcb => { tcb with wake := some .killed }) := by
    intro waiting
    have gone := flagged.stands.deregister task
    have doing : (acting.deregister task).stateOf = acting.stateOf :=
      congrArg Board.doing (acting.board_deregister task)
    have killed := gone.stands.supersede (not_mem_queue_deregister acting task)
      (by rw [doing]; exact waiting)
    refine ((flagged.trans gone).trans killed).close fun other due waits => ?_
    rcases due with (due | rfl) | due
    · exact due.elim
    · have before := (gone.trans killed).asleep other waits
      have asleep : acting.stateOf other = .blocked ∨ acting.stateOf other = .running := before.1
      rcases waiting with same | same <;> rw [same] at asleep <;> simp at asleep
    · exact due.elim
  split
  · rename_i blocked
    exact flagged.then (flagged.stands.rouse_blocked blocked fun op _ => op.quiet_of_bare rfl)
  · rename_i ready
    exact struck (.inl ready)
  · rename_i fresh
    exact struck (.inr fresh)
  · exact flagged
  · exact flagged

theorem Stands.exitWith {kill : State Data → ProcId → List RegionId × State Data}
    (kills : ∀ acting : State Data, Stands calls acting → ∀ proc,
      Tracks calls nobody [] acting (kill acting proc).2) (proc : ProcId)
      (reason : ExitReason Data) :
    Tracks calls nobody [] state (state.exitWith kill proc reason).2 := by
  rw [State.exitWith]
  split
  · exact stands.refl
  · split
    · exact stands.refl
    · rename_i entry _ _
      have parked : Tracks calls nobody [] state
          ({ (state.op state.actor (.proc proc) true).modifyProc
          proc fun entry => { entry with exited := some reason } with
          pending := state.pending ++
            [{ proc, message := .error "exit" [reason.toValue]
               vc := (state.op state.actor (.proc proc) true).taskVc entry.root
               monitors := entry.monitors }] } : State Data) := stands.hidden rfl fun _ => rfl
      refine List.foldlRecOn (motive := fun answered : List RegionId × State Data =>
        Tracks calls nobody [] state answered.2) _ _ parked ?_
      rintro ⟨regions, acting⟩ before linked -
      exact before.then (kills acting before.stands linked)

theorem Stands.killProcWithin (fuel : Nat) (proc : ProcId) :
    Tracks calls nobody [] state (state.killProcWithin fuel proc).2 := by
  induction fuel generalizing state proc with
  | zero => exact stands.refl
  | succ fuel induction =>
    rw [State.killProcWithin]
    split
    · exact stands.refl
    · split
      · exact stands.refl
      · have noted : Tracks calls nobody [] state (state.op state.actor (.proc proc) true) :=
          stands.hidden rfl fun _ => rfl
        have struck := noted.then (noted.stands.foldl (State.killTask state.actor)
          (state.members proc) fun _ there task => there.killTask _ task)
        exact struck.then (struck.stands.exitWith (fun _ there proc => induction there proc)
          proc .killed)

theorem Stands.killProc (proc : ProcId) : Tracks calls nobody [] state (state.killProc proc).2 :=
  stands.killProcWithin _ proc

theorem Stands.deliverExit (proc : ProcId) (reason : ExitReason Data) :
    Tracks calls nobody [] state (state.deliverExit proc reason).2 :=
  stands.exitWith (fun _ there proc => there.killProcWithin _ proc) proc reason

end

/-- A fold of steps with logs. -/
theorem Stands.foldLog {Entry : Type} (stands : Stands calls state)
    {step : State Data → Entry → State Data} {log : State Data → Entry → List (Traffic Data)}
    (entries : List Entry) (each : ∀ acting : State Data, Stands calls acting → ∀ entry,
      Tracks calls nobody (log acting entry) acting (step acting entry)) :
    Tracks calls nobody (State.foldLog step log entries state) state
      (entries.foldl step state) := by
  induction entries generalizing state with
  | nil => exact stands.refl
  | cons entry entries induction =>
    have first := each state stands entry
    exact first.after (induction first.stands)

theorem Stands.publish (stands : Stands calls state) (actor : TaskId) (exit : PendingExit Data)
    (chan : ChanId) :
    Tracks calls nobody (publishLog actor exit state chan) state
      (publish actor exit state chan) := by
  have noted : Tracks calls nobody [] state (state.op actor (.chan chan) true) :=
    stands.hidden rfl fun _ => rfl
  have grown := noted.then (noted.stands.modifyChan chan (fun entry =>
    { entry with buf := entry.buf ++ [(exit.message, exit.vc)], sends := entry.sends + 1 })
    fun _ => ⟨rfl, rfl, rfl⟩)
  have settled := grown.after (grown.stands.settleChan chan)
  refine settled.relog fun task => ?_
  rw [publishLog]
  cases found : state.chans[chan]? with
  | none =>
    have absent : (((state.op actor (.chan chan) true).modifyChan chan fun entry =>
        { entry with buf := entry.buf ++ [(exit.message, exit.vc)]
                     sends := entry.sends + 1 }).chans[chan]?) = none := by
      simp [State.modifyChan, State.op, found]
    rw [settleLog, absent]
    simp [settleLoopLog]
  | some entry => rfl

theorem Stands.publishPending (stands : Stands calls state) :
    Tracks calls nobody state.publishPendingLog state state.publishPending := by
  have emptied : Tracks calls nobody [] state { state with pending := [] } :=
    stands.hidden rfl fun _ => rfl
  exact emptied.after (emptied.stands.foldLog state.pending fun acting there exit =>
    there.foldLog exit.monitors fun acting there chan => there.publish _ exit chan)

end Ends

end State

end WolfInterp.Sched
