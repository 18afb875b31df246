import WolfInterp.Lib.Execution
import WolfInterp.Sched.State

/-!
# The scheduler's doors

Every operation a task can call, and the baton. A door either answers at once and keeps the baton,
or parks its task, or hands the baton on when its task has ended; the step of the machine is a door
followed by what the baton does. A join that is woken is called again by its task.
-/

namespace WolfInterp.Sched

open Execution

/-- What a channel or mutex operation resolved to. -/
inductive Resolved (Data : Type) where
  | value (value : Value Data)
  | err (value : Value Data)
  | killed
  | deadlock (roster : String)

/-- What raced with what. -/
structure RaceReport where
  otherTask : String
  otherWrite : Bool
  deriving DecidableEq

/-- What a door answers. -/
inductive Answer (Data : Type) where
  | unit
  | id (id : Nat)
  | proc (proc : ProcId) (root : TaskId)
  | resolved (resolved : Resolved Data)
  | arm (arm : Nat) (value : Option (Value Data))
  | joined (failures : List (TaskEnd Data))
  | regions (regions : List RegionId)
  | race (report : Option RaceReport)
  | resumed (task : TaskId) (wake : Option (Wake Data))
  | idle

/-- How a door leaves the baton. -/
inductive Turn (Data : Type) where
  | keeps (answer : Answer Data) (state : State Data)
  | parks (me : TaskId) (state : State Data)
  | hands (state : State Data)

variable {Data : Type}

/-- The drained-closed error value. -/
def closedError : Value Data := .error "closed" []

/-- The cancellation-at-a-blocking-point error value. -/
def cancelledError : Value Data := .error "cancelled" []

/-- What a wake resolves a blocked channel or mutex operation to. -/
def Wake.resolve : Wake Data → Option (Resolved Data)
  | .ok value => some (.value value)
  | .closed => some (.err closedError)
  | .cancelled => some (.err cancelledError)
  | .killed => some .killed
  | .deadlock roster => some (.deadlock roster)
  | .arm _ _ => none

namespace State

/-! ## Settling a channel -/

/-- Move blocked senders into buffer space. -/
def fillBuffer : Nat → State Data → ChanId → State Data
  | 0, state, _ => state
  | fuel + 1, state, chan =>
    match state.chans[chan]? with
    | none => state
    | some entry =>
      match entry.senders with
      | [] => state
      | (sender, value) :: rest =>
        if entry.buf.length < entry.cap then
          let vc := state.taskVc sender
          let state := (state.modifyChan chan fun entry =>
            { entry with senders := rest }).tick sender
          let state := state.modifyChan chan fun entry =>
            { entry with buf := entry.buf ++ [(value, vc)], sends := entry.sends + 1 }
          fillBuffer fuel (state.makeReady sender (.ok .unit)) chan
        else state

/-- Take the next deliverable message: buffer first, else a blocked sender's rendezvous value. -/
def takeMessage (state : State Data) (chan : ChanId) :
    Option ((Value Data × Clock) × State Data) :=
  (state.chans[chan]?).bind fun entry =>
    match entry.buf with
    | message :: rest =>
      some (message, state.modifyChan chan fun entry => { entry with buf := rest })
    | [] =>
      match entry.senders with
      | [] => none
      | (sender, value) :: rest =>
        let vc := state.taskVc sender
        let state := (state.modifyChan chan fun entry =>
          { entry with senders := rest }).tick sender
        let state := state.modifyChan chan fun entry => { entry with sends := entry.sends + 1 }
        some ((value, vc), state.makeReady sender (.ok .unit))

/-- Release everything that waits on a drained closed channel with the closed error. -/
def releaseDrained (state : State Data) (chan : ChanId) (entry : Chan Data) : State Data :=
  let state := entry.receivers.foldl (fun state receiver => state.makeReady receiver .closed)
    (state.modifyChan chan fun entry => { entry with receivers := [] })
  entry.selecters.foldl
    (fun state pair =>
      ((state.opSelectConsume pair.1).deregister pair.1).makeReady pair.1
        (.arm pair.2 (some closedError)))
    (state.modifyChan chan fun entry => { entry with selecters := [] })

/-- The waiter the next message goes to: a receiver, else a `select` registration. -/
def target (entry : Chan Data) : Option (TaskId × Option Nat) :=
  match entry.receivers, entry.selecters with
  | receiver :: _, _ => some (receiver, none)
  | [], (task, arm) :: _ => some (task, some arm)
  | [], [] => none

/-- Hand the next message to a waiter. -/
def deliver (state : State Data) (chan : ChanId) (task : TaskId) (arm : Option Nat) :
    State Data :=
  let state := if arm.isSome then state.opSelectConsume task else state
  match state.takeMessage chan with
  | none => state
  | some ((value, senderVc), state) =>
    let state := state.modifyChan chan fun entry => { entry with recvs := entry.recvs + 1 }
    let state := (state.hbEdge senderVc task).deregister task
    state.makeReady task (arm.elim (.ok value) fun arm => .arm arm (some value))

/-- Complete whatever can complete now, message by message. -/
def settleLoop : Nat → State Data → ChanId → State Data
  | 0, state, _ => state
  | fuel + 1, state, chan =>
    let state :=
      state.fillBuffer ((state.chans[chan]?).elim 0 fun entry => entry.senders.length) chan
    match state.chans[chan]? with
    | none => state
    | some entry =>
      if entry.buf.isEmpty ∧ entry.senders.isEmpty then
        if entry.closed then state.releaseDrained chan entry else state
      else
        match target entry with
        | none => state
        | some (task, arm) => settleLoop fuel (state.deliver chan task arm) chan

/-- After a state change on a channel, complete whatever can complete now. Every round but the
last takes a message, so one round more than there are messages suffices. -/
def settleChan (state : State Data) (chan : ChanId) : State Data :=
  state.settleLoop
    ((state.chans[chan]?).elim 0 fun entry => entry.buf.length + entry.senders.length + 1) chan

/-! ## Cancellation, kill, exit -/

/-- Request cooperative cancellation, down into every scope the task owns. Every task on the way
down is cancelled for the first time, so the number of tasks bounds the depth. -/
def cancelTask : Nat → State Data → TaskId → State Data
  | 0, state, _ => state
  | fuel + 1, state, task =>
    match state.tasks[task]? with
    | none => state
    | some tcb =>
      let state :=
        if tcb.state ≠ .done then state.op state.actor (.taskCtl task) true else state
      if tcb.state = .done ∨ tcb.cancelled = true ∨ tcb.killed = true then state
      else
        let state := state.modifyTask task fun tcb => { tcb with cancelled := true }
        let state := if tcb.state = .blocked then
          (state.deregister task).makeReady task .cancelled else state
        let owned := (state.scopes.filter fun scope => scope.owner = task).flatMap
          ScopeState.children
        owned.foldl (cancelTask fuel) state

/-- One level of a cancellation: a task that can still be cancelled is flagged, and woken where it
is blocked, before the tasks that it owns are cancelled. -/
theorem cancelTask_cases (fuel : Nat) (state : State Data) (task : TaskId) :
    state.cancelTask (fuel + 1) task = state ∧ state.tasks[task]? = none ∨
      ∃ tcb ops, state.tasks[task]? = some tcb ∧
        (state.cancelTask (fuel + 1) task = { state with ops } ∧
            (tcb.state = .done ∨ tcb.cancelled = true ∨ tcb.killed = true) ∨
          ∃ (owned : List TaskId) (flagged : _), flagged = State.modifyTask { state with ops } task
              (fun tcb => { tcb with cancelled := true }) ∧
            state.cancelTask (fuel + 1) task = owned.foldl (cancelTask fuel)
              (if tcb.state = .blocked then
                (flagged.deregister task).makeReady task .cancelled else flagged)) := by
  cases found : state.tasks[task]? with
  | none => exact .inl ⟨by rw [cancelTask, found], rfl⟩
  | some tcb =>
    obtain ⟨ops, noted⟩ : ∃ ops, (if tcb.state ≠ .done then
        state.op state.actor (.taskCtl task) true else state) = { state with ops } := by
      split <;> exact ⟨_, rfl⟩
    refine .inr ⟨tcb, ops, rfl, ?_⟩
    rw [cancelTask, found]
    dsimp only
    rw [noted]
    split
    · exact .inl ⟨rfl, ‹_›⟩
    · exact .inr ⟨_, _, rfl, rfl⟩

def cancel (state : State Data) (task : TaskId) : State Data :=
  state.cancelTask (state.tasks.length + 1) task

/-- Record a proc's exit and park its reason; an abnormal exit kills every link. Answers the
regions to bulk-free. -/
def exitWith (kill : State Data → ProcId → List RegionId × State Data) (state : State Data)
    (proc : ProcId) (reason : ExitReason Data) : List RegionId × State Data :=
  match state.procs[proc]? with
  | none => ([], state)
  | some entry =>
    if entry.exited.isSome then ([], state)
    else
      let state := (state.op state.actor (.proc proc) true).modifyProc proc fun entry =>
        { entry with exited := some reason }
      let state := { state with
        pending := state.pending ++
          [{ proc, message := .error "exit" [reason.toValue], vc := state.taskVc entry.root,
             monitors := entry.monitors }] }
      let links := match reason with
        | .normal _ => []
        | _ => entry.links
      links.foldl
        (fun (regions, state) linked =>
          let (more, state) := kill state linked
          (regions ++ more, state))
        (entry.region.toList, state)

/-- Kill one task of a killed proc. -/
def killTask (actor : TaskId) (state : State Data) (task : TaskId) : State Data :=
  let state := (state.op actor (.taskCtl task) true).modifyTask task fun tcb =>
    { tcb with killed := true }
  match state.stateOf task with
  | .blocked => (state.deregister task).makeReady task .killed
  | .ready | .fresh =>
    (state.deregister task).modifyTask task fun tcb => { tcb with wake := some .killed }
  | .running | .done => state

/-- The tasks of a proc that have not ended. -/
def members (state : State Data) (proc : ProcId) : List TaskId :=
  (List.range state.tasks.length).filter fun task =>
    (state.tasks[task]?).any fun tcb => tcb.proc = proc ∧ tcb.state ≠ .done

/-- The killed-proc sequence. Every proc on the way through the links exits for the first time, so
the number of procs bounds the depth. -/
def killProcWithin : Nat → State Data → ProcId → List RegionId × State Data
  | 0, state, _ => ([], state)
  | fuel + 1, state, proc =>
    match state.procs[proc]? with
    | none => ([], state)
    | some entry =>
      if entry.exited.isSome then ([], state)
      else
        let actor := state.actor
        let members := state.members proc
        let state := members.foldl (killTask actor) (state.op actor (.proc proc) true)
        state.exitWith (killProcWithin fuel) proc .killed

def killProc (state : State Data) (proc : ProcId) : List RegionId × State Data :=
  state.killProcWithin (state.procs.length + 1) proc

def deliverExit (state : State Data) (proc : ProcId) (reason : ExitReason Data) :
    List RegionId × State Data :=
  state.exitWith (killProcWithin (state.procs.length + 1)) proc reason

/-- Deliver one parked reason to one monitor. -/
def publish (actor : TaskId) (exit : PendingExit Data) (state : State Data) (chan : ChanId) :
    State Data :=
  let state := (state.op actor (.chan chan) true).modifyChan chan fun entry =>
    { entry with buf := entry.buf ++ [(exit.message, exit.vc)], sends := entry.sends + 1 }
  state.settleChan chan

/-- Publish every parked exit reason, in the order the procs exited. -/
def publishPending (state : State Data) : State Data :=
  state.pending.foldl (fun acting exit => exit.monitors.foldl (publish state.actor exit) acting)
    { state with pending := [] }

/-! ## The baton -/

/-- Let a task run; it takes its wake with it. -/
def resume (state : State Data) (task : TaskId) : Answer Data × State Data :=
  (.resumed task ((state.tasks[task]?).bind Tcb.wake),
    state.modifyTask task fun tcb => { tcb with state := .running, wake := none })

/-- Let the next task run, when there is one. -/
def runNext (choice : Option TaskId × State Data) : Answer Data × State Data :=
  match choice with
  | (some next, state) => state.resume next
  | (none, state) => (.idle, state)

/-- The parked task on its way out: blocked, or back in the queue when its wake has arrived. -/
def lieDown (state : State Data) (me : TaskId) : State Data :=
  if ((state.tasks[me]?).bind Tcb.wake).isNone then
    state.modifyTask me fun tcb => { tcb with state := .blocked }
  else
    { state.modifyTask me fun tcb => { tcb with state := .ready } with ready :=
      state.ready ++ [me] }

/-- Park the running task and let another one run. -/
def park (state : State Data) (me : TaskId) : Answer Data × State Data :=
  match (state.lieDown me).chooseNext with
  | (some next, state) => state.resume next
  | (none, state) => runNext state.declareDeadlock.chooseNext

/-- Hand the baton on when a task has ended. -/
def dispatchNext (state : State Data) : Answer Data × State Data :=
  match state.chooseNext with
  | (some next, state) => state.resume next
  | (none, state) =>
    if state.blocked.isEmpty then (.idle, state) else runNext state.declareDeadlock.chooseNext

/-! ## Doors -/

/-- The checks a blocking door makes first: a killed or a cancelled task is told so. -/
def refused (state : State Data) (me : TaskId) : Option (Resolved Data) :=
  (state.tasks[me]?).bind fun tcb =>
    if tcb.killed then some .killed
    else if tcb.cancelled then some (.err cancelledError)
    else none

/-- A door whose operation completed synchronously consumes its wake; otherwise its task parks. -/
def immediate (state : State Data) (me : TaskId) : Option (Turn Data) :=
  match (state.tasks[me]?).bind Tcb.wake with
  | none => some (.parks me state)
  | some wake => wake.resolve.map fun resolved =>
    .keeps (.resolved resolved) (state.modifyTask me fun tcb => { tcb with wake := none })

def newChan (state : State Data) (cap : Nat) : ChanId × State Data :=
  (state.chans.length, { state with chans := state.chans ++ [{ cap }] })

/-- Send on a channel. -/
def send (state : State Data) (me : TaskId) (chan : ChanId) (value : Value Data) :
    Option (Turn Data) :=
  match state.refused me with
  | some resolved => some (.keeps (.resolved resolved) state)
  | none =>
    let state := (state.op me (.taskCtl me) false).op me (.chan chan) true
    (state.chans[chan]?).bind fun entry =>
      if entry.closed then some (.keeps (.resolved (.err closedError)) state)
      else
        let state := state.modifyChan chan fun entry =>
          { entry with senders := entry.senders ++ [(me, value)] }
        (state.settleChan chan).immediate me

/-- Receive from a channel. -/
def recv (state : State Data) (me : TaskId) (chan : ChanId) : Option (Turn Data) :=
  match state.refused me with
  | some resolved => some (.keeps (.resolved resolved) state)
  | none =>
    let state := (state.op me (.taskCtl me) false).op me (.chan chan) true
    (state.chans[chan]?).bind fun _ =>
      let state := state.modifyChan chan fun entry =>
        { entry with receivers := entry.receivers ++ [me] }
      (state.settleChan chan).immediate me

/-- Close a channel. -/
def close (state : State Data) (chan : ChanId) : Option (State Data) :=
  (state.chans[chan]?).map fun entry =>
    if entry.closed then state
    else
      let state := (state.op state.actor (.chan chan) true).modifyChan chan fun entry =>
        { entry with closed := true, senders := [] }
      (entry.senders.foldl (fun state pair => state.makeReady pair.1 .closed) state).settleChan chan

/-- Is a receive arm on this channel ready? -/
def armReady (entry : Chan Data) : Bool :=
  !entry.buf.isEmpty || !entry.senders.isEmpty || entry.closed

/-- The arms of a `select` that are ready now. -/
def readyArms (state : State Data) (arms : List (Nat × ChanId)) (timeout : Option (Nat × Nat)) :
    List Nat :=
  ((arms.filter fun pair => (state.chans[pair.2]?).any armReady).map Prod.fst) ++
    ((timeout.filter fun limit => limit.2 ≤ state.clock).map Prod.fst).toList

/-- Register a `select` on every arm and its timer. -/
def registerSelect (state : State Data) (me : TaskId) (arms : List (Nat × ChanId))
    (timeout : Option (Nat × Nat)) : State Data :=
  let state := arms.foldl
    (fun state pair => state.modifyChan pair.2 fun entry =>
      { entry with selecters := entry.selecters ++ [(me, pair.1)] }) state
  match timeout with
  | none => state
  | some (arm, deadline) =>
    { state with
      timers := state.timers ++ [{ deadline, seq := state.timerSeq, task := me, arm }]
      timerSeq := state.timerSeq + 1 }

/-- Commit a receive arm that is ready. -/
def commitArm (state : State Data) (me : TaskId) (arm : Nat) (chan : ChanId) :
    Option (Turn Data) :=
  (state.chans[chan]?).bind fun entry =>
    if entry.buf.isEmpty ∧ entry.senders.isEmpty then
      some (.keeps (.arm arm (some closedError)) state)
    else
      (state.takeMessage chan).map fun ((value, vc), state) =>
        let state := state.modifyChan chan fun entry => { entry with recvs := entry.recvs + 1 }
        .keeps (.arm arm (some value)) (state.hbEdge vc me)

/-- One `select`: readiness first, then the seeded choice commits; with none ready, block on every
arm. -/
def select (state : State Data) (me : TaskId) (arms : List (Nat × ChanId))
    (timeout : Option (Nat × Nat)) : Option (Turn Data) :=
  match state.refused me with
  | some resolved => some (.keeps (.resolved resolved) state)
  | none =>
    let state := arms.foldl (fun state pair => state.op me (.chan pair.2) true)
      (state.op me (.taskCtl me) false)
    if ¬ ∀ pair ∈ arms, pair.2 < state.chans.length then none
    else
      let ready := state.readyArms arms timeout
      if ready.isEmpty then some (.parks me (state.registerSelect me arms timeout))
      else
        let (pick, state) := state.decide .arm ready
        (ready[pick]?).bind fun arm =>
          if timeout.any fun limit => limit.1 = arm then some (.keeps (.arm arm none) state)
          else (arms.find? fun pair => pair.1 = arm).bind fun pair =>
            state.commitArm me arm pair.2

def newMutex (state : State Data) (value : Value Data) : MutexId × State Data :=
  (state.mutexes.length, { state with mutexes := state.mutexes ++ [{ value }] })

/-- Make a task the holder of a mutex; it inherits the mutex's clock. -/
def grant (state : State Data) (mutex : MutexId) (task : TaskId) : State Data :=
  let state := state.modifyMutex mutex fun entry =>
    { entry with holder := some task, acquisitions := entry.acquisitions + 1 }
  state.hbEdge ((state.mutexes[mutex]?).elim [] Mx.vc) task

/-- Acquire one mutex of a `when` set. -/
def acquire (state : State Data) (me : TaskId) (mutex : MutexId) : Option (Turn Data) :=
  match state.refused me with
  | some resolved => some (.keeps (.resolved resolved) state)
  | none =>
    let state := (state.op me (.taskCtl me) false).op me (.mutex mutex) true
    (state.mutexes[mutex]?).map fun entry =>
      if entry.holder.isNone then .keeps (.resolved (.value entry.value)) (state.grant mutex me)
      else
        .parks me (state.modifyMutex mutex fun entry =>
          { entry with waiters := entry.waiters ++ [me] })

/-- Release a mutex, writing the payload back, and grant it to the next waiter. -/
def release (state : State Data) (me : TaskId) (mutex : MutexId) (value : Value Data) :
    Option (State Data) :=
  (state.mutexes[mutex]?).bind fun entry =>
    if entry.holder ≠ some me then none
    else
      let state := state.op me (.mutex mutex) true
      let vc := state.taskVc me
      let state := (state.modifyMutex mutex fun entry =>
        { entry with value, holder := none, vc := mergeVc entry.vc vc }).tick me
      match entry.waiters with
      | [] => some state
      | next :: rest =>
        let state := (state.modifyMutex mutex fun entry => { entry with waiters := rest }).grant
          mutex next
        some (state.makeReady next (.ok value))

/-- Open a scope. -/
def openScope (state : State Data) (owner : TaskId) : ScopeId × State Data :=
  (state.scopes.length, { state with scopes := state.scopes ++ [{ owner }] })

/-- Commit a spawn. -/
def spawnTask (state : State Data) (parent : TaskId) (scope : Option ScopeId) (proc : ProcId)
    (name : String) : TaskId × State Data :=
  let id := state.tasks.length
  let vc := state.taskVc parent
  let state := state.tick parent
  let state := ({ state with
    tasks := state.tasks ++ [{ name, state := .fresh, proc, scope, vc }] } : State Data).tick id
  let state := match scope with
    | none => state
    | some scope => state.modifyScope scope fun entry =>
      { entry with children := entry.children ++ [id] }
  let state := state.modifyTask id fun tcb => { tcb with state := .ready, wake := some (.ok .unit) }
  (id, { state with concurrent := true, ready := state.ready ++ [id] })

/-- Have all children of a scope ended? -/
def allDone (state : State Data) (children : List TaskId) : Bool :=
  children.all fun child => state.stateOf child = .done

/-- The scope-exit join. -/
def joinScope (state : State Data) (me : TaskId) (scope : ScopeId) : Option (Turn Data) :=
  let state := state.op me (.scope scope) false
  (state.scopes[scope]?).map fun entry =>
    if state.allDone entry.children then
      let state := state.modifyScope scope fun entry => { entry with joining := false }
      .keeps (.joined entry.failures)
        (entry.children.foldl (fun state child => state.hbEdge (state.taskVc child) me) state)
    else .parks me (state.modifyScope scope fun entry => { entry with joining := true })

/-- Cancel every live child of a scope. -/
def cancelScope (state : State Data) (scope : ScopeId) : Option (State Data) :=
  (state.scopes[scope]?).map fun entry => entry.children.foldl cancel state

/-- Does an end write a scope's failure ledger? -/
def TaskEnd.failing : TaskEnd Data → Bool
  | .error .. | .trapped _ | .ub _ | .unsupported _ => true
  | .value _ | .cancelled | .killed => false

/-- What an end is recorded as. -/
def TaskEnd.settled (ended : TaskEnd Data) (cancelled killed : Bool) : TaskEnd Data :=
  match ended with
  | .error tag payload =>
    if killed then .killed else if cancelled then .cancelled else .error tag payload
  | .value value => if killed then .killed else .value value
  | other => other

/-- The exit reason a root task's end gives its proc. -/
def TaskEnd.reason : TaskEnd Data → ExitReason Data
  | .value value => .normal value
  | .error tag payload => .error tag payload
  | .trapped kind => .fault kind
  | .ub anchor => .error "ub" [.str anchor]
  | .unsupported reason => .error "unsupported" [.str reason]
  | .cancelled => .cancelled
  | .killed => .killed

/-- A failing child cancels its siblings and a scope owner blocked elsewhere than at the join. -/
def failScope (state : State Data) (me : TaskId) (scope : ScopeId) (ended : TaskEnd Data) :
    State Data :=
  let state := state.modifyScope scope fun entry =>
    { entry with failures := entry.failures ++ [ended] }
  match state.scopes[scope]? with
  | none => state
  | some entry =>
    let state := (entry.children.filter (· ≠ me)).foldl cancel state
    if ¬ entry.joining ∧ state.stateOf entry.owner = .blocked then state.cancel entry.owner
    else state

/-- Wake an owner that waits at the join when all children have ended. -/
def wakeJoiner (state : State Data) (scope : ScopeId) : State Data :=
  match state.scopes[scope]? with
  | none => state
  | some entry =>
    if entry.joining ∧ state.allDone entry.children then state.wakeBlocked entry.owner (.ok .unit)
    else state

/-- Settle the scope of a task that has ended. -/
def settleScope (state : State Data) (me : TaskId) (scope : ScopeId) (ended : TaskEnd Data) :
    State Data :=
  let state := state.op me (.scope scope) (TaskEnd.failing ended)
  (if TaskEnd.failing ended then state.failScope me scope ended else state).wakeJoiner scope

/-- Record the end of a task and settle its scope. -/
def recordEnd (state : State Data) (me : TaskId) (scope : Option ScopeId) (ended : TaskEnd Data) :
    State Data :=
  let state := state.modifyTask me fun tcb => { tcb with state := .done, outcome := some ended }
  match scope with
  | none => state
  | some scope => state.settleScope me scope ended

/-- A task's execution finished. -/
def endTask (state : State Data) (me : TaskId) (ended : TaskEnd Data) :
    Option (List RegionId × State Data) :=
  (state.tasks[me]?).map fun tcb =>
    let ended := TaskEnd.settled ended tcb.cancelled tcb.killed
    let state := (state.op me (.taskCtl me) false).recordEnd me tcb.scope ended
    if tcb.proc ≠ 0 ∧ (state.procs[tcb.proc]?).any fun entry => entry.root = me then
      state.deliverExit tcb.proc (TaskEnd.reason ended)
    else ([], state)

/-- Register a proc under the root supervisor. -/
def spawnProc (state : State Data) (parent : TaskId) (name : String) (region : RegionId) :
    (ProcId × TaskId) × State Data :=
  let proc := state.procs.length
  let state : State Data :=
    { state with procs := state.procs ++ [{ name, root := 0, region := some region }] }
  let (root, state) :=
    (state.op parent (.proc proc) true).spawnTask parent none proc s!"proc:{name}"
  ((proc, root), state.modifyProc proc fun entry => { entry with root })

/-- An unbounded mailbox the exit reason will arrive on. -/
def monitor (state : State Data) (proc : ProcId) : Option (ChanId × State Data) :=
  let (chan, state) := state.newChan (2 ^ 64 - 1)
  (state.procs[proc]?).map fun entry =>
    let state := (state.op state.actor (.proc proc) true).modifyProc proc fun entry =>
      { entry with monitors := entry.monitors ++ [chan] }
    match entry.exited with
    | none => (chan, state)
    | some reason =>
      let vc := state.taskVc entry.root
      (chan, state.modifyChan chan fun entry =>
        { entry with
          buf := entry.buf ++ [(.error "exit" [reason.toValue], vc)], sends := entry.sends + 1 })

/-- Symmetric fate coupling. -/
def link (state : State Data) (first second : ProcId) : Option (State Data) :=
  if ¬ (first < state.procs.length ∧ second < state.procs.length) then none
  else
    let join := fun (other : ProcId) (entry : Proc Data) =>
      if other ∈ entry.links then entry else { entry with links := entry.links ++ [other] }
    let actor := state.actor
    let state := (state.op actor (.proc first) true).op actor (.proc second) true
    some ((state.modifyProc first (join second)).modifyProc second (join first))

/-- Cancel a proc's task tree. -/
def cancelProc (state : State Data) (proc : ProcId) : State Data :=
  let state := state.op state.actor (.proc proc) true
  (state.members proc).foldl cancel state

/-- Yield through the ready queue. -/
def netYield (state : State Data) (me : TaskId) : State Data :=
  state.modifyTask me fun tcb => { tcb with wake := tcb.wake.or (some (.ok .unit)) }

/-- Register a real-time wakeup. -/
def sleepFor (state : State Data) (me : TaskId) (duration : Nat) : State Data :=
  { state with
    realSleeps :=
      state.realSleeps ++ [{ due := state.wall + duration, seq := state.sleepSeq, task := me }]
    sleepSeq := state.sleepSeq + 1 }

/-! ## The race detector -/

/-- The first access in a history that conflicts with an access and that its clock does not
order. -/
def unorderedConflict (history : List Access) (me : TaskId) (vc : Clock) (lo hi : Nat)
    (write : Bool) : Option (TaskId × Bool) :=
  (history.find? fun prior =>
    prior.task ≠ me ∧ (prior.write ∨ write) ∧ prior.lo < hi ∧ lo < prior.hi ∧
      (vc[prior.task]?).getD 0 < prior.tick).map fun prior => (prior.task, prior.write)

def raceReport (state : State Data) (found : TaskId × Bool) : RaceReport :=
  ⟨s!"`{state.nameOf found.1}` (task {found.1})", found.2⟩

/-- Check one access against the happens-before order and remember it. -/
def raceCheck (state : State Data) (me : TaskId) (key : RaceKey) (lo hi : Nat) (write : Bool) :
    Option RaceReport × State Data :=
  if state.concurrent = false then (none, state)
  else
    let state := state.op me (.mem key) write
    let vc := state.taskVc me
    match (unorderedConflict (state.accesses key) me vc lo hi write).or
        (unorderedConflict (state.atomicAccesses key) me vc lo hi write) with
    | some found => (some (state.raceReport found), state)
    | none =>
      let tick := (vc[me]?).getD 0
      (none, { state with
        accesses := Function.update state.accesses key
          (state.accesses key ++ [{ task := me, tick, lo, hi, write }]) })

/-- Remember the latest atomic access of a task to a range. -/
def recordAtomic (history : List Access) (latest : Access) : List Access :=
  match history.findIdx? fun prior => prior.task = latest.task ∧ prior.lo = latest.lo ∧
      prior.hi = latest.hi ∧ prior.write = latest.write with
  | some index => history.modify index fun prior => { prior with tick := latest.tick }
  | none => history ++ [latest]

/-- One atomic operation: acquire the location's clock, check against the plain accesses, release
into the location's clock. -/
def atomicAccess (state : State Data) (me : TaskId) (key : RaceKey) (lo hi : Nat)
    (write : Bool) : Option RaceReport × State Data :=
  if state.concurrent = false then (none, state)
  else
    let state := state.op me (.mem key) write
    let state := state.modifyTask me fun tcb =>
      { tcb with vc := mergeVc tcb.vc (state.atomicClocks (key, lo)) }
    let vc := state.taskVc me
    match unorderedConflict (state.accesses key) me vc lo hi write with
    | some found => (some (state.raceReport found), state)
    | none =>
      let tick := (vc[me]?).getD 0
      (none, ({ state with
        atomicAccesses := Function.update state.atomicAccesses key
          (recordAtomic (state.atomicAccesses key) { task := me, tick, lo, hi, write })
        atomicClocks := Function.update state.atomicClocks (key, lo)
          (mergeVc (state.atomicClocks (key, lo)) vc) } : State Data).tick me)

end State

/-! ## The machine -/

/-- The doors, with the task that calls them where the source takes one. -/
inductive Op (Data : Type) where
  | newChan (cap : Nat)
  | send (me : TaskId) (chan : ChanId) (value : Value Data)
  | recv (me : TaskId) (chan : ChanId)
  | close (chan : ChanId)
  | select (me : TaskId) (arms : List (Nat × ChanId)) (timeout : Option (Nat × Nat))
  | newMutex (value : Value Data)
  | acquire (me : TaskId) (mutex : MutexId)
  | release (me : TaskId) (mutex : MutexId) (value : Value Data)
  | openScope (owner : TaskId)
  | spawnTask (parent : TaskId) (scope : Option ScopeId) (name : String)
  | joinScope (me : TaskId) (scope : ScopeId)
  | cancelScope (scope : ScopeId)
  | endTask (me : TaskId) (ended : TaskEnd Data)
  | dispatchNext
  | spawnProc (parent : TaskId) (name : String) (region : RegionId)
  | monitor (proc : ProcId)
  | link (first second : ProcId)
  | kill (proc : ProcId)
  | deliverPending
  | cancelProc (proc : ProcId)
  | netYield (me : TaskId)
  | sleepPark (me : TaskId) (duration : Nat)
  | raceCheck (me : TaskId) (key : RaceKey) (lo hi : Nat) (write : Bool)
  | atomicAccess (me : TaskId) (key : RaceKey) (lo hi : Nat) (write : Bool)
  | reseed (seed : UInt64)
  | elapse (wall late : Nat)

/-- The task that calls a door, where the source takes one. -/
def Op.caller : Op Data → Option TaskId
  | .send me _ _ | .recv me _ | .select me _ _ | .acquire me _ | .release me _ _ | .openScope me
  | .spawnTask me _ _ | .joinScope me _ | .endTask me _ | .spawnProc me _ _ | .netYield me
  | .sleepPark me _ | .raceCheck me _ _ _ _ | .atomicAccess me _ _ _ _ => some me
  | .newChan _ | .close _ | .newMutex _ | .cancelScope _ | .dispatchNext | .monitor _ | .link _ _
  | .kill _ | .deliverPending | .cancelProc _ | .reseed _ | .elapse _ _ => none

namespace State

/-- A door. A spawned task joins the proc of its parent. -/
def enter (state : State Data) : Op Data → Option (Turn Data)
  | .newChan cap =>
    let (id, state) := state.newChan cap
    some (.keeps (.id id) state)
  | .send me chan value => state.send me chan value
  | .recv me chan => state.recv me chan
  | .close chan => (state.close chan).map (.keeps .unit)
  | .select me arms timeout => state.select me arms timeout
  | .newMutex value =>
    let (id, state) := state.newMutex value
    some (.keeps (.id id) state)
  | .acquire me mutex => state.acquire me mutex
  | .release me mutex value => (state.release me mutex value).map (.keeps .unit)
  | .openScope owner =>
    let (id, state) := state.openScope owner
    some (.keeps (.id id) state)
  | .spawnTask parent scope name =>
    if scope.any fun scope => ¬ scope < state.scopes.length then none
    else (state.tasks[parent]?).map fun tcb =>
      let (id, state) := state.spawnTask parent scope tcb.proc name
      .keeps (.id id) state
  | .joinScope me scope => state.joinScope me scope
  | .cancelScope scope => (state.cancelScope scope).map (.keeps .unit)
  | .endTask me ended => (state.endTask me ended).map fun (regions, state) =>
    .keeps (.regions regions) state
  | .dispatchNext => some (.hands state)
  | .spawnProc parent name region =>
    let ((proc, root), state) := state.spawnProc parent name region
    some (.keeps (.proc proc root) state)
  | .monitor proc => (state.monitor proc).map fun (chan, state) => .keeps (.id chan) state
  | .link first second => (state.link first second).map (.keeps .unit)
  | .kill proc =>
    if state.procs.length ≤ proc then none
    else
      let (regions, state) := state.killProc proc
      some (.keeps (.regions regions) state)
  | .deliverPending => some (.keeps .unit state.publishPending)
  | .cancelProc proc =>
    if state.procs.length ≤ proc then none else some (.keeps .unit (state.cancelProc proc))
  | .netYield me => some (.parks me (state.netYield me))
  | .sleepPark me duration => some (.parks me (state.sleepFor me duration))
  | .raceCheck me key lo hi write =>
    let (report, state) := state.raceCheck me key lo hi write
    some (.keeps (.race report) state)
  | .atomicAccess me key lo hi write =>
    let (report, state) := state.atomicAccess me key lo hi write
    some (.keeps (.race report) state)
  | .reseed seed => some (.keeps .unit { state with chooser := .seeded seed (seed ||| 1) })
  | .elapse wall late => some (.keeps .unit { state with wall := max state.wall wall, late })

/-- May a door be entered? A caller must hold the baton, and only a task that has ended hands it
on. -/
def admits (state : State Data) (op : Op Data) : Bool :=
  match op with
  | .dispatchNext => state.tasks.all fun tcb => tcb.state ≠ .running
  | _ => op.caller.all fun me => state.stateOf me = .running

/-- A door, for a caller that may enter it. -/
def door (state : State Data) (op : Op Data) : Option (Turn Data) :=
  if state.admits op then state.enter op else none

/-- Where the baton goes after a door. -/
def settleTurn : Turn Data → Answer Data × State Data
  | .keeps answer state => (answer, state)
  | .parks me state => state.park me
  | .hands state => state.dispatchNext

/-- One step: a door and what the baton does after it. -/
def perform (state : State Data) (op : Op Data) : Option (Answer Data × State Data) :=
  (state.door op).map settleTurn

def step : State Data → Op Data → Option (State Data) := silence perform

/-! ## What the doors do -/

/-- What each door does once its checks have passed. -/
inductive Entered (state : State Data) : Op Data → Turn Data → Prop where
  | newChan {cap} :
    Entered state (.newChan cap) (.keeps (.id (state.newChan cap).1) (state.newChan cap).2)
  | send {me chan value turn} (sent : state.send me chan value = some turn) :
    Entered state (.send me chan value) turn
  | recv {me chan turn} (received : state.recv me chan = some turn) :
    Entered state (.recv me chan) turn
  | close {chan next} (closed : state.close chan = some next) :
    Entered state (.close chan) (.keeps .unit next)
  | select {me arms timeout turn} (selected : state.select me arms timeout = some turn) :
    Entered state (.select me arms timeout) turn
  | newMutex {value} : Entered state (.newMutex value)
      (.keeps (.id (state.newMutex value).1) (state.newMutex value).2)
  | acquire {me mutex turn} (acquired : state.acquire me mutex = some turn) :
    Entered state (.acquire me mutex) turn
  | release {me mutex value next} (released : state.release me mutex value = some next) :
    Entered state (.release me mutex value) (.keeps .unit next)
  | openScope {owner} : Entered state (.openScope owner)
      (.keeps (.id (state.openScope owner).1) (state.openScope owner).2)
  | spawnTask {parent scope name tcb} (found : state.tasks[parent]? = some tcb) :
    Entered state (.spawnTask parent scope name)
      (.keeps (.id (state.spawnTask parent scope tcb.proc name).1)
        (state.spawnTask parent scope tcb.proc name).2)
  | joinScope {me scope turn} (joined : state.joinScope me scope = some turn) :
    Entered state (.joinScope me scope) turn
  | cancelScope {scope entry} (found : state.scopes[scope]? = some entry) :
    Entered state (.cancelScope scope) (.keeps .unit (entry.children.foldl cancel state))
  | endTask {me ended regions next} (finished : state.endTask me ended = some (regions, next)) :
    Entered state (.endTask me ended) (.keeps (.regions regions) next)
  | dispatchNext : Entered state .dispatchNext (.hands state)
  | spawnProc {parent name region} : Entered state (.spawnProc parent name region)
      (.keeps (.proc (state.spawnProc parent name region).1.1
        (state.spawnProc parent name region).1.2) (state.spawnProc parent name region).2)
  | monitor {proc chan next} (monitored : state.monitor proc = some (chan, next)) :
    Entered state (.monitor proc) (.keeps (.id chan) next)
  | link {first second} (joins : ProcId → Proc Data → Proc Data) :
    Entered state (.link first second) (.keeps .unit
      ((((state.op state.actor (.proc first) true).op state.actor (.proc second) true).modifyProc
        first (joins second)).modifyProc second (joins first)))
  | kill {proc} (bound : proc < state.procs.length) :
    Entered state (.kill proc) (.keeps (.regions (state.killProc proc).1) (state.killProc proc).2)
  | deliverPending : Entered state .deliverPending (.keeps .unit state.publishPending)
  | cancelProc {proc} (bound : proc < state.procs.length) :
    Entered state (.cancelProc proc) (.keeps .unit (state.cancelProc proc))
  | netYield {me} : Entered state (.netYield me) (.parks me (state.netYield me))
  | sleepPark {me duration} :
    Entered state (.sleepPark me duration) (.parks me (state.sleepFor me duration))
  | raceCheck {me key lo hi write} : Entered state (.raceCheck me key lo hi write)
      (.keeps (.race (state.raceCheck me key lo hi write).1)
        (state.raceCheck me key lo hi write).2)
  | atomicAccess {me key lo hi write} : Entered state (.atomicAccess me key lo hi write)
      (.keeps (.race (state.atomicAccess me key lo hi write).1)
        (state.atomicAccess me key lo hi write).2)
  | reseed {seed} : Entered state (.reseed seed)
      (.keeps .unit { state with chooser := .seeded seed (seed ||| 1) })
  | elapse {wall late} : Entered state (.elapse wall late)
      (.keeps .unit { state with wall := max state.wall wall, late })

theorem entered_of_enter {state : State Data} {op : Op Data} {turn : Turn Data}
    (entered : state.enter op = some turn) : Entered state op turn := by
  cases op with
  | send | recv | select | acquire | joinScope => constructor; exact entered
  | close | release | endTask | monitor =>
    obtain ⟨_, answered, rfl⟩ := Option.map_eq_some_iff.mp entered
    constructor
    exact answered
  | spawnTask parent scope name =>
    change (if _ then _ else _) = some turn at entered
    split at entered
    · cases entered
    · obtain ⟨tcb, found, rfl⟩ := Option.map_eq_some_iff.mp entered
      exact .spawnTask found
  | cancelScope scope =>
    obtain ⟨next, cancelled, rfl⟩ := Option.map_eq_some_iff.mp entered
    obtain ⟨entry, found, rfl⟩ := Option.map_eq_some_iff.mp cancelled
    exact .cancelScope found
  | link first second =>
    obtain ⟨next, linked, rfl⟩ := Option.map_eq_some_iff.mp entered
    unfold link at linked
    split at linked
    · cases linked
    · cases linked
      exact .link fun other entry =>
        if other ∈ entry.links then entry else { entry with links := entry.links ++ [other] }
  | kill proc | cancelProc proc =>
    change (if _ then _ else _) = some turn at entered
    split at entered
    · cases entered
    · cases entered
      constructor
      omega
  | newChan | newMutex | openScope | dispatchNext | spawnProc | deliverPending | netYield
  | sleepPark | raceCheck | atomicAccess | reseed | elapse =>
    cases entered
    constructor

end State

end WolfInterp.Sched
