import Mathlib.Data.List.Sort
import WolfInterp.Region.Store

/-!
# The scheduler's state

The tables of the scheduler, one decision, the vector clocks and the ready queue. Every id in a
queue was minted by the scheduler's own tables; a door answers `none` where the source would panic
on a foreign one. Wall time is a number that the host moves, and a real sleep wakes `late` after
it is due.
-/

namespace WolfInterp.Sched

abbrev TaskId := Nat
abbrev ScopeId := Nat
abbrev ChanId := Nat
abbrev MutexId := Nat
abbrev ProcId := Nat

/-- A vector clock, one component a task. -/
abbrev Clock := List Nat

/-- A value, of which the scheduler looks at the error values only. -/
inductive Value (Data : Type) where
  | unit
  | data (datum : Data)
  | str (text : String)
  | error (tag : String) (payload : List (Value Data))

/-- Which alphabet a recorded decision draws from. -/
inductive DecisionKind where
  | task
  | arm
  deriving DecidableEq

def DecisionKind.text : DecisionKind → String
  | .task => "Task"
  | .arm => "Arm"

/-- One numbered decision, with the alternatives that were live when it was taken. -/
structure Decision where
  kind : DecisionKind
  candidates : List Nat
  chosen : Nat
  deriving DecidableEq

/-- The kinds of memory two tasks can share. -/
inductive RaceKey where
  | pool (region pool : Nat)
  | alloc (id : Nat)
  deriving DecidableEq

/-- A shared object two tasks can contend on. -/
inductive ObjKey where
  | chan (id : ChanId)
  | mutex (id : MutexId)
  | proc (id : ProcId)
  | taskCtl (id : TaskId)
  | scope (id : ScopeId)
  | mem (key : RaceKey)
  deriving DecidableEq

/-- One operation on a shared object. -/
structure OpRecord where
  task : TaskId
  slice : Option Nat
  obj : ObjKey
  write : Bool
  vc : Clock
  deriving DecidableEq

/-- A replay plan: forced choices, and the alternatives each forced position must offer. -/
structure Plan where
  choices : List Nat
  expected : List (DecisionKind × List Nat) := []
  leakNondeterminism : Bool := false

/-- How the scheduler answers a decision point. -/
inductive Chooser where
  | seeded (seed rng : UInt64)
  | packed (digits : UInt64)
  | plan (plan : Plan)

/-- Why the scheduler woke a parked task. -/
inductive Wake (Data : Type) where
  | ok (value : Value Data)
  | closed
  | cancelled
  | killed
  | arm (arm : Nat) (value : Option (Value Data))
  | deadlock (roster : String)

/-- Trap kinds. -/
inductive TrapKind where
  | overflow
  | divZero
  | bounds
  | useAfterMove
  | exclusivity
  | regionFault
  | staleHandle
  | allocContract
  | assert
  | race
  | ub
  | deadlock
  | stackOverflow
  | argumentUtf8
  deriving DecidableEq

def TrapKind.asStr : TrapKind → String
  | .overflow => "overflow"
  | .divZero => "div-zero"
  | .bounds => "bounds"
  | .useAfterMove => "use-after-move"
  | .exclusivity => "exclusivity"
  | .regionFault => "region-fault"
  | .staleHandle => "stale-handle"
  | .allocContract => "alloc-contract"
  | .assert => "assert"
  | .race => "race"
  | .ub => "ub"
  | .deadlock => "deadlock"
  | .stackOverflow => "stack-overflow"
  | .argumentUtf8 => "argument-utf8"

/-- How a task's execution ended. A finding is kept as its anchor. -/
inductive TaskEnd (Data : Type) where
  | value (value : Value Data)
  | error (tag : String) (payload : List (Value Data))
  | trapped (kind : TrapKind)
  | ub (anchor : String)
  | unsupported (reason : String)
  | cancelled
  | killed

/-- What a task is doing, from the scheduler's chair. -/
inductive TaskState where
  | fresh
  | ready
  | running
  | blocked
  | done
  deriving DecidableEq

/-- Exit reasons. -/
inductive ExitReason (Data : Type) where
  | normal (value : Value Data)
  | error (tag : String) (payload : List (Value Data))
  | killed
  | cancelled
  | fault (kind : TrapKind)

/-- The reason as a value. -/
def ExitReason.toValue {Data : Type} : ExitReason Data → Value Data
  | .normal value => .error "normal" [value]
  | .error tag payload => .error "error" [.error tag payload]
  | .killed => .error "killed" []
  | .cancelled => .error "cancelled" []
  | .fault kind => .error "fault" [.str kind.asStr]

/-- A proc exit whose reason has not been published yet. -/
structure PendingExit (Data : Type) where
  proc : ProcId
  message : Value Data
  vc : Clock
  monitors : List ChanId

/-- One task control block. -/
structure Tcb (Data : Type) where
  name : String
  state : TaskState
  proc : ProcId
  scope : Option ScopeId
  cancelled : Bool := false
  killed : Bool := false
  wake : Option (Wake Data) := none
  vc : Clock
  outcome : Option (TaskEnd Data) := none

/-- One structured-concurrency scope. -/
structure ScopeState (Data : Type) where
  owner : TaskId
  children : List TaskId := []
  joining : Bool := false
  failures : List (TaskEnd Data) := []

/-- One typed channel. Buffered messages carry the sender's vector clock. -/
structure Chan (Data : Type) where
  cap : Nat
  buf : List (Value Data × Clock) := []
  closed : Bool := false
  senders : List (TaskId × Value Data) := []
  receivers : List TaskId := []
  selecters : List (TaskId × Nat) := []
  sends : Nat := 0
  recvs : Nat := 0

/-- The channel without a task's registrations. -/
def Chan.leave {Data : Type} (task : TaskId) (chan : Chan Data) : Chan Data :=
  { chan with
    receivers := chan.receivers.filter (· ≠ task)
    senders := chan.senders.filter (·.1 ≠ task)
    selecters := chan.selecters.filter (·.1 ≠ task) }

/-- One mutex. -/
structure Mx (Data : Type) where
  value : Value Data
  holder : Option TaskId := none
  waiters : List TaskId := []
  vc : Clock := []
  acquisitions : Nat := 0

/-- One proc: a failure domain. -/
structure Proc (Data : Type) where
  name : String
  root : TaskId
  region : Option RegionId
  monitors : List ChanId := []
  links : List ProcId := []
  exited : Option (ExitReason Data) := none

/-- A pending virtual timer of a `select` arm. -/
structure Timer where
  deadline : Nat
  seq : Nat
  task : TaskId
  arm : Nat

/-- A pending real-time sleep. -/
structure RealSleep where
  due : Nat
  seq : Nat
  task : TaskId

/-- A memory access the race detector remembers. -/
structure Access where
  task : TaskId
  tick : Nat
  lo : Nat
  hi : Nat
  write : Bool
  deriving DecidableEq

/-- The shared scheduler. -/
structure State (Data : Type) where
  tasks : List (Tcb Data)
  ready : List TaskId := []
  scopes : List (ScopeState Data) := []
  chans : List (Chan Data) := []
  mutexes : List (Mx Data) := []
  procs : List (Proc Data)
  timers : List Timer := []
  timerSeq : Nat := 0
  realSleeps : List RealSleep := []
  sleepSeq : Nat := 0
  clock : Nat := 0
  wall : Nat := 0
  late : Nat := 0
  chooser : Chooser
  decisions : List Decision := []
  ops : List OpRecord := []
  curSlice : Option Nat := none
  divergence : Option String := none
  deadlocked : Bool := false
  pending : List (PendingExit Data) := []
  accesses : RaceKey → List Access := fun _ => []
  atomicAccesses : RaceKey → List Access := fun _ => []
  atomicClocks : RaceKey × Nat → Clock := fun _ => []
  concurrent : Bool := false

/-- Task 0 is `main`, running, under the root supervisor. -/
def initial {Data : Type} (chooser : Chooser) : State Data :=
  { tasks := [{ name := "main", state := .running, proc := 0, scope := none, vc := [1] }]
    procs := [{ name := "program", root := 0, region := none }]
    chooser }

namespace State

variable {Data : Type}

def modifyTask (state : State Data) (task : TaskId) (update : Tcb Data → Tcb Data) : State Data :=
  { state with tasks := state.tasks.modify task update }

def modifyChan (state : State Data) (chan : ChanId) (update : Chan Data → Chan Data) :
    State Data :=
  { state with chans := state.chans.modify chan update }

def modifyMutex (state : State Data) (mutex : MutexId) (update : Mx Data → Mx Data) :
    State Data :=
  { state with mutexes := state.mutexes.modify mutex update }

def modifyProc (state : State Data) (proc : ProcId) (update : Proc Data → Proc Data) :
    State Data :=
  { state with procs := state.procs.modify proc update }

def modifyScope (state : State Data) (scope : ScopeId)
    (update : ScopeState Data → ScopeState Data) : State Data :=
  { state with scopes := state.scopes.modify scope update }

/-- What a task is doing; a foreign id is done. -/
def stateOf (state : State Data) (task : TaskId) : TaskState :=
  (state.tasks[task]?).elim .done Tcb.state

def nameOf (state : State Data) (task : TaskId) : String := (state.tasks[task]?).elim "" Tcb.name

/-! ## Decisions -/

/-- One step of the xorshift generator. -/
def xorshift (rng : UInt64) : UInt64 :=
  let rng := rng ^^^ (rng <<< 13)
  let rng := rng ^^^ (rng >>> 7)
  rng ^^^ (rng <<< 17)

/-- The first thing a forced position finds wrong with the candidates it is offered. -/
def mismatch (plan : Plan) (position : Nat) (kind : DecisionKind) (candidates : List Nat) :
    Option String :=
  let strange := match plan.expected[position]? with
    | none => none
    | some (wantKind, want) =>
      if wantKind ≠ kind ∨ want ≠ candidates then
        some (s!"decision #{position}: the recording run saw {wantKind.text} over {want}, " ++
          s!"this replay sees {kind.text} over {candidates} — nondeterminism outside a " ++
          "registered schedule point ([conc.det.flow]): a decision escaped the sched-ev/0 stream")
      else none
  let choice := (plan.choices[position]?).getD 0
  strange.or (if choice < candidates.length then none else
    some (s!"decision #{position}: the plan forces choice {choice} but only " ++
      s!"{candidates.length} candidate(s) exist — the replayed stream diverged " ++
      "([conc.det.flow])"))

/-- The index a chooser answers at a decision point, and the chooser after it. -/
def Chooser.pick (chooser : Chooser) (position count : Nat) : Nat × Chooser :=
  match chooser with
  | .seeded seed rng =>
    if seed = 0 ∨ count ≤ 1 then (0, .seeded seed rng)
    else
      let rng := xorshift rng
      (rng.toNat % count, .seeded seed rng)
  | .packed digits =>
    if count ≤ 1 then (0, .packed digits)
    else (digits.toNat % count, .packed (UInt64.ofNat (digits.toNat / count)))
  | .plan plan =>
    let choice := (plan.choices[position]?).getD 0
    (if choice < count then choice else 0, .plan plan)

/-- One scheduling decision: which of the candidates goes next. -/
def decide (state : State Data) (kind : DecisionKind) (candidates : List Nat) :
    Nat × State Data :=
  let position := state.decisions.length
  let (chosen, chooser) := Chooser.pick state.chooser position candidates.length
  let divergence := match state.chooser with
    | .plan plan => state.divergence.or (mismatch plan position kind candidates)
    | _ => state.divergence
  (chosen, { state with
    chooser, divergence
    decisions := state.decisions ++ [{ kind, candidates, chosen }]
    curSlice := if kind = .task then some position else state.curSlice })

/-! ## Vector clocks -/

/-- `Vec::resize`. -/
def resize (vc : Clock) (length : Nat) : Clock :=
  (vc ++ List.replicate (length - vc.length) 0).take length

/-- The join of two clocks. -/
def mergeVc : Clock → Clock → Clock
  | [], other => other
  | vc, [] => vc
  | slot :: vc, value :: other => max slot value :: mergeVc vc other

def taskVc (state : State Data) (task : TaskId) : Clock := (state.tasks[task]?).elim [] Tcb.vc

/-- Move a task past the clock it has published. -/
def tick (state : State Data) (task : TaskId) : State Data :=
  state.modifyTask task fun tcb =>
    { tcb with vc := (resize tcb.vc state.tasks.length).modify task (· + 1) }

/-- Join a clock into a task's: a happens-before edge. -/
def hbEdge (state : State Data) (source : Clock) (task : TaskId) : State Data :=
  (state.modifyTask task fun tcb => { tcb with vc := mergeVc tcb.vc source }).tick task

/-! ## Operation records -/

/-- Record one shared-object operation. -/
def op (state : State Data) (task : TaskId) (obj : ObjKey) (write : Bool) : State Data :=
  { state with
    ops := state.ops ++ [{ task, slice := state.curSlice, obj, write, vc := state.taskVc task }] }

/-- The task that holds the baton. -/
def actor (state : State Data) : TaskId :=
  (state.tasks.findIdx? fun tcb => tcb.state = .running).getD 0

/-- Record the footprint of consuming a `select` registration. -/
def opSelectConsume (state : State Data) (selecter : TaskId) : State Data :=
  let registered := (List.range state.chans.length).filter fun chan =>
    (state.chans[chan]?).any fun entry => entry.selecters.any fun pair => pair.1 = selecter
  registered.foldl (fun acting chan => acting.op state.actor (.chan chan) true) state

/-! ## The ready queue -/

/-- Wake a task with a reason. -/
def makeReady (state : State Data) (task : TaskId) (wake : Wake Data) : State Data :=
  let state := state.modifyTask task fun tcb => { tcb with wake := some wake }
  if state.stateOf task = .blocked ∨ state.stateOf task = .fresh then
    { state.modifyTask task fun tcb => { tcb with state := .ready } with
      ready := state.ready ++ [task] }
  else state

/-- Take a task off every waiter list. -/
def deregister (state : State Data) (task : TaskId) : State Data :=
  { state with
    chans := state.chans.map (Chan.leave task)
    mutexes := state.mutexes.map fun mutex =>
      { mutex with waiters := mutex.waiters.filter (· ≠ task) }
    timers := state.timers.filter (·.task ≠ task)
    realSleeps := state.realSleeps.filter (·.task ≠ task) }

/-- Wake a task when it is blocked. -/
def wakeBlocked (state : State Data) (task : TaskId) (wake : Wake Data) : State Data :=
  if state.stateOf task = .blocked then state.makeReady task wake else state

/-- Wake every real-time sleeper whose due instant has passed. -/
def promoteDueSleeps (state : State Data) : State Data :=
  let due := (state.realSleeps.filter (·.due ≤ state.wall)).insertionSort (·.seq ≤ ·.seq)
  due.foldl (fun state sleep => state.wakeBlocked sleep.task (.ok .unit))
    { state with realSleeps := state.realSleeps.filter fun sleep => ¬ sleep.due ≤ state.wall }

/-- Fire one timer. -/
def fireTimer (state : State Data) (timer : Timer) : State Data :=
  if state.stateOf timer.task = .blocked then
    (state.deregister timer.task).makeReady timer.task (.arm timer.arm none)
  else state

/-- The order timers fire in: by deadline, then by registration. -/
def Timer.before (first second : Timer) : Prop :=
  first.deadline < second.deadline ∨ first.deadline = second.deadline ∧ first.seq ≤ second.seq

instance : DecidableRel Timer.before := fun _ _ => inferInstanceAs (Decidable (_ ∨ _))

/-- Advance the virtual clock to the earliest pending timer and fire everything due; `none` when
no timer is pending. -/
def advanceClock (state : State Data) : Option (State Data) :=
  (state.timers.map Timer.deadline).min?.map fun earliest =>
    let clock := max state.clock earliest
    let due := (state.timers.filter (·.deadline ≤ clock)).insertionSort Timer.before
    due.foldl fireTimer
      { state with clock, timers := state.timers.filter fun timer => ¬ timer.deadline ≤ clock }

/-- Pick the next task to run out of a ready queue that is not empty. -/
def schedule (state : State Data) : TaskId × State Data :=
  let ready := match state.chooser with
    | .plan plan =>
      if plan.leakNondeterminism ∧ 1 < state.ready.length then state.ready.rotateLeft 1
      else state.ready
    | _ => state.ready
  let (index, state) := ({ state with ready } : State Data).decide .task ready
  ((ready[index]?).getD 0, { state with ready := ready.eraseIdx index })

/-- The scheduling loop: every round fires a timer, ends a sleep or answers. -/
def chooseLoop : Nat → State Data → Option TaskId × State Data
  | 0, state => (none, state)
  | fuel + 1, state =>
    let state := state.promoteDueSleeps
    if state.ready ≠ [] then
      let (next, state) := state.schedule
      (some next, state)
    else
      match state.advanceClock with
      | some state => chooseLoop fuel state
      | none =>
        match (state.realSleeps.map RealSleep.due).min? with
        | none => (none, state)
        | some earliest =>
          chooseLoop fuel
            { state with
              wall := if state.wall < earliest then earliest + state.late else state.wall }

/-- Pick the next task to run, advancing time if it must; no task when nothing can ever run
again. -/
def chooseNext (state : State Data) : Option TaskId × State Data :=
  chooseLoop (state.timers.length + state.realSleeps.length + 1) state

def blocked (state : State Data) : List TaskId :=
  (List.range state.tasks.length).filter fun task => state.stateOf task = .blocked

/-- Every blocked task's name. -/
def blockedRoster (state : State Data) : String :=
  ", ".intercalate (state.blocked.map fun task => s!"`{state.nameOf task}` (task {task})")

/-- Wake everything blocked with the deadlock verdict. -/
def declareDeadlock (state : State Data) : State Data :=
  state.blocked.foldl
    (fun acting task => (acting.deregister task).makeReady task (.deadlock state.blockedRoster))
    { state with deadlocked := true }

end State

end WolfInterp.Sched
