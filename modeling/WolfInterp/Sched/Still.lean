import WolfInterp.Sched.Settled

/-!
# What leaves the procs, the scopes and the fate of the tasks alone

Waking tasks, settling channels and passing the baton on change no proc, no parked exit and no
scope, open no channel, keep the tasks that there are and take back no cancellation. What moves no
message keeps the ledgers of the channels as well.
-/

namespace WolfInterp.Sched

variable {Data : Type}

/-- A task control block later on, when nothing but its turn, its wake, its clock and its flags has
moved. -/
structure Heir (old new : Tcb Data) : Prop where
  scope : new.scope = old.scope
  proc : new.proc = old.proc
  outcome : new.outcome = old.outcome
  ended : new.state = .done ↔ old.state = .done
  cancelled : old.cancelled = true → new.cancelled = true
  killed : old.killed = true → new.killed = true

theorem Heir.refl (tcb : Tcb Data) : Heir tcb tcb := ⟨rfl, rfl, rfl, Iff.rfl, id, id⟩

theorem Heir.trans {old middle new : Tcb Data} (first : Heir old middle)
    (second : Heir middle new) : Heir old new where
  scope := second.scope.trans first.scope
  proc := second.proc.trans first.proc
  outcome := second.outcome.trans first.outcome
  ended := second.ended.trans first.ended
  cancelled := second.cancelled ∘ first.cancelled
  killed := second.killed ∘ first.killed

namespace State

/-- The procs, the parked exits and the scopes of a state are those of another, and there are as
many channels. -/
structure Still (state next : State Data) : Prop where
  procs : next.procs = state.procs
  pending : next.pending = state.pending
  scopes : next.scopes = state.scopes
  chans : next.chans.length = state.chans.length

/-- The tasks of a state later on, when no task was spawned and none has ended. -/
structure Kin (state next : State Data) : Prop where
  count : next.tasks.length = state.tasks.length
  heir : ∀ (task : TaskId) old, state.tasks[task]? = some old →
    ∃ new, next.tasks[task]? = some new ∧ Heir old new

/-- What a channel buffers, and its two counters; a channel to come is empty. -/
def ledger (state : State Data) (chan : ChanId) : List (Value Data) × Nat × Nat :=
  (state.chans[chan]?).elim ([], 0, 0) fun entry =>
    (entry.buf.map Prod.fst, entry.sends, entry.recvs)

/-- Neither a proc or a scope nor what a channel holds has moved. -/
structure Unmoved (state next : State Data) : Prop extends Still state next where
  ledger : next.ledger = state.ledger

/-- What settling the channels does. -/
structure Quiet (state next : State Data) : Prop extends Still state next, Kin state next

/-- What waking tasks does. -/
structure Mild (state next : State Data) : Prop extends Unmoved state next, Kin state next

section Basics

variable {state middle next : State Data}

theorem Still.refl : Still state state := ⟨rfl, rfl, rfl, rfl⟩

theorem Still.trans (first : Still state middle) (second : Still middle next) : Still state next :=
  ⟨second.procs.trans first.procs, second.pending.trans first.pending,
    second.scopes.trans first.scopes, second.chans.trans first.chans⟩

variable {Entry : Type} {step : State Data → Entry → State Data}

/-- A fold of steps that leave the procs alone leaves them alone. -/
theorem Still.foldl (still : ∀ acting entry, Still acting (step acting entry))
    (entries : List Entry) : Still state (entries.foldl step state) :=
  List.foldlRecOn (motive := fun acting : State Data => Still state acting) entries step
    Still.refl fun acting before entry _ => before.trans (still acting entry)

/-- The clocks that a scope's children hand on. -/
theorem still_joinEdges (state : State Data) (children : List TaskId) (me : TaskId) :
    Still state
      (children.foldl (fun state child => state.hbEdge (state.taskVc child) me) state) := by
  refine Still.foldl (fun acting child => ?_) children
  exact ⟨rfl, rfl, rfl, rfl⟩

/-- What is plain to leave the tasks alone. -/
theorem Kin.same (tasks : next.tasks = state.tasks) : Kin state next where
  count := by rw [tasks]
  heir task old found := ⟨old, by rw [tasks, found], .refl old⟩

theorem Kin.trans (first : Kin state middle) (second : Kin middle next) : Kin state next where
  count := second.count.trans first.count
  heir task old found := by
    obtain ⟨between, reached, early⟩ := first.heir task old found
    obtain ⟨new, later, late⟩ := second.heir task between reached
    exact ⟨new, later, early.trans late⟩

theorem Kin.after (second : Kin middle next) (tasks : middle.tasks = state.tasks) :
    Kin state next :=
  Kin.trans (.same tasks) second

/-- A fold of steps that leave the tasks alone leaves them alone. -/
theorem Kin.foldl (kin : ∀ acting entry, Kin acting (step acting entry)) (entries : List Entry) :
    Kin state (entries.foldl step state) :=
  List.foldlRecOn (motive := fun acting : State Data => Kin state acting) entries step
    (.same rfl) fun acting before entry _ => before.trans (kin acting entry)

/-- The task of a later state is the heir of one. -/
theorem Kin.origin (kin : Kin state next) {task : TaskId} {new : Tcb Data}
    (found : next.tasks[task]? = some new) :
    ∃ old, state.tasks[task]? = some old ∧ Heir old new := by
  have bound : task < state.tasks.length :=
    kin.count ▸ (List.getElem?_eq_some_iff.mp found).1
  obtain ⟨new', found', heir⟩ := kin.heir task _ (List.getElem?_eq_getElem bound)
  obtain rfl := Option.eq_some_unique found found'
  exact ⟨_, List.getElem?_eq_getElem bound, heir⟩

/-- An update of one task whose result is its heir. -/
theorem kin_modifyTask (task : TaskId) {update : Tcb Data → Tcb Data}
    (heir : ∀ old, state.tasks[task]? = some old → Heir old (update old)) :
    Kin state (state.modifyTask task update) where
  count := List.length_modify ..
  heir other old found := by
    refine ⟨_, (List.getElem?_modify ..).trans (congrArg _ found), ?_⟩
    dsimp only
    split
    · next same => exact heir old (same ▸ found)
    · exact .refl old

/-- An update that leaves the fate of a task alone. -/
theorem kin_update (state : State Data) (task : TaskId) {update : Tcb Data → Tcb Data}
    (heir : ∀ old, Heir old (update old)) : Kin state (state.modifyTask task update) :=
  kin_modifyTask task fun old _ => heir old

theorem kin_tick (state : State Data) (task : TaskId) : Kin state (state.tick task) :=
  kin_update state task fun _ => ⟨rfl, rfl, rfl, Iff.rfl, id, id⟩

theorem kin_hbEdge (state : State Data) (source : Clock) (task : TaskId) :
    Kin state (state.hbEdge source task) := by
  rw [hbEdge]
  refine Kin.trans ?_ (kin_tick _ task)
  exact kin_update state task fun _ => ⟨rfl, rfl, rfl, Iff.rfl, id, id⟩

/-- States with the same channels have the same ledgers. -/
theorem ledger_of_chans (same : next.chans = state.chans) : next.ledger = state.ledger := by
  funext chan
  rw [ledger, ledger, same]

theorem ledger_deregister (state : State Data) (task : TaskId) :
    (state.deregister task).ledger = state.ledger := by
  funext chan
  rw [ledger, ledger, chans_deregister, List.getElem?_map]
  cases state.chans[chan]? <;> rfl

/-- Changing who waits on a channel changes no ledger. -/
theorem ledger_modifyChan (state : State Data) (chan : ChanId) (update : Chan Data → Chan Data)
    (same : ∀ entry, (update entry).buf = entry.buf ∧ (update entry).sends = entry.sends ∧
      (update entry).recvs = entry.recvs) : (state.modifyChan chan update).ledger =
        state.ledger := by
  funext other
  rw [ledger, ledger, modifyChan, List.getElem?_modify]
  cases state.chans[other]? with
  | none => rfl
  | some entry => by_cases here : chan = other <;> simp [here, same entry]

theorem Unmoved.trans (first : Unmoved state middle) (second : Unmoved middle next) :
    Unmoved state next :=
  ⟨first.toStill.trans second.toStill, second.ledger.trans first.ledger⟩

theorem Quiet.trans (first : Quiet state middle) (second : Quiet middle next) : Quiet state next :=
  ⟨first.toStill.trans second.toStill, first.toKin.trans second.toKin⟩

theorem Quiet.same (tasks : next.tasks = state.tasks) (procs : next.procs = state.procs)
    (pending : next.pending = state.pending) (scopes : next.scopes = state.scopes)
    (chans : next.chans.length = state.chans.length) : Quiet state next :=
  ⟨⟨procs, pending, scopes, chans⟩, .same tasks⟩

theorem Quiet.foldl (quiet : ∀ acting entry, Quiet acting (step acting entry))
    (entries : List Entry) : Quiet state (entries.foldl step state) :=
  ⟨.foldl (fun acting entry => (quiet acting entry).toStill) entries,
    .foldl (fun acting entry => (quiet acting entry).toKin) entries⟩

theorem Mild.quiet (mild : Mild state next) : Quiet state next := ⟨mild.toStill, mild.toKin⟩

theorem Mild.trans (first : Mild state middle) (second : Mild middle next) : Mild state next :=
  ⟨first.toUnmoved.trans second.toUnmoved, first.toKin.trans second.toKin⟩

/-- What is plain to leave everything alone. -/
theorem Mild.same (tasks : next.tasks = state.tasks) (procs : next.procs = state.procs)
    (pending : next.pending = state.pending) (scopes : next.scopes = state.scopes)
    (chans : next.chans = state.chans) : Mild state next :=
  ⟨⟨⟨procs, pending, scopes, congrArg List.length chans⟩, ledger_of_chans chans⟩, .same tasks⟩

theorem Mild.refl : Mild state state := .same rfl rfl rfl rfl rfl

theorem Mild.foldl (mild : ∀ acting entry, Mild acting (step acting entry)) (entries : List Entry) :
    Mild state (entries.foldl step state) :=
  List.foldlRecOn (motive := fun acting : State Data => Mild state acting) entries step
    .refl fun acting before entry _ => before.trans (mild acting entry)

section

variable (state : State Data)

/-- An update that leaves the fate of a task alone. -/
theorem mild_update (task : TaskId) {update : Tcb Data → Tcb Data}
    (heir : ∀ old, Heir old (update old)) : Mild state (state.modifyTask task update) :=
  ⟨⟨⟨rfl, rfl, rfl, rfl⟩, rfl⟩, kin_update state task heir⟩

theorem mild_hbEdge (source : Clock) (task : TaskId) :
    Mild state (state.hbEdge source task) :=
  ⟨⟨⟨rfl, rfl, rfl, rfl⟩, rfl⟩, kin_hbEdge state source task⟩

/-- A change of who waits on a channel. -/
theorem mild_waiting (chan : ChanId) (update : Chan Data → Chan Data)
    (same : ∀ entry, (update entry).buf = entry.buf ∧ (update entry).sends = entry.sends ∧
      (update entry).recvs = entry.recvs) : Mild state (state.modifyChan chan update) :=
  ⟨⟨⟨rfl, rfl, rfl, by simp [modifyChan]⟩, ledger_modifyChan state chan update same⟩, .same rfl⟩

theorem mild_deregister (task : TaskId) : Mild state (state.deregister task) :=
  ⟨⟨⟨rfl, rfl, rfl, by simp⟩, ledger_deregister state task⟩, .same rfl⟩

theorem mild_tick (task : TaskId) : Mild state (state.tick task) :=
  mild_update state task fun _ => ⟨rfl, rfl, rfl, Iff.rfl, id, id⟩

theorem quiet_modifyChan (chan : ChanId) (update : Chan Data → Chan Data) :
    Quiet state (state.modifyChan chan update) :=
  .same rfl rfl rfl rfl (by simp [modifyChan])

end

end Basics

section Waking

variable (state : State Data)

theorem mild_makeReady (task : TaskId) (wake : Wake Data) :
    Mild state (state.makeReady task wake) := by
  have woken : Mild state (state.modifyTask task fun tcb => { tcb with wake := some wake }) :=
    mild_update state task fun _ => ⟨rfl, rfl, rfl, Iff.rfl, id, id⟩
  rw [makeReady]
  dsimp only
  split
  · next waits =>
      refine woken.trans ⟨⟨⟨rfl, rfl, rfl, rfl⟩, rfl⟩,
        Kin.trans (kin_modifyTask task fun old found => ?_) (.same rfl)⟩
      rw [stateOf, found] at waits
      have living : old.state ≠ .done := by
        rintro ended
        simp [ended] at waits
      exact ⟨rfl, rfl, rfl, by simp [living], id, id⟩
  · exact woken

theorem mild_rouse (task : TaskId) (wake : Wake Data) :
    Mild state ((state.deregister task).makeReady task wake) :=
  (mild_deregister state task).trans (mild_makeReady _ task wake)

theorem mild_opSelectConsume (selecter : TaskId) : Mild state (state.opSelectConsume selecter) := by
  rw [opSelectConsume]
  refine Mild.foldl (fun acting chan => ?_) _
  exact .same rfl rfl rfl rfl rfl

theorem mild_releaseDrained (chan : ChanId) (entry : Chan Data) :
    Mild state (state.releaseDrained chan entry) := by
  have alone := mild_waiting state chan (fun entry => { entry with receivers := [] })
    fun _ => ⟨rfl, rfl, rfl⟩
  have told := alone.trans (Mild.foldl (fun acting receiver =>
    mild_makeReady acting receiver .closed) entry.receivers)
  have unselected := told.trans (mild_waiting _ chan (fun entry => { entry with selecters := [] })
    fun _ => ⟨rfl, rfl, rfl⟩)
  refine unselected.trans (Mild.foldl (fun acting pair => ?_) _)
  exact (mild_opSelectConsume acting pair.1).trans (mild_rouse _ _ _)

theorem mild_cancelTask (fuel : Nat) (task : TaskId) : Mild state (state.cancelTask fuel task) := by
  induction fuel generalizing state task with
  | zero => exact .refl
  | succ fuel induction =>
    obtain ⟨same, _⟩ | ⟨tcb, ops, _, ⟨same, _⟩ | ⟨owned, _, rfl, same⟩⟩ :=
      cancelTask_cases fuel state task
    · rw [same]
      exact .refl
    · rw [same]
      exact .same rfl rfl rfl rfl rfl
    · rw [same]
      have noted : Mild state { state with ops } := .same rfl rfl rfl rfl rfl
      have flagged : Mild state (State.modifyTask { state with ops } task fun tcb =>
          { tcb with cancelled := true }) := noted.trans (mild_update { state with ops } task
        fun _ => ⟨rfl, rfl, rfl, Iff.rfl, fun _ => rfl, id⟩)
      refine Mild.trans ?_ (Mild.foldl (fun acting child => induction acting child) _)
      split
      · exact flagged.trans (mild_rouse _ task .cancelled)
      · exact flagged

theorem mild_cancel (task : TaskId) : Mild state (state.cancel task) :=
  mild_cancelTask state _ task

theorem mild_cancelAll (tasks : List TaskId) : Mild state (tasks.foldl cancel state) :=
  Mild.foldl mild_cancel tasks

theorem mild_killTask (actor : TaskId) (task : TaskId) :
    Mild state (killTask actor state task) := by
  have flagged : Mild state ((state.op actor (.taskCtl task) true).modifyTask task fun tcb =>
      { tcb with killed := true }) := by
    refine Mild.trans ?_ (mild_update (state.op actor (.taskCtl task) true) task fun _ => ?_)
    · exact .same rfl rfl rfl rfl rfl
    · exact ⟨rfl, rfl, rfl, Iff.rfl, id, fun _ => rfl⟩
  have told : ∀ acting : State Data, Mild acting ((acting.deregister task).modifyTask task
      fun tcb => { tcb with wake := some .killed }) := fun acting =>
    (mild_deregister acting task).trans
      (mild_update _ task fun _ => ⟨rfl, rfl, rfl, Iff.rfl, id, id⟩)
  rw [killTask]
  split
  · exact flagged.trans (mild_rouse _ task .killed)
  · exact flagged.trans (told _)
  · exact flagged.trans (told _)
  · exact flagged
  · exact flagged

/-- Killing every member of a proc. -/
theorem mild_strike (proc : ProcId) : Mild state ((state.members proc).foldl
    (killTask state.actor) (state.op state.actor (.proc proc) true)) := by
  have noted : Mild state (state.op state.actor (.proc proc) true) := .same rfl rfl rfl rfl rfl
  exact noted.trans (Mild.foldl (fun acting task => mild_killTask acting state.actor task) _)

theorem mild_wakeBlocked (task : TaskId) (wake : Wake Data) :
    Mild state (state.wakeBlocked task wake) := by
  rw [wakeBlocked]
  split
  · exact mild_makeReady state task wake
  · exact .refl

theorem mild_wakeJoiner (scope : ScopeId) : Mild state (state.wakeJoiner scope) := by
  rw [wakeJoiner]
  split
  · exact .refl
  · split
    · exact mild_wakeBlocked state _ _
    · exact .refl

end Waking

section Settling

variable (state : State Data)

/-- A sender whose message is taken completes its send. -/
theorem quiet_sender (chan : ChanId) (leave count : Chan Data → Chan Data) (sender : TaskId)
    (wake : Wake Data) : Quiet state ((((state.modifyChan chan leave).tick sender).modifyChan chan
      count).makeReady sender wake) :=
  (((quiet_modifyChan state chan leave).trans (mild_tick _ sender).quiet).trans
    (quiet_modifyChan _ chan count)).trans (mild_makeReady _ sender wake).quiet

theorem quiet_fillBuffer (fuel : Nat) (chan : ChanId) :
    Quiet state (state.fillBuffer fuel chan) := by
  induction fuel generalizing state with
  | zero => exact Mild.refl.quiet
  | succ fuel induction =>
    rw [fillBuffer]
    split
    · exact Mild.refl.quiet
    · split
      · exact Mild.refl.quiet
      · split
        · exact (quiet_sender state chan _ _ _ _).trans (induction _)
        · exact Mild.refl.quiet

theorem quiet_takeMessage {state : State Data} {chan : ChanId} {message : Value Data × Clock}
    {next : State Data} (taken : state.takeMessage chan = some (message, next)) :
    Quiet state next := by
  obtain ⟨entry, _, answered⟩ := Option.bind_eq_some_iff.mp taken
  split at answered
  · cases answered
    exact quiet_modifyChan _ _ _
  · split at answered
    · cases answered
    · cases answered
      exact quiet_sender state chan _ _ _ _

theorem quiet_deliver (chan : ChanId) (task : TaskId) (arm : Option Nat) :
    Quiet state (state.deliver chan task arm) := by
  have noted : Mild state (if arm.isSome then state.opSelectConsume task else state) := by
    split
    · exact mild_opSelectConsume state task
    · exact .refl
  unfold deliver
  dsimp only
  split
  · exact noted.quiet
  · next taken =>
      have moved := (noted.quiet.trans (quiet_takeMessage taken)).trans
        (quiet_modifyChan _ chan fun entry => { entry with recvs := entry.recvs + 1 })
      exact (moved.trans (mild_hbEdge _ _ task).quiet).trans (mild_rouse _ task _).quiet

theorem quiet_settleLoop (fuel : Nat) (chan : ChanId) :
    Quiet state (state.settleLoop fuel chan) := by
  induction fuel generalizing state with
  | zero => exact Mild.refl.quiet
  | succ fuel induction =>
    rw [settleLoop]
    have filled := state.quiet_fillBuffer
      ((state.chans[chan]?).elim 0 fun entry => entry.senders.length) chan
    split
    · exact filled
    · split
      · split
        · exact filled.trans (mild_releaseDrained _ _ _).quiet
        · exact filled
      · split
        · exact filled
        · exact (filled.trans (quiet_deliver _ _ _ _)).trans (induction _)

theorem quiet_settleChan (chan : ChanId) : Quiet state (state.settleChan chan) :=
  quiet_settleLoop state _ chan

theorem quiet_publish (actor : TaskId) (exit : PendingExit Data) (chan : ChanId) :
    Quiet state (publish actor exit state chan) := by
  have noted : Quiet state (state.op actor (.chan chan) true) := .same rfl rfl rfl rfl rfl
  exact (noted.trans (quiet_modifyChan _ chan _)).trans (quiet_settleChan _ chan)

/-- Publishing takes the parked exits and nothing else. -/
theorem quiet_publishPending :
    Quiet { state with pending := [] } state.publishPending :=
  Quiet.foldl (fun _ exit =>
    Quiet.foldl (fun acting chan => quiet_publish acting state.actor exit chan) _) _

end Settling

section Baton

variable (state : State Data)

theorem mild_promoteDueSleeps : Mild state state.promoteDueSleeps := by
  have wakes : ∀ (acting : State Data) (sleep : RealSleep),
      Mild acting (acting.wakeBlocked sleep.task (.ok .unit)) := fun acting sleep =>
    mild_wakeBlocked acting sleep.task _
  rw [promoteDueSleeps]
  refine Mild.trans ?_ (Mild.foldl wakes _)
  exact .same rfl rfl rfl rfl rfl

theorem mild_advanceClock {next : State Data} (advanced : state.advanceClock = some next) :
    Mild state next := by
  obtain ⟨earliest, _, rfl⟩ := Option.map_eq_some_iff.mp advanced
  have fires : ∀ (acting : State Data) (timer : Timer), Mild acting (acting.fireTimer timer) := by
    intro acting timer
    rw [fireTimer]
    split
    · exact mild_rouse acting timer.task _
    · exact .refl
  refine Mild.trans ?_ (Mild.foldl fires _)
  exact .same rfl rfl rfl rfl rfl

theorem mild_chooseLoop (fuel : Nat) : Mild state (state.chooseLoop fuel).2 := by
  induction fuel generalizing state with
  | zero => exact .refl
  | succ fuel induction =>
    have promoted := mild_promoteDueSleeps state
    rw [chooseLoop]
    split
    · exact promoted.trans (.same rfl rfl rfl rfl rfl)
    · split
      · next advanced =>
          exact (promoted.trans (mild_advanceClock _ advanced)).trans (induction _)
      · split
        · exact promoted
        · refine promoted.trans (Mild.trans ?_ (induction _))
          exact .same rfl rfl rfl rfl rfl

theorem mild_chooseNext : Mild state state.chooseNext.2 := mild_chooseLoop state _

theorem mild_declareDeadlock : Mild state state.declareDeadlock := by
  rw [declareDeadlock]
  refine Mild.trans ?_ (Mild.foldl (fun acting task => mild_rouse acting task _) _)
  exact .same rfl rfl rfl rfl rfl

theorem unmoved_runNext {choice : Option TaskId × State Data} (chosen : Unmoved state choice.2) :
    Unmoved state (runNext choice).2 := by
  obtain ⟨next, acting⟩ := choice
  cases next with
  | none => exact chosen
  | some next => exact chosen.trans ⟨⟨rfl, rfl, rfl, rfl⟩, rfl⟩

theorem unmoved_lieDown (me : TaskId) : Unmoved state (state.lieDown me) := by
  rw [lieDown]
  split <;> exact ⟨⟨rfl, rfl, rfl, rfl⟩, rfl⟩

theorem unmoved_searchTwice {acting : State Data} (chosen : Unmoved state acting) :
    Unmoved state (runNext acting.declareDeadlock.chooseNext).2 :=
  unmoved_runNext state (chosen.trans
    ((mild_declareDeadlock acting).trans (mild_chooseNext _)).toUnmoved)

theorem unmoved_park (me : TaskId) : Unmoved state (state.park me).2 := by
  have chosen := (unmoved_lieDown state me).trans (mild_chooseNext _).toUnmoved
  rw [park]
  split
  · rename_i choice
    rw [choice] at chosen
    exact chosen.trans ⟨⟨rfl, rfl, rfl, rfl⟩, rfl⟩
  · rename_i choice
    rw [choice] at chosen
    exact unmoved_searchTwice state chosen

theorem unmoved_dispatchNext : Unmoved state state.dispatchNext.2 := by
  have chosen := (mild_chooseNext state).toUnmoved
  rw [dispatchNext]
  split
  · rename_i choice
    rw [choice] at chosen
    exact chosen.trans ⟨⟨rfl, rfl, rfl, rfl⟩, rfl⟩
  · rename_i choice
    rw [choice] at chosen
    split
    · exact chosen
    · exact unmoved_searchTwice state chosen

end Baton

section Ending

variable {R : State Data → State Data → Prop} {me : TaskId} {ended : TaskEnd Data}
  (trans : ∀ {first middle last}, R first middle → R middle last → R first last)
  (mild : ∀ {state next}, Mild state next → R state next)
  (noted : ∀ (state : State Data) scope, R state (state.modifyScope scope fun entry =>
    { entry with failures := entry.failures ++ [ended] }))
include trans mild noted

theorem relates_failScope (state : State Data) (scope : ScopeId) :
    R state (state.failScope me scope ended) := by
  rw [failScope]
  dsimp only
  split
  · exact noted state scope
  · rename_i entry _
    have siblings := trans (noted state scope)
      (mild (mild_cancelAll _ (entry.children.filter (· ≠ me))))
    split
    · exact trans siblings (mild (mild_cancel _ entry.owner))
    · exact siblings

/-- Settling a scope is mild but for the failure that it notes. -/
theorem relates_settleScope (state : State Data) (scope : ScopeId) :
    R state (state.settleScope me scope ended) := by
  have entered : R state (state.op me (.scope scope) (TaskEnd.failing ended)) :=
    mild (.same rfl rfl rfl rfl rfl)
  refine trans ?_ (mild (mild_wakeJoiner _ scope))
  split
  · exact trans entered (relates_failScope @trans @mild noted _ scope)
  · exact entered

end Ending

section Doors

variable {state : State Data} {me : TaskId}

theorem mild_immediate {turn : Turn Data} (answered : state.immediate me = some turn) :
    Mild state turn.state := by
  unfold State.immediate at answered
  split at answered
  · cases answered
    exact .refl
  · obtain ⟨resolved, _, rfl⟩ := Option.map_eq_some_iff.mp answered
    exact mild_update state me fun _ => ⟨rfl, rfl, rfl, Iff.rfl, id, id⟩

theorem mild_registerSelect (state : State Data) (me : TaskId) (arms : List (Nat × ChanId))
    (timeout : Option (Nat × Nat)) : Mild state (state.registerSelect me arms timeout) := by
  have registered : Mild state (arms.foldl (fun state pair => state.modifyChan pair.2 fun entry =>
      { entry with selecters := entry.selecters ++ [(me, pair.1)] }) state) := by
    refine Mild.foldl (fun acting pair => ?_) _
    exact mild_waiting acting pair.2 _ fun _ => ⟨rfl, rfl, rfl⟩
  unfold registerSelect
  dsimp only
  split
  · exact registered
  · exact registered.trans (.same rfl rfl rfl rfl rfl)

end Doors

end State

end WolfInterp.Sched
