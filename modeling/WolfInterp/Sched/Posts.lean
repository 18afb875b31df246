import WolfInterp.Sched.Board

/-!
# The scheduler on the board

What the functions of the scheduler that a door is built from do on the board.
-/

namespace WolfInterp.Sched

open Board

variable {Data : Type}

namespace State

/-- The tasks that stand in a queue. -/
def queue (state : State Data) : Post → List TaskId
  | .sender chan => ((state.chans[chan]?).elim [] Chan.senders).map Prod.fst
  | .receiver chan => (state.chans[chan]?).elim [] Chan.receivers
  | .selecter chan => ((state.chans[chan]?).elim [] Chan.selecters).map Prod.fst
  | .timer => state.timers.map Timer.task
  | .sleep => state.realSleeps.map RealSleep.task
  | .waiter mutex => (state.mutexes[mutex]?).elim [] Mx.waiters

/-- The board of a state. -/
def board (state : State Data) : Board Data where
  doing := state.stateOf
  wake task := (state.tasks[task]?).bind fun tcb => if tcb.state = .done then none else tcb.wake
  ready := state.ready
  queue := state.queue
  holder mutex := (state.mutexes[mutex]?).bind Mx.holder

/-! ## What the board does not show -/

section Hidden

variable (state : State Data)

theorem board_modifyTask (task : TaskId) (update : Tcb Data → Tcb Data)
    (same : ∀ tcb, (update tcb).state = tcb.state ∧ (update tcb).wake = tcb.wake) :
    (state.modifyTask task update).board = state.board := by
  have doing : (state.modifyTask task update).stateOf = state.stateOf := by
    funext other
    rw [stateOf, stateOf, modifyTask, List.getElem?_modify]
    cases state.tasks[other]? with
    | none => rfl
    | some tcb => by_cases here : task = other <;> simp [here, (same tcb).1]
  have wake : (state.modifyTask task update).board.wake = state.board.wake := by
    funext other
    simp only [board, modifyTask, List.getElem?_modify]
    cases state.tasks[other]? with
    | none => rfl
    | some tcb => by_cases here : task = other <;> simp [here, same tcb]
  rw [board, board, doing]
  exact congrArg (Board.mk _ · _ _ _) wake

theorem board_modifyChan (chan : ChanId) (update : Chan Data → Chan Data)
    (same : ∀ entry, (update entry).senders = entry.senders ∧
      (update entry).receivers = entry.receivers ∧ (update entry).selecters = entry.selecters) :
    (state.modifyChan chan update).board = state.board := by
  have queue : (state.modifyChan chan update).queue = state.queue := by
    funext post
    cases post with
    | sender other | receiver other | selecter other =>
      simp only [State.queue, modifyChan, List.getElem?_modify]
      cases state.chans[other]? with
      | none => rfl
      | some entry => by_cases here : chan = other <;> simp [here, same entry]
    | _ => rfl
  rw [board, board, queue]
  rfl

@[simp]
theorem board_tick (task : TaskId) : (state.tick task).board = state.board :=
  state.board_modifyTask task _ fun _ => ⟨rfl, rfl⟩

@[simp]
theorem board_hbEdge (source : Clock) (task : TaskId) :
    (state.hbEdge source task).board = state.board :=
  (board_tick _ task).trans (state.board_modifyTask task _ fun _ => ⟨rfl, rfl⟩)

/-- A fold of steps that the board does not show is not shown. -/
theorem board_foldl {Entry : Type} (step : State Data → Entry → State Data)
    (same : ∀ state entry, (step state entry).board = state.board) (entries : List Entry) :
    (entries.foldl step state).board = state.board := by
  induction entries generalizing state with
  | nil => rfl
  | cons entry entries induction => exact (induction (step state entry)).trans (same state entry)

@[simp]
theorem board_opSelectConsume (selecter : TaskId) :
    (state.opSelectConsume selecter).board = state.board :=
  state.board_foldl (fun acting chan => acting.op state.actor (.chan chan) true)
    (fun _ _ => rfl) _

end Hidden

/-! ## What it shows -/

section Shown

variable (state : State Data) {task : TaskId} {tcb : Tcb Data}

/-- Setting the state and the wake of a task that exists. -/
theorem board_modifyTask_set (update : Tcb Data → Tcb Data)
    (found : state.tasks[task]? = some tcb) :
    (state.modifyTask task update).board = state.board.set task (update tcb).state
      (if (update tcb).state = .done then none else (update tcb).wake) := by
  have doing : (state.modifyTask task update).stateOf =
      Function.update state.stateOf task (update tcb).state := by
    funext other
    rw [stateOf, modifyTask, List.getElem?_modify]
    rcases eq_or_ne other task with rfl | differs
    · simp [found]
    · rw [Function.update_of_ne differs, stateOf]
      simp [differs.symm]
  have wake : (state.modifyTask task update).board.wake = Function.update state.board.wake task
      (if (update tcb).state = .done then none else (update tcb).wake) := by
    funext other
    simp only [board, modifyTask, List.getElem?_modify]
    rcases eq_or_ne other task with rfl | differs
    · simp [found]
    · rw [Function.update_of_ne differs]
      simp [differs.symm]
  rw [Board.set, board, doing]
  exact congrArg (Board.mk _ · _ _ _) wake

theorem doing_of_found (found : state.tasks[task]? = some tcb) :
    state.board.doing task = tcb.state := by
  change state.stateOf task = tcb.state
  rw [stateOf, found]
  rfl

theorem wake_of_found (found : state.tasks[task]? = some tcb) (alive : tcb.state ≠ .done) :
    state.board.wake task = tcb.wake := by
  simp [board, found, alive]

/-- A task that does not exist is done and has no wake. -/
theorem found_of_alive (alive : state.board.doing task ≠ .done) :
    ∃ tcb, state.tasks[task]? = some tcb := by
  change state.stateOf task ≠ .done at alive
  rw [stateOf] at alive
  cases found : state.tasks[task]? with
  | none => simp [found] at alive
  | some tcb => exact ⟨tcb, rfl⟩

theorem board_makeReady (task : TaskId) (wake : Wake Data) :
    (state.makeReady task wake).board = state.board.makeReady task wake := by
  cases found : state.tasks[task]? with
  | none =>
    have absent : state.makeReady task wake = state := by
      have same : state.tasks.modify task (fun tcb => { tcb with wake := some wake }) =
          state.tasks := by
        rw [List.modify_eq_self]
        exact List.getElem?_eq_none_iff.mp found
      simp [makeReady, modifyTask, same, stateOf, found]
    have done : state.board.doing task = .done := by
      change state.stateOf task = .done
      rw [stateOf, found]
      rfl
    rw [absent, Board.makeReady, done]
  | some tcb =>
    have waked : (state.modifyTask task fun tcb => { tcb with wake := some wake }).tasks[task]? =
        some { tcb with wake := some wake } := by
      simp [modifyTask, found]
    have doing := doing_of_found _ waked
    have before := doing_of_found _ found
    have shown := state.board_modifyTask_set (fun tcb => { tcb with wake := some wake }) found
    have both := (state.modifyTask task fun tcb =>
      { tcb with wake := some wake }).board_modifyTask_set
        (fun tcb => { tcb with state := .ready }) waked
    rw [shown, set_set] at both
    change stateOf _ task = tcb.state at doing
    rw [State.makeReady, Board.makeReady, before]
    simp only [doing]
    cases was : tcb.state with
    | blocked | fresh =>
      simp only [reduceCtorEq, or_false, or_true, if_true]
      exact congrArg (fun board : Board Data => { board with ready := state.ready ++ [task] }) both
    | ready | running =>
      rw [was] at shown
      exact shown
    | done =>
      rw [was] at shown
      refine shown.trans ?_
      have none_given : state.board.wake task = none := by simp [board, found, was]
      have same : state.board.set task (state.board.doing task) (state.board.wake task) = _ :=
        state.board.set_same
      rw [before, was, none_given] at same
      exact same

theorem board_deregister (task : TaskId) :
    (state.deregister task).board = state.board.deregister task := by
  have queue : (state.deregister task).queue =
      fun post => (state.queue post).filter (· ≠ task) := by
    funext post
    cases post with
    | sender chan | receiver chan | selecter chan =>
      simp only [State.queue, deregister, List.getElem?_map]
      cases state.chans[chan]? with
      | none => rfl
      | some entry => simp [Chan.leave, List.filter_map, Function.comp_def]
    | timer | sleep => simp [State.queue, deregister, List.filter_map, Function.comp_def]
    | waiter mutex =>
      simp only [State.queue, deregister, List.getElem?_map]
      cases state.mutexes[mutex]? <;> rfl
  have holder : (state.deregister task).board.holder = state.board.holder := by
    funext mutex
    simp only [board, deregister, List.getElem?_map]
    cases state.mutexes[mutex]? <;> rfl
  rw [Board.deregister, board, queue]
  exact congrArg (Board.mk _ _ _ _) holder

/-- Changing who stands in one queue of a channel. -/
theorem board_modifyChan_line {chan : ChanId} {update : Chan Data → Chan Data} {entry : Chan Data}
    (found : state.chans[chan]? = some entry) (post : Post) (tasks : List TaskId)
    (sender : Function.update state.queue post tasks (.sender chan) =
      (update entry).senders.map Prod.fst)
    (receiver : Function.update state.queue post tasks (.receiver chan) = (update entry).receivers)
    (selecter : Function.update state.queue post tasks (.selecter chan) =
      (update entry).selecters.map Prod.fst)
    (here : post = .sender chan ∨ post = .receiver chan ∨ post = .selecter chan) :
    (state.modifyChan chan update).board = state.board.line post tasks := by
  have queue : (state.modifyChan chan update).queue = Function.update state.queue post tasks := by
    funext other
    have elsewhere : other ≠ .sender chan → other ≠ .receiver chan → other ≠ .selecter chan →
        Function.update state.queue post tasks other = state.queue other := by
      intro first second third
      refine Function.update_of_ne ?_ ..
      rintro rfl
      rcases here with rfl | rfl | rfl <;> contradiction
    cases other with
    | sender other =>
      rcases eq_or_ne chan other with rfl | differs
      · rw [sender]
        simp [State.queue, modifyChan, found]
      · rw [elsewhere (by simpa using differs.symm) (by simp) (by simp)]
        simp [State.queue, modifyChan, differs]
    | receiver other =>
      rcases eq_or_ne chan other with rfl | differs
      · rw [receiver]
        simp [State.queue, modifyChan, found]
      · rw [elsewhere (by simp) (by simpa using differs.symm) (by simp)]
        simp [State.queue, modifyChan, differs]
    | selecter other =>
      rcases eq_or_ne chan other with rfl | differs
      · rw [selecter]
        simp [State.queue, modifyChan, found]
      · rw [elsewhere (by simp) (by simp) (by simpa using differs.symm)]
        simp [State.queue, modifyChan, differs]
    | timer | sleep | waiter _ => exact (elsewhere (by simp) (by simp) (by simp)).symm
  rw [Board.line, board, queue]
  rfl

end Shown

/-! ## The search for the next task -/

theorem pick_lt (chooser : Chooser) (position : Nat) {count : Nat} (some_one : 0 < count) :
    (Chooser.pick chooser position count).1 < count := by
  unfold Chooser.pick
  cases chooser with
  | seeded seed rng =>
    dsimp only
    split
    · exact some_one
    · exact Nat.mod_lt _ some_one
  | packed digits =>
    dsimp only
    split
    · exact some_one
    · exact Nat.mod_lt _ some_one
  | plan plan =>
    dsimp only
    split
    · assumption
    · exact some_one

theorem rotateLeft_perm (tasks : List TaskId) (count : Nat) :
    (tasks.rotateLeft count).Perm tasks := by
  rw [List.rotateLeft]
  split
  · exact List.Perm.refl tasks
  · refine List.perm_append_comm.trans ?_
    rw [List.take_append_drop]

/-! ## The parked task -/

section Baton

variable {state : State Data} {calls : Calls Data}

theorem board_lieDown {me : TaskId} (runs : state.stateOf me = .running) :
    (state.lieDown me).board = state.board.lieDown me := by
  have doing : state.board.doing me = .running := runs
  have alive : state.board.doing me ≠ .done := by simp [doing]
  obtain ⟨tcb, found⟩ := state.found_of_alive alive
  rw [state.doing_of_found found] at alive
  have wake := state.wake_of_found found alive
  rw [State.lieDown, Board.lieDown, found, Option.bind_some, wake]
  cases given : tcb.wake with
  | none =>
    simp only [Option.isNone_none, if_true]
    rw [state.board_modifyTask_set (fun tcb => { tcb with state := .blocked }) found]
    simp [given]
  | some wake =>
    have shown := state.board_modifyTask_set (fun tcb => { tcb with state := .ready }) found
    simp only [given, reduceCtorEq, if_false] at shown
    exact congrArg (fun board : Board Data => { board with ready := state.ready ++ [me] }) shown

end Baton

end State

end WolfInterp.Sched
