import WolfInterp.Sched.Sessions

/-!
# What leaves the fate of the tasks alone

Every operation but the end of a task and a spawn keeps the tasks that there are, the scope and the
proc each of them is in, what has ended and how, and takes back no cancellation and no kill.
-/

namespace WolfInterp.Sched

open Execution

variable {Data : Type}

/-- The doors that decide the fate of a task. -/
def Op.decides : Op Data → Bool
  | .spawnTask .. | .spawnProc .. | .endTask .. => true
  | _ => false

namespace State

section Ends

variable (state : State Data)

theorem kin_exitWith {kill : State Data → ProcId → List RegionId × State Data}
    (kills : ∀ acting proc, Kin acting (kill acting proc).2) (proc : ProcId)
    (reason : ExitReason Data) : Kin state (state.exitWith kill proc reason).2 := by
  rw [exitWith]
  split
  · exact .same rfl
  · split
    · exact .same rfl
    · dsimp only
      refine List.foldlRecOn (motive := fun acting : List RegionId × State Data =>
        Kin state acting.2) _ _ (Kin.same rfl) fun acting before linked _ => ?_
      exact before.trans (kills acting.2 linked)

theorem kin_killProcWithin (fuel : Nat) (proc : ProcId) :
    Kin state (state.killProcWithin fuel proc).2 := by
  induction fuel generalizing state proc with
  | zero => exact .same rfl
  | succ fuel induction =>
    rw [killProcWithin]
    split
    · exact .same rfl
    · split
      · exact .same rfl
      · refine Kin.trans ?_ (kin_exitWith _ induction proc .killed)
        exact (mild_strike state proc).toKin

theorem kin_killProc (proc : ProcId) : Kin state (state.killProc proc).2 :=
  kin_killProcWithin state _ proc

theorem kin_deliverExit (proc : ProcId) (reason : ExitReason Data) :
    Kin state (state.deliverExit proc reason).2 :=
  kin_exitWith state (kin_killProcWithin · _) proc reason

theorem kin_settleScope (me : TaskId) (scope : ScopeId) (ended : TaskEnd Data) :
    Kin state (state.settleScope me scope ended) :=
  relates_settleScope (R := Kin) Kin.trans (fun mild => mild.toKin)
    (fun _ _ => .same rfl) state scope

end Ends

section Baton

variable (state : State Data)

theorem kin_lieDown {me : TaskId} (runs : state.stateOf me = .running) :
    Kin state (state.lieDown me) := by
  have living : ∀ old, state.tasks[me]? = some old → old.state ≠ .done := by
    rintro old found ended
    rw [stateOf, found] at runs
    simp [ended] at runs
  rw [lieDown]
  split
  · exact kin_modifyTask me fun old found =>
      ⟨rfl, rfl, rfl, by simp [living old found], id, id⟩
  · refine Kin.trans (kin_modifyTask me fun old found => ?_) (.same rfl)
    exact ⟨rfl, rfl, rfl, by simp [living old found], id, id⟩

theorem kin_resume {task : TaskId} (ready : state.stateOf task ≠ .done) :
    Kin state (state.resume task).2 := by
  refine kin_modifyTask task fun old found => ?_
  rw [stateOf, found] at ready
  exact ⟨rfl, rfl, rfl, by simpa using ready, id, id⟩

end Baton

section Doors

variable {state next : State Data} {me : TaskId} {turn : Turn Data}

/-- Every door but a spawn and the end of a task leaves the fate of the tasks alone. -/
theorem kin_enter {op : Op Data} (decides : op.decides = false)
    (entered : state.enter op = some turn) : Kin state turn.state := by
  by_cases steady : op.steady = true
  · exact (quiet_enter steady entered).toKin
  cases entered_of_enter entered with
  | @joinScope me _ _ joined =>
    obtain ⟨entry, _, ⟨_, rfl⟩ | rfl⟩ := joinScope_cases joined
    · exact (Kin.foldl (fun acting _ => kin_hbEdge acting _ me) _).after rfl
    · exact .same rfl
  | monitor monitored => exact .same (monitor_leaves monitored).2
  | @kill proc => exact kin_killProc state proc
  | deliverPending => exact (quiet_publishPending state).toKin.after rfl
  | newChan | openScope | link => exact .same rfl
  | spawnTask | spawnProc | endTask => cases decides
  | _ => exact absurd rfl steady

end Doors

section Searching

variable {calls : Calls Data} {state after : State Data} {task : TaskId}

/-- Whoever is chosen to run has not ended. -/
theorem Chosen.living (chosen : Chosen calls state (some task) after) :
    after.stateOf task ≠ .done := by
  cases chosen with
  | next tracks queued _ _ board _ _ =>
    have ready := tracks.stands.placed.queued task queued
    have doing : after.stateOf task = .ready := by
      change after.board.doing task = .ready
      rw [board]
      exact ready
    rw [doing]
    simp

section

variable (stands : Stands calls state) (idle : state.Idle)
include stands idle

theorem kin_runNext :
    Kin state (runNext state.chooseNext).2 := by
  have chosen := stands.chooseNext idle
  have kin := (mild_chooseNext state).toKin
  generalize state.chooseNext = choice at chosen kin ⊢
  obtain ⟨_ | next, after⟩ := choice
  · exact kin
  · exact kin.trans (kin_resume after chosen.living)

theorem kin_searchTwice (missing : state.chooseNext.1 = none) :
    Kin state (runNext state.chooseNext.2.declareDeadlock.chooseNext).2 := by
  have chosen := stands.chooseNext idle
  rw [missing] at chosen
  cases chosen with
  | nothing tracks =>
    have declared := tracks.then tracks.stands.declareDeadlock
    refine ((mild_chooseNext state).trans (mild_declareDeadlock _)).toKin.trans ?_
    exact kin_runNext declared.stands (declared.idle idle)

theorem kin_dispatchNext :
    Kin state state.dispatchNext.2 := by
  have chosen := stands.chooseNext idle
  have kin := (mild_chooseNext state).toKin
  have twice := kin_searchTwice stands idle
  rw [State.dispatchNext]
  generalize state.chooseNext = choice at chosen kin twice ⊢
  obtain ⟨_ | next, after⟩ := choice
  · dsimp only
    split
    · exact kin
    · exact twice rfl
  · exact kin.trans (kin_resume after chosen.living)

end

theorem kin_park (stands : Stands calls state) {me : TaskId} (runs : state.stateOf me = .running)
    (inside : calls me ≠ none) (solo : ∀ task, state.stateOf task = .running → task = me) :
    Kin state (state.park me).2 := by
  have lain := stands.lieDown runs inside
  have idle := stands.idle_lieDown runs inside solo
  have chosen := lain.stands.chooseNext idle
  have kin := (mild_chooseNext (state.lieDown me)).toKin
  have twice := kin_searchTwice lain.stands idle
  refine (kin_lieDown state runs).trans ?_
  rw [State.park]
  generalize (state.lieDown me).chooseNext = choice at chosen kin twice ⊢
  obtain ⟨_ | next, after⟩ := choice
  · exact twice rfl
  · exact kin.trans (kin_resume after chosen.living)

end Searching

end State

namespace World

variable {world next : World Data} {op : Op Data} {answer : Answer Data}

/-- What a door did to the scheduler, and what the baton did after it. -/
theorem kin_settle (sound : world.Sound) (performed : world.perform op = some (answer, next)) :
    ∃ turn, world.sched.enter op = some turn ∧ world.sched.admits op = true ∧
      (∀ kept after, turn = .keeps kept after → answer = kept ∧ next.sched = after) ∧
      State.Kin turn.state next.sched := by
  obtain ⟨keeps, turn, admitted, entered, settled⟩ := perform_eq performed
  refine ⟨turn, entered, admitted, ?_, ?_⟩
  · rintro kept after rfl
    cases settled
    exact ⟨rfl, rfl⟩
  · cases settled
    cases turn with
    | keeps kept after => exact .same rfl
    | parks me middle =>
      obtain ⟨_, running, sane⟩ := sound.parks keeps admitted entered
      have called : Function.update world.calls me (some op) me ≠ none := by
        rw [Function.update_self]
        simp
      exact State.kin_park sane.stands running called fun task runs =>
        sane.solo task me runs running
    | hands middle =>
      cases sound.enters keeps admitted entered with
      | handed door _ =>
        obtain rfl := door
        exact State.kin_dispatchNext sound.sane.stands (idle_of_admits admitted)

/-- A quiet door and the baton after it leave the fate of the tasks alone. -/
theorem kin_perform (sound : world.Sound) (performed : world.perform op = some (answer, next))
    (quiet : op.decides = false) : State.Kin world.sched next.sched := by
  obtain ⟨turn, entered, _, _, kin⟩ := kin_settle sound performed
  exact (State.kin_enter quiet entered).trans kin

end World

end WolfInterp.Sched
