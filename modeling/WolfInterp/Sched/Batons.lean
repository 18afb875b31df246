import Mathlib.Data.List.Count
import WolfInterp.Sched.Tracks

/-!
# The search for the next task

While nobody runs the scheduler ends sleeps, fires timers and picks a ready task. It comes back
without one only when nobody is ready, no timer is pending and nobody sleeps.
-/

namespace WolfInterp.Sched

open Board

variable {Data : Type}

namespace State

/-- Nobody runs. -/
def Idle (state : State Data) : Prop := ∀ task, state.stateOf task ≠ .running

section Searching

variable {state next : State Data} {calls : Calls Data} {task : TaskId}

theorem Tracks.idle {due : TaskId → Prop} {log : List (Traffic Data)}
    (tracks : Tracks calls due log state next) (idle : state.Idle) : next.Idle :=
  fun task running => idle task (tracks.runs task running).1

/-- While nobody runs, whoever waits is blocked. -/
theorem Idle.blocked (idle : state.Idle) (waits : state.board.Unwoken task) :
    state.stateOf task = .blocked := by
  rcases waits.1 with blocked | running
  · exact blocked
  · exact absurd running (idle task)

theorem queue_wakeBlocked (state : State Data) (task : TaskId) (wake : Wake Data) :
    (state.wakeBlocked task wake).queue = state.queue := by
  rw [wakeBlocked]
  split
  · exact queue_makeReady state task wake
  · rfl

/-- Waking a task, when it is blocked, that no queue lists. -/
theorem Stands.wakeBlocked (stands : Stands calls state) (free : ∀ post, task ∉ state.queue post)
    {wake : Wake Data} (quiet : ∀ op, calls task = some op → op.Quiet wake) :
    Tracks calls nobody [] state (state.wakeBlocked task wake) := by
  rw [State.wakeBlocked]
  split
  · rename_i blocked
    refine stands.makeReady free (by rw [blocked]; simp) (fun running => ?_) wake ?_
      (fun _ => rfl) fun _ _ => rfl
    · rw [blocked] at running
      cases running
    · intro op called dealt paid
      rw [stands.placed.asleep task blocked] at paid
      cases paid
      exact .quiet (quiet op called)
  · exact stands.refl

theorem not_unwoken_wakeBlocked (idle : state.Idle) (wake : Wake Data) :
    ¬ (state.wakeBlocked task wake).board.Unwoken task := by
  rw [State.wakeBlocked]
  split
  · rename_i blocked
    intro waits
    have given := (doing_makeReady_self (by rw [blocked]; simp) wake).2
    rw [waits.2] at given
    cases given
  · rename_i awake
    exact fun waits => awake (idle.blocked waits)

section

variable (stands : Stands calls state)
include stands

theorem Stands.promoteDueSleeps (idle : state.Idle) :
    Tracks calls nobody [] state state.promoteDueSleeps := by
  let thinned : State Data := { state with
    realSleeps := state.realSleeps.filter fun sleep => ¬ sleep.due ≤ state.wall }
  let due := (state.realSleeps.filter (·.due ≤ state.wall)).insertionSort (·.seq ≤ ·.seq)
  have mem_due : ∀ sleep, sleep ∈ due ↔ sleep ∈ state.realSleeps ∧ sleep.due ≤ state.wall := by
    intro sleep
    rw [(List.perm_insertionSort _ _).mem_iff, List.mem_filter]
    simp
  have thinner : ∀ post, (thinned.queue post).Sublist (state.queue post) := by
    intro post
    cases post with
    | sleep => exact List.filter_sublist.map _
    | _ => exact List.Sublist.refl _
  have left : Tracks calls (fun task => ∃ sleep ∈ due, sleep.task = task) [] state thinned := by
    refine stands.thin rfl thinner (fun _ => List.Subset.refl _) fun task post spared member => ?_
    cases post with
    | sleep =>
      obtain ⟨sleep, there, rfl⟩ := List.mem_map.mp member
      refine List.mem_map_of_mem (List.mem_filter.mpr ⟨there, ?_⟩)
      exact decide_eq_true fun late => spared ⟨sleep, (mem_due sleep).mpr ⟨there, late⟩, rfl⟩
    | _ => exact member
  have sleeping : ∀ sleep ∈ due, sleep.task ∈ state.queue .sleep := fun sleep member =>
    List.mem_map_of_mem ((mem_due sleep).mp member).1
  have free : ∀ sleep ∈ due, ∀ post, sleep.task ∉ thinned.queue post := by
    intro sleep member
    refine stands.gone rfl (sleeping sleep member) (fun post => (thinner post).subset) ?_
    intro again
    obtain ⟨other, remains, same⟩ := List.mem_map.mp again
    have kept := List.mem_filter.mp remains
    have nodup : (state.realSleeps.map RealSleep.task).Nodup := stands.placed.single .sleep rfl
    obtain rfl := List.inj_on_of_nodup_map nodup kept.1 ((mem_due sleep).mp member).1 same
    exact of_decide_eq_true kept.2 ((mem_due other).mp member).2
  have each : ∀ acting, Tracks calls nobody [] thinned acting → acting.queue = thinned.queue →
      ∀ sleep ∈ due,
        Tracks calls nobody [] acting (acting.wakeBlocked sleep.task (.ok .unit)) ∧
          (acting.wakeBlocked sleep.task (.ok .unit)).queue = thinned.queue ∧
          ¬ (acting.wakeBlocked sleep.task (.ok .unit)).board.Unwoken sleep.task := by
    intro acting tracks queue sleep member
    refine ⟨tracks.stands.wakeBlocked ?_ ?_, (queue_wakeBlocked acting _ _).trans queue, ?_⟩
    · rw [queue]
      exact free sleep member
    · intro op called
      have sleeps := stands.standsAt (sleeping sleep member) called
      cases op <;> trivial
    · exact not_unwoken_wakeBlocked (tracks.idle (left.idle idle)) _
  obtain ⟨woke, _, beyond⟩ := left.stands.foldl_wakes
    (fun acting sleep => acting.wakeBlocked sleep.task (.ok .unit)) RealSleep.task
    (fun acting => acting.queue = thinned.queue) rfl each
  refine (left.trans woke).close fun task late waits => ?_
  rcases late with ⟨sleep, member, rfl⟩ | none
  · exact beyond sleep member waits
  · exact none.elim

theorem Stands.fireTimer {timer : Timer}
    (quiet : ∀ op, calls timer.task = some op → op.Quiet (.arm timer.arm none)) :
    Tracks calls nobody [] state (state.fireTimer timer) := by
  rw [State.fireTimer]
  split
  · rename_i blocked
    exact stands.rouse_blocked blocked quiet
  · exact stands.refl

theorem Stands.advanceClock (idle : state.Idle) (advanced : state.advanceClock = some next) :
    Tracks calls nobody [] state next := by
  obtain ⟨earliest, _, rfl⟩ := Option.map_eq_some_iff.mp advanced
  let clock := max state.clock earliest
  let thinned : State Data := { state with
    clock, timers := state.timers.filter fun timer => ¬ timer.deadline ≤ clock }
  let due := (state.timers.filter (·.deadline ≤ clock)).insertionSort Timer.before
  have mem_due : ∀ timer, timer ∈ due ↔ timer ∈ state.timers ∧ timer.deadline ≤ clock := by
    intro timer
    rw [(List.perm_insertionSort _ _).mem_iff, List.mem_filter]
    simp
  have left : Tracks calls (fun task => ∃ timer ∈ due, timer.task = task) [] state thinned := by
    refine stands.thin rfl (fun post => ?_) (fun _ => List.Subset.refl _)
      fun task post spared member => ?_
    · cases post with
      | timer => exact List.filter_sublist.map _
      | _ => exact List.Sublist.refl _
    · cases post with
      | timer =>
        obtain ⟨timer, there, rfl⟩ := List.mem_map.mp member
        refine List.mem_map_of_mem (List.mem_filter.mpr ⟨there, ?_⟩)
        exact decide_eq_true fun late => spared ⟨timer, (mem_due timer).mpr ⟨there, late⟩, rfl⟩
      | _ => exact member
  have each : ∀ acting, Tracks calls nobody [] thinned acting → True → ∀ timer ∈ due,
      Tracks calls nobody [] acting (acting.fireTimer timer) ∧ True ∧
        ¬ (acting.fireTimer timer).board.Unwoken timer.task := by
    intro acting tracks _ timer member
    have there : timer.task ∈ state.queue .timer :=
      List.mem_map_of_mem ((mem_due timer).mp member).1
    refine ⟨tracks.stands.fireTimer fun op called => ?_, trivial, ?_⟩
    · have waits := stands.standsAt there called
      cases op <;> trivial
    rw [State.fireTimer]
    split
    · rename_i blocked
      exact not_unwoken_rouse (by rw [blocked]; simp) _
    · rename_i awake
      exact fun waits => awake ((tracks.idle (left.idle idle)).blocked waits)
  obtain ⟨fired, _, beyond⟩ := left.stands.foldl_wakes State.fireTimer Timer.task (fun _ => True)
    trivial each
  refine (left.trans fired).close fun task late waits => ?_
  rcases late with ⟨timer, member, rfl⟩ | none
  · exact beyond timer member waits
  · exact none.elim

theorem Stands.declareDeadlock :
    Tracks calls nobody [] state state.declareDeadlock := by
  have started : Tracks calls nobody [] state { state with deadlocked := true } :=
    stands.hidden rfl fun _ => rfl
  have each : ∀ (tasks : List TaskId) (wake : Wake Data) (acting : State Data),
      wake.bare = true → Stands calls acting → tasks.Nodup →
      (∀ task ∈ tasks, acting.stateOf task = .blocked) →
      Tracks calls nobody [] acting (tasks.foldl
        (fun acting task => (acting.deregister task).makeReady task wake) acting) := by
    intro tasks wake acting bare there nodup blocked
    induction tasks generalizing acting with
    | nil => exact there.refl
    | cons task tasks induction =>
      obtain ⟨absent, nodup⟩ := List.nodup_cons.mp nodup
      have woken := there.rouse_blocked (blocked task List.mem_cons_self)
        fun op _ => op.quiet_of_bare bare
      refine woken.then (induction _ woken.stands nodup fun other member => ?_)
      have differs : other ≠ task := by
        rintro rfl
        exact absent member
      have doing : (acting.deregister task).stateOf = acting.stateOf :=
        congrArg Board.doing (acting.board_deregister task)
      rw [(board_makeReady_of_ne _ differs wake).1, doing]
      exact blocked other (List.mem_cons_of_mem task member)
  refine started.then (each state.blocked _ _ rfl started.stands ?_ fun task member => ?_)
  · exact List.nodup_range.filter _
  · have asleep : state.stateOf task = .blocked := by simpa using (List.mem_filter.mp member).2
    exact asleep

end

/-! ## The choice -/

/-- The chosen task leaves the ready queue, and nothing else changes. -/
theorem schedule_spec (nodup : state.ready.Nodup) (some_one : state.ready ≠ []) :
    state.schedule.1 ∈ state.ready ∧ state.schedule.2.ready.Nodup ∧
      (∀ other, other ∈ state.schedule.2.ready ↔
        other ∈ state.ready ∧ other ≠ state.schedule.1) ∧
      state.schedule.2.board = { state.board with ready := state.schedule.2.ready } ∧
      state.schedule.2.chans = state.chans ∧ state.schedule.2.scopes = state.scopes := by
  have turned : ∃ ready : List TaskId, ready.Perm state.ready ∧
      state.schedule = ((ready[(({ state with ready } : State Data).decide .task ready).1]?).getD 0,
        { (({ state with ready } : State Data).decide .task ready).2 with
          ready :=
            ready.eraseIdx (({ state with ready } : State Data).decide .task ready).1 }) := by
    refine ⟨_, ?_, rfl⟩
    split
    · split
      · exact rotateLeft_perm _ _
      · rfl
    · rfl
  obtain ⟨ready, perm, answer⟩ := turned
  rw [answer]
  have nodup : ready.Nodup := perm.nodup_iff.mpr nodup
  have index : (({ state with ready } : State Data).decide .task ready).1 < ready.length := by
    refine pick_lt _ _ (List.length_pos_iff.mpr ?_)
    rintro rfl
    exact some_one (List.Perm.eq_nil perm.symm)
  rw [List.getElem?_eq_getElem index, Option.getD_some]
  refine ⟨perm.subset (List.getElem_mem index), nodup.sublist (List.eraseIdx_sublist _ _), ?_, rfl,
    rfl, rfl⟩
  intro other
  rw [← perm.mem_iff]
  refine List.mem_eraseIdx_iff_getElem.trans ?_
  constructor
  · rintro ⟨position, bound, differs, rfl⟩
    refine ⟨List.getElem_mem bound, fun same => differs ?_⟩
    exact (List.Nodup.getElem_inj_iff nodup).mp same
  · rintro ⟨member, differs⟩
    obtain ⟨position, bound, rfl⟩ := List.mem_iff_getElem.mp member
    refine ⟨position, bound, fun same => differs ?_, rfl⟩
    subst same
    rfl

/-- A choice of the next task: it is ready and leaves the ready queue. -/
inductive Chosen (calls : Calls Data) (state : State Data) :
    Option TaskId → State Data → Prop
  | nothing {after : State Data} (tracks : Tracks calls nobody [] state after) :
      Chosen calls state none after
  | next {middle after : State Data} {task : TaskId}
      (tracks : Tracks calls nobody [] state middle) (queued : task ∈ middle.ready)
      (nodup : after.ready.Nodup)
      (left : ∀ other, other ∈ after.ready ↔ other ∈ middle.ready ∧ other ≠ task)
      (board : after.board = { middle.board with ready := after.ready })
      (chans : after.chans = middle.chans) (scopes : after.scopes = middle.scopes) :
      Chosen calls state (some task) after

theorem Chosen.after {choice : Option TaskId} {middle after : State Data}
    (tracks : Tracks calls nobody [] state middle) (chosen : Chosen calls middle choice after) :
    Chosen calls state choice after := by
  cases chosen with
  | nothing later => exact .nothing (tracks.then later)
  | next later queued nodup left board chans scopes =>
    exact .next (tracks.then later) queued nodup left board chans scopes

theorem Stands.chooseLoop (stands : Stands calls state) (idle : state.Idle) (fuel : Nat) :
    Chosen calls state (state.chooseLoop fuel).1 (state.chooseLoop fuel).2 := by
  induction fuel generalizing state with
  | zero => exact .nothing stands.refl
  | succ fuel induction =>
    have promoted := stands.promoteDueSleeps idle
    rw [State.chooseLoop]
    split
    · rename_i some_one
      obtain ⟨queued, nodup, left, board, chans, scopes⟩ :=
        schedule_spec promoted.stands.placed.ready some_one
      exact .next promoted queued nodup left board chans scopes
    · cases advanced : state.promoteDueSleeps.advanceClock with
      | some next =>
        have fired := promoted.then
          (promoted.stands.advanceClock (promoted.idle idle) advanced)
        exact (induction fired.stands (fired.idle idle)).after fired
      | none =>
        cases (state.promoteDueSleeps.realSleeps.map RealSleep.due).min? with
        | none => exact .nothing promoted
        | some earliest =>
          have waited : Tracks calls nobody [] state { state.promoteDueSleeps with
              wall := if state.promoteDueSleeps.wall < earliest then
                earliest + state.promoteDueSleeps.late
                else state.promoteDueSleeps.wall } :=
            promoted.then (promoted.stands.hidden rfl fun _ => rfl)
          exact (induction waited.stands (waited.idle idle)).after waited

theorem Stands.chooseNext (stands : Stands calls state) (idle : state.Idle) :
    Chosen calls state state.chooseNext.1 state.chooseNext.2 :=
  stands.chooseLoop idle _

/-! ## Nothing is left over -/

/-- What pending time there is: the timers, and the sleeps that are not due. -/
def pendingTime (state : State Data) : Nat :=
  state.timers.length + state.realSleeps.countP fun sleep => ¬ sleep.due ≤ state.wall

theorem time_wakeBlocked (state : State Data) (task : TaskId) (wake : Wake Data) :
    (state.wakeBlocked task wake).timers = state.timers ∧
      (state.wakeBlocked task wake).realSleeps = state.realSleeps ∧
      (state.wakeBlocked task wake).wall = state.wall := by
  rw [wakeBlocked]
  split
  · rw [makeReady]
    dsimp only
    split <;> exact ⟨rfl, rfl, rfl⟩
  · exact ⟨rfl, rfl, rfl⟩

theorem time_promoteDueSleeps (state : State Data) : state.promoteDueSleeps.timers = state.timers ∧
      state.promoteDueSleeps.realSleeps =
        state.realSleeps.filter (fun sleep => ¬ sleep.due ≤ state.wall) ∧
      state.promoteDueSleeps.wall = state.wall := by
  have each : ∀ (due : List RealSleep) (acting : State Data),
      (due.foldl (fun state sleep => state.wakeBlocked sleep.task (.ok .unit)) acting).timers =
          acting.timers ∧
        (due.foldl (fun state sleep => state.wakeBlocked sleep.task (.ok .unit))
          acting).realSleeps = acting.realSleeps ∧
        (due.foldl (fun state sleep => state.wakeBlocked sleep.task (.ok .unit)) acting).wall =
          acting.wall := by
    intro due
    induction due with
    | nil => exact fun _ => ⟨rfl, rfl, rfl⟩
    | cons sleep due induction =>
      intro acting
      obtain ⟨timers, sleeps, wall⟩ := time_wakeBlocked acting sleep.task (.ok .unit)
      obtain ⟨timers', sleeps', wall'⟩ := induction (acting.wakeBlocked sleep.task (.ok .unit))
      exact ⟨timers'.trans timers, sleeps'.trans sleeps, wall'.trans wall⟩
  exact each _ _

/-- Firing timers takes timers and sleeps away. -/
theorem time_fireTimers (due : List Timer) (state : State Data) :
    (due.foldl fireTimer state).timers.Sublist state.timers ∧
      (due.foldl fireTimer state).realSleeps.Sublist state.realSleeps ∧
      (due.foldl fireTimer state).wall = state.wall := by
  induction due generalizing state with
  | nil => exact ⟨List.Sublist.refl _, List.Sublist.refl _, rfl⟩
  | cons timer due induction =>
    obtain ⟨timers, sleeps, wall⟩ := induction (state.fireTimer timer)
    have fired : (state.fireTimer timer).timers.Sublist state.timers ∧
        (state.fireTimer timer).realSleeps.Sublist state.realSleeps ∧
        (state.fireTimer timer).wall = state.wall := by
      rw [fireTimer]
      split
      · rw [makeReady]
        dsimp only
        split <;> exact ⟨List.filter_sublist, List.filter_sublist, rfl⟩
      · exact ⟨List.Sublist.refl _, List.Sublist.refl _, rfl⟩
    exact ⟨timers.trans fired.1, sleeps.trans fired.2.1, wall.trans fired.2.2⟩

theorem pendingTime_advanceClock (advanced : state.advanceClock = some next) :
    next.pendingTime < state.pendingTime := by
  obtain ⟨earliest, least, rfl⟩ := Option.map_eq_some_iff.mp advanced
  let thinned : State Data := { state with
    clock := max state.clock earliest
    timers := state.timers.filter fun timer => ¬ timer.deadline ≤ max state.clock earliest }
  let due := (state.timers.filter (·.deadline ≤ max state.clock earliest)).insertionSort
    Timer.before
  change (due.foldl fireTimer thinned).pendingTime < state.pendingTime
  obtain ⟨timers, sleeps, wall⟩ := time_fireTimers due thinned
  have fewer : thinned.timers.length < state.timers.length := by
    obtain ⟨timer, member, rfl⟩ := List.mem_map.mp (List.min?_mem least)
    refine List.length_filter_lt_length_iff_exists.mpr ⟨timer, member, ?_⟩
    simp
  have lighter := timers.length_le
  have lesser : (due.foldl fireTimer thinned).realSleeps.countP
      (fun sleep => Decidable.decide (¬ sleep.due ≤ state.wall)) ≤ state.realSleeps.countP
      (fun sleep => Decidable.decide (¬ sleep.due ≤ state.wall)) := sleeps.countP_le
  rw [pendingTime, pendingTime, wall]
  change _ + (due.foldl fireTimer thinned).realSleeps.countP
    (fun sleep => Decidable.decide (¬ sleep.due ≤ state.wall)) < _
  omega

/-- A search that has a round for everything pending comes back without a task only when nothing is
left. -/
theorem chooseLoop_exhausted (fuel : Nat) (state : State Data) (enough : state.pendingTime < fuel)
    (missing : (state.chooseLoop fuel).1 = none) :
    (state.chooseLoop fuel).2.ready = [] ∧ (state.chooseLoop fuel).2.timers = [] ∧
      (state.chooseLoop fuel).2.realSleeps = [] := by
  induction fuel generalizing state with
  | zero => exact absurd enough (Nat.not_lt_zero _)
  | succ fuel induction =>
    obtain ⟨timers, sleeps, wall⟩ := time_promoteDueSleeps state
    have same : state.promoteDueSleeps.pendingTime = state.pendingTime := by
      rw [pendingTime, pendingTime, timers, sleeps, wall, List.countP_filter]
      simp
    rw [State.chooseLoop] at missing ⊢
    by_cases some_one : state.promoteDueSleeps.ready ≠ []
    · simp [some_one] at missing
    · simp only [some_one, if_false] at missing ⊢
      cases advanced : state.promoteDueSleeps.advanceClock with
      | some next =>
        simp only [advanced] at missing ⊢
        have fewer := pendingTime_advanceClock advanced
        exact induction next (by omega) missing
      | none =>
        have untimed : state.promoteDueSleeps.timers = [] := by
          have none_least := Option.map_eq_none_iff.mp advanced
          exact List.map_eq_nil_iff.mp (List.min?_eq_none_iff.mp none_least)
        simp only [advanced] at missing ⊢
        cases least : (state.promoteDueSleeps.realSleeps.map RealSleep.due).min? with
        | none =>
          simp only [least] at missing ⊢
          refine ⟨by simpa using some_one, untimed, ?_⟩
          exact List.map_eq_nil_iff.mp (List.min?_eq_none_iff.mp least)
        | some earliest =>
          simp only [least] at missing ⊢
          refine induction _ ?_ missing
          -- the earliest sleep is due at the instant waited for
          obtain ⟨sleep, member, due⟩ := List.mem_map.mp (List.min?_mem least)
          have fewer : state.promoteDueSleeps.realSleeps.countP (fun sleep =>
              Decidable.decide (¬ sleep.due ≤ if state.promoteDueSleeps.wall < earliest then
                earliest + state.promoteDueSleeps.late else state.promoteDueSleeps.wall)) <
              state.promoteDueSleeps.realSleeps.length := by
            refine List.countP_lt_length_iff.mpr ⟨sleep, member, ?_⟩
            rw [decide_eq_false_iff_not, not_not, due]
            split <;> omega
          have all : state.promoteDueSleeps.realSleeps.countP
              (fun sleep => Decidable.decide (¬ sleep.due ≤ state.promoteDueSleeps.wall)) =
              state.promoteDueSleeps.realSleeps.length := by
            rw [List.countP_eq_length, sleeps, wall]
            exact fun sleep member => (List.mem_filter.mp member).2
          rw [pendingTime, all, untimed] at same
          rw [pendingTime]
          change state.promoteDueSleeps.timers.length +
            state.promoteDueSleeps.realSleeps.countP (fun sleep =>
              Decidable.decide (¬ sleep.due ≤ if state.promoteDueSleeps.wall < earliest then
                earliest + state.promoteDueSleeps.late else state.promoteDueSleeps.wall)) < fuel
          rw [untimed]
          omega

/-- The search comes back without a task only when nothing is left to wait for. -/
theorem chooseNext_exhausted (missing : state.chooseNext.1 = none) :
    state.chooseNext.2.ready = [] ∧ state.chooseNext.2.timers = [] ∧
      state.chooseNext.2.realSleeps = [] := by
  refine chooseLoop_exhausted _ state ?_ missing
  have bound := List.countP_le_length (p := fun sleep : RealSleep =>
    Decidable.decide (¬ sleep.due ≤ state.wall)) (l := state.realSleeps)
  rw [pendingTime]
  omega

/-! ## The baton goes on -/

/-- The parked task on its way out. -/
theorem Stands.lieDown (stands : Stands calls state) (runs : state.stateOf task = .running)
    (inside : calls task ≠ none) : Follows calls nobody [] state (state.lieDown task) := by
  have shown := board_lieDown runs
  have doing : (state.lieDown task).stateOf = (state.board.lieDown task).doing :=
    congrArg Board.doing shown
  have queue : (state.lieDown task).queue = state.queue := by
    have same := congrArg Board.queue shown
    refine same.trans ?_
    rw [Board.lieDown]
    split <;> rfl
  have wake : (state.lieDown task).board.wake = state.board.wake := by
    rw [shown, Board.lieDown]
    split
    · rename_i given
      change Function.update state.board.wake task none = _
      rw [← given, Function.update_eq_self]
    · rename_i wake given
      change Function.update state.board.wake task (some wake) = _
      rw [← given, Function.update_eq_self]
  have others : ∀ other,
      other ≠ task → (state.lieDown task).stateOf other = state.stateOf other := by
    intro other differs
    rw [doing, Board.lieDown]
    split
    · exact Board.set_doing_of_ne differs .blocked none
    · rename_i wake _
      exact Board.set_doing_of_ne differs .ready (some wake)
  have lain : (state.board.wake task = none ∧ (state.lieDown task).stateOf task = .blocked) ∨
      (state.board.wake task ≠ none ∧ (state.lieDown task).stateOf task = .ready ∧
        task ∈ (state.lieDown task).ready) := by
    have ready : (state.lieDown task).ready = (state.board.lieDown task).ready :=
      congrArg Board.ready shown
    rw [doing, ready, Board.lieDown]
    split
    · rename_i given
      exact .inl ⟨given, Board.set_doing_self .blocked none⟩
    · rename_i wake given
      refine .inr ⟨by rw [given]; simp, Board.set_doing_self .ready (some wake), ?_⟩
      exact List.mem_append_right _ (List.mem_singleton_self task)
  have grown : state.ready ⊆ (state.lieDown task).ready := by
    have ready : (state.lieDown task).ready = (state.board.lieDown task).ready :=
      congrArg Board.ready shown
    rw [ready, Board.lieDown]
    split
    · exact List.Subset.refl _
    · exact List.subset_append_left _ _
  constructor
  · constructor
    · rw [shown]
      exact (stands.placed.lieDown runs).placed
    · intro chan pair
      have chans : (state.lieDown task).chans = state.chans := by
        rw [State.lieDown]
        split <;> rfl
      rw [sendersOf_of_chans chans]
      exact stands.voiced chan pair
  · intro other post _ _ member
    rw [queue]
    exact member
  · intro other waits
    have given : state.board.wake other = none := by
      rw [← wake]
      exact waits.2
    rcases eq_or_ne other task with rfl | differs
    · exact ⟨.inr runs, given⟩
    · have before : (state.lieDown task).stateOf other = .blocked ∨
          (state.lieDown task).stateOf other = .running := waits.1
      rw [others other differs] at before
      exact ⟨before, given⟩
  · intro other awake ready
    rw [wake]
    rcases eq_or_ne other task with rfl | differs
    · rcases lain with ⟨_, blocked⟩ | ⟨given, _, member⟩
      · rw [blocked] at ready
        cases ready
      · exact ⟨member, given⟩
    · rw [others other differs] at ready
      exact ⟨grown (awake ready).1, (awake ready).2⟩
  · intro other running
    have differs : other ≠ task := by
      rintro rfl
      rcases lain with ⟨_, same⟩ | ⟨_, same, _⟩ <;> rw [same] at running <;> cases running
    rw [others other differs] at running
    rw [wake]
    exact ⟨running, fun _ => rfl⟩
  · intro other blocked
    rcases eq_or_ne other task with rfl | differs
    · exact .inr ⟨runs, inside⟩
    · rw [others other differs] at blocked
      exact .inl blocked
  · intro other _ living
    rcases eq_or_ne other task with rfl | differs
    · rcases lain with ⟨_, same⟩ | ⟨_, same, _⟩ <;> rw [same] <;> simp
    · rw [others other differs]
      exact living
  · intro other op _ _ dealt paid
    rw [wake, dealtBy_nil, List.append_nil]
    exact paid
  · exact fun _ _ => rfl

/-- The baton goes on from a state in which nobody runs: to a ready task with its wake, or to
nobody. -/
inductive Hands (calls : Calls Data) (state : State Data) : Answer Data → State Data → Prop
  | idle {after : State Data} (follows : Follows calls nobody [] state after)
      (idle : after.Idle) : Hands calls state .idle after
  | resumed {middle after : State Data} {task : TaskId}
      (follows : Follows calls nobody [] state middle) (idle : middle.Idle)
      (queued : task ∈ middle.ready)
      (nodup : after.ready.Nodup)
      (left : ∀ other, other ∈ after.ready ↔ other ∈ middle.ready ∧ other ≠ task)
      (board : after.board = { middle.board.set task .running none with ready := after.ready })
      (chans : after.chans = middle.chans) (scopes : after.scopes = middle.scopes) :
      Hands calls state (.resumed task (middle.board.wake task)) after

theorem Hands.after {answer : Answer Data} {middle after : State Data}
    (follows : Follows calls nobody [] state middle) (hands : Hands calls middle answer after) :
    Hands calls state answer after := by
  cases hands with
  | idle later idle => exact .idle (follows.then later) idle
  | resumed later idle queued nodup left board chans scopes =>
    exact .resumed (follows.then later) idle queued nodup left board chans scopes

theorem Chosen.resume {middle : State Data} (chosen : Chosen calls state (some task) middle)
    (idle : state.Idle) : Hands calls state (middle.resume task).1 (middle.resume task).2 := by
  cases chosen with
  | next tracks queued nodup left board chans scopes =>
    rename_i before
    have ready : before.board.doing task = .ready := tracks.stands.placed.queued task queued
    have doing : middle.board.doing task = .ready := by
      rw [board]
      exact ready
    have given : middle.board.wake = before.board.wake := by
      rw [board]
    obtain ⟨tcb, found⟩ := middle.found_of_alive (by rw [doing]; simp)
    rw [middle.doing_of_found found] at doing
    have wake := middle.wake_of_found found (by rw [doing]; simp)
    have shown := middle.board_modifyTask_set
      (fun tcb => { tcb with state := .running, wake := none }) found
    rw [State.resume, found, Option.bind_some, ← wake, given]
    refine .resumed tracks.toFollows (tracks.idle idle) queued nodup left ?_ chans scopes
    rw [shown, board]
    rfl

theorem Stands.runNext (stands : Stands calls state) (idle : state.Idle) :
    Hands calls state (runNext state.chooseNext).1 (runNext state.chooseNext).2 := by
  have chosen := stands.chooseNext idle
  generalize state.chooseNext = choice at chosen ⊢
  obtain ⟨_ | task, after⟩ := choice
  · cases chosen with
    | nothing tracks => exact .idle tracks.toFollows (tracks.idle idle)
  · exact chosen.resume idle

section

variable (stands : Stands calls state) {me : TaskId} (runs : state.stateOf me = .running)
  (inside : calls me ≠ none) (solo : ∀ task, state.stateOf task = .running → task = me)
include stands runs inside solo

theorem Stands.idle_lieDown : (state.lieDown me).Idle := by
  intro task running
  obtain rfl := solo task ((stands.lieDown runs inside).runs task running).1
  have shown : (state.lieDown task).stateOf task = (state.board.lieDown task).doing task :=
    congrFun (congrArg Board.doing (board_lieDown runs)) task
  rw [shown, Board.lieDown] at running
  split at running
  · simp at running
  · simp at running

theorem Stands.park : Hands calls state (state.park me).1 (state.park me).2 := by
  have lain := stands.lieDown runs inside
  have idle := stands.idle_lieDown runs inside solo
  have chosen := lain.stands.chooseNext idle
  rw [State.park]
  generalize (state.lieDown me).chooseNext = choice at chosen ⊢
  obtain ⟨_ | task, after⟩ := choice
  · cases chosen with
    | nothing tracks =>
      have declared := tracks.then tracks.stands.declareDeadlock
      exact (declared.stands.runNext (declared.idle idle)).after (lain.then declared.toFollows)
  · exact (chosen.resume idle).after lain

end

theorem Stands.dispatchNext (stands : Stands calls state) (idle : state.Idle) :
    Hands calls state state.dispatchNext.1 state.dispatchNext.2 := by
  have chosen := stands.chooseNext idle
  rw [State.dispatchNext]
  generalize state.chooseNext = choice at chosen ⊢
  obtain ⟨_ | task, after⟩ := choice
  · cases chosen with
    | nothing tracks =>
      dsimp only
      split
      · exact .idle tracks.toFollows (tracks.idle idle)
      · have declared := tracks.then tracks.stands.declareDeadlock
        exact (declared.stands.runNext (declared.idle idle)).after declared.toFollows
  · exact chosen.resume idle

end Searching

end State

end WolfInterp.Sched
