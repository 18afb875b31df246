import WolfInterp.Sched.Kin

/-!
# Scope joins

A scope keeps the tasks spawned in it and a ledger of the failures among their ends. Beside every
run stands the list of the ends so far, each with the flags its task had at that moment. The ledger
is what that list makes of it, a join answers once every child has ended, and a failure stops every
sibling within the same step.
-/

namespace WolfInterp.Sched

open Execution

variable {Data : Type}

/-- The end of a task, as its thread reported it, with the flags of the task at that moment. -/
structure Completion (Data : Type) where
  task : TaskId
  scope : Option ScopeId
  ended : TaskEnd Data
  cancelled : Bool
  killed : Bool

/-- The failure that an end is: a fault always, an error when nobody had stopped the task. -/
def Completion.failure (completion : Completion Data) : Option (TaskEnd Data) :=
  match completion.ended with
  | .trapped _ | .ub _ | .unsupported _ => some completion.ended
  | .error .. => if completion.cancelled ∨ completion.killed then none else some completion.ended
  | .value _ | .cancelled | .killed => none

/-- The failures in a scope, in the order the tasks ended. -/
def failuresIn (past : List (Completion Data)) (scope : ScopeId) : List (TaskEnd Data) :=
  (past.filter fun completion => completion.scope = some scope).filterMap Completion.failure

/-- The end that a door reports. -/
def completionOf (state : State Data) : Op Data → List (Completion Data)
  | .endTask me ended => ((state.tasks[me]?).map fun tcb =>
    { task := me, scope := tcb.scope, ended, cancelled := tcb.cancelled,
      killed := tcb.killed }).toList
  | _ => []

theorem completionOf_other (state : State Data) {op : Op Data}
    (quiet : ∀ me ended, op ≠ .endTask me ended) : completionOf state op = [] := by
  cases op with
  | endTask me ended => exact absurd rfl (quiet me ended)
  | _ => rfl

/-- A world with the ends so far. -/
structure Chronicle (Data : Type) where
  world : World Data
  past : List (Completion Data) := []

namespace Chronicle

def initial (chooser : Chooser) : Chronicle Data := { world := World.initial chooser }

def sched (chronicle : Chronicle Data) : State Data := chronicle.world.sched

def perform (chronicle : Chronicle Data) (op : Op Data) : Option (Answer Data × Chronicle Data) :=
  (chronicle.world.perform op).map fun (answer, world) =>
    (answer, { world, past := chronicle.past ++ completionOf chronicle.sched op })

def step : Chronicle Data → Op Data → Option (Chronicle Data) := silence perform

end Chronicle

namespace State

/-- A task that has ended, or that has been told to stop. -/
def Stopped (state : State Data) (task : TaskId) : Prop :=
  ∀ tcb, state.tasks[task]? = some tcb →
    tcb.state = .done ∨ tcb.cancelled = true ∨ tcb.killed = true

section Stopping

variable {state next : State Data} {task : TaskId}

theorem Stopped.kin (stopped : state.Stopped task) (kin : Kin state next) : next.Stopped task := by
  intro new found
  obtain ⟨old, before, heir⟩ := kin.origin found
  rcases stopped old before with ended | cancelled | killed
  · exact .inl (heir.ended.mpr ended)
  · exact .inr (.inl (heir.cancelled cancelled))
  · exact .inr (.inr (heir.killed killed))

/-- A cancellation leaves its target stopped. -/
theorem stopped_cancel (state : State Data) (task : TaskId) : (state.cancel task).Stopped task := by
  rw [cancel]
  obtain ⟨same, absent⟩ | ⟨tcb, ops, found, ⟨same, early⟩ | ⟨owned, _, rfl, same⟩⟩ :=
    cancelTask_cases state.tasks.length state task
  · rw [same]
    intro tcb there
    rw [absent] at there
    cases there
  · rw [same]
    intro other there
    obtain rfl := Option.eq_some_unique found there
    exact early
  · rw [same]
    have flagged : (State.modifyTask { state with ops } task fun tcb =>
        { tcb with cancelled := true }).Stopped task := by
      intro other there
      rw [modifyTask, List.getElem?_modify_eq, found] at there
      cases there
      exact .inr (.inl rfl)
    refine Stopped.kin ?_ (Mild.foldl (fun acting child => mild_cancelTask acting _ child) _).toKin
    split
    · exact flagged.kin (mild_rouse _ task .cancelled).toKin
    · exact flagged

theorem stopped_cancelAll (state : State Data) {tasks : List TaskId} (member : task ∈ tasks) :
    (tasks.foldl cancel state).Stopped task := by
  induction tasks generalizing state with
  | nil => cases member
  | cons first tasks induction =>
    rw [List.foldl_cons]
    rcases List.mem_cons.mp member with rfl | later
    · exact (stopped_cancel state task).kin (mild_cancelAll _ tasks).toKin
    · exact induction _ later

end Stopping

/-! ## The ledgers of the scopes -/

/-- What a scope knows of its children. -/
def rollOf (state : State Data) (scope : ScopeId) : Option (List TaskId × List (TaskEnd Data)) :=
  (state.scopes[scope]?).map fun entry => (entry.children, entry.failures)

section Ledgers

variable {state next : State Data}

theorem roll_of_scopes (same : next.scopes = state.scopes) : next.rollOf = state.rollOf := by
  funext scope
  rw [rollOf, same, rollOf]

theorem roll_modifyScope (state : State Data) (scope other : ScopeId)
    (update : ScopeState Data → ScopeState Data) : (state.modifyScope scope update).rollOf other =
      (state.scopes[other]?).map fun entry =>
        if scope = other then ((update entry).children, (update entry).failures)
        else (entry.children, entry.failures) := by
  rw [rollOf, modifyScope, List.getElem?_modify]
  cases state.scopes[other]? with
  | none => rfl
  | some entry =>
    simp only [Option.map_eq_map, Option.map_some]
    split <;> rfl

/-- A flag of a scope is not in its ledger. -/
theorem roll_joining (state : State Data) (scope : ScopeId) (joining : Bool) :
    (state.modifyScope scope fun entry => { entry with joining }).rollOf = state.rollOf := by
  funext other
  rw [roll_modifyScope, rollOf]
  cases state.scopes[other]? with
  | none => rfl
  | some entry =>
    simp only [Option.map_some]
    split <;> rfl

/-- Every door but a spawn, the end of a task and the opening of a scope keeps the ledgers. -/
theorem roll_enter {op : Op Data} {turn : Turn Data} (quiet : op.decides = false)
    (notOpen : ∀ owner, op ≠ .openScope owner) (entered : state.enter op = some turn) :
    turn.state.rollOf = state.rollOf := by
  by_cases steady : op.steady = true
  · exact roll_of_scopes (quiet_enter steady entered).scopes
  cases entered_of_enter entered with
  | newChan | link => rfl
  | @joinScope me scope _ joined =>
    obtain ⟨entry, _, ⟨_, rfl⟩ | rfl⟩ := joinScope_cases joined
    · exact (roll_of_scopes (still_joinEdges ..).scopes).trans (roll_joining _ scope false)
    · exact roll_joining _ scope true
  | monitor monitored => exact roll_of_scopes (monitor_leaves monitored).1
  | @kill proc =>
    obtain ⟨exits, recorded, _⟩ := killProc_spec state proc
    exact roll_of_scopes recorded.scopes
  | deliverPending => exact roll_of_scopes (quiet_publishPending state).scopes
  | @openScope owner => exact absurd rfl (notOpen owner)
  | spawnTask | spawnProc | endTask => cases quiet
  | _ => exact absurd rfl steady

/-- What the baton does keeps the ledgers. -/
theorem roll_settleTurn (turn : Turn Data) : (settleTurn turn).2.rollOf = turn.state.rollOf := by
  cases turn with
  | keeps answer state => rfl
  | parks me state => exact roll_of_scopes (unmoved_park state me).scopes
  | hands state => exact roll_of_scopes (unmoved_dispatchNext state).scopes

theorem roll_failScope (state : State Data) (me : TaskId) (scope : ScopeId) (ended : TaskEnd Data)
    (other : ScopeId) : (state.failScope me scope ended).rollOf other =
      (state.rollOf other).map fun roll =>
        (roll.1, roll.2 ++ if scope = other then [ended] else []) := by
  have entered : (state.modifyScope scope fun entry =>
      { entry with failures := entry.failures ++ [ended] }).rollOf other =
        (state.rollOf other).map fun roll =>
          (roll.1, roll.2 ++ if scope = other then [ended] else []) := by
    rw [roll_modifyScope, rollOf, Option.map_map]
    refine congrArg (Option.map · state.scopes[other]?) (funext fun entry => ?_)
    by_cases same : scope = other
    · simp [same]
    · simp [same]
  rw [failScope]
  dsimp only
  split
  · exact entered
  · next entry _ =>
      have siblings := mild_cancelAll (state.modifyScope scope fun entry =>
        { entry with failures := entry.failures ++ [ended] }) (entry.children.filter (· ≠ me))
      split
      · rw [roll_of_scopes (mild_cancel _ _).scopes, roll_of_scopes siblings.scopes]
        exact entered
      · rw [roll_of_scopes siblings.scopes]
        exact entered

/-- A failing end is entered in the ledger of its scope, and no other end is. -/
theorem roll_recordEnd (state : State Data) (me : TaskId) (scope : Option ScopeId)
    (ended : TaskEnd Data) (other : ScopeId) : (state.recordEnd me scope ended).rollOf other =
      (state.rollOf other).map fun roll => (roll.1, roll.2 ++
        if scope = some other ∧ TaskEnd.failing ended = true then [ended] else []) := by
  cases scope with
  | none => simp [recordEnd, rollOf, modifyTask, Function.comp_def]
  | some scope =>
    rw [recordEnd, settleScope, roll_of_scopes (mild_wakeJoiner _ scope).scopes]
    by_cases failing : TaskEnd.failing ended = true
    · rw [if_pos failing, roll_failScope]
      simp [failing, rollOf, op, modifyTask]
    · rw [if_neg failing]
      simp [failing, rollOf, op, modifyTask, Function.comp_def]

end Ledgers

/-! ## The two doors that decide -/

section Deciding

variable {state next : State Data} {me : TaskId}

/-- What the end of a task does: the task is done, its end is in the ledger of its scope when it
fails, and then every sibling is stopped. -/
structure Ends (state : State Data) (me : TaskId) (tcb : Tcb Data) (ended : TaskEnd Data)
    (next : State Data) : Prop where
  kin : Kin (state.modifyTask me fun tcb => { tcb with state := .done, outcome := some ended }) next
  roll : ∀ scope, next.rollOf scope = (state.rollOf scope).map fun roll => (roll.1, roll.2 ++
    if tcb.scope = some scope ∧ TaskEnd.failing ended = true then [ended] else [])
  siblings : TaskEnd.failing ended = true → ∀ scope entry, tcb.scope = some scope →
    state.scopes[scope]? = some entry → ∀ sibling ∈ entry.children, sibling ≠ me →
      next.Stopped sibling

theorem stopped_failScope (state : State Data) {scope : ScopeId} {entry : ScopeState Data}
    (found : state.scopes[scope]? = some entry) (ended : TaskEnd Data) {sibling : TaskId}
    (member : sibling ∈ entry.children) (differs : sibling ≠ me) :
    (state.failScope me scope ended).Stopped sibling := by
  have there : (state.modifyScope scope fun entry =>
      { entry with failures := entry.failures ++ [ended] }).scopes[scope]? =
        some { entry with failures := entry.failures ++ [ended] } := by
    rw [modifyScope, List.getElem?_modify_eq, found]
    rfl
  rw [failScope]
  simp only [there]
  have listed : sibling ∈ entry.children.filter (· ≠ me) :=
    List.mem_filter.mpr ⟨member, by simpa using differs⟩
  split
  · exact (stopped_cancelAll _ listed).kin (mild_cancel _ _).toKin
  · exact stopped_cancelAll _ listed

theorem ends_recordEnd (state : State Data) (me : TaskId) (tcb : Tcb Data) (ended : TaskEnd Data) :
    Ends state me tcb ended (state.recordEnd me tcb.scope ended) where
  kin := by
    unfold recordEnd
    split
    · exact .same rfl
    · exact kin_settleScope _ me _ ended
  roll := roll_recordEnd state me tcb.scope ended
  siblings := by
    intro failing scope entry inside found sibling member differs
    unfold recordEnd
    rw [inside]
    dsimp only
    rw [settleScope, if_pos failing]
    refine Stopped.kin ?_ (mild_wakeJoiner _ scope).toKin
    refine stopped_failScope _ ?_ ended member differs
    exact found

theorem Ends.trans {tcb : Tcb Data} {ended : TaskEnd Data} {later : State Data}
    (ends : Ends state me tcb ended next) (kin : Kin next later)
    (scopes : later.scopes = next.scopes) : Ends state me tcb ended later where
  kin := ends.kin.trans kin
  roll scope := by rw [roll_of_scopes scopes, ends.roll]
  siblings failing scope entry inside found sibling member differs :=
    (ends.siblings failing scope entry inside found sibling member differs).kin kin

/-- Every task is still there, in the same scope, and the one that ends is done. -/
theorem Ends.found {tcb : Tcb Data} {ended : TaskEnd Data} (ends : Ends state me tcb ended next)
    {task : TaskId} {old : Tcb Data} (there : state.tasks[task]? = some old) :
    ∃ new, next.tasks[task]? = some new ∧ new.scope = old.scope ∧
      (new.state = .done ↔ old.state = .done ∨ task = me) := by
  by_cases same : me = task
  · subst same
    obtain ⟨new, later, heir⟩ := ends.kin.heir me
      { old with state := .done, outcome := some ended } (by
        rw [modifyTask, List.getElem?_modify_eq, there]
        rfl)
    exact ⟨new, later, heir.scope, by simp [heir.ended]⟩
  · obtain ⟨new, later, heir⟩ := ends.kin.heir task old (by
      rw [modifyTask, List.getElem?_modify_ne _ _ same]
      exact there)
    exact ⟨new, later, heir.scope, by simp [heir.ended, Ne.symm same]⟩

theorem endTask_spec {ended : TaskEnd Data} {regions : List RegionId}
    (finished : state.endTask me ended = some (regions, next)) :
    ∃ tcb, state.tasks[me]? = some tcb ∧
      Ends state me tcb (TaskEnd.settled ended tcb.cancelled tcb.killed) next := by
  obtain ⟨tcb, found, answered⟩ := Option.map_eq_some_iff.mp finished
  refine ⟨tcb, found, ?_⟩
  have recorded : Ends state me tcb (TaskEnd.settled ended tcb.cancelled tcb.killed)
      ((state.op me (.taskCtl me) false).recordEnd me tcb.scope
        (TaskEnd.settled ended tcb.cancelled tcb.killed)) := by
    have noted := ends_recordEnd (state.op me (.taskCtl me) false) me tcb
      (TaskEnd.settled ended tcb.cancelled tcb.killed)
    exact ⟨noted.kin.after rfl, noted.roll, noted.siblings⟩
  dsimp only at answered
  split at answered
  · obtain rfl := (Prod.mk.inj answered).2
    exact recorded.trans (kin_deliverExit _ _ _) (scopes_deliverExit _ _ _)
  · obtain rfl := (Prod.mk.inj answered).2
    exact recorded

/-- What a spawn does: one task more, a child of its scope. -/
structure Spawns (state : State Data) (scope : Option ScopeId) (next : State Data) : Prop where
  heir : ∀ (task : TaskId) old, state.tasks[task]? = some old →
    ∃ new, next.tasks[task]? = some new ∧ Heir old new
  count : next.tasks.length = state.tasks.length + 1
  fresh : ∃ tcb, next.tasks[state.tasks.length]? = some tcb ∧ tcb.scope = scope ∧
    tcb.state ≠ .done
  roll : ∀ other, next.rollOf other = (state.rollOf other).map fun roll =>
    (roll.1 ++ if scope = some other then [state.tasks.length] else [], roll.2)

theorem spawns_spawnTask (state : State Data) (parent : TaskId) (scope : Option ScopeId)
    (proc : ProcId) (name : String) :
    Spawns state scope (state.spawnTask parent scope proc name).2 := by
  let fresh : Tcb Data := { name, state := .fresh, proc, scope, vc := state.taskVc parent }
  let added : State Data := { state.tick parent with tasks := (state.tick parent).tasks ++ [fresh] }
  have ticked := kin_tick state parent
  have later : Kin added (state.spawnTask parent scope proc name).2 := by
    have clocked := kin_tick added state.tasks.length
    have readied : ∀ acting : State Data, acting.tasks = (added.tick state.tasks.length).tasks →
        Kin acting (acting.modifyTask state.tasks.length fun tcb =>
          { tcb with state := .ready, wake := some (.ok .unit) }) := by
      intro acting same
      refine kin_modifyTask _ fun old found => ?_
      rw [same] at found
      obtain ⟨before, there, heir⟩ := clocked.origin found
      have last : (state.tick parent).tasks.length = state.tasks.length := ticked.count
      rw [← last, List.getElem?_concat_length] at there
      cases there
      have living : old.state ≠ .done := fun done => by cases heir.ended.mp done
      exact ⟨rfl, rfl, rfl, by simp [living], id, id⟩
    refine clocked.trans ?_
    cases scope with
    | none => exact (readied _ rfl).trans (.same rfl)
    | some scope =>
      refine Kin.trans (Kin.after (readied ((added.tick state.tasks.length).modifyScope scope
        fun entry => { entry with children := entry.children ++ [state.tasks.length] }) rfl)
        rfl) (.same rfl)
  constructor
  · intro task old found
    obtain ⟨between, there, early⟩ := ticked.heir task old found
    have bound : task < (state.tick parent).tasks.length := (List.getElem?_eq_some_iff.mp there).1
    obtain ⟨new, after, late⟩ := later.heir task between
      ((List.getElem?_append_left bound).trans there)
    exact ⟨new, after, early.trans late⟩
  · rw [later.count, List.length_append, ticked.count, List.length_singleton]
  · obtain ⟨new, after, heir⟩ := later.heir state.tasks.length fresh (by
      rw [← ticked.count]
      exact List.getElem?_concat_length)
    exact ⟨new, after, heir.scope, fun done => by cases heir.ended.mp done⟩
  · intro other
    cases scope with
    | none =>
      change (state.rollOf other) = _
      simp
    | some scope =>
      change (state.modifyScope scope fun entry =>
        { entry with children := entry.children ++ [state.tasks.length] }).rollOf other = _
      rw [roll_modifyScope, rollOf, Option.map_map]
      refine congrArg (Option.map · state.scopes[other]?) (funext fun entry => ?_)
      by_cases same : scope = other
      · simp [same]
      · simp [same]

/-- A proc's root is a task outside every scope. -/
theorem spawns_spawnProc (state : State Data) (parent : TaskId) (name : String)
    (region : RegionId) : Spawns state none (state.spawnProc parent name region).2 := by
  have spawned := spawns_spawnTask (({ state with procs := state.procs ++
    [{ name, root := 0, region := some region }] } : State Data).op parent
      (.proc state.procs.length) true) parent none state.procs.length s!"proc:{name}"
  exact ⟨spawned.heir, spawned.count, spawned.fresh, spawned.roll⟩

/-- Was a task spawned in a scope? -/
def ChildOf (state : State Data) (task : TaskId) (scope : ScopeId) : Prop :=
  ∃ tcb, state.tasks[task]? = some tcb ∧ tcb.scope = some scope

theorem Kin.childOf (kin : Kin state next) (task : TaskId)
    (scope : ScopeId) : next.ChildOf task scope ↔ state.ChildOf task scope := by
  constructor
  · rintro ⟨new, there, inside⟩
    obtain ⟨old, before, heir⟩ := kin.origin there
    exact ⟨old, before, heir.scope.symm.trans inside⟩
  · rintro ⟨old, before, inside⟩
    obtain ⟨new, there, heir⟩ := kin.heir task old before
    exact ⟨new, there, heir.scope.trans inside⟩

theorem Spawns.childOf {scope : Option ScopeId} (spawns : Spawns state scope next) (task : TaskId)
    (other : ScopeId) : next.ChildOf task other ↔
      state.ChildOf task other ∨ scope = some other ∧ task = state.tasks.length := by
  obtain ⟨fresh, there, placed, _⟩ := spawns.fresh
  constructor
  · rintro ⟨new, found, inside⟩
    have bound := (List.getElem?_eq_some_iff.mp found).1
    rw [spawns.count] at bound
    rcases Nat.lt_succ_iff_lt_or_eq.mp bound with before | rfl
    · obtain ⟨new', found', heir⟩ := spawns.heir task _ (List.getElem?_eq_getElem before)
      obtain rfl := Option.eq_some_unique found found'
      exact .inl ⟨_, List.getElem?_eq_getElem before, heir.scope.symm.trans inside⟩
    · obtain rfl := Option.eq_some_unique found there
      exact .inr ⟨placed.symm.trans inside, rfl⟩
  · rintro (⟨old, before, inside⟩ | ⟨rfl, rfl⟩)
    · obtain ⟨new, after, heir⟩ := spawns.heir task old before
      exact ⟨new, after, heir.scope.trans inside⟩
    · exact ⟨fresh, there, placed⟩

end Deciding

end State

/-! ## The account -/

theorem failure_eq (completion : Completion Data) :
    completion.failure =
      let ended := State.TaskEnd.settled completion.ended completion.cancelled completion.killed
      if State.TaskEnd.failing ended = true then some ended else none := by
  obtain ⟨task, scope, ended, cancelled, killed⟩ := completion
  cases ended with
  | error tag payload => cases cancelled <;> cases killed <;> rfl
  | value value => cases killed <;> rfl
  | _ => rfl

theorem failuresIn_snoc (past : List (Completion Data)) (completion : Completion Data)
    (scope : ScopeId) : failuresIn (past ++ [completion]) scope = failuresIn past scope ++
      if completion.scope = some scope then completion.failure.toList else [] := by
  rw [failuresIn, List.filter_append, List.filterMap_append]
  by_cases inside : completion.scope = some scope
  · cases failed : completion.failure <;> simp [failuresIn, inside, failed]
  · simp [failuresIn, inside]

namespace Chronicle

/-- The scopes know their children, the list of ends is that of the tasks that are done, once each,
and every ledger is what the list makes of it. -/
structure Accounted (chronicle : Chronicle Data) : Prop where
  sound : chronicle.world.Sound
  children : ∀ scope roll, chronicle.sched.rollOf scope = some roll → ∀ child,
    child ∈ roll.1 ↔ ∃ tcb, chronicle.sched.tasks[child]? = some tcb ∧ tcb.scope = some scope
  enrolled : ∀ (task : TaskId) tcb scope, chronicle.sched.tasks[task]? = some tcb →
    tcb.scope = some scope → (chronicle.sched.rollOf scope).isSome
  done : ∀ (task : TaskId) tcb, chronicle.sched.tasks[task]? = some tcb → tcb.state = .done →
    task ∈ chronicle.past.map Completion.task
  ended : ∀ completion ∈ chronicle.past, ∃ tcb,
    chronicle.sched.tasks[completion.task]? = some tcb ∧ tcb.state = .done ∧
      tcb.scope = completion.scope
  once : (chronicle.past.map Completion.task).Nodup
  ledger : ∀ scope roll, chronicle.sched.rollOf scope = some roll →
    roll.2 = failuresIn chronicle.past scope

variable {chronicle next : Chronicle Data} {op : Op Data} {answer : Answer Data}

theorem accounted_initial (chooser : Chooser) : (initial chooser : Chronicle Data).Accounted where
  sound := World.sound_initial chooser
  children scope roll found := by cases found
  enrolled task tcb scope found inside := by
    cases task with
    | zero =>
      cases found
      cases inside
    | succ task => cases found
  done task tcb found done := by
    cases task with
    | zero =>
      cases found
      cases done
    | succ task => cases found
  ended completion member := by cases member
  once := List.nodup_nil
  ledger scope roll found := by cases found

/-- What leaves the fate of the tasks and the ledgers alone keeps the account. -/
theorem Accounted.kin (accounted : chronicle.Accounted) {world : World Data} (sound : world.Sound)
    (kin : State.Kin chronicle.sched world.sched)
    (rolls : world.sched.rollOf = chronicle.sched.rollOf) :
    Accounted { world, past := chronicle.past } where
  sound := sound
  children scope roll found child := by
    change world.sched.rollOf scope = some roll at found
    rw [rolls] at found
    rw [accounted.children scope roll found child]
    constructor
    · rintro ⟨old, there, inside⟩
      obtain ⟨new, later, heir⟩ := kin.heir child old there
      exact ⟨new, later, heir.scope.trans inside⟩
    · rintro ⟨new, there, inside⟩
      obtain ⟨old, before, heir⟩ := kin.origin there
      exact ⟨old, before, heir.scope.symm.trans inside⟩
  enrolled task new scope there inside := by
    obtain ⟨old, before, heir⟩ := kin.origin there
    change (world.sched.rollOf scope).isSome
    rw [rolls]
    exact accounted.enrolled task old scope before (heir.scope.symm.trans inside)
  done task new there done := by
    obtain ⟨old, before, heir⟩ := kin.origin there
    exact accounted.done task old before (heir.ended.mp done)
  ended completion member := by
    obtain ⟨old, before, done, inside⟩ := accounted.ended completion member
    obtain ⟨new, later, heir⟩ := kin.heir _ old before
    exact ⟨new, later, heir.ended.mpr done, heir.scope.trans inside⟩
  once := accounted.once
  ledger scope roll found := by
    change world.sched.rollOf scope = some roll at found
    rw [rolls] at found
    exact accounted.ledger scope roll found

variable {world : World Data}

section

variable (accounted : chronicle.Accounted) (sound : world.Sound)
include accounted sound

/-- A fresh scope has no child and no failure. -/
theorem Accounted.openScope (tasks : world.sched.tasks = chronicle.sched.tasks) {owner : TaskId}
    (scopes : world.sched.scopes = chronicle.sched.scopes ++ [{ owner := owner }]) :
    Accounted { world, past := chronicle.past } := by
  have missing : chronicle.sched.rollOf chronicle.sched.scopes.length = none := by
    rw [State.rollOf, List.getElem?_eq_none (Nat.le_refl _)]
    rfl
  have rolls : ∀ scope, world.sched.rollOf scope =
      if scope = chronicle.sched.scopes.length then some ([], [])
      else chronicle.sched.rollOf scope := by
    intro scope
    rw [State.rollOf, scopes, Worklist.getElem?_snoc]
    split
    · rfl
    · rfl
  have vacant : ∀ (task : TaskId) tcb, chronicle.sched.tasks[task]? = some tcb →
      tcb.scope ≠ some chronicle.sched.scopes.length := by
    intro task tcb found inside
    have there := accounted.enrolled task tcb _ found inside
    rw [missing] at there
    cases there
  constructor
  · exact sound
  · intro scope roll found child
    change _ ↔ ∃ tcb, world.sched.tasks[child]? = some tcb ∧ _
    rw [tasks]
    change world.sched.rollOf scope = some roll at found
    rw [rolls] at found
    split at found
    · next fresh =>
        cases found
        subst fresh
        refine iff_of_false List.not_mem_nil ?_
        rintro ⟨tcb, there, inside⟩
        exact vacant child tcb there inside
    · exact accounted.children scope roll found child
  · intro task tcb scope found inside
    change world.sched.tasks[task]? = some tcb at found
    change (world.sched.rollOf scope).isSome
    rw [tasks] at found
    rw [rolls]
    split
    · rfl
    · exact accounted.enrolled task tcb scope found inside
  · intro task tcb found done
    change world.sched.tasks[task]? = some tcb at found
    rw [tasks] at found
    exact accounted.done task tcb found done
  · intro completion member
    change ∃ tcb, world.sched.tasks[completion.task]? = some tcb ∧ _
    rw [tasks]
    exact accounted.ended completion member
  · exact accounted.once
  · intro scope roll found
    change world.sched.rollOf scope = some roll at found
    rw [rolls] at found
    split at found
    · next fresh =>
        cases found
        subst fresh
        have none_ : chronicle.past.filter (fun completion =>
            completion.scope = some chronicle.sched.scopes.length) = [] := by
          rw [List.filter_eq_nil_iff]
          intro completion member inside
          obtain ⟨tcb, there, _, same⟩ := accounted.ended completion member
          exact vacant _ tcb there (same.trans (of_decide_eq_true inside))
        rw [failuresIn, none_]
        rfl
    · exact accounted.ledger scope roll found

/-- A spawned task is the one child more of its scope. -/
theorem Accounted.spawns {scope : Option ScopeId}
    (known : ∀ inside ∈ scope, (chronicle.sched.rollOf inside).isSome)
    (spawns : State.Spawns chronicle.sched scope world.sched) :
    Accounted { world, past := chronicle.past } := by
  obtain ⟨fresh, there, placed, living⟩ := spawns.fresh
  -- A task after the spawn is the fresh one or the heir of one before.
  have origin : ∀ (task : TaskId) new, world.sched.tasks[task]? = some new →
      task = chronicle.sched.tasks.length ∧ new = fresh ∨
        ∃ old, chronicle.sched.tasks[task]? = some old ∧ Heir old new := by
    intro task new found
    have bound := (List.getElem?_eq_some_iff.mp found).1
    rw [spawns.count] at bound
    rcases Nat.lt_succ_iff_lt_or_eq.mp bound with before | rfl
    · obtain ⟨new', found', heir⟩ := spawns.heir task _ (List.getElem?_eq_getElem before)
      obtain rfl := Option.eq_some_unique found found'
      exact .inr ⟨_, List.getElem?_eq_getElem before, heir⟩
    · exact .inl ⟨rfl, Option.eq_some_unique found there⟩
  have absent : chronicle.sched.tasks[chronicle.sched.tasks.length]? = none :=
    List.getElem?_eq_none (Nat.le_refl _)
  constructor
  · exact sound
  · intro other roll found child
    obtain ⟨before, rolled, rfl⟩ := Option.map_eq_some_iff.mp ((spawns.roll other).symm.trans found)
    have old := accounted.children other before rolled child
    change _ ↔ ∃ tcb, world.sched.tasks[child]? = some tcb ∧ _
    rw [List.mem_append, old]
    constructor
    · rintro (⟨tcb, found, inside⟩ | listed)
      · obtain ⟨new, later, heir⟩ := spawns.heir child tcb found
        exact ⟨new, later, heir.scope.trans inside⟩
      · split at listed
        · next inside =>
            obtain rfl := List.mem_singleton.mp listed
            exact ⟨fresh, there, placed.trans inside⟩
        · cases listed
    · rintro ⟨new, found, inside⟩
      rcases origin child new found with ⟨rfl, rfl⟩ | ⟨tcb, earlier, heir⟩
      · rw [if_pos (placed.symm.trans inside)]
        exact .inr (List.mem_singleton.mpr rfl)
      · exact .inl ⟨tcb, earlier, heir.scope.symm.trans inside⟩
  · intro task new other found inside
    change (world.sched.rollOf other).isSome
    rw [spawns.roll, Option.isSome_map]
    rcases origin task new found with ⟨rfl, rfl⟩ | ⟨old, earlier, heir⟩
    · exact known other (placed.symm.trans inside)
    · exact accounted.enrolled task old other earlier (heir.scope.symm.trans inside)
  · intro task new found done
    rcases origin task new found with ⟨rfl, rfl⟩ | ⟨old, earlier, heir⟩
    · exact absurd done living
    · exact accounted.done task old earlier (heir.ended.mp done)
  · intro completion member
    obtain ⟨old, earlier, done, inside⟩ := accounted.ended completion member
    obtain ⟨new, later, heir⟩ := spawns.heir _ old earlier
    exact ⟨new, later, heir.ended.mpr done, heir.scope.trans inside⟩
  · exact accounted.once
  · intro other roll found
    obtain ⟨before, rolled, rfl⟩ := Option.map_eq_some_iff.mp ((spawns.roll other).symm.trans found)
    exact accounted.ledger other before rolled

/-- The end of a running task is entered. -/
theorem Accounted.ends {me : TaskId} {tcb : Tcb Data} {ended : TaskEnd Data}
    (found : chronicle.sched.tasks[me]? = some tcb) (living : tcb.state ≠ .done)
    (ends : State.Ends chronicle.sched me tcb
      (State.TaskEnd.settled ended tcb.cancelled tcb.killed) world.sched) :
    Accounted { world, past := chronicle.past ++
      [{ task := me, scope := tcb.scope, ended, cancelled := tcb.cancelled,
         killed := tcb.killed }] } := by
  have origin : ∀ (task : TaskId) new, world.sched.tasks[task]? = some new →
      ∃ old, chronicle.sched.tasks[task]? = some old ∧ new.scope = old.scope ∧
        (new.state = .done ↔ old.state = .done ∨ task = me) := by
    intro task new there
    have bound := (List.getElem?_eq_some_iff.mp there).1
    rw [ends.kin.count, State.modifyTask, List.length_modify] at bound
    obtain ⟨new', there', same, done⟩ := ends.found (List.getElem?_eq_getElem bound)
    obtain rfl := Option.eq_some_unique there there'
    exact ⟨_, List.getElem?_eq_getElem bound, same, done⟩
  constructor
  · exact sound
  · intro scope roll found child
    obtain ⟨before, rolled, rfl⟩ := Option.map_eq_some_iff.mp ((ends.roll scope).symm.trans found)
    rw [accounted.children scope before rolled child]
    constructor
    · rintro ⟨old, there, inside⟩
      obtain ⟨new, later, same, _⟩ := ends.found there
      exact ⟨new, later, same.trans inside⟩
    · rintro ⟨new, there, inside⟩
      obtain ⟨old, before, same, _⟩ := origin child new there
      exact ⟨old, before, same.symm.trans inside⟩
  · intro task new scope there inside
    obtain ⟨old, before, same, _⟩ := origin task new there
    change (world.sched.rollOf scope).isSome
    rw [ends.roll, Option.isSome_map]
    exact accounted.enrolled task old scope before (same.symm.trans inside)
  · intro task new there done
    obtain ⟨old, before, _, ends⟩ := origin task new there
    rw [List.map_append, List.mem_append]
    rcases ends.mp done with earlier | rfl
    · exact .inl (accounted.done task old before earlier)
    · exact .inr (List.mem_singleton.mpr rfl)
  · intro completion member
    rcases List.mem_append.mp member with earlier | now
    · obtain ⟨old, before, done, inside⟩ := accounted.ended completion earlier
      obtain ⟨new, later, same, beyond⟩ := ends.found before
      exact ⟨new, later, beyond.mpr (.inl done), same.trans inside⟩
    · obtain rfl := List.mem_singleton.mp now
      obtain ⟨new, later, same, beyond⟩ := ends.found found
      exact ⟨new, later, beyond.mpr (.inr rfl), same⟩
  · rw [List.map_append, List.nodup_append_comm]
    refine List.nodup_cons.mpr ⟨fun earlier => ?_, accounted.once⟩
    obtain ⟨completion, member, same⟩ := List.mem_map.mp earlier
    obtain ⟨old, before, done, _⟩ := accounted.ended completion member
    rw [same] at before
    obtain rfl := Option.eq_some_unique before found
    exact living done
  · intro scope roll entered
    obtain ⟨before, rolled, rfl⟩ := Option.map_eq_some_iff.mp ((ends.roll scope).symm.trans entered)
    rw [failuresIn_snoc, failure_eq, ← accounted.ledger scope before rolled]
    dsimp only
    by_cases inside : tcb.scope = some scope
    · by_cases failing : State.TaskEnd.failing
          (State.TaskEnd.settled ended tcb.cancelled tcb.killed) = true
      · simp [inside, failing]
      · simp [inside, failing]
    · simp [inside]

end

/-- Every step keeps the account. -/
theorem accounted_perform (accounted : chronicle.Accounted)
    (performed : chronicle.perform op = some (answer, next)) : next.Accounted := by
  obtain ⟨⟨answer, world⟩, stepped, answered⟩ := Option.map_eq_some_iff.mp performed
  cases answered
  have sound := (World.sound_perform accounted.sound stepped).1
  obtain ⟨turn, entered, admitted, keeps, kin⟩ := World.kin_settle accounted.sound stepped
  have rolls : world.sched.rollOf = turn.state.rollOf := by
    obtain ⟨_, turn', _, entered', settled⟩ := World.perform_eq stepped
    obtain rfl := Option.eq_some_unique entered entered'
    obtain ⟨_, rfl⟩ := Prod.mk.inj settled
    exact State.roll_settleTurn turn
  cases op with
  | openScope owner =>
    cases entered
    obtain ⟨_, same⟩ := keeps _ _ rfl
    rw [completionOf_other _ (by simp), List.append_nil]
    have tasks : world.sched.tasks = chronicle.sched.tasks := by rw [same]; rfl
    have scopes : world.sched.scopes = chronicle.sched.scopes ++ [{ owner := owner }] := by
      rw [same]
      rfl
    exact accounted.openScope sound tasks scopes
  | spawnTask parent scope name =>
    change (if _ then _ else _) = some turn at entered
    split at entered
    · cases entered
    · next known =>
        obtain ⟨tcb, _, rfl⟩ := Option.map_eq_some_iff.mp entered
        obtain ⟨_, same⟩ := keeps _ _ rfl
        rw [completionOf_other _ (by simp), List.append_nil]
        have spawns : State.Spawns chronicle.sched scope world.sched := by
          rw [same]
          exact State.spawns_spawnTask chronicle.world.sched parent scope tcb.proc name
        refine accounted.spawns sound (fun inside member => ?_) spawns
        obtain rfl := Option.mem_def.mp member
        have bound : inside < chronicle.world.sched.scopes.length := by
          rw [Option.any_some] at known
          simpa using known
        change ((chronicle.world.sched.scopes[inside]?).map _).isSome
        rw [List.getElem?_eq_getElem bound]
        rfl
  | spawnProc parent name region =>
    cases entered
    obtain ⟨_, same⟩ := keeps _ _ rfl
    rw [completionOf_other _ (by simp), List.append_nil]
    have spawns : State.Spawns chronicle.sched none world.sched := by
      rw [same]
      exact State.spawns_spawnProc chronicle.world.sched parent name region
    exact accounted.spawns sound (fun inside member => by cases member) spawns
  | endTask me ended =>
    obtain ⟨⟨regions, after⟩, finished, rfl⟩ := Option.map_eq_some_iff.mp entered
    obtain ⟨_, same⟩ := keeps _ _ rfl
    obtain ⟨tcb, found, ends⟩ := State.endTask_spec finished
    rw [completionOf, show chronicle.sched.tasks[me]? = some tcb from found]
    have closes : State.Ends chronicle.sched me tcb
        (State.TaskEnd.settled ended tcb.cancelled tcb.killed) world.sched := by
      rw [same]
      exact ends
    refine accounted.ends sound found ?_ closes
    have runs := State.runs_of_admits admitted rfl
    rw [State.stateOf, found] at runs
    intro done
    simp [done] at runs
  | _ =>
    rw [completionOf_other _ (by simp), List.append_nil]
    refine accounted.kin sound ((State.kin_enter rfl entered).trans kin) ?_
    exact rolls.trans (State.roll_enter rfl (by simp) entered)

theorem accounted_run (chooser : Chooser) (ops : List (Op Data))
    (run : exec step (initial chooser) ops = some chronicle) : chronicle.Accounted := by
  refine inv_of_exec Accounted (accounted_initial chooser) ?_ run
  intro before op after accounted performed
  obtain ⟨⟨answer, later⟩, answered, rfl⟩ := Option.map_eq_some_iff.mp performed
  exact accounted_perform accounted answered

/-! ## What the doors do to a chronicle -/

/-- What the spawn of a task does to a chronicle. -/
theorem spawned {parent : TaskId} {scope : Option ScopeId} {name : String}
    (accounted : chronicle.Accounted)
    (performed : chronicle.perform (.spawnTask parent scope name) = some (answer, next)) :
    answer = .id chronicle.sched.tasks.length ∧ next.past = chronicle.past ∧
      State.Spawns chronicle.sched scope next.sched := by
  obtain ⟨⟨answer, world⟩, stepped, answered⟩ := Option.map_eq_some_iff.mp performed
  cases answered
  obtain ⟨turn, entered, _, keeps, _⟩ := World.kin_settle accounted.sound stepped
  change (if _ then _ else _) = some turn at entered
  split at entered
  · cases entered
  · obtain ⟨tcb, _, rfl⟩ := Option.map_eq_some_iff.mp entered
    obtain ⟨told, same⟩ := keeps _ _ rfl
    refine ⟨told, List.append_nil _, ?_⟩
    change State.Spawns chronicle.world.sched scope world.sched
    rw [same]
    exact State.spawns_spawnTask _ parent scope tcb.proc name

/-- What the opening of a scope does to a chronicle. -/
theorem opened {owner : TaskId} (accounted : chronicle.Accounted)
    (performed : chronicle.perform (.openScope owner) = some (answer, next)) :
    answer = .id chronicle.sched.scopes.length ∧ next.past = chronicle.past ∧
      next.sched.tasks = chronicle.sched.tasks := by
  obtain ⟨⟨answer, world⟩, stepped, answered⟩ := Option.map_eq_some_iff.mp performed
  cases answered
  obtain ⟨turn, entered, _, keeps, _⟩ := World.kin_settle accounted.sound stepped
  cases entered
  obtain ⟨told, same⟩ := keeps _ _ rfl
  refine ⟨told, List.append_nil _, ?_⟩
  change world.sched.tasks = chronicle.world.sched.tasks
  rw [same]

/-- A step makes a child of a scope only when it is a spawn in that scope. -/
theorem childOf_perform (accounted : chronicle.Accounted)
    (performed : chronicle.perform op = some (answer, next)) (scope : ScopeId)
    (elsewhere : ∀ parent name, op ≠ .spawnTask parent (some scope) name) (task : TaskId) :
    next.sched.ChildOf task scope ↔ chronicle.sched.ChildOf task scope := by
  obtain ⟨⟨answer, world⟩, stepped, answered⟩ := Option.map_eq_some_iff.mp performed
  cases answered
  obtain ⟨turn, entered, _, keeps, _⟩ := World.kin_settle accounted.sound stepped
  cases op with
  | spawnTask parent inside name =>
    rw [(spawned accounted performed).2.2.childOf task scope]
    refine or_iff_left ?_
    rintro ⟨rfl, _⟩
    exact elsewhere parent name rfl
  | spawnProc parent name region =>
    cases entered
    obtain ⟨_, same⟩ := keeps _ _ rfl
    have spawns : State.Spawns chronicle.sched none world.sched := by
      rw [same]
      exact State.spawns_spawnProc chronicle.world.sched parent name region
    refine (spawns.childOf task scope).trans (or_iff_left ?_)
    rintro ⟨none_, _⟩
    cases none_
  | endTask me ended =>
    obtain ⟨⟨regions, after⟩, finished, rfl⟩ := Option.map_eq_some_iff.mp entered
    obtain ⟨_, same⟩ := keeps _ _ rfl
    obtain ⟨tcb, found, ends⟩ := State.endTask_spec finished
    change world.sched.ChildOf task scope ↔ _
    rw [same, ends.kin.childOf]
    constructor
    · rintro ⟨new, there, inside⟩
      rw [State.modifyTask, List.getElem?_modify] at there
      obtain ⟨old, before, rfl⟩ := Option.map_eq_some_iff.mp there
      refine ⟨old, before, ?_⟩
      rw [← inside]
      split <;> rfl
    · rintro ⟨old, before, inside⟩
      obtain ⟨new, there, same, _⟩ := ends.found before
      exact (ends.kin.childOf task scope).mp ⟨new, there, same.trans inside⟩
  | _ => exact (World.kin_perform accounted.sound stepped rfl).childOf task scope

/-! ## What a join reports -/

/-- A join answers once every child of its scope has ended, with the ends that count as failures in
the order of the ends, and an end that counts leaves every other child of its scope ended or
halted. -/
structure JoinsBy (failure : Completion Data → Option (TaskEnd Data)) (halted : Tcb Data → Prop)
    (chronicle : Chronicle Data) : Prop where
  waits : ∀ me scope failures next,
    chronicle.perform (.joinScope me scope) = some (.joined failures, next) →
      ∀ (child : TaskId) tcb, chronicle.sched.tasks[child]? = some tcb → tcb.scope = some scope →
        tcb.state = .done ∧ child ∈ chronicle.past.map Completion.task
  reports : ∀ me scope failures next,
    chronicle.perform (.joinScope me scope) = some (.joined failures, next) →
      (chronicle.past.map Completion.task).Nodup ∧
        failures = (chronicle.past.filter fun completion =>
          completion.scope = some scope).filterMap failure
  stops : ∀ me ended answer next, chronicle.perform (.endTask me ended) = some (answer, next) →
    ∀ completion ∈ completionOf chronicle.sched (.endTask me ended),
      (failure completion).isSome → ∀ scope, completion.scope = some scope →
        ∀ (sibling : TaskId) tcb, next.sched.tasks[sibling]? = some tcb →
          tcb.scope = some scope → sibling ≠ me → tcb.state = .done ∨ halted tcb

/-- A task that hands the baton on is not answered by a join. -/
theorem park_not_joined (state : State Data) (me : TaskId) (failures : List (TaskEnd Data)) :
    (state.park me).1 ≠ .joined failures := by
  unfold State.park
  split
  · nofun
  · generalize (State.declareDeadlock _).chooseNext = choice
    obtain ⟨_ | task, state⟩ := choice
    · nofun
    · nofun

/-- A join that answers found every child done, and answers with the ledger. -/
theorem joined_spec {me : TaskId} {scope : ScopeId} {failures : List (TaskEnd Data)}
    (performed : chronicle.perform (.joinScope me scope) = some (.joined failures, next)) :
    ∃ entry, chronicle.sched.scopes[scope]? = some entry ∧ failures = entry.failures ∧
      chronicle.sched.allDone entry.children = true := by
  obtain ⟨⟨answer, world⟩, stepped, answered⟩ := Option.map_eq_some_iff.mp performed
  obtain ⟨answers, _⟩ := Prod.mk.inj answered
  subst answers
  obtain ⟨_, turn, _, entered, settled⟩ := World.perform_eq stepped
  obtain ⟨entry, found, rfl⟩ := Option.map_eq_some_iff.mp entered
  refine ⟨entry, found, ?_⟩
  have told := congrArg Prod.fst settled
  by_cases beyond : (chronicle.world.sched.op me (.scope scope) false).allDone entry.children = true
  · rw [if_pos beyond] at told
    cases told
    exact ⟨rfl, beyond⟩
  · rw [if_neg beyond] at told
    exact absurd told (park_not_joined _ me failures)

/-- In every run whose callers keep to their contract a join waits for every child of its scope and
reports the ends that failed: a fault always, an error when the task was neither cancelled nor
killed. A failure stops every sibling within its own step. -/
theorem joins_report_failures (chooser : Chooser) (ops : List (Op Data))
    (run : exec step (initial chooser) ops = some chronicle) :
    JoinsBy Completion.failure (fun tcb => tcb.cancelled = true ∨ tcb.killed = true) chronicle := by
  have accounted := accounted_run chooser ops run
  constructor
  · intro me scope failures next performed child tcb found inside
    obtain ⟨entry, there, _, beyond⟩ := joined_spec performed
    have rolled : chronicle.sched.rollOf scope = some (entry.children, entry.failures) := by
      rw [State.rollOf, there]
      rfl
    have listed := (accounted.children scope _ rolled child).mpr ⟨tcb, found, inside⟩
    have done := of_decide_eq_true (List.all_eq_true.mp beyond child listed)
    rw [State.stateOf, found] at done
    exact ⟨done, accounted.done child tcb found done⟩
  · intro me scope failures next performed
    obtain ⟨entry, there, rfl, _⟩ := joined_spec performed
    have rolled : chronicle.sched.rollOf scope = some (entry.children, entry.failures) := by
      rw [State.rollOf, there]
      rfl
    exact ⟨accounted.once, accounted.ledger scope _ rolled⟩
  · intro me ended answer next performed completion member failed scope within sibling tcb found
      inside differs
    obtain ⟨⟨told, world⟩, stepped, answered⟩ := Option.map_eq_some_iff.mp performed
    obtain ⟨rfl, rfl⟩ := Prod.mk.inj answered
    obtain ⟨turn, entered, _, keeps, _⟩ := World.kin_settle accounted.sound stepped
    obtain ⟨⟨regions, after⟩, finished, rfl⟩ := Option.map_eq_some_iff.mp entered
    obtain ⟨_, same⟩ := keeps _ _ rfl
    obtain ⟨mine, there, ends⟩ := State.endTask_spec finished
    rw [completionOf, show chronicle.sched.tasks[me]? = some mine from there] at member
    obtain rfl := List.mem_singleton.mp member
    rw [failure_eq] at failed
    have failing : State.TaskEnd.failing
        (State.TaskEnd.settled ended mine.cancelled mine.killed) = true := by
      by_contra harmless
      rw [if_neg harmless] at failed
      cases failed
    have before : ∃ old, chronicle.sched.tasks[sibling]? = some old ∧ old.scope = some scope := by
      change world.sched.tasks[sibling]? = some tcb at found
      rw [same] at found
      obtain ⟨old, earlier, heir⟩ := ends.kin.origin found
      rw [State.modifyTask, List.getElem?_modify_ne _ _ (Ne.symm differs)] at earlier
      exact ⟨old, earlier, heir.scope.symm.trans inside⟩
    obtain ⟨old, earlier, placed⟩ := before
    obtain ⟨⟨children, entered⟩, rolled⟩ := Option.isSome_iff_exists.mp
      (accounted.enrolled sibling old scope earlier placed)
    obtain ⟨entry, known, same'⟩ := Option.map_eq_some_iff.mp rolled
    have listed := (accounted.children scope _ rolled sibling).mpr ⟨old, earlier, placed⟩
    obtain ⟨rfl, _⟩ := Prod.mk.inj same'
    refine ends.siblings failing scope entry within known sibling listed differs tcb ?_
    rw [← same]
    exact found

/-- A task fails while its scope is joining, and the sibling it cancels then ends with a fault. -/
def faultAfterFailure : List (Op Unit) :=
  [.openScope 0, .spawnTask 0 (some 0) "failing", .spawnTask 0 (some 0) "faulting", .joinScope 0 0,
    .endTask 1 (.error "Kaboom" []), .dispatchNext, .endTask 2 (.trapped .overflow), .dispatchNext]

theorem joins_report_both : ∃ chronicle : Chronicle Unit,
    exec step (initial (.seeded 0 1)) faultAfterFailure = some chronicle ∧
      JoinsBy Completion.failure (fun tcb => tcb.cancelled = true ∨ tcb.killed = true)
        chronicle := by
  obtain ⟨chronicle, run⟩ : ∃ chronicle,
      exec step (initial (.seeded 0 1) : Chronicle Unit) faultAfterFailure = some chronicle :=
    Option.isSome_iff_exists.mp (by decide)
  exact ⟨chronicle, run, joins_report_failures (.seeded 0 1) faultAfterFailure run⟩

/-- How many failures a join answers with. -/
def joinedCount (chronicle : Chronicle Data) (me : TaskId) (scope : ScopeId) : Option Nat :=
  (chronicle.perform (.joinScope me scope)).bind fun
    | (.joined failures, _) => some failures.length
    | _ => none

/-- The failure that an end is when a stopped task has none. -/
def unstoppedFailure (completion : Completion Data) : Option (TaskEnd Data) :=
  if completion.cancelled ∨ completion.killed then none else completion.failure

/-- The fault of the cancelled task is reported as well. -/
theorem joins_report_stopped : ¬ ∀ (chooser : Chooser) (ops : List (Op Unit)) chronicle,
    exec step (initial chooser) ops = some chronicle →
      JoinsBy unstoppedFailure (fun tcb => tcb.cancelled = true) chronicle := by
  intro claimed
  obtain ⟨chronicle, run, two, one⟩ : ∃ chronicle : Chronicle Unit,
      exec step (initial (.seeded 0 1)) faultAfterFailure = some chronicle ∧
        joinedCount chronicle 0 0 = some 2 ∧
          ((chronicle.past.filter fun completion =>
            completion.scope = some 0).filterMap unstoppedFailure).length = 1 := by
    have ran : ((exec step (initial (.seeded 0 1) : Chronicle Unit) faultAfterFailure).map
        fun chronicle => (joinedCount chronicle 0 0,
          ((chronicle.past.filter fun completion =>
            completion.scope = some 0).filterMap unstoppedFailure).length)) =
              some (some 2, 1) := by decide
    obtain ⟨chronicle, run, counts⟩ := Option.map_eq_some_iff.mp ran
    exact ⟨chronicle, run, (Prod.mk.inj counts).1, (Prod.mk.inj counts).2⟩
  obtain ⟨⟨answer, next⟩, performed, answered⟩ := Option.bind_eq_some_iff.mp two
  cases answer with
  | joined failures =>
    have reported := ((claimed _ _ chronicle run).reports 0 0 failures next performed).2
    have counted : failures.length = 2 := Option.some.inj answered
    rw [reported] at counted
    exact absurd (one.symm.trans counted) (by decide)
  | _ => cases answered

end Chronicle

/-! ## What a task keeps -/

/-- A task later on: nothing of its place, of a stop it was told or of its end is taken back. -/
structure Later (old new : Tcb Data) : Prop where
  scope : new.scope = old.scope
  proc : new.proc = old.proc
  cancelled : old.cancelled = true → new.cancelled = true
  killed : old.killed = true → new.killed = true
  ended : old.state = .done → new.state = .done ∧ new.outcome = old.outcome

theorem Heir.later {old new : Tcb Data} (heir : Heir old new) : Later old new :=
  ⟨heir.scope, heir.proc, heir.cancelled, heir.killed, fun done =>
    ⟨heir.ended.mpr done, heir.outcome⟩⟩

theorem Later.trans {old middle new : Tcb Data} (first : Later old middle)
    (second : Later middle new) : Later old new where
  scope := second.scope.trans first.scope
  proc := second.proc.trans first.proc
  cancelled := second.cancelled ∘ first.cancelled
  killed := second.killed ∘ first.killed
  ended done := by
    obtain ⟨middle_done, same⟩ := first.ended done
    obtain ⟨new_done, same'⟩ := second.ended middle_done
    exact ⟨new_done, same'.trans same⟩

/-- Every task is still there, and nothing it has been told is taken back. -/
def KeepsTasks (state next : State Data) : Prop :=
  ∀ (task : TaskId) old, state.tasks[task]? = some old →
    ∃ new, next.tasks[task]? = some new ∧ Later old new

theorem keepsTasks_perform {world next : World Data} {op : Op Data} {answer : Answer Data}
    (sound : world.Sound) (performed : world.perform op = some (answer, next)) :
    KeepsTasks world.sched next.sched := by
  obtain ⟨turn, entered, admitted, keeps, -⟩ := World.kin_settle sound performed
  intro task old found
  have of_heir (heir : ∃ new, next.sched.tasks[task]? = some new ∧ Heir old new) :
      ∃ new, next.sched.tasks[task]? = some new ∧ Later old new := by
    obtain ⟨new, there, heir⟩ := heir
    exact ⟨new, there, heir.later⟩
  cases op with
  | spawnTask parent scope name =>
    change (if _ then _ else _) = some turn at entered
    split at entered
    · cases entered
    · obtain ⟨tcb, -, rfl⟩ := Option.map_eq_some_iff.mp entered
      rw [(keeps _ _ rfl).2] at of_heir ⊢
      exact of_heir ((State.spawns_spawnTask _ parent scope tcb.proc name).heir task old found)
  | spawnProc parent name region =>
    cases entered
    rw [(keeps _ _ rfl).2] at of_heir ⊢
    exact of_heir ((State.spawns_spawnProc _ parent name region).heir task old found)
  | endTask me ended =>
    obtain ⟨⟨regions, after⟩, finished, rfl⟩ := Option.map_eq_some_iff.mp entered
    rw [(keeps _ _ rfl).2] at of_heir ⊢
    obtain ⟨tcb, -, ends⟩ := State.endTask_spec finished
    have runs := State.runs_of_admits admitted rfl
    by_cases same : me = task
    · obtain ⟨new, there, heir⟩ := ends.kin.heir task { old with state := .done, outcome := some _ }
        (by rw [State.modifyTask, same, List.getElem?_modify_eq, found]; rfl)
      refine ⟨new, there, heir.scope, heir.proc, heir.cancelled, heir.killed, fun done => ?_⟩
      rw [same, State.stateOf, found] at runs
      simp [done] at runs
    · refine of_heir (ends.kin.heir task old ?_)
      rw [State.modifyTask, List.getElem?_modify_ne _ _ same, found]
  | _ => exact of_heir ((World.kin_perform sound performed rfl).heir task old found)

/-- In every run whose callers keep to their contract a task keeps its scope and its proc, a
cancellation and a kill last, and a task that has ended never comes back. -/
theorem tasks_last (chooser : Chooser) (ops : List (Op Data)) :
    Evolves World.step (fun before after => KeepsTasks before.sched after.sched)
      (World.initial chooser) ops := by
  intro front middle rest before after _ run later
  refine (inv_of_exec (fun world => world.Sound ∧ KeepsTasks before.sched world.sched)
    ⟨World.sound_run chooser front run, fun task old found => ⟨old, found, (Heir.refl old).later⟩⟩
    ?_ later).2
  rintro world op next ⟨sound, kept⟩ stepped
  obtain ⟨⟨answer, next⟩, performed, rfl⟩ := Option.map_eq_some_iff.mp stepped
  refine ⟨(World.sound_perform sound performed).1, fun task old found => ?_⟩
  obtain ⟨middle, there, first⟩ := kept task old found
  obtain ⟨new, there, second⟩ := keepsTasks_perform sound performed task middle there
  exact ⟨new, there, first.trans second⟩

end WolfInterp.Sched
