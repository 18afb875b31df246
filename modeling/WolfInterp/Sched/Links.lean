import WolfInterp.Sched.Exits

/-!
# Linked procs

What each door does to the procs, and the fate of linked procs: a proc that has exited abnormally
leaves no linked proc running, as long as no link is made to a proc that is gone already.
-/

namespace WolfInterp.Sched

open Execution Relation

variable {Data : Type}

/-! ## What the doors do to the procs -/

/-- The doors that touch a proc or a parked exit. -/
def Op.touchesProcs : Op Data → Bool
  | .spawnProc .. | .monitor _ | .link .. | .kill _ | .endTask .. | .deliverPending => true
  | _ => false

/-- The doors that leave the scopes alone as well, and open no channel. -/
def Op.steady : Op Data → Bool
  | .newChan _ | .openScope _ | .spawnTask .. | .joinScope .. => false
  | op => !op.touchesProcs

namespace State

/-- The procs and the parked exits of a state are those of another, and no channel is gone. -/
structure Kept (state next : State Data) : Prop where
  procs : next.procs = state.procs
  pending : next.pending = state.pending
  chans : state.chans.length ≤ next.chans.length

section Doors

variable {state next : State Data}

theorem Still.kept (still : Still state next) : Kept state next :=
  ⟨still.procs, still.pending, still.chans.ge⟩

theorem Kept.trans {middle : State Data} (first : Kept state middle) (second : Kept middle next) :
    Kept state next :=
  ⟨second.procs.trans first.procs, second.pending.trans first.pending,
    first.chans.trans second.chans⟩

/-- What is plain to change no proc, no parked exit and no number of channels. -/
theorem Kept.same (procs : next.procs = state.procs) (pending : next.pending = state.pending)
    (chans : next.chans.length = state.chans.length) : Kept state next :=
  ⟨procs, pending, chans.ge⟩

theorem Kept.after {middle : State Data} (second : Kept middle next)
    (procs : middle.procs = state.procs) (pending : middle.pending = state.pending)
    (chans : middle.chans.length = state.chans.length) : Kept state next :=
  Kept.trans (.same procs pending chans) second

theorem kept_settleTurn (turn : Turn Data) : Kept turn.state (settleTurn turn).2 := by
  cases turn with
  | keeps answer state => exact .same rfl rfl rfl
  | parks me state => exact (unmoved_park state me).kept
  | hands state => exact (unmoved_dispatchNext state).kept

variable {me : TaskId} {chan : ChanId} {turn : Turn Data} {op : Op Data} {answer : Answer Data}

theorem quiet_send {value : Value Data} (entered : state.send me chan value = some turn) :
    Quiet state turn.state := by
  unfold State.send at entered
  split at entered
  · cases entered
    exact Mild.refl.quiet
  · obtain ⟨entry, _, answered⟩ := Option.bind_eq_some_iff.mp entered
    split at answered
    · cases answered
      exact .same rfl rfl rfl rfl rfl
    · refine Quiet.trans (Quiet.trans ?_ (quiet_settleChan _ chan)) (mild_immediate answered).quiet
      exact .same rfl rfl rfl rfl (by simp [modifyChan])

theorem quiet_recv (entered : state.recv me chan = some turn) : Quiet state turn.state := by
  unfold State.recv at entered
  split at entered
  · cases entered
    exact Mild.refl.quiet
  · obtain ⟨entry, _, answered⟩ := Option.bind_eq_some_iff.mp entered
    refine Quiet.trans (Quiet.trans ?_ (quiet_settleChan _ chan)) (mild_immediate answered).quiet
    exact .same rfl rfl rfl rfl (by simp [modifyChan])

theorem quiet_close (closed : state.close chan = some next) : Quiet state next := by
  obtain ⟨entry, _, rfl⟩ := Option.map_eq_some_iff.mp closed
  split
  · exact Mild.refl.quiet
  · have told : ∀ acting : State Data, Mild acting (entry.senders.foldl
        (fun state pair => state.makeReady pair.1 .closed) acting) := fun acting =>
      Mild.foldl (fun acting (pair : TaskId × Value Data) =>
        mild_makeReady acting pair.1 .closed) _
    refine Quiet.trans (Quiet.trans ?_ (told _).quiet) (quiet_settleChan _ chan)
    exact .same rfl rfl rfl rfl (by simp [modifyChan])

theorem quiet_commitArm {arm : Nat} (entered : state.commitArm me arm chan = some turn) :
    Quiet state turn.state := by
  obtain ⟨entry, _, answered⟩ := Option.bind_eq_some_iff.mp entered
  split at answered
  · cases answered
    exact Mild.refl.quiet
  · obtain ⟨⟨⟨value, vc⟩, after⟩, message, rfl⟩ := Option.map_eq_some_iff.mp answered
    exact ((quiet_takeMessage message).trans (quiet_modifyChan after chan _)).trans
      (mild_hbEdge _ vc me).quiet

theorem quiet_select {arms : List (Nat × ChanId)} {timeout : Option (Nat × Nat)}
    (entered : state.select me arms timeout = some turn) : Quiet state turn.state := by
  cases selected_of_select entered with
  | refused => exact Mild.refl.quiet
  | waits =>
    refine Quiet.trans ?_ (mild_registerSelect _ me arms timeout).quiet
    exact .same rfl rfl rfl rfl rfl
  | timed => exact .same rfl rfl rfl rfl rfl
  | commits _ committing =>
    refine Quiet.trans ?_ (quiet_commitArm committing)
    exact .same rfl rfl rfl rfl rfl

theorem mild_grant (state : State Data) (mutex : MutexId) (task : TaskId) :
    Mild state (state.grant mutex task) := by
  refine Mild.trans ?_ (mild_hbEdge _ _ task)
  exact .same rfl rfl rfl rfl rfl

theorem mild_release {mutex : MutexId} {value : Value Data}
    (released : state.release me mutex value = some next) : Mild state next := by
  obtain ⟨entry, _, answered⟩ := Option.bind_eq_some_iff.mp released
  split at answered
  · cases answered
  · have given : Mild state ((state.op me (.mutex mutex) true).modifyMutex mutex fun entry =>
        { entry with
          value, holder := none
          vc := mergeVc entry.vc ((state.op me (.mutex mutex) true).taskVc me) }) :=
      .same rfl rfl rfl rfl rfl
    have ticked := given.trans (mild_tick _ me)
    dsimp only at answered
    split at answered
    · cases answered
      exact ticked
    · next waiter rest _ =>
        cases answered
        refine Mild.trans ?_ (mild_makeReady _ waiter _)
        refine ticked.trans (Mild.trans ?_ (mild_grant _ mutex waiter))
        exact .same rfl rfl rfl rfl rfl

theorem kept_recordEnd (state : State Data) (me : TaskId) (scope : Option ScopeId)
    (ended : TaskEnd Data) :
    Kept state (state.recordEnd me scope ended) := by
  cases scope with
  | none => exact .same rfl rfl rfl
  | some scope =>
    rw [recordEnd]
    refine Kept.trans ?_ (relates_settleScope (R := Kept) Kept.trans (fun mild => mild.kept)
      (fun _ _ => .same rfl rfl rfl) _ scope)
    exact .same rfl rfl rfl

/-- A steady door leaves the procs, the scopes and the fate of the tasks alone. -/
theorem quiet_enter (steady : op.steady = true) (entered : state.enter op = some turn) :
    Quiet state turn.state := by
  cases entered_of_enter entered with
  | send sent => exact quiet_send sent
  | recv received => exact quiet_recv received
  | select selected => exact quiet_select selected
  | close closed => exact quiet_close closed
  | release released => exact (mild_release released).quiet
  | @acquire me mutex _ acquired =>
    obtain ⟨_, rfl⟩ | ⟨_, rfl, ⟨_, rfl⟩ | rfl⟩ := acquire_cases acquired
    · exact Mild.refl.quiet
    · refine Quiet.trans ?_ (mild_grant _ mutex me).quiet
      exact .same rfl rfl rfl rfl rfl
    · exact .same rfl rfl rfl rfl rfl
  | @cancelScope _ entry => exact (mild_cancelAll state entry.children).quiet
  | cancelProc =>
    refine Quiet.trans ?_ (mild_cancelAll _ _).quiet
    exact .same rfl rfl rfl rfl rfl
  | @netYield me =>
    refine Mild.quiet (mild_update state me fun _ => ?_)
    exact ⟨rfl, rfl, rfl, Iff.rfl, id, id⟩
  | raceCheck =>
    dsimp only [Turn.state]
    unfold State.raceCheck
    dsimp only
    split
    · exact .same rfl rfl rfl rfl rfl
    · split <;> exact .same rfl rfl rfl rfl rfl
  | @atomicAccess me key lo _ write =>
    dsimp only [Turn.state]
    unfold State.atomicAccess
    dsimp only
    split
    · exact .same rfl rfl rfl rfl rfl
    · have acquired : ∀ clock : Clock, Quiet state
          ((state.op me (.mem key) write).modifyTask me fun tcb =>
            { tcb with vc := mergeVc tcb.vc clock }) := by
        intro clock
        refine Quiet.trans ?_ (mild_update (state.op me (.mem key) write) me fun _ => ?_).quiet
        · exact .same rfl rfl rfl rfl rfl
        · exact ⟨rfl, rfl, rfl, Iff.rfl, id, id⟩
      split
      · exact acquired _
      · have clocked := acquired ((state.op me (.mem key) write).atomicClocks (key, lo))
        refine clocked.trans (Quiet.trans (Quiet.trans ?_ (mild_tick _ me).quiet)
          (.same rfl rfl rfl rfl rfl))
        exact .same rfl rfl rfl rfl rfl
  | newMutex | dispatchNext | sleepPark | reseed | elapse => exact .same rfl rfl rfl rfl rfl
  | newChan | openScope | spawnTask | joinScope | spawnProc | monitor | link | kill | endTask
  | deliverPending => cases steady

/-- A door that touches no proc keeps the procs and the parked exits. -/
theorem kept_enter (untouched : op.touchesProcs = false) (entered : state.enter op = some turn) :
    Kept state turn.state := by
  by_cases steady : op.steady = true
  · exact (quiet_enter steady entered).kept
  cases entered_of_enter entered with
  | @spawnTask _ scope => cases scope <;> exact .same rfl rfl rfl
  | joinScope joined =>
    obtain ⟨entry, _, ⟨_, rfl⟩ | rfl⟩ := joinScope_cases joined
    · exact Kept.after ((still_joinEdges ..).kept.trans (.same rfl rfl rfl)) rfl rfl rfl
    · exact .same rfl rfl rfl
  | newChan =>
    refine ⟨rfl, rfl, ?_⟩
    simp [Turn.state, newChan]
  | openScope => exact .same rfl rfl rfl
  | spawnProc | monitor | link | kill | endTask | deliverPending => cases untouched
  | _ => exact absurd rfl steady

/-- A door that was entered. -/
theorem entered_of_perform (performed : state.perform op = some (answer, next)) :
    ∃ turn, state.admits op = true ∧ state.enter op = some turn ∧
      settleTurn turn = (answer, next) := by
  obtain ⟨turn, entered, turned⟩ := Option.map_eq_some_iff.mp performed
  unfold door at entered
  split at entered
  · rename_i admitted
    exact ⟨turn, admitted, entered, turned⟩
  · cases entered

theorem kept_perform (untouched : op.touchesProcs = false)
    (performed : state.perform op = some (answer, next)) : Kept state next := by
  obtain ⟨turn, _, entered, turned⟩ := entered_of_perform performed
  have settled := kept_settleTurn turn
  rw [turned] at settled
  exact (kept_enter untouched entered).trans settled

/-! ### The doors that touch procs -/

theorem spawnProc_procs {parent : TaskId} {name : String} {region : RegionId}
    (performed : state.perform (.spawnProc parent name region) = some (answer, next)) :
    next.procs = state.procs ++
        [{ name, root := state.tasks.length, region := some region : Proc Data }] ∧
      next.pending = state.pending ∧ answer = .proc state.procs.length state.tasks.length ∧
      next.chans = state.chans := by
  obtain ⟨turn, _, entered, turned⟩ := entered_of_perform performed
  cases entered
  cases turned
  have fresh : (state.spawnProc parent name region).1 =
      (state.procs.length, state.tasks.length) := rfl
  have procs : (state.spawnProc parent name region).2.procs =
      (state.procs ++ [{ name, root := 0, region := some region : Proc Data }]).modify
        state.procs.length
        fun entry => { entry with root := state.tasks.length } := rfl
  have last : (state.procs ++ [{ name, root := 0, region := some region : Proc Data }]).modify
      state.procs.length (fun entry => { entry with root := state.tasks.length }) =
      state.procs ++ [{ name, root := state.tasks.length, region := some region }] := by
    induction state.procs with
    | nil => rfl
    | cons first procs induction =>
      rw [List.cons_append, List.length_cons, List.modify_succ_cons, induction, List.cons_append]
  exact ⟨procs.trans last, rfl, congrArg (fun pair => Answer.proc pair.1 pair.2) fresh, rfl⟩

theorem monitor_procs {proc : ProcId}
    (performed : state.perform (.monitor proc) = some (answer, next)) :
    proc < state.procs.length ∧ next.procs = (state.procs.modify proc fun entry =>
        { entry with monitors := entry.monitors ++ [state.chans.length] }) ∧
      next.pending = state.pending ∧ answer = .id state.chans.length ∧
      next.chans.length = state.chans.length + 1 := by
  obtain ⟨turn, _, entered, turned⟩ := entered_of_perform performed
  obtain ⟨⟨chan, after⟩, monitored, rfl⟩ := Option.map_eq_some_iff.mp entered
  cases turned
  obtain ⟨entry, found, answered⟩ := Option.map_eq_some_iff.mp monitored
  refine ⟨(List.getElem?_eq_some_iff.mp found).1, ?_⟩
  split at answered
  · cases answered
    exact ⟨rfl, rfl, rfl, by simp [State.op, modifyProc]⟩
  · cases answered
    exact ⟨rfl, rfl, rfl, by simp [State.op, modifyProc, modifyChan]⟩

/-- Add a link to a proc that does not have it. -/
def joinLink (other : ProcId) (entry : Proc Data) : Proc Data :=
  if other ∈ entry.links then entry else { entry with links := entry.links ++ [other] }

theorem link_procs {first second : ProcId}
    (performed : state.perform (.link first second) = some (answer, next)) :
    first < state.procs.length ∧ second < state.procs.length ∧
      next.procs = ((state.procs.modify first (joinLink second)).modify second
        (joinLink first)) ∧ next.pending = state.pending ∧ next.chans = state.chans := by
  obtain ⟨turn, _, entered, turned⟩ := entered_of_perform performed
  obtain ⟨after, linked, rfl⟩ := Option.map_eq_some_iff.mp entered
  cases turned
  unfold State.link at linked
  split at linked
  · cases linked
  · rename_i known
    cases linked
    rw [not_not] at known
    exact ⟨known.1, known.2, rfl, rfl, rfl⟩

theorem kill_answer {proc : ProcId} (performed : state.perform (.kill proc) = some (answer, next)) :
    proc < state.procs.length ∧ answer = .regions (state.killProc proc).1 ∧
      next = (state.killProc proc).2 := by
  obtain ⟨turn, _, entered, turned⟩ := entered_of_perform performed
  change (if _ then _ else _) = some turn at entered
  split at entered
  · cases entered
  · rename_i known
    cases entered
    cases turned
    exact ⟨Nat.lt_of_not_le known, rfl, rfl⟩

/-- A task's end is its proc's exit when the task is its root, and touches no proc otherwise. -/
theorem endTask_answer {ended : TaskEnd Data}
    (performed : state.perform (.endTask me ended) = some (answer, next)) :
    ∃ acting exits regions, Kept state acting ∧ answer = .regions regions ∧
      Exits acting exits regions next ∧
      ∀ exit ∈ exits, exit.2.abnormal = true → ∀ linked ∈ acting.linksOf exit.1,
        linked < acting.procs.length → (next.exitOf linked).isSome = true := by
  obtain ⟨turn, _, entered, turned⟩ := entered_of_perform performed
  obtain ⟨⟨regions, after⟩, done, rfl⟩ := Option.map_eq_some_iff.mp entered
  cases turned
  obtain ⟨tcb, _, answered⟩ := Option.map_eq_some_iff.mp done
  have recorded : Kept state ((state.op me (.taskCtl me) false).recordEnd me tcb.scope
      (TaskEnd.settled ended tcb.cancelled tcb.killed)) := by
    have base := kept_recordEnd (state.op me (.taskCtl me) false) me tcb.scope
      (TaskEnd.settled ended tcb.cancelled tcb.killed)
    exact ⟨base.procs, base.pending, base.chans⟩
  dsimp only at answered
  split at answered
  · obtain ⟨exits, cascade, closed⟩ := deliverExit_spec _ tcb.proc
      (TaskEnd.reason (TaskEnd.settled ended tcb.cancelled tcb.killed))
    rw [answered] at cascade closed
    exact ⟨_, exits, regions, recorded, rfl, cascade, closed⟩
  · cases answered
    exact ⟨_, [], [], recorded, rfl, Still.refl.noExits, nofun⟩

theorem deliverPending_procs (performed : state.perform .deliverPending = some (answer, next)) :
    next.procs = state.procs ∧ next.pending = [] ∧ answer = .unit ∧
      next.chans.length = state.chans.length := by
  obtain ⟨turn, _, entered, turned⟩ := entered_of_perform performed
  cases entered
  cases turned
  have published := quiet_publishPending state
  exact ⟨published.procs, published.pending, rfl, published.chans⟩

end Doors

/-! ## Fate -/

/-- The proc has exited, and not normally. -/
def Doomed (state : State Data) (proc : ProcId) : Prop :=
  ∃ reason, state.exitOf proc = some reason ∧ reason.abnormal = true

/-- The proc has exited normally. -/
def Completed (state : State Data) (proc : ProcId) : Prop :=
  ∃ reason, state.exitOf proc = some reason ∧ reason.abnormal = false

/-- Whoever can be reached over links from a proc that has exited abnormally, through procs that
have not completed, has exited. -/
def Fate (state : State Data) : Prop :=
  ∀ first second, state.Doomed first →
    ReflTransGen (fun linked other => other ∈ state.linksOf linked ∧ ¬ state.Completed linked)
      first second → (state.exitOf second).isSome = true

/-- Links are mutual and name procs. -/
structure Tied (state : State Data) : Prop where
  named : ∀ proc linked, linked ∈ state.linksOf proc → linked < state.procs.length
  returned : ∀ proc linked, linked ∈ state.linksOf proc → proc ∈ state.linksOf linked

/-- Neither proc of a new link has exited abnormally while the other one runs. -/
def LinkInTime (state : State Data) : Op Data → Prop
  | .link first second =>
    (state.Doomed first → (state.exitOf second).isSome = true) ∧
      (state.Doomed second → (state.exitOf first).isSome = true)
  | _ => True

section Fates

variable {state next : State Data}

/-- The fate of each link is the fate of all chains of links. -/
theorem fate_iff : state.Fate ↔ ∀ proc linked, linked ∈ state.linksOf proc → state.Doomed proc →
    (state.exitOf linked).isSome = true := by
  constructor
  · intro fate proc linked member doomed
    refine fate proc linked doomed (.single ⟨member, ?_⟩)
    rintro ⟨reason, known, normal⟩
    obtain ⟨other, same, abnormal⟩ := doomed
    obtain rfl := Option.eq_some_unique known same
    rw [abnormal] at normal
    cases normal
  · intro pairs first second doomed chain
    induction chain with
    | refl =>
      obtain ⟨reason, known, _⟩ := doomed
      rw [known]
      rfl
    | tail _ edge gone =>
      obtain ⟨member, uncompleted⟩ := edge
      obtain ⟨reason, known⟩ := Option.isSome_iff_exists.mp gone
      refine pairs _ _ member ⟨reason, known, ?_⟩
      cases abnormal : reason.abnormal with
      | true => rfl
      | false => exact absurd ⟨reason, known, abnormal⟩ uncompleted

/-- States whose procs have the same links and exits agree about fates. -/
theorem fate_congr (links : ∀ proc, next.linksOf proc = state.linksOf proc)
    (exits : ∀ proc, next.exitOf proc = state.exitOf proc) : next.Fate ↔ state.Fate := by
  rw [fate_iff, fate_iff]
  simp only [Doomed, links, exits]

theorem Tied.congr (tied : state.Tied) (links : ∀ proc, next.linksOf proc = state.linksOf proc)
    (length : state.procs.length ≤ next.procs.length) : next.Tied := by
  constructor
  · intro proc linked member
    rw [links] at member
    exact (tied.named proc linked member).trans_le length
  · intro proc linked member
    rw [links] at member ⊢
    exact tied.returned proc linked member

theorem linksOf_of_procs (same : next.procs = state.procs) (proc : ProcId) :
    next.linksOf proc = state.linksOf proc := by
  rw [linksOf, linksOf, same]

theorem exitOf_of_procs (same : next.procs = state.procs) (proc : ProcId) :
    next.exitOf proc = state.exitOf proc := by
  rw [exitOf, exitOf, same]

/-- A cascade that ends with every link of its abnormal exits exited keeps fates. -/
theorem Fate.exits (fate : state.Fate) (tied : state.Tied) {exits : List (ProcId × ExitReason Data)}
    {regions : List RegionId} (recorded : Exits state exits regions next)
    (closed : ∀ exit ∈ exits, exit.2.abnormal = true → ∀ linked ∈ state.linksOf exit.1,
      linked < state.procs.length → (next.exitOf linked).isSome = true) : next.Fate := by
  rw [fate_iff] at fate ⊢
  intro proc linked member doomed
  rw [recorded.linksOf] at member
  obtain ⟨reason, known, abnormal⟩ := doomed
  by_cases exited : proc ∈ exits.map Prod.fst
  · obtain ⟨⟨_, given⟩, there, rfl⟩ := List.mem_map.mp exited
    have same := recorded.exitOf_of_mem there
    obtain rfl := Option.eq_some_unique known same
    exact closed _ there abnormal linked member (tied.named _ linked member)
  · rw [recorded.exitOf_of_not_mem exited] at known
    obtain ⟨earlier, before⟩ := Option.isSome_iff_exists.mp
      (fate proc linked member ⟨reason, known, abnormal⟩)
    rw [recorded.kept before]
    rfl

/-! ### One step -/

/-- A new proc has no link and has not exited. -/
theorem fresh_proc {fresh : Proc Data} (links : fresh.links = []) (running : fresh.exited = none)
    (grown : next.procs = state.procs ++ [fresh]) (proc : ProcId) :
    next.linksOf proc = state.linksOf proc ∧ next.exitOf proc = state.exitOf proc := by
  rw [linksOf, linksOf, exitOf, exitOf, grown, Worklist.getElem?_snoc]
  split
  · rename_i last
    have beyond : state.procs[proc]? = none := List.getElem?_eq_none (Nat.le_of_eq last.symm)
    simp [beyond, links, running]
  · exact ⟨rfl, rfl⟩

/-- Changing a proc otherwise than in its links and its exit. -/
theorem modified_proc {proc : ProcId} {update : Proc Data → Proc Data}
    (same : ∀ entry, (update entry).links = entry.links ∧ (update entry).exited = entry.exited)
    (changed : next.procs = state.procs.modify proc update) (other : ProcId) :
    next.linksOf other = state.linksOf other ∧ next.exitOf other = state.exitOf other := by
  rw [linksOf, linksOf, exitOf, exitOf, changed, List.getElem?_modify]
  cases state.procs[other]? with
  | none => exact ⟨rfl, rfl⟩
  | some entry => by_cases here : proc = other <;> simp [here, same entry]

theorem mem_joinLink {entry : Proc Data} {other linked : ProcId} :
    linked ∈ (joinLink other entry).links ↔ linked ∈ entry.links ∨ linked = other := by
  unfold joinLink
  split
  · rename_i member
    refine ⟨.inl, ?_⟩
    rintro (before | rfl)
    · exact before
    · exact member
  · simp

theorem joinLink_exited (entry : Proc Data) (other : ProcId) :
    (joinLink other entry).exited = entry.exited := by
  unfold joinLink
  split <;> rfl

/-- What a link adds. -/
theorem linked_procs {first second : ProcId} (inside : first < state.procs.length)
    (within : second < state.procs.length)
    (changed : next.procs = (state.procs.modify first (joinLink second)).modify second
      (joinLink first)) : (∀ proc, next.exitOf proc = state.exitOf proc) ∧
      ∀ proc linked, linked ∈ next.linksOf proc ↔ linked ∈ state.linksOf proc ∨
        (proc = first ∧ linked = second) ∨ (proc = second ∧ linked = first) := by
  constructor
  · intro proc
    rw [exitOf, exitOf, changed, List.getElem?_modify, List.getElem?_modify]
    cases state.procs[proc]? with
    | none => rfl
    | some entry =>
      by_cases here : first = proc <;> by_cases there : second = proc <;>
        simp [here, there, joinLink_exited]
  · intro proc linked
    rw [linksOf, linksOf, changed, List.getElem?_modify, List.getElem?_modify]
    rcases Nat.lt_or_ge proc state.procs.length with bound | beyond
    · rw [List.getElem?_eq_getElem bound]
      by_cases here : first = proc <;> by_cases there : second = proc
      · subst here
        simp [there, mem_joinLink]
      · subst here
        simp [there, mem_joinLink, Ne.symm there]
      · subst there
        simp [here, mem_joinLink, Ne.symm here]
      · simp [here, there, Ne.symm here, Ne.symm there]
    · rw [List.getElem?_eq_none beyond]
      have not_first : proc ≠ first := (inside.trans_le beyond).ne'
      have not_second : proc ≠ second := (within.trans_le beyond).ne'
      simp [not_first, not_second]

/-- What a step records: a recorded exit stays, links stay, and they stay mutual. -/
structure Lasts (state next : State Data) : Prop where
  exits : ∀ proc reason, state.exitOf proc = some reason → next.exitOf proc = some reason
  links : ∀ proc linked, linked ∈ state.linksOf proc → linked ∈ next.linksOf proc
  tied : state.Tied → next.Tied

theorem Lasts.of_same (links : ∀ proc, next.linksOf proc = state.linksOf proc)
    (exits : ∀ proc, next.exitOf proc = state.exitOf proc)
    (length : state.procs.length ≤ next.procs.length) : Lasts state next where
  exits proc reason known := (exits proc).trans known
  links proc linked member := by
    rw [links]
    exact member
  tied tied := tied.congr links length

theorem Exits.lasts {exits : List (ProcId × ExitReason Data)} {regions : List RegionId}
    (recorded : Exits state exits regions next) : Lasts state next where
  exits _ _ known := recorded.kept known
  links proc linked member := by
    rw [recorded.linksOf]
    exact member
  tied tied := tied.congr recorded.linksOf recorded.length.ge

/-- One step keeps the fate of linked procs exactly when the link it makes, if any, is in time. -/
theorem fate_step {op : Op Data} (performed : State.step state op = some next) :
    Lasts state next ∧ (state.Tied → state.Fate → (next.Fate ↔ state.LinkInTime op)) := by
  obtain ⟨⟨answer, after⟩, answered, rfl⟩ := Option.map_eq_some_iff.mp performed
  have always : Lasts state after → (after.Fate ↔ state.Fate) →
      Lasts state after ∧ (state.Tied → state.Fate → (after.Fate ↔ True)) :=
    fun lasts same => ⟨lasts, fun _ fate => ⟨fun _ => trivial, fun _ => same.mpr fate⟩⟩
  have unmoved : Kept state after →
      Lasts state after ∧ (state.Tied → state.Fate → (after.Fate ↔ True)) := fun kept =>
    always (.of_same (linksOf_of_procs kept.procs) (exitOf_of_procs kept.procs)
        (by rw [kept.procs]))
      (fate_congr (linksOf_of_procs kept.procs) (exitOf_of_procs kept.procs))
  have cascading : ∀ {acting : State Data} {exits regions}, Kept state acting →
      Exits acting exits regions after →
      (∀ exit ∈ exits, exit.2.abnormal = true → ∀ linked ∈ acting.linksOf exit.1,
        linked < acting.procs.length → (after.exitOf linked).isSome = true) →
      Lasts state after ∧ (state.Tied → state.Fate → (after.Fate ↔ True)) := by
    intro acting exits regions kept recorded closed
    have links := linksOf_of_procs kept.procs
    have known := exitOf_of_procs kept.procs
    have same : Lasts state acting := .of_same links known (by rw [kept.procs])
    have later := recorded.lasts
    refine ⟨⟨fun proc reason exited => later.exits _ _ (same.exits _ _ exited),
      fun proc linked member => later.links _ _ (same.links _ _ member),
      fun tied => later.tied (same.tied tied)⟩, fun tied fate => ⟨fun _ => trivial, fun _ => ?_⟩⟩
    exact Fate.exits ((fate_congr links known).mpr fate) (same.tied tied) recorded closed
  cases op with
  | spawnProc parent name region =>
    obtain ⟨grown, _⟩ := spawnProc_procs answered
    have same := fresh_proc rfl rfl grown
    have longer : state.procs.length ≤ after.procs.length := by
      rw [grown, List.length_append]
      exact Nat.le_add_right _ _
    exact always (.of_same (fun proc => (same proc).1) (fun proc => (same proc).2) longer)
      (fate_congr (fun proc => (same proc).1) fun proc => (same proc).2)
  | monitor proc =>
    obtain ⟨_, changed, _⟩ := monitor_procs answered
    have same := modified_proc (fun _ => by exact ⟨rfl, rfl⟩) changed
    have length : state.procs.length ≤ after.procs.length := by
      rw [changed, List.length_modify]
    exact always (.of_same (fun proc => (same proc).1) (fun proc => (same proc).2) length)
      (fate_congr (fun proc => (same proc).1) fun proc => (same proc).2)
  | kill proc =>
    obtain ⟨_, _, rfl⟩ := kill_answer answered
    obtain ⟨exits, recorded, closed, _⟩ := killProc_spec state proc
    exact cascading (.same rfl rfl rfl) recorded fun exit member _ => (closed exit member).2
  | endTask me ended =>
    obtain ⟨acting, exits, regions, kept, _, recorded, closed⟩ := endTask_answer answered
    exact cascading kept recorded closed
  | deliverPending =>
    obtain ⟨same, _⟩ := deliverPending_procs answered
    exact always (.of_same (linksOf_of_procs same) (exitOf_of_procs same) (by rw [same]))
      (fate_congr (linksOf_of_procs same) (exitOf_of_procs same))
  | link first second =>
    obtain ⟨inside, within, changed, _⟩ := link_procs answered
    obtain ⟨known, links⟩ := linked_procs inside within changed
    refine ⟨⟨fun proc reason exited => (known proc).trans exited,
      fun proc linked member => (links proc linked).mpr (.inl member), fun tied => ?_⟩,
      fun _ fate => ?_⟩
    · have length : after.procs.length = state.procs.length := by simp [changed]
      constructor
      · intro proc linked member
        rw [length]
        rcases (links proc linked).mp member with before | ⟨_, rfl⟩ | ⟨_, rfl⟩
        · exact tied.named proc linked before
        · exact within
        · exact inside
      · intro proc linked member
        rw [links] at member ⊢
        rcases member with before | ⟨rfl, rfl⟩ | ⟨rfl, rfl⟩
        · exact .inl (tied.returned proc linked before)
        · exact .inr (.inr ⟨rfl, rfl⟩)
        · exact .inr (.inl ⟨rfl, rfl⟩)
    · have before := fate_iff.mp fate
      rw [fate_iff]
      simp only [links, Doomed, known] at before ⊢
      constructor
      · exact fun after => ⟨after first second (.inr (.inl ⟨rfl, rfl⟩)),
          after second first (.inr (.inr ⟨rfl, rfl⟩))⟩
      · rintro ⟨forth, back⟩ proc linked (earlier | ⟨rfl, rfl⟩ | ⟨rfl, rfl⟩)
        · exact before proc linked earlier
        · exact forth
        · exact back
  | _ => exact unmoved (kept_perform rfl answered)

end Fates

end State

/-! ## Whole runs -/

theorem tied_initial (chooser : Chooser) : (initial chooser : State Data).Tied := by
  have none_linked : ∀ proc, (initial chooser : State Data).linksOf proc = [] := by
    intro proc
    rw [State.linksOf]
    cases proc <;> rfl
  constructor
  · intro proc linked member
    rw [none_linked] at member
    cases member
  · intro proc linked member
    rw [none_linked] at member
    cases member

theorem fate_initial (chooser : Chooser) : (initial chooser : State Data).Fate := by
  rw [State.fate_iff]
  intro proc linked member
  exact absurd member (by cases proc <;> simp [State.linksOf, initial])

/-- Between two states of a run every recorded exit stays as it is and every link stays, both
ways. -/
def LinksLast (before after : State Data) : Prop :=
  (∀ proc reason, before.exitOf proc = some reason → after.exitOf proc = some reason) ∧
    ∀ proc linked, linked ∈ before.linksOf proc →
      linked ∈ after.linksOf proc ∧ proc ∈ after.linksOf linked

/-- The fate of linked procs over whole runs. -/
structure LinkedFate (start : State Data) (ops : List (Op Data)) : Prop where
  fate : Always State.step State.Fate start ops ↔ Guarded State.step State.LinkInTime start ops
  lasting : Evolves State.step LinksLast start ops
  linking : ∀ (state next : State Data) first second,
    State.step state (.link first second) = some next →
      second ∈ next.linksOf first ∧ first ∈ next.linksOf second
  ending : ∀ (state : State Data) proc extra,
    state.killProcWithin (state.procs.length + 1 + extra) proc = state.killProc proc

/-- Linked procs share their fate throughout a run exactly when every link is made in time; recorded
exits and links last, and every cascade of kills ends. -/
theorem linked_fate (chooser : Chooser) (ops : List (Op Data)) :
    LinkedFate (initial chooser) ops := by
  have preserve : ∀ (state : State Data) op next, state.Tied → State.step state op = some next →
      next.Tied := by
    intro state op next tied performed
    exact (State.fate_step performed).1.tied tied
  constructor
  · have sharp : Always State.step (fun state => state.Tied ∧ state.Fate)
        (initial chooser : State Data) ops ↔
        Guarded State.step State.LinkInTime (initial chooser) ops := by
      refine always_iff_guarded ⟨tied_initial chooser, fate_initial chooser⟩ ?_
      intro state op next ⟨tied, fate⟩ performed
      obtain ⟨lasts, sharp⟩ := State.fate_step performed
      have sharp := sharp tied fate
      exact ⟨fun both => sharp.mp both.2, fun inTime => ⟨lasts.tied tied, sharp.mpr inTime⟩⟩
    rw [← sharp]
    constructor
    · intro always front rest state split run
      exact ⟨inv_of_exec State.Tied (tied_initial chooser) preserve run,
        always front rest state split run⟩
    · exact fun always front rest state split run => (always front rest state split run).2
  · intro front middle rest before after _ reached run
    have tied := inv_of_exec State.Tied (tied_initial chooser) preserve reached
    have lasts : State.Lasts before after := by
      refine inv_of_exec (State.Lasts before) ?_ ?_ run
      · exact ⟨fun _ _ => id, fun _ _ => id, id⟩
      · intro state op next so_far performed
        have later := (State.fate_step performed).1
        exact ⟨fun proc reason known => later.exits _ _ (so_far.exits _ _ known),
          fun proc linked member => later.links _ _ (so_far.links _ _ member),
          fun tied => later.tied (so_far.tied tied)⟩
    refine ⟨lasts.exits, fun proc linked member => ?_⟩
    have stays := lasts.links proc linked member
    exact ⟨stays, (lasts.tied tied).returned proc linked stays⟩
  · intro state next first second performed
    obtain ⟨⟨answer, after⟩, answered, rfl⟩ := Option.map_eq_some_iff.mp performed
    obtain ⟨inside, within, changed, _⟩ := State.link_procs answered
    obtain ⟨_, links⟩ := State.linked_procs inside within changed
    exact ⟨(links first second).mpr (.inr (.inl ⟨rfl, rfl⟩)),
      (links second first).mpr (.inr (.inr ⟨rfl, rfl⟩))⟩
  · intro state proc extra
    exact State.killProcWithin_stable _ state (Nat.lt_succ_of_le state.living_le) proc extra

/-- A proc that fails, and a link to it afterwards. -/
def linkAfterExit : List (Op Unit) :=
  [.spawnProc 0 "failing" 1, .netYield 0, .endTask 1 (.error "Kaboom" []), .deliverPending,
    .dispatchNext, .spawnProc 0 "partner" 2, .link 1 2]

/-- The link leaves the partner running. -/
theorem partner_survives : ¬ ∀ (chooser : Chooser) (ops : List (Op Unit)),
      Always State.step State.Fate (initial chooser) ops := by
  intro claim
  have fate := claim (.seeded 0 1) linkAfterExit linkAfterExit [] _ (List.append_nil _).symm rfl
  have gone := State.fate_iff.mp fate 1 2 (List.mem_cons_self) ⟨.error "Kaboom" [], rfl, rfl⟩
  cases gone

end WolfInterp.Sched
