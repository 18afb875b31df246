import WolfInterp.Sched.Batons
import WolfInterp.Sched.Links

/-!
# Entering a door

What each door does to the waiting tasks, before the baton goes on. A door that waits registers its
caller in its queue first; whatever settles afterwards treats the caller like everybody else there.
-/

namespace WolfInterp.Sched

open Board

variable {Data : Type}

namespace State

section Functions

variable {state next : State Data} {calls : Calls Data} {me : TaskId}

/-! ## The ends of tasks -/

section

variable (stands : Stands calls state)
include stands

/-- A task that is inside a join stands in no queue. -/
theorem Stands.joining {owner other : TaskId} {scope : ScopeId}
    (inside : calls owner = some (.joinScope other scope)) :
    ∀ post, owner ∉ state.queue post :=
  fun _ member => stands.standsAt member inside

theorem Stands.wakeJoiner (scope : ScopeId)
    (joins : ∀ entry, state.scopes[scope]? = some entry → entry.joining = true →
      state.stateOf entry.owner = .blocked →
        ∃ other, calls entry.owner = some (.joinScope entry.owner other)) :
    Tracks calls nobody [] state (state.wakeJoiner scope) := by
  rw [State.wakeJoiner]
  split
  · exact stands.refl
  · rename_i entry found
    split
    · rename_i done
      rw [State.wakeBlocked]
      split
      · rename_i blocked
        obtain ⟨other, inside⟩ := joins entry found done.1 blocked
        have woken := stands.wakeBlocked (stands.joining inside)
          fun op called => show op.Quiet (.ok .unit) by
            obtain rfl := Option.some.inj (inside.symm.trans called)
            trivial
        rw [State.wakeBlocked, if_pos blocked] at woken
        exact woken
      · exact stands.refl
    · exact stands.refl

/-- A running task that is outside of every door ends. -/
theorem Stands.finish (runs : state.stateOf me = .running) (outside : calls me = none)
    (ended : TaskEnd Data) :
    Tracks calls nobody [] state
      (state.modifyTask me fun tcb => { tcb with state := .done, outcome := some ended }) := by
  have alive : state.board.doing me ≠ .done := by
    change state.stateOf me ≠ .done
    rw [runs]
    simp
  obtain ⟨tcb, found⟩ := state.found_of_alive alive
  have shown := state.board_modifyTask_set
    (fun tcb => { tcb with state := .done, outcome := some ended }) found
  rw [if_pos rfl] at shown
  refine stands.restate (stands.placed.free_of_outside outside) shown rfl stands.placed.ready
    (fun _ => .inl) (fun _ => id) ?_ (by simp) (by simp) (by simp)
    (fun inside => absurd outside inside) ?_ fun _ inside => absurd outside inside
  · exact fun member => absurd member (stands.placed.not_mem_ready (by
      change state.stateOf me ≠ .ready
      rw [runs]
      simp))
  · exact fun op called => by cases outside.symm.trans called

theorem Stands.failScope (me : TaskId) (scope : ScopeId) (ended : TaskEnd Data) :
    Tracks calls nobody [] state (state.failScope me scope ended) := by
  have noted : Tracks calls nobody [] state (state.modifyScope scope fun entry =>
      { entry with failures := entry.failures ++ [ended] }) := stands.hidden rfl fun _ => rfl
  rw [State.failScope]
  dsimp only
  split
  · exact noted
  · rename_i entry _
    have siblings := noted.then (noted.stands.cancelAll (entry.children.filter (· ≠ me)))
    split
    · exact siblings.then (siblings.stands.cancel entry.owner)
    · exact siblings

end

/-- Scopes keep their owners, and whether they are being joined. -/
def SameJoins (state next : State Data) : Prop :=
  ∀ scope : ScopeId,
    (next.scopes[scope]?).map (fun entry : ScopeState Data => (entry.owner, entry.joining)) =
      (state.scopes[scope]?).map fun entry => (entry.owner, entry.joining)

theorem SameJoins.of_scopes (same : next.scopes = state.scopes) : SameJoins state next :=
  fun scope => by rw [same]

theorem SameJoins.trans {middle : State Data} (first : SameJoins state middle)
    (second : SameJoins middle next) : SameJoins state next :=
  fun scope => (second scope).trans (first scope)

theorem SameJoins.found (same : SameJoins state next) {scope : ScopeId} {entry : ScopeState Data}
    (found : next.scopes[scope]? = some entry) : ∃ before, state.scopes[scope]? = some before ∧
      before.owner = entry.owner ∧ before.joining = entry.joining := by
  have both := same scope
  rw [found] at both
  obtain ⟨before, there, shown⟩ := Option.map_eq_some_iff.mp both.symm
  obtain ⟨owner, joining⟩ := Prod.mk.inj shown
  exact ⟨before, there, owner, joining⟩

theorem SameJoins.modifyScope (scope : ScopeId) (update : ScopeState Data → ScopeState Data)
    (same : ∀ entry, (update entry).owner = entry.owner ∧ (update entry).joining = entry.joining) :
    SameJoins state (state.modifyScope scope update) := by
  intro other
  rw [State.modifyScope, List.getElem?_modify]
  cases state.scopes[other]? with
  | none => rfl
  | some entry => by_cases here : scope = other <;> simp [here, same entry]

theorem sameJoins_failScope (state : State Data) (me : TaskId) (scope : ScopeId)
    (ended : TaskEnd Data) : SameJoins state (state.failScope me scope ended) :=
  State.relates_failScope (R := SameJoins) SameJoins.trans (fun mild => .of_scopes mild.scopes)
    (fun _ scope => .modifyScope scope _ fun _ => ⟨rfl, rfl⟩) state scope

/-- Whoever is blocked while a scope of its own is being joined is inside a join. -/
def JoinsOnly (calls : Calls Data) (state : State Data) : Prop :=
  ∀ (scope : ScopeId) (entry : ScopeState Data), state.scopes[scope]? = some entry →
    entry.joining = true → state.stateOf entry.owner = .blocked →
      ∃ other, calls entry.owner = some (.joinScope entry.owner other)

/-- As long as the tasks that run are outside of every door, nobody else comes to be blocked. -/
theorem Tracks.joinsOnly {log : List (Traffic Data)} (tracks : Tracks calls nobody log state next)
    (outside : ∀ task, state.stateOf task = .running → calls task = none)
    (same : SameJoins state next) (joins : JoinsOnly calls state) : JoinsOnly calls next := by
  intro scope entry found joining blocked
  obtain ⟨before, there, owner, joined⟩ := same.found found
  rw [← owner]
  refine joins scope before there (joined.trans joining) ?_
  rw [owner]
  rcases tracks.blocks _ blocked with asleep | ⟨running, inside⟩
  · exact asleep
  · exact absurd (outside _ running) inside

theorem sameJoins_recordEnd (state : State Data) (me : TaskId) (scope : Option ScopeId)
    (ended : TaskEnd Data) : SameJoins state (state.recordEnd me scope ended) := by
  cases scope with
  | none => exact .of_scopes rfl
  | some scope =>
    exact SameJoins.trans (.of_scopes rfl) (State.relates_settleScope (R := SameJoins)
      SameJoins.trans (fun mild => .of_scopes mild.scopes)
      (fun _ scope => .modifyScope scope _ fun _ => ⟨rfl, rfl⟩) _ scope)

theorem Stands.recordEnd (stands : Stands calls state) (runs : state.stateOf me = .running)
    (outside : ∀ task, state.stateOf task = .running → calls task = none)
    (joins : JoinsOnly calls state) (scope : Option ScopeId) (ended : TaskEnd Data) :
    Tracks calls nobody [] state (state.recordEnd me scope ended) := by
  have finished := stands.finish runs (outside me runs) ended
  unfold State.recordEnd
  cases scope with
  | none => exact finished
  | some scope =>
    unfold State.settleScope
    have unmoved : SameJoins state (state.modifyTask me fun tcb =>
        { tcb with state := .done, outcome := some ended }) := .of_scopes rfl
    generalize state.modifyTask me (fun tcb =>
      { tcb with state := .done, outcome := some ended }) = acting at finished unmoved ⊢
    have noted : Tracks calls nobody [] state
        (acting.op me (.scope scope) (TaskEnd.failing ended)) :=
      finished.then (finished.stands.hidden rfl fun _ => rfl)
    have failed : Tracks calls nobody [] state (if TaskEnd.failing ended then
        (acting.op me (.scope scope) (TaskEnd.failing ended)).failScope me scope ended
        else acting.op me (.scope scope) (TaskEnd.failing ended)) ∧
        SameJoins state (if TaskEnd.failing ended then
          (acting.op me (.scope scope) (TaskEnd.failing ended)).failScope me scope ended
          else acting.op me (.scope scope) (TaskEnd.failing ended)) := by
      split
      · exact ⟨noted.then (noted.stands.failScope me scope ended),
          unmoved.trans (sameJoins_failScope
            (acting.op me (.scope scope) (TaskEnd.failing ended)) me scope ended)⟩
      · exact ⟨noted, unmoved⟩
    obtain ⟨tracks, same⟩ := failed
    have joined := tracks.joinsOnly outside same joins
    exact tracks.then (tracks.stands.wakeJoiner scope fun entry => joined scope entry)

/-! ## Registering -/

/-- A running task enters a door, which registers it in queues that the door names. -/
theorem Stands.register (stands : Stands calls state) (runs : state.stateOf me = .running)
    (outside : calls me = none) (unwoken : state.board.wake me = none) {op : Op Data}
    (board : next.board = { state.board with queue := next.queue })
    (grown : ∀ post, state.queue post ⊆ next.queue post) (fresh : ∀ post, ∀ task ∈ next.queue post,
      task ∈ state.queue post ∨ task = me ∧ op.StandsAt post) (single : ∀ post, post.alone = true →
      next.queue post = state.queue post ∨ next.queue post = state.queue post ++ [me])
    (senders : ∀ chan, ∀ pair ∈ next.sendersOf chan,
      pair ∈ state.sendersOf chan ∨ pair.1 = me ∧ op.message = some (chan, pair.2)) :
    Tracks (Function.update calls me (some op)) nobody [] state next := by
  have absent := stands.placed.free_of_outside outside
  have still : Stands (Function.update calls me (some op)) next := by
    constructor
    · rw [board]
      constructor
      · intro post task member
        rcases fresh post task member with before | ⟨rfl, here⟩
        · obtain ⟨still, other, inside, there⟩ := stands.placed.posted post task before
          have differs : task ≠ me := by
            rintro rfl
            exact absent post before
          refine ⟨still, other, ?_, there⟩
          rw [Function.update_of_ne differs]
          exact inside
        · refine ⟨⟨.inr runs, unwoken⟩, op, ?_, here⟩
          rw [Function.update_self]
          rfl
      · intro post alone
        change (next.queue post).Nodup
        rcases single post alone with same | added
        · rw [same]
          exact stands.placed.single post alone
        · rw [added, ← List.concat_eq_append]
          exact (stands.placed.single post alone).concat (absent post)
      · exact stands.placed.ready
      · exact stands.placed.queued
      · exact stands.placed.asleep
    · intro chan pair member
      rcases senders chan pair member with before | ⟨same, sends⟩
      · have differs : pair.1 ≠ me := by
          intro same
          refine absent (.sender chan) ?_
          rw [← same]
          exact List.mem_map_of_mem before
        rw [messageOf, Function.update_of_ne differs]
        exact stands.voiced chan pair before
      · rw [messageOf, same, Function.update_self]
        exact sends
  exact still.idle (congrArg Board.doing board) (congrArg Board.ready board) (by rw [board])
    fun task post _ member => grown post member

/-- What is tracked from a state is tracked from every state with its board. -/
theorem Tracks.since {middle : State Data} {due : TaskId → Prop} {log : List (Traffic Data)}
    (tracks : Tracks calls due log middle next) (board : middle.board = state.board) :
    Tracks calls due log state next := by
  have queue : middle.queue = state.queue := congrArg Board.queue board
  have doing : middle.stateOf = state.stateOf := congrArg Board.doing board
  have ready : middle.ready = state.ready := congrArg Board.ready board
  obtain ⟨⟨stands, kept, asleep, awake, runs, blocks, alive, pays, silent⟩, stays⟩ := tracks
  rw [queue] at kept
  rw [doing, board] at runs pays
  rw [doing] at blocks alive stays
  rw [board] at asleep
  refine ⟨⟨stands, kept, asleep, ?_, runs, blocks, alive, pays, silent⟩, stays⟩
  intro task before
  refine awake task ?_
  rw [Awake, doing, ready, board]
  exact before

section

variable (stands : Stands calls state) (runs : state.stateOf me = .running)
  (outside : calls me = none) (unwoken : state.board.wake me = none)
include stands runs outside unwoken

/-- A running task enters a door that does not register it. -/
theorem Stands.enter (op : Op Data) (board : next.board = state.board)
    (chans : next.chans = state.chans) :
    Tracks (Function.update calls me (some op)) nobody [] state next := by
  have queue : next.queue = state.queue := congrArg Board.queue board
  refine stands.register runs outside unwoken ?_ ?_ ?_ ?_ ?_
  · rw [board, queue]
    rfl
  · intro post
    rw [queue]
    exact List.Subset.refl _
  · intro post task
    rw [queue]
    exact .inl
  · intro post _
    rw [queue]
    exact .inl rfl
  · intro chan pair
    rw [sendersOf_of_chans chans]
    exact .inl

/-- A running task joins one queue of a channel. -/
theorem Stands.join_chan {op : Op Data} {chan : ChanId} {entry : Chan Data}
    (found : state.chans[chan]? = some entry) {update : Chan Data → Chan Data} {post : Post}
    (here : op.StandsAt post)
    (named : post = .sender chan ∨ post = .receiver chan ∨ post = .selecter chan)
    (shown : (state.modifyChan chan update).board =
      state.board.line post (state.queue post ++ [me]))
    (senders : ∀ pair ∈ (update entry).senders,
      pair ∈ entry.senders ∨ pair.1 = me ∧ op.message = some (chan, pair.2)) :
    Tracks (Function.update calls me (some op)) nobody [] state (state.modifyChan chan update) := by
  have queue : (state.modifyChan chan update).queue =
      Function.update state.queue post (state.queue post ++ [me]) :=
    congrArg Board.queue shown
  refine stands.register runs outside unwoken ?_ ?_ ?_ ?_ ?_
  · rw [shown, queue]
    rfl
  · intro other
    rw [queue]
    rcases eq_or_ne other post with rfl | differs
    · rw [Function.update_self]
      exact List.subset_append_left _ _
    · rw [Function.update_of_ne differs]
      exact List.Subset.refl _
  · intro other task
    rw [queue]
    rcases eq_or_ne other post with rfl | differs
    · rw [Function.update_self]
      intro member
      rcases List.mem_append.mp member with before | added
      · exact .inl before
      · exact .inr ⟨List.mem_singleton.mp added, here⟩
    · rw [Function.update_of_ne differs]
      exact .inl
  · intro other _
    rw [queue]
    rcases eq_or_ne other post with rfl | differs
    · exact .inr (Function.update_self ..)
    · exact .inl (Function.update_of_ne differs ..)
  · intro other pair member
    rw [sendersOf, State.modifyChan, List.getElem?_modify] at member
    rw [sendersOf]
    by_cases same : chan = other
    · subst same
      rw [found] at member ⊢
      simp only [if_true] at member
      exact senders pair member
    · simp only [same, if_false] at member
      exact .inl (by simpa using member)

end

/-! ## Mutexes -/

theorem queue_modifyMutex (state : State Data) (mutex : MutexId) (update : Mx Data → Mx Data)
    {post : Post} (elsewhere : post ≠ .waiter mutex) :
    (state.modifyMutex mutex update).queue post = state.queue post := by
  cases post with
  | waiter other =>
    have differs : mutex ≠ other := by
      rintro rfl
      exact elsewhere rfl
    simp [State.queue, State.modifyMutex, differs]
  | _ => rfl

theorem queue_modifyMutex_same (state : State Data) (mutex : MutexId)
    (update : Mx Data → Mx Data) (same : ∀ entry, (update entry).waiters = entry.waiters) :
    (state.modifyMutex mutex update).queue = state.queue := by
  funext post
  rcases eq_or_ne post (.waiter mutex) with rfl | elsewhere
  · simp only [State.queue, State.modifyMutex, List.getElem?_modify, if_true]
    cases state.mutexes[mutex]? with
    | none => rfl
    | some entry => exact same entry
  · exact state.queue_modifyMutex mutex update elsewhere

/-- A mutex changes otherwise than in who waits for it. -/
theorem Stands.modifyMutex (stands : Stands calls state) (mutex : MutexId)
    (update : Mx Data → Mx Data) (same : ∀ entry, (update entry).waiters = entry.waiters) :
    Tracks calls nobody [] state (state.modifyMutex mutex update) := by
  refine stands.holding ?_ fun _ => rfl
  change Board.mk _ _ _ (state.modifyMutex mutex update).queue _ = _
  rw [state.queue_modifyMutex_same mutex update same]
  rfl

/-- The waiters of a mutex change. -/
theorem board_modifyMutex_line {mutex : MutexId} {entry : Mx Data}
    (found : state.mutexes[mutex]? = some entry) (waiters : List TaskId → List TaskId) :
    (state.modifyMutex mutex fun entry => { entry with waiters := waiters entry.waiters }).board =
      state.board.line (.waiter mutex) (waiters entry.waiters) := by
  have queue : (state.modifyMutex mutex fun entry =>
      { entry with waiters := waiters entry.waiters }).queue =
      Function.update state.queue (.waiter mutex) (waiters entry.waiters) := by
    funext post
    rcases eq_or_ne post (.waiter mutex) with rfl | elsewhere
    · rw [Function.update_self]
      simp [State.queue, State.modifyMutex, found]
    · rw [Function.update_of_ne elsewhere]
      exact state.queue_modifyMutex mutex _ elsewhere
  have holder : (state.modifyMutex mutex fun entry =>
      { entry with waiters := waiters entry.waiters }).board.holder = state.board.holder := by
    funext other
    simp only [board, State.modifyMutex, List.getElem?_modify]
    cases state.mutexes[other]? with
    | none => rfl
    | some entry => by_cases here : mutex = other <;> simp [here]
  change Board.mk _ _ _ _ _ = _
  rw [queue]
  exact congrArg (Board.mk _ _ _ _) holder

theorem Stands.grant (stands : Stands calls state) (mutex : MutexId) (task : TaskId) :
    Tracks calls nobody [] state (state.grant mutex task) := by
  have given := stands.modifyMutex mutex (fun entry =>
    { entry with holder := some task, acquisitions := entry.acquisitions + 1 }) fun _ => rfl
  exact given.then (given.stands.hidden (board_hbEdge _ _ task)
    (sendersOf_of_chans (chans_hbEdge _ _ task)))

theorem queue_grant (state : State Data) (mutex : MutexId) (task : TaskId) :
    (state.grant mutex task).queue = state.queue := by
  have given := state.queue_modifyMutex_same mutex (fun entry =>
    { entry with holder := some task, acquisitions := entry.acquisitions + 1 }) fun _ => rfl
  have synced := congrArg Board.queue ((state.modifyMutex mutex fun entry =>
    { entry with holder := some task, acquisitions := entry.acquisitions + 1 }).board_hbEdge
    (((state.modifyMutex mutex fun entry => { entry with
      holder := some task, acquisitions := entry.acquisitions + 1 }).mutexes[mutex]?).elim []
      Mx.vc) task)
  exact synced.trans given

theorem Stands.release (stands : Stands calls state) {mutex : MutexId} {value : Value Data}
    (released : state.release me mutex value = some next) : Tracks calls nobody [] state next := by
  obtain ⟨entry, found, answered⟩ := Option.bind_eq_some_iff.mp released
  split at answered
  · cases answered
  · have freed : Tracks calls nobody [] state (((state.op me (.mutex mutex) true).modifyMutex mutex
        fun entry => { entry with value, holder := none
                                  vc := mergeVc entry.vc (state.taskVc me) }).tick me) := by
      have noted : Tracks calls nobody [] state (state.op me (.mutex mutex) true) :=
        stands.hidden rfl fun _ => rfl
      have written := noted.then (noted.stands.modifyMutex mutex (fun entry =>
        { entry with value, holder := none, vc := mergeVc entry.vc (state.taskVc me) })
        fun _ => rfl)
      exact written.then (written.stands.hidden (board_tick _ me)
        (sendersOf_of_chans (chans_tick _ me)))
    have there : (((state.op me (.mutex mutex) true).modifyMutex mutex fun entry =>
        { entry with value, holder := none
                     vc := mergeVc entry.vc (state.taskVc me) }).tick me).mutexes[mutex]? =
        some { entry with value, holder := none, vc := mergeVc entry.vc (state.taskVc me) } := by
      change ((state.mutexes.modify mutex _)[mutex]?) = _
      rw [List.getElem?_modify, found]
      simp
    have same : (state.op me (.mutex mutex) true).taskVc me = state.taskVc me := rfl
    simp only [same] at answered
    cases waiters : entry.waiters with
    | nil =>
      simp only [waiters] at answered
      cases answered
      exact freed
    | cons first rest =>
      simp only [waiters] at answered
      cases answered
      generalize ((state.op me (.mutex mutex) true).modifyMutex mutex fun entry =>
        { entry with value, holder := none
                     vc := mergeVc entry.vc (state.taskVc me) }).tick me = acting at freed there ⊢
      have queue : acting.queue (.waiter mutex) = first :: rest := by
        rw [State.queue, there]
        exact waiters
      have member : first ∈ acting.queue (.waiter mutex) := by
        rw [queue]
        exact List.mem_cons_self
      have nodup : (acting.queue (.waiter mutex)).Nodup :=
        freed.stands.placed.single (.waiter mutex) rfl
      rw [queue] at nodup
      have left := freed.stands.leave (board_modifyMutex_line there fun _ => rest)
        (by rw [queue]; exact List.sublist_cons_self ..) fun _ => List.Subset.refl _
      have granted := left.stands.grant mutex first
      obtain ⟨living, inside, _⟩ := freed.stands.waiting member
      have moved : (acting.modifyMutex mutex fun entry => { entry with waiters := rest }).queue =
          Function.update acting.queue (.waiter mutex) rest :=
        congrArg Board.queue (board_modifyMutex_line there fun _ => rest)
      have absent : ∀ post, first ∉ ((acting.modifyMutex mutex fun entry =>
          { entry with waiters := rest }).grant mutex first).queue post := by
        intro post
        rw [queue_grant, moved]
        exact freed.stands.placed.free_of_left rfl member (List.nodup_cons.mp nodup).1 post
      have alive := (left.trans granted).alive first inside living
      generalize (acting.modifyMutex mutex fun entry => { entry with waiters := rest }).grant
        mutex first = given at granted absent alive ⊢
      have woken : Tracks calls nobody [] given (given.makeReady first (.ok value)) := by
        refine granted.stands.makeReady absent alive (fun _ => inside) (.ok value) ?_
          (fun _ => rfl) fun _ _ => rfl
        intro op called dealt paid
        rw [dealtBy_nil, List.append_nil]
        have waits := freed.stands.standsAt member called
        cases op with
        | acquire _ _ =>
          generalize given.board.wake first = wake at paid
          cases paid with
          | unwoken | quiet _ => exact .quiet trivial
          | done completes | killed completes => exact completes.elim
        | _ => exact waits.elim
      refine ((freed.trans left).trans (granted.trans woken)).close fun task due waits => ?_
      rcases due with (due | ⟨before, gone⟩) | (due | due)
      · exact due.elim
      · rw [queue] at before
        rcases List.mem_cons.mp before with rfl | later
        · have answered := (doing_makeReady_self alive (.ok value)).2
          rw [waits.2] at answered
          cases answered
        · exact gone later
      · exact due.elim
      · exact due.elim

end Functions

end State

end WolfInterp.Sched
