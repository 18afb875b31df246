import WolfInterp.Sched.Enters

/-!
# The turns of the doors

Every door leaves the baton in one of four ways. It answers at once and nobody has entered anything;
it registers its caller and finds it completed; it registers its caller and parks it; or it hands
the baton on. In each of them the waiting tasks stand as before.
-/

namespace WolfInterp.Sched

open Board

variable {Data : Type}

/-- The wake that a task hears of in an answer: its own when it resumes, and the one that stands for
what its door answers at once. -/
def Answer.Tells (caller : Option TaskId) (task : TaskId) (wake : Wake Data) : Answer Data → Prop
  | .resumed other given => other = task ∧ given = some wake
  | .resolved outcome => caller = some task ∧ wake.resolve = some outcome
  | .arm index value => caller = some task ∧ wake = .arm index value
  | _ => False

theorem Answer.Tells.caller {caller : Option TaskId} {task : TaskId} {wake : Wake Data}
    {answer : Answer Data} (hears : answer.Tells caller task wake)
    (keeps : ∀ other given, answer ≠ .resumed other given) : caller = some task := by
  cases answer with
  | resumed other given => exact absurd rfl (keeps other given)
  | resolved _ | arm _ _ => exact hears.1
  | _ => exact hears.elim

theorem Wake.resolve_inj {wake other : Wake Data} {resolved : Resolved Data}
    (resolves : wake.resolve = some resolved) (also : other.resolve = some resolved) :
    wake = other := by
  cases wake <;> cases resolves <;> cases other <;>
    simp_all [Wake.resolve, closedError, cancelledError]

/-- What brings no value brings no message. -/
theorem Wake.bare_of_resolve {wake : Wake Data} {resolved : Resolved Data}
    (resolves : wake.resolve = some resolved) (empty : ∀ value, resolved ≠ .value value) :
    wake.bare = true := by
  cases wake with
  | ok value => exact absurd (Option.some.inj resolves).symm (empty value)
  | arm _ _ => cases resolves
  | closed | cancelled | killed | deadlock _ => rfl

/-- The doors that can park their caller. -/
def Op.waits : Op Data → Bool
  | .send .. | .recv .. | .select .. | .acquire .. | .joinScope .. | .netYield _ | .sleepPark .. =>
    true
  | _ => false

namespace State

/-- A scope of the task is being joined. -/
def Joined (state : State Data) (task : TaskId) : Prop :=
  ∃ (scope : ScopeId) (entry : ScopeState Data),
    state.scopes[scope]? = some entry ∧ entry.owner = task ∧ entry.joining = true

/-- Where a task is listed that waits inside of a door. A `select` without an arm and without a
timeout lists its task nowhere. -/
def Listed (state : State Data) (task : TaskId) (op : Op Data) : Prop :=
  (∃ post, task ∈ state.queue post) ∨ state.Joined task ∨ op = .select task [] none

/-- How a door leaves the baton, with what it does to messages. One that answers at once may hand
its caller a message. -/
inductive Enters (calls : Calls Data) (state : State Data) (op : Op Data)
    (log : List (Traffic Data)) : Turn Data → Prop
  | plain {answer : Answer Data} {next : State Data} {elsewhere : List (Traffic Data)}
      (tracks : Tracks calls nobody elsewhere state next)
      (keeps : ∀ task wake, answer ≠ .resumed task wake)
      (apart : ∀ task, op.caller ≠ some task → dealtBy task log = dealtBy task elsewhere)
      (tells : ∀ me wake, answer.Tells op.caller me wake →
        Paid me op (some wake) (dealtBy me log)) :
      Enters calls state op log (.keeps answer next)
  | consumed {me : TaskId} {middle : State Data} {wake : Wake Data} {resolved : Resolved Data}
      (caller : op.caller = some me)
      (tracks : Tracks (Function.update calls me (some op)) nobody log state middle)
      (given : middle.board.wake me = some wake) (resolves : wake.resolve = some resolved) :
      Enters calls state op log
        (.keeps (.resolved resolved) (middle.modifyTask me fun tcb => { tcb with wake := none }))
  | parked {me : TaskId} {next : State Data} (caller : op.caller = some me)
      (door : op.waits = true)
      (tracks : Tracks (Function.update calls me (some op)) nobody log state next)
      (listed : next.board.wake me = none → next.Listed me op) :
      Enters calls state op log (.parks me next)
  | handed (door : op = .dispatchNext) (silent : log = []) :
      Enters calls state op log (.hands state)

section Doors

variable {state next : State Data} {calls : Calls Data} {me : TaskId} {turn : Turn Data}
  {log : List (Traffic Data)} {op : Op Data} {chan : ChanId}

/-- A door that answers at once, without a message for its caller. -/
theorem Enters.quiet {answer : Answer Data} (tracks : Tracks calls nobody log state next)
    (told : ∀ me wake, answer.Tells op.caller me wake → op.Quiet wake ∧ calls me = none)
    (keeps : ∀ task wake, answer ≠ .resumed task wake) :
    Enters calls state op log (.keeps answer next) := by
  refine .plain tracks keeps (fun _ _ => rfl) fun me wake hears => ?_
  obtain ⟨quiet, outside⟩ := told me wake hears
  rw [tracks.silent me outside]
  exact .quiet quiet

/-- An answer without a value comes without a message. -/
theorem Enters.empty (tracks : Tracks calls nobody log state next) {resolved : Resolved Data}
    (outside : ∀ me, op.caller = some me → calls me = none)
    (empty : ∀ value, resolved ≠ .value value) :
    Enters calls state op log (.keeps (.resolved resolved) next) :=
  .quiet tracks (fun me _ ⟨caller, resolves⟩ =>
    ⟨op.quiet_of_bare (Wake.bare_of_resolve resolves empty), outside me caller⟩) (by simp)

theorem Enters.refused (stands : Stands calls state) {resolved : Resolved Data}
    (outside : ∀ me, op.caller = some me → calls me = none)
    (refusal : state.refused me = some resolved) :
    Enters calls state op [] (.keeps (.resolved resolved) state) := by
  refine .empty stands.refl outside ?_
  obtain ⟨tcb, _, answered⟩ := Option.bind_eq_some_iff.mp refusal
  split at answered
  · cases answered
    nofun
  · split at answered
    · cases answered
      nofun
    · cases answered

section

variable (caller : op.caller = some me) (door : op.waits = true)
  (runs : state.stateOf me = .running)
include caller door runs

/-- What has settled completes the caller, or parks it where it is listed. -/
theorem Enters.immediate
    (tracks : Tracks (Function.update calls me (some op)) nobody log state next)
    (listed : next.board.wake me = none → ∃ post, me ∈ next.queue post)
    (answered : next.immediate me = some turn) : Enters calls state op log turn := by
  have running : next.stateOf me = .running := by
    refine tracks.stays me runs ?_
    rw [Function.update_self]
    simp
  have alive : next.board.doing me ≠ .done := by
    change next.stateOf me ≠ .done
    rw [running]
    simp
  obtain ⟨tcb, found⟩ := next.found_of_alive alive
  have wake := next.wake_of_found found (by
    rw [← next.doing_of_found found]
    exact alive)
  rw [State.immediate, found, Option.bind_some, ← wake] at answered
  split at answered
  · rename_i unwoken
    cases answered
    exact .parked caller door tracks fun waits => .inl (listed waits)
  · rename_i wake given
    obtain ⟨resolved, resolves, rfl⟩ := Option.map_eq_some_iff.mp answered
    exact .consumed caller tracks given resolves

/-! ## Channels -/

/-- Whoever has joined a queue stays there while the channel settles, unless it is woken. -/
theorem Enters.settled {acting : State Data} {post : Post}
    (joined : Tracks (Function.update calls me (some op)) nobody [] state acting)
    (there : me ∈ acting.queue post)
    (answered : (acting.settleChan chan).immediate me = some turn) :
    Enters calls state op (acting.settleLog chan) turn := by
  have settled := joined.stands.settleChan chan
  have tracks := joined.after settled
  refine .immediate caller door runs tracks (fun waits => ⟨post, ?_⟩) answered
  have running := tracks.stays me runs (by rw [Function.update_self]; simp)
  exact settled.kept me post id ⟨.inr running, waits⟩ there

end

section

variable (stands : Stands calls state) (runs : state.stateOf me = .running)
  (outside : calls me = none) (unwoken : state.board.wake me = none)
include stands runs outside unwoken

/-- A running task joins the senders of a channel. -/
theorem Stands.joinSenders {entry : Chan Data}
    (found : state.chans[chan]? = some entry) (value : Value Data) :
    Tracks (Function.update calls me (some (.send me chan value))) nobody [] state
      (state.modifyChan chan fun entry =>
        { entry with senders := entry.senders ++ [(me, value)] }) := by
  have here : (Op.send me chan value).StandsAt (.sender chan) := rfl
  refine stands.join_chan runs outside unwoken found here (.inl rfl) ?_ fun pair member => ?_
  · refine board_modifyChan_line _ found _ _ ?_ ?_ ?_ (.inl rfl)
    · rw [Function.update_self, State.queue, found]
      simp
    · rw [Function.update_of_ne (by simp), State.queue, found]
      rfl
    · rw [Function.update_of_ne (by simp), State.queue, found]
      rfl
  · rcases List.mem_append.mp member with before | added
    · exact .inl before
    · obtain rfl := List.mem_singleton.mp added
      exact .inr ⟨rfl, rfl⟩

/-- A running task joins the receivers of a channel. -/
theorem Stands.joinReceivers {entry : Chan Data} (found : state.chans[chan]? = some entry) :
    Tracks (Function.update calls me (some (.recv me chan))) nobody [] state
      (state.modifyChan chan fun entry => { entry with receivers := entry.receivers ++ [me] }) := by
  have here : (Op.recv me chan : Op Data).StandsAt (.receiver chan) := rfl
  refine stands.join_chan runs outside unwoken found here (.inr (.inl rfl)) ?_
    fun _ member => .inl member
  refine board_modifyChan_line _ found _ _ ?_ ?_ ?_ (.inr (.inl rfl))
  · rw [Function.update_of_ne (by simp), State.queue, found]
    rfl
  · rw [Function.update_self, State.queue, found]
    rfl
  · rw [Function.update_of_ne (by simp), State.queue, found]
    rfl

theorem enters_send {value : Value Data} (entered : state.send me chan value = some turn) :
    Enters calls state (.send me chan value) (state.traffic (.send me chan value)) turn := by
  unfold State.send at entered
  rw [traffic]
  cases refusal : state.refused me with
  | some resolved =>
    simp only [refusal] at entered
    cases entered
    exact .refused stands (fun _ same => Option.some.inj same ▸ outside) refusal
  | none =>
    simp only [refusal] at entered
    obtain ⟨entry, found, answered⟩ := Option.bind_eq_some_iff.mp entered
    have there : state.chans[chan]? = some entry := found
    have noted : Tracks calls nobody [] state
        ((state.op me (.taskCtl me) false).op me (.chan chan) true) :=
      stands.hidden rfl fun _ => rfl
    simp only [there, Option.isSome_none, Bool.false_eq_true, if_false]
    split at answered
    · rename_i closed
      cases answered
      rw [if_pos closed]
      exact .empty noted (fun _ same => Option.some.inj same ▸ outside) (by simp)
    · rename_i open_
      rw [if_neg open_]
      have joined := noted.stands.joinSenders runs outside unwoken found value
      have listed : me ∈ (((state.op me (.taskCtl me) false).op me (.chan chan) true).modifyChan
          chan fun entry => { entry with senders := entry.senders ++ [(me, value)] }).queue
          (.sender chan) := by
        simp [State.queue, State.modifyChan, State.op, there]
      exact .settled rfl rfl runs (joined.since rfl) listed answered

theorem enters_recv (entered : state.recv me chan = some turn) :
    Enters calls state (.recv me chan) (state.traffic (.recv me chan)) turn := by
  unfold State.recv at entered
  rw [traffic]
  cases refusal : state.refused me with
  | some resolved =>
    simp only [refusal] at entered
    cases entered
    exact .refused stands (fun _ same => Option.some.inj same ▸ outside) refusal
  | none =>
    simp only [refusal] at entered
    obtain ⟨entry, found, answered⟩ := Option.bind_eq_some_iff.mp entered
    have there : state.chans[chan]? = some entry := found
    have noted : Tracks calls nobody [] state
        ((state.op me (.taskCtl me) false).op me (.chan chan) true) :=
      stands.hidden rfl fun _ => rfl
    have joined := noted.stands.joinReceivers runs outside unwoken found
    have listed : me ∈ (((state.op me (.taskCtl me) false).op me (.chan chan) true).modifyChan
        chan fun entry => { entry with receivers := entry.receivers ++ [me] }).queue
        (.receiver chan) := by
      simp [State.queue, State.modifyChan, State.op, there]
    exact .settled rfl rfl runs (joined.since rfl) listed answered

end

theorem Stands.close (stands : Stands calls state) (closed : state.close chan = some next) :
    Tracks calls nobody (state.traffic (.close chan)) state next := by
  obtain ⟨entry, found, rfl⟩ := Option.map_eq_some_iff.mp closed
  simp only [traffic, found]
  split
  · exact stands.refl
  · have noted : Tracks calls nobody [] state (state.op state.actor (.chan chan) true) :=
      stands.hidden rfl fun _ => rfl
    have there : (state.op state.actor (.chan chan) true).chans[chan]? = some entry := found
    generalize state.op state.actor (.chan chan) true = acting at noted there ⊢
    have senders : acting.queue (.sender chan) = entry.senders.map Prod.fst := by
      rw [State.queue, there]
      rfl
    have thinner : ∀ entry : Chan Data,
        ([] : List (TaskId × Value Data)).Sublist entry.senders ∧
          entry.receivers.Sublist entry.receivers ∧ entry.selecters.Sublist entry.selecters :=
      fun entry => ⟨List.nil_sublist _, List.Sublist.refl _, List.Sublist.refl _⟩
    have told : Tracks calls nobody [] acting ((entry.senders.map Prod.fst).foldl
        (fun acting sender => acting.makeReady sender .closed) (acting.modifyChan chan
          fun entry => { entry with closed := true, senders := [] })) := by
      rw [← senders]
      refine noted.stands.dismiss rfl ?_ rfl (fun post => ?_) ?_
      · rw [senders]
        refine noted.stands.thinChan there (fun entry =>
          { entry with closed := true, senders := [] }) thinner fun other spared => ?_
        exact ⟨fun member => absurd member spared, id, id⟩
      · exact (queue_modifyChan chan _ thinner post).subset
      · simp [State.queue, State.modifyChan, there]
    rw [List.foldl_map] at told
    exact (noted.then told).after ((noted.then told).stands.settleChan chan)

/-! ## Select -/

/-- A task joins queues of its door in which a task may stand more than once. -/
structure Registers (me : TaskId) (op : Op Data) (state next : State Data) : Prop where
  board : next.board = { state.board with queue := next.queue }
  grown : ∀ post, state.queue post ⊆ next.queue post
  fresh : ∀ post, ∀ task ∈ next.queue post,
    task ∈ state.queue post ∨ task = me ∧ op.StandsAt post
  single : ∀ post, post.alone = true → next.queue post = state.queue post
  senders : ∀ chan, next.sendersOf chan = state.sendersOf chan

theorem Registers.refl : Registers me op state state where
  board := rfl
  grown _ := List.Subset.refl _
  fresh _ _ := .inl
  single _ _ := rfl
  senders _ := rfl

theorem Registers.trans {middle : State Data} (first : Registers me op state middle)
    (second : Registers me op middle next) : Registers me op state next where
  board := by rw [second.board, first.board]
  grown post := List.Subset.trans (first.grown post) (second.grown post)
  fresh post task member := by
    rcases second.fresh post task member with before | new
    · exact first.fresh post task before
    · exact .inr new
  single post alone := (second.single post alone).trans (first.single post alone)
  senders chan := (second.senders chan).trans (first.senders chan)

theorem registers_arm (state : State Data) (me : TaskId) {arms : List (Nat × ChanId)}
    {timeout : Option (Nat × Nat)} {arm : Nat} {chan : ChanId} (among : (arm, chan) ∈ arms) :
    Registers me (.select me arms timeout) state (state.modifyChan chan fun entry =>
      { entry with selecters := entry.selecters ++ [(me, arm)] }) := by
  have queue : ∀ post, (state.modifyChan chan fun entry =>
      { entry with selecters := entry.selecters ++ [(me, arm)] }).queue post = state.queue post ∨
      post = .selecter chan ∧ (state.modifyChan chan fun entry =>
        { entry with selecters := entry.selecters ++ [(me, arm)] }).queue post =
          state.queue post ++ [me] := by
    intro post
    cases post with
    | sender other | receiver other =>
      simp only [State.queue, State.modifyChan, List.getElem?_modify]
      cases state.chans[other]? with
      | none => exact .inl rfl
      | some entry => by_cases here : chan = other <;> simp [here]
    | selecter other =>
      simp only [State.queue, State.modifyChan, List.getElem?_modify]
      cases state.chans[other]? with
      | none => exact .inl rfl
      | some entry => by_cases here : chan = other <;> simp [here]
    | timer | sleep | waiter _ => exact .inl rfl
  constructor
  · rfl
  · intro post
    rcases queue post with same | ⟨_, added⟩
    · rw [same]
      exact List.Subset.refl _
    · rw [added]
      exact List.subset_append_left _ _
  · intro post task member
    rcases queue post with same | ⟨here, added⟩
    · rw [same] at member
      exact .inl member
    · rw [added] at member
      rcases List.mem_append.mp member with before | new
      · exact .inl before
      · rw [here]
        exact .inr ⟨List.mem_singleton.mp new, _, among, rfl⟩
  · intro post alone
    rcases queue post with same | ⟨here, _⟩
    · exact same
    · rw [here] at alone
      cases alone
  · intro other
    rw [sendersOf, sendersOf, State.modifyChan, List.getElem?_modify]
    cases state.chans[other]? with
    | none => rfl
    | some entry => by_cases here : chan = other <;> simp [here]

theorem registers_timer (state : State Data) (timer : Timer) (mine : timer.task = me) (seq : Nat)
    (arms : List (Nat × ChanId)) (timeout : Option (Nat × Nat)) :
    Registers me (.select me arms timeout) state
      { state with timers := state.timers ++ [timer], timerSeq := seq } := by
  have shown : (state.timers ++ [timer]).map Timer.task = state.timers.map Timer.task ++ [me] := by
    simp [mine]
  constructor
  · rfl
  · intro post
    cases post with
    | timer => exact List.map_subset _ (List.subset_append_left _ _)
    | _ => exact List.Subset.refl _
  · intro post task member
    cases post with
    | timer =>
      change task ∈ (state.timers ++ [timer]).map Timer.task at member
      rw [shown] at member
      rcases List.mem_append.mp member with before | new
      · exact .inl before
      · exact .inr ⟨List.mem_singleton.mp new, trivial⟩
    | _ => exact .inl member
  · intro post alone
    cases post with
    | timer => cases alone
    | _ => rfl
  · exact fun _ => rfl

theorem registers_select (state : State Data) (me : TaskId) (arms : List (Nat × ChanId))
    (timeout : Option (Nat × Nat)) :
    Registers me (.select me arms timeout) state (state.registerSelect me arms timeout) := by
  have listed : Registers me (.select me arms timeout) state (arms.foldl (fun state pair =>
      state.modifyChan pair.2 fun entry =>
        { entry with selecters := entry.selecters ++ [(me, pair.1)] }) state) :=
    List.foldlRecOn (motive := Registers me (.select me arms timeout) state) arms _ Registers.refl
      fun acting before pair among => before.trans (registers_arm acting me among)
  unfold State.registerSelect
  cases timeout with
  | none => exact listed
  | some limit =>
    obtain ⟨arm, deadline⟩ := limit
    exact listed.trans (registers_timer _ ⟨deadline, _, me, arm⟩ rfl _ arms _)

/-- A running task registers a `select`. -/
theorem Stands.registerSelect (stands : Stands calls state) (runs : state.stateOf me = .running)
    (outside : calls me = none) (unwoken : state.board.wake me = none)
    (arms : List (Nat × ChanId)) (timeout : Option (Nat × Nat)) :
    Tracks (Function.update calls me (some (.select me arms timeout))) nobody [] state
      (state.registerSelect me arms timeout) := by
  have registers := registers_select state me arms timeout
  refine stands.register runs outside unwoken registers.board registers.grown registers.fresh
    (fun post alone => .inl (registers.single post alone)) ?_
  intro chan pair member
  rw [registers.senders] at member
  exact .inl member

/-- A `select` with an arm or a timeout lists its task. -/
theorem listed_registerSelect (state : State Data) (me : TaskId) (arms : List (Nat × ChanId))
    (timeout : Option (Nat × Nat)) (inside : ∀ pair ∈ arms, pair.2 < state.chans.length) :
    (state.registerSelect me arms timeout).Listed me (.select me arms timeout : Op Data) := by
  cases timeout with
  | some limit =>
    obtain ⟨arm, deadline⟩ := limit
    exact .inl ⟨.timer, by simp [State.queue, State.registerSelect]⟩
  | none =>
    cases arms with
    | nil => exact .inr (.inr rfl)
    | cons pair arms =>
      obtain ⟨arm, chan⟩ := pair
      have there : me ∈ (state.modifyChan chan fun entry =>
          { entry with selecters := entry.selecters ++ [(me, arm)] }).queue
          (.selecter chan) := by
        have bound : chan < state.chans.length := inside (arm, chan) List.mem_cons_self
        simp [State.queue, State.modifyChan, bound]
      have later := registers_select (state.modifyChan chan fun entry =>
        { entry with selecters := entry.selecters ++ [(me, arm)] }) me arms none
      exact .inl ⟨.selecter chan, later.grown _ there⟩

theorem mem_of_committed {arms : List (Nat × ChanId)} {timeout : Option (Nat × Nat)}
    (chosen : state.committed me arms timeout = some chan) : ∃ pair ∈ arms, pair.2 = chan := by
  unfold State.committed at chosen
  dsimp only at chosen
  split at chosen
  · cases chosen
  · obtain ⟨arm, _, answered⟩ := Option.bind_eq_some_iff.mp chosen
    split at answered
    · cases answered
    · obtain ⟨pair, named, rfl⟩ := Option.map_eq_some_iff.mp answered
      exact ⟨pair, List.mem_of_find?_eq_some named, rfl⟩

theorem enters_commitArm {start : State Data} (before : Tracks calls nobody [] start state)
    (outside : calls me = none) {arms : List (Nat × ChanId)} {timeout : Option (Nat × Nat)}
    {arm : Nat} (among : ∃ pair ∈ arms, pair.2 = chan)
    (entered : state.commitArm me arm chan = some turn) :
    Enters calls start (.select me arms timeout) (state.takeLog chan me) turn := by
  obtain ⟨entry, found, answered⟩ := Option.bind_eq_some_iff.mp entered
  split at answered
  · rename_i drained
    cases answered
    obtain ⟨no_buf, no_senders⟩ := drained
    have silent : state.takeLog chan me = [] := by
      simp only [takeLog, found, List.isEmpty_iff.mp no_buf, List.isEmpty_iff.mp no_senders]
    rw [silent]
    refine .quiet before ?_ (by simp)
    rintro _ _ ⟨same, rfl⟩
    exact ⟨rfl, Option.some.inj same ▸ outside⟩
  · obtain ⟨⟨⟨value, vc⟩, after⟩, taken, rfl⟩ := Option.map_eq_some_iff.mp answered
    obtain ⟨sent, logged, took, others⟩ := before.stands.takeMessage taken
    have counted := (before.after took).then (took.stands.modifyChan chan
      (fun entry => { entry with recvs := entry.recvs + 1 }) fun _ => ⟨rfl, rfl, rfl⟩)
    rw [logged]
    refine .plain (counted.then (counted.stands.hidden (board_hbEdge _ vc me)
      (sendersOf_of_chans (chans_hbEdge _ vc me)))) (by simp) (fun task foreign => ?_) ?_
    · rw [dealtBy_append, dealtBy_other rfl fun same => foreign (congrArg some same.symm),
        List.append_nil]
      rfl
    · rintro _ _ ⟨same, rfl⟩
      obtain rfl := Option.some.inj same
      obtain ⟨pair, member, rfl⟩ := among
      rw [dealtBy_append, (others me (by rw [messageOf, outside]; rfl)).1, dealtBy_own rfl]
      exact .done ⟨pair, member, rfl⟩

section

variable (stands : Stands calls state) (runs : state.stateOf me = .running)
  (outside : calls me = none) (unwoken : state.board.wake me = none)
include stands runs outside unwoken

theorem enters_select {arms : List (Nat × ChanId)} {timeout : Option (Nat × Nat)}
    (entered : state.select me arms timeout = some turn) :
    Enters calls state (.select me arms timeout) (state.traffic (.select me arms timeout)) turn
    := by
  rw [traffic]
  cases selected_of_select entered with
  | refused refusal apart =>
    rw [apart]
    exact .refused stands (fun _ same => Option.some.inj same ▸ outside) refusal
  | @waits ops inside idle apart =>
    rw [apart]
    have marked : Tracks calls nobody [] state { state with ops } := stands.hidden rfl fun _ => rfl
    have registered := marked.stands.registerSelect runs outside unwoken arms timeout
    exact .parked rfl rfl (registered.since rfl) fun _ =>
      listed_registerSelect _ me arms timeout inside
  | timed apart =>
    rw [apart]
    refine .quiet (stands.hidden rfl fun _ => rfl) ?_ (by simp)
    rintro _ _ ⟨same, rfl⟩
    exact ⟨trivial, Option.some.inj same ▸ outside⟩
  | @commits ops _ _ _ chosen committing =>
    have among := mem_of_committed chosen
    rw [chosen]
    have marked : Tracks calls nobody [] state (State.decide { state with ops } .arm
        (state.readyArms arms timeout)).2 := stands.hidden rfl fun _ => rfl
    exact enters_commitArm marked outside among committing

/-! ## The other doors that wait -/

theorem enters_acquire {mutex : MutexId} (entered : state.acquire me mutex = some turn) :
    Enters calls state (.acquire me mutex) [] turn := by
  unfold State.acquire at entered
  cases refusal : state.refused me with
  | some resolved =>
    simp only [refusal] at entered
    cases entered
    exact .refused stands (fun _ same => Option.some.inj same ▸ outside) refusal
  | none =>
    simp only [refusal] at entered
    obtain ⟨entry, found, rfl⟩ := Option.map_eq_some_iff.mp entered
    have noted : Tracks calls nobody [] state
        ((state.op me (.taskCtl me) false).op me (.mutex mutex) true) :=
      stands.hidden rfl fun _ => rfl
    split
    · refine .quiet (noted.then (noted.stands.grant mutex me)) (fun _ wake told => ?_) (by simp)
      exact ⟨by cases wake <;> trivial, Option.some.inj told.1 ▸ outside⟩
    · have shown := board_modifyMutex_line found (fun waiters => waiters ++ [me])
      have queue : (((state.op me (.taskCtl me) false).op me (.mutex mutex) true).modifyMutex
          mutex fun entry => { entry with waiters := entry.waiters ++ [me] }).queue =
          Function.update state.queue (.waiter mutex) (entry.waiters ++ [me]) :=
        congrArg Board.queue shown
      have there : state.queue (.waiter mutex) = entry.waiters := by
        have same : state.mutexes[mutex]? = some entry := found
        rw [State.queue, same]
        rfl
      have joined : Tracks (Function.update calls me (some (.acquire me mutex))) nobody []
          state (((state.op me (.taskCtl me) false).op me (.mutex mutex) true).modifyMutex mutex
            fun entry => { entry with waiters := entry.waiters ++ [me] }) := by
        refine stands.register runs outside unwoken ?_ ?_ ?_ ?_ fun _ _ => .inl
        · rw [queue]
          exact shown
        · intro post
          rw [queue]
          rcases eq_or_ne post (.waiter mutex) with rfl | differs
          · rw [Function.update_self, there]
            exact List.subset_append_left _ _
          · rw [Function.update_of_ne differs]
            exact List.Subset.refl _
        · intro post task
          rw [queue]
          rcases eq_or_ne post (.waiter mutex) with rfl | differs
          · rw [Function.update_self, there]
            intro member
            rcases List.mem_append.mp member with before | added
            · exact .inl before
            · exact .inr ⟨List.mem_singleton.mp added, rfl⟩
          · rw [Function.update_of_ne differs]
            exact .inl
        · intro post _
          rw [queue]
          rcases eq_or_ne post (.waiter mutex) with rfl | differs
          · rw [Function.update_self, there]
            exact .inr rfl
          · exact .inl (Function.update_of_ne differs ..)
      refine .parked rfl rfl joined fun _ => .inl ⟨.waiter mutex, ?_⟩
      rw [queue, Function.update_self]
      exact List.mem_append_right _ (List.mem_singleton_self me)

theorem enters_sleepPark (duration : Nat) :
    Enters calls state (.sleepPark me duration) [] (.parks me (state.sleepFor me duration)) := by
  have shown : (state.sleepFor me duration).queue .sleep = state.queue .sleep ++ [me] := by
    simp [State.queue, State.sleepFor]
  have joined : Tracks (Function.update calls me (some (.sleepPark me duration))) nobody [] state
      (state.sleepFor me duration) := by
    refine stands.register runs outside unwoken rfl ?_ ?_ ?_ fun _ _ => .inl
    · intro post
      cases post with
      | sleep =>
        rw [shown]
        exact List.subset_append_left _ _
      | _ => exact List.Subset.refl _
    · intro post task
      cases post with
      | sleep =>
        rw [shown]
        intro member
        rcases List.mem_append.mp member with before | added
        · exact .inl before
        · exact .inr ⟨List.mem_singleton.mp added, trivial⟩
      | _ => exact .inl
    · intro post _
      cases post with
      | sleep => exact .inr shown
      | _ => exact .inl rfl
  refine .parked rfl rfl joined fun _ => .inl ⟨.sleep, ?_⟩
  rw [shown]
  exact List.mem_append_right _ (List.mem_singleton_self me)

theorem enters_netYield : Enters calls state (.netYield me) [] (.parks me (state.netYield me)) := by
  have entered : Tracks (Function.update calls me (some (.netYield me))) nobody [] state state :=
    stands.enter runs outside unwoken _ rfl rfl
  have alive : state.board.doing me ≠ .done := by
    change state.stateOf me ≠ .done
    rw [runs]
    simp
  obtain ⟨tcb, found⟩ := state.found_of_alive alive
  have doing : tcb.state = .running := (state.doing_of_found found).symm.trans runs
  have given : tcb.wake = none := by
    rw [← state.wake_of_found found (by rw [doing]; simp)]
    exact unwoken
  have shown := state.board_modifyTask_set
    (fun tcb => { tcb with wake := tcb.wake.or (some (.ok .unit)) }) found
  rw [doing, given, if_neg (by simp)] at shown
  have inside : Function.update calls me (some (.netYield me : Op Data)) me ≠ none := by
    rw [Function.update_self]
    simp
  have woken : Tracks (Function.update calls me (some (.netYield me))) nobody [] state
      (state.netYield me) := by
    refine entered.stands.restate (stands.placed.free_of_outside outside) shown rfl
      stands.placed.ready (fun _ => .inl) (fun _ => id) ?_ (by simp) (by simp) ?_
      (fun _ _ => by simp) ?_ fun _ _ => rfl
    · exact fun member => absurd member (stands.placed.not_mem_ready (by
        change state.stateOf me ≠ .ready
        rw [runs]
        simp))
    · exact fun _ => ⟨runs, fun outside => absurd outside inside, by simp⟩
    · intro op called _ dealt paid
      rw [Function.update_self] at called
      cases called
      rw [unwoken] at paid
      cases paid
      exact .quiet trivial
  refine .parked rfl rfl woken fun waits => ?_
  rw [State.netYield, shown, Board.set_wake_self] at waits
  cases waits

theorem enters_joinScope {scope : ScopeId}
    (owns : ∀ entry, state.scopes[scope]? = some entry → entry.owner = me)
    (entered : state.joinScope me scope = some turn) :
    Enters calls state (.joinScope me scope) [] turn := by
  obtain ⟨entry, found, rfl⟩ := Option.map_eq_some_iff.mp entered
  split
  · have left : Tracks calls nobody [] state ((state.op me (.scope scope) false).modifyScope scope
        fun entry => { entry with joining := false }) := stands.hidden rfl fun _ => rfl
    have synced := left.then (left.stands.foldl (fun acting child =>
      acting.hbEdge (acting.taskVc child) me) entry.children fun acting there child =>
        there.hidden (board_hbEdge acting _ me) (sendersOf_of_chans (chans_hbEdge acting _ me)))
    exact .quiet synced (fun _ _ => False.elim) (by simp)
  · refine .parked rfl rfl (stands.enter runs outside unwoken _ rfl rfl) fun _ => .inr (.inl ?_)
    have there : state.scopes[scope]? = some entry := found
    refine ⟨scope, { entry with joining := true }, ?_, owns entry there, rfl⟩
    simp [State.modifyScope, State.op, there]

end

/-! ## New tasks and objects -/

theorem board_addTask (state : State Data) (tcb : Tcb Data) (alive : tcb.state ≠ .done) :
    ({ state with tasks := state.tasks ++ [tcb] } : State Data).board =
      state.board.set state.tasks.length tcb.state tcb.wake := by
  have doing : ({ state with tasks := state.tasks ++ [tcb] } : State Data).stateOf =
      Function.update state.stateOf state.tasks.length tcb.state := by
    funext task
    rw [stateOf, Worklist.getElem?_snoc]
    rcases eq_or_ne task state.tasks.length with rfl | differs
    · rw [if_pos rfl, Function.update_self]
      rfl
    · rw [if_neg differs, Function.update_of_ne differs]
      rfl
  have wake : ({ state with tasks := state.tasks ++ [tcb] } : State Data).board.wake =
      Function.update state.board.wake state.tasks.length tcb.wake := by
    funext task
    simp only [board]
    rw [Worklist.getElem?_snoc]
    rcases eq_or_ne task state.tasks.length with rfl | differs
    · rw [if_pos rfl, Function.update_self, Option.bind_some, if_neg alive]
    · rw [if_neg differs, Function.update_of_ne differs]
  change Board.mk _ _ _ _ _ = Board.mk _ _ _ _ _
  rw [doing]
  exact congrArg (Board.mk _ · _ _ _) wake

/-- A spawned task is ready, with its wake, and last in the ready queue. -/
theorem board_spawnTask (state : State Data) (parent : TaskId) (scope : Option ScopeId)
    (proc : ProcId) (name : String) :
    (state.spawnTask parent scope proc name).2.board =
      { state.board.set state.tasks.length .ready (some (.ok .unit)) with
        ready := state.ready ++ [state.tasks.length] } := by
  let fresh : Tcb Data := { name, state := .fresh, proc, scope, vc := state.taskVc parent }
  let added : State Data :=
    ({ state.tick parent with tasks := (state.tick parent).tasks ++ [fresh] } : State Data).tick
      state.tasks.length
  obtain ⟨enrolled, before, queued, spawned⟩ : ∃ enrolled : State Data,
      enrolled.board = added.board ∧ enrolled.ready = state.ready ∧
      (state.spawnTask parent scope proc name).2 = { enrolled.modifyTask state.tasks.length
        (fun tcb => { tcb with state := .ready, wake := some (.ok .unit) }) with
        concurrent := true
        ready := enrolled.ready ++ [state.tasks.length] } := by
    cases scope with
    | none => exact ⟨added, rfl, rfl, rfl⟩
    | some scope => exact ⟨added.modifyScope scope fun entry =>
      { entry with children := entry.children ++ [state.tasks.length] }, rfl, rfl, rfl⟩
  have same : (state.tick parent).tasks.length = state.tasks.length := by
    simp [tick, State.modifyTask]
  have shown : enrolled.board = state.board.set state.tasks.length .fresh none := by
    rw [before, board_tick, board_addTask _ fresh (by simp [fresh]), same, board_tick]
  have there : ∃ tcb, enrolled.tasks[state.tasks.length]? = some tcb := by
    refine enrolled.found_of_alive ?_
    rw [shown, Board.set_doing_self]
    simp
  obtain ⟨tcb, found⟩ := there
  have readied := enrolled.board_modifyTask_set
    (fun tcb => { tcb with state := .ready, wake := some (.ok .unit) }) found
  rw [shown, Board.set_set, if_neg (by simp)] at readied
  rw [spawned, queued]
  exact congrArg (fun board : Board Data =>
    { board with ready := state.ready ++ [state.tasks.length] }) readied

section

variable (stands : Stands calls state)
include stands

theorem Stands.spawnTask (parent : TaskId) (scope : Option ScopeId) (proc : ProcId)
    (name : String) :
    Tracks calls nobody [] state (state.spawnTask parent scope proc name).2 := by
  have absent : state.board.doing state.tasks.length = .done := by
    simp [board, stateOf]
  have free : ∀ post, state.tasks.length ∉ state.queue post := by
    refine stands.placed.free_of_not_unwoken fun unwoken => ?_
    rcases unwoken.1 with same | same <;> rw [absent] at same <;> cases same
  have unqueued : state.tasks.length ∉ state.ready :=
    stands.placed.not_mem_ready (by rw [absent]; simp)
  have shown := state.board_spawnTask parent scope proc name
  have ready : (state.spawnTask parent scope proc name).2.ready =
      state.ready ++ [state.tasks.length] := congrArg Board.ready shown
  have chans : (state.spawnTask parent scope proc name).2.chans = state.chans := by
    unfold State.spawnTask
    cases scope <;> rfl
  have restated : (state.spawnTask parent scope proc name).2.board =
      { state.board.set state.tasks.length .ready (some (.ok .unit)) with
        ready := (state.spawnTask parent scope proc name).2.ready } := by
    rw [ready]
    exact shown
  refine stands.restate free restated chans ?_ ?_ ?_ (fun _ => rfl) (by simp) ?_ (by simp)
    (fun _ _ => by simp) ?_ ?_
  · rw [ready, ← List.concat_eq_append]
    exact stands.placed.ready.concat unqueued
  · intro other member
    rw [ready] at member
    exact (List.mem_append.mp member).imp id List.mem_singleton.mp
  · intro other member
    rw [ready]
    exact List.mem_append_left _ member
  · intro _ _
    rw [ready]
    exact ⟨List.mem_append_right _ (List.mem_singleton_self _), by simp⟩
  · exact fun _ _ living => absurd absent living
  · intro running
    cases absent.symm.trans running

theorem Stands.newChan (cap : Nat) : Tracks calls nobody [] state (state.newChan cap).2 := by
  have found : ∀ {Entry : Type} (field : Chan Data → List Entry),
      field ({ cap } : Chan Data) = [] → ∀ chan : ChanId,
      ((state.newChan cap).2.chans[chan]?).elim [] field = (state.chans[chan]?).elim [] field := by
    intro Entry field empty chan
    change (((state.chans ++ [({ cap } : Chan Data)])[chan]?).elim [] field) = _
    rw [Worklist.getElem?_snoc]
    rcases eq_or_ne chan state.chans.length with rfl | differs
    · rw [if_pos rfl, List.getElem?_eq_none le_rfl]
      exact empty
    · rw [if_neg differs]
  have queue : (state.newChan cap).2.queue = state.queue := by
    funext post
    cases post with
    | sender chan => exact congrArg (List.map Prod.fst) (found Chan.senders rfl chan)
    | receiver chan => exact found Chan.receivers rfl chan
    | selecter chan => exact congrArg (List.map Prod.fst) (found Chan.selecters rfl chan)
    | timer | sleep | waiter _ => rfl
  refine stands.hidden ?_ (found Chan.senders rfl)
  change Board.mk _ _ _ (state.newChan cap).2.queue _ = _
  rw [queue]
  rfl

theorem Stands.newMutex (value : Value Data) :
    Tracks calls nobody [] state (state.newMutex value).2 := by
  have queue : (state.newMutex value).2.queue = state.queue := by
    funext post
    cases post with
    | waiter mutex =>
      change (((state.mutexes ++ [({ value } : Mx Data)])[mutex]?).elim [] Mx.waiters) = _
      rw [Worklist.getElem?_snoc]
      rcases eq_or_ne mutex state.mutexes.length with rfl | differs
      · rw [if_pos rfl, State.queue, List.getElem?_eq_none le_rfl]
        rfl
      · rw [if_neg differs]
        rfl
    | _ => rfl
  refine stands.holding ?_ fun _ => rfl
  change Board.mk _ _ _ (state.newMutex value).2.queue _ = _
  rw [queue]
  rfl

theorem Stands.monitor {proc : ProcId} (monitored : state.monitor proc = some (chan, next)) :
    Tracks calls nobody (state.traffic (.monitor proc)) state next := by
  obtain ⟨entry, found, answered⟩ := Option.map_eq_some_iff.mp monitored
  have opened := stands.newChan (2 ^ 64 - 1)
  have watched : Tracks calls nobody [] state (((state.newChan (2 ^ 64 - 1)).2.op
      (state.newChan (2 ^ 64 - 1)).2.actor (.proc proc) true).modifyProc proc fun entry =>
        { entry with monitors := entry.monitors ++ [state.chans.length] }) :=
    opened.then (opened.stands.hidden rfl fun _ => rfl)
  have silent : ∀ task, dealtBy task (state.traffic (.monitor proc)) = [] := by
    intro task
    rw [traffic]
    cases state.exitOf proc <;> rfl
  cases exited : entry.exited with
  | none =>
    simp only [exited] at answered
    obtain ⟨_, rfl⟩ := Prod.mk.inj answered
    exact watched.relog silent
  | some reason =>
    simp only [exited] at answered
    obtain ⟨_, rfl⟩ := Prod.mk.inj answered
    refine Tracks.relog (watched.then ?_) silent
    exact watched.stands.modifyChan _ _ fun _ => ⟨rfl, rfl, rfl⟩

theorem Stands.spawnProc (parent : TaskId) (name : String) (region : RegionId) :
    Tracks calls nobody [] state (state.spawnProc parent name region).2 := by
  have added : Tracks calls nobody [] state (({ state with procs := state.procs ++
      [{ name, root := 0, region := some region }] } : State Data).op parent
      (.proc state.procs.length) true) := stands.hidden rfl fun _ => rfl
  have spawned := added.then (added.stands.spawnTask parent none state.procs.length s!"proc:{name}")
  exact spawned.then (spawned.stands.hidden rfl fun _ => rfl)

theorem Stands.endTask (runs : state.stateOf me = .running)
    (outside : ∀ task, state.stateOf task = .running → calls task = none)
    (joins : JoinsOnly calls state) {ended : TaskEnd Data} {regions : List RegionId}
    (finished : state.endTask me ended = some (regions, next)) :
    Tracks calls nobody [] state next := by
  obtain ⟨tcb, found, answered⟩ := Option.map_eq_some_iff.mp finished
  have noted : Tracks calls nobody [] state (state.op me (.taskCtl me) false) :=
    stands.hidden rfl fun _ => rfl
  have recorded := noted.then (noted.stands.recordEnd runs outside joins tcb.scope
    (TaskEnd.settled ended tcb.cancelled tcb.killed))
  dsimp only at answered
  split at answered
  · have delivered := recorded.then (recorded.stands.deliverExit tcb.proc
      (TaskEnd.reason (TaskEnd.settled ended tcb.cancelled tcb.killed)))
    rw [answered] at delivered
    exact delivered
  · obtain ⟨_, rfl⟩ := Prod.mk.inj answered
    exact recorded

theorem Stands.raceCheck (key : RaceKey) (lo hi : Nat) (write : Bool) :
    Tracks calls nobody [] state (state.raceCheck me key lo hi write).2 := by
  unfold State.raceCheck
  split
  · exact stands.refl
  · dsimp only
    split
    · exact stands.hidden rfl fun _ => rfl
    · exact stands.hidden rfl fun _ => rfl

theorem Stands.atomicAccess (key : RaceKey) (lo hi : Nat) (write : Bool) :
    Tracks calls nobody [] state (state.atomicAccess me key lo hi write).2 := by
  unfold State.atomicAccess
  split
  · exact stands.refl
  · have noted : Tracks calls nobody [] state (state.op me (.mem key) write) :=
      stands.hidden rfl fun _ => rfl
    have acquired := noted.then (noted.stands.mark me (fun tcb =>
      { tcb with vc := mergeVc tcb.vc ((state.op me (.mem key) write).atomicClocks (key, lo)) })
      fun _ => ⟨rfl, rfl⟩)
    dsimp only
    split
    · exact acquired
    · refine acquired.then ?_
      exact acquired.stands.hidden (board_tick _ me) (sendersOf_of_chans (chans_tick _ me))

end

theorem runs_of_admits (admitted : state.admits op = true) (caller : op.caller = some me) :
    state.stateOf me = .running := by
  cases op <;> cases caller <;> exact of_decide_eq_true admitted

/-- Every door leaves the waiting tasks where they were. -/
theorem Stands.enters (stands : Stands calls state) (admitted : state.admits op = true)
    (resting : ∀ task, state.stateOf task = .running →
      calls task = none ∧ state.board.wake task = none) (joins : JoinsOnly calls state)
    (owns : ∀ me scope, op = .joinScope me scope → ∀ entry, state.scopes[scope]? = some entry →
      entry.owner = me) (entered : state.enter op = some turn) :
    Enters calls state op (state.traffic op) turn := by
  have rests : ∀ me, op.caller = some me → state.stateOf me = .running ∧ calls me = none ∧
      state.board.wake me = none := fun me caller =>
    ⟨runs_of_admits admitted caller, resting me (runs_of_admits admitted caller)⟩
  cases entered_of_enter entered with
  | newChan => exact .quiet (stands.newChan _) (fun _ _ => False.elim) (by simp)
  | @send me _ _ _ sent =>
    obtain ⟨runs, outside, unwoken⟩ := rests me rfl
    exact enters_send stands runs outside unwoken sent
  | @recv me _ _ received =>
    obtain ⟨runs, outside, unwoken⟩ := rests me rfl
    exact enters_recv stands runs outside unwoken received
  | close closed => exact .quiet (stands.close closed) (fun _ _ => False.elim) (by simp)
  | @select me _ _ _ selected =>
    obtain ⟨runs, outside, unwoken⟩ := rests me rfl
    exact enters_select stands runs outside unwoken selected
  | newMutex => exact .quiet (stands.newMutex _) (fun _ _ => False.elim) (by simp)
  | @acquire me _ _ acquired =>
    obtain ⟨runs, outside, unwoken⟩ := rests me rfl
    exact enters_acquire stands runs outside unwoken acquired
  | release released => exact .quiet (stands.release released) (fun _ _ => False.elim) (by simp)
  | openScope | link | reseed | elapse =>
    exact .quiet (stands.hidden rfl fun _ => rfl) (fun _ _ => False.elim) (by simp)
  | spawnTask => exact .quiet (stands.spawnTask ..) (fun _ _ => False.elim) (by simp)
  | @joinScope me scope _ joined =>
    obtain ⟨runs, outside, unwoken⟩ := rests me rfl
    exact enters_joinScope stands runs outside unwoken (owns me scope rfl) joined
  | @cancelScope _ entry =>
    exact .quiet (stands.cancelAll entry.children) (fun _ _ => False.elim) (by simp)
  | @endTask me _ _ _ finished =>
    exact .quiet (stands.endTask (rests me rfl).1 (fun task runs => (resting task runs).1) joins
      finished) (fun _ _ => False.elim) (by simp)
  | dispatchNext => exact .handed rfl rfl
  | spawnProc => exact .quiet (stands.spawnProc ..) (fun _ _ => False.elim) (by simp)
  | monitor monitored => exact .quiet (stands.monitor monitored) (fun _ _ => False.elim) (by simp)
  | kill => exact .quiet (stands.killProc _) (fun _ _ => False.elim) (by simp)
  | deliverPending => exact .quiet stands.publishPending (fun _ _ => False.elim) (by simp)
  | @cancelProc proc =>
    have noted : Tracks calls nobody [] state (state.op state.actor (.proc proc) true) :=
      stands.hidden rfl fun _ => rfl
    exact .quiet (noted.then (noted.stands.cancelAll _)) (fun _ _ => False.elim) (by simp)
  | @netYield me =>
    obtain ⟨runs, outside, unwoken⟩ := rests me rfl
    exact enters_netYield stands runs outside unwoken
  | @sleepPark me duration =>
    obtain ⟨runs, outside, unwoken⟩ := rests me rfl
    exact enters_sleepPark stands runs outside unwoken duration
  | @raceCheck _ key lo hi write =>
    exact .quiet (stands.raceCheck key lo hi write) (fun _ _ => False.elim) (by simp)
  | @atomicAccess _ key lo hi write =>
    exact .quiet (stands.atomicAccess key lo hi write) (fun _ _ => False.elim) (by simp)

end Doors

end State

end WolfInterp.Sched
