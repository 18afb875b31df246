import WolfInterp.Sched.Doors

/-!
# Settled channels

Between two doors every channel is settled: whatever can complete has completed. The settling loop
restores this on the one channel a door has changed, and every other operation keeps it or only
takes waiters away. The fast path of `select` takes a buffered message without settling, which
leaves a sender blocked beside free buffer space.
-/

namespace WolfInterp.Sched

open Execution

variable {Data : Type}

/-- Nothing on a channel can complete. -/
structure Chan.Settled (chan : Chan Data) : Prop where
  full : chan.senders ≠ [] → chan.cap ≤ chan.buf.length
  empty : chan.receivers ≠ [] ∨ chan.selecters ≠ [] → chan.buf = [] ∧ chan.senders = []
  shut : chan.closed = true →
    chan.senders = [] ∧ (chan.buf = [] → chan.receivers = [] ∧ chan.selecters = [])

theorem Chan.Settled.leave {chan : Chan Data} (settled : chan.Settled) (task : TaskId) :
    (chan.leave task).Settled := by
  have thin : ∀ {Entry : Type} (keep : Entry → Bool) {entries : List Entry},
      entries.filter keep ≠ [] → entries ≠ [] := by
    rintro Entry keep entries rest rfl
    exact rest rfl
  constructor
  · exact fun waiting => settled.full (thin _ waiting)
  · intro waiting
    have quiet := settled.empty (waiting.imp (thin _) (thin _))
    refine ⟨quiet.1, ?_⟩
    rw [Chan.leave, quiet.2, List.filter_nil]
  · intro closed
    have quiet := settled.shut closed
    refine ⟨by rw [Chan.leave, quiet.1, List.filter_nil], fun drained => ?_⟩
    have gone := quiet.2 drained
    constructor
    · rw [Chan.leave, gone.1, List.filter_nil]
    · rw [Chan.leave, gone.2, List.filter_nil]

namespace State

/-- Every channel is settled. -/
def Settled (state : State Data) : Prop :=
  ∀ (chan : ChanId) (entry : Chan Data), state.chans[chan]? = some entry → entry.Settled

/-- Every channel but one is settled, and that one has no blocked sender if it is closed. -/
structure SettledBut (state : State Data) (chan : ChanId) : Prop where
  others : ∀ (other : ChanId) (entry : Chan Data), state.chans[other]? = some entry →
    other ≠ chan → entry.Settled
  shut : ∀ entry : Chan Data, state.chans[chan]? = some entry → entry.closed = true →
    entry.senders = []

/-- How many messages a channel still holds. -/
def load (state : State Data) (chan : ChanId) : Nat :=
  (state.chans[chan]?).elim 0 fun entry => entry.buf.length + entry.senders.length

/-! ## What leaves the channels alone -/

section Frames

variable (state : State Data)

@[simp]
theorem chans_modifyTask (task : TaskId) (update : Tcb Data → Tcb Data) :
    (state.modifyTask task update).chans = state.chans := rfl

@[simp]
theorem chans_tick (task : TaskId) : (state.tick task).chans = state.chans := rfl

@[simp]
theorem chans_hbEdge (source : Clock) (task : TaskId) :
    (state.hbEdge source task).chans = state.chans := rfl

@[simp]
theorem chans_op (task : TaskId) (obj : ObjKey) (write : Bool) :
    (state.op task obj write).chans = state.chans := rfl

@[simp]
theorem chans_makeReady (task : TaskId) (wake : Wake Data) :
    (state.makeReady task wake).chans = state.chans := by
  unfold makeReady
  dsimp only
  split <;> rfl

@[simp]
theorem chans_deregister (task : TaskId) :
    (state.deregister task).chans = state.chans.map (Chan.leave task) := rfl

/-- A fold of steps that leave the channels alone leaves them alone. -/
theorem chans_foldl {Entry : Type} (step : State Data → Entry → State Data)
    (same : ∀ state entry, (step state entry).chans = state.chans) (entries : List Entry) :
    (entries.foldl step state).chans = state.chans := by
  induction entries generalizing state with
  | nil => rfl
  | cons entry entries induction => exact (induction (step state entry)).trans (same state entry)

@[simp]
theorem chans_opSelectConsume (selecter : TaskId) :
    (state.opSelectConsume selecter).chans = state.chans := by
  unfold opSelectConsume
  exact chans_foldl state (fun acting chan => acting.op state.actor (.chan chan) true)
    (fun _ _ => rfl) _

end Frames

section Settling

variable {state : State Data} {chan : ChanId} {next : State Data} {entry : Chan Data}

theorem Settled.congr (settled : state.Settled) (same : next.chans = state.chans) : next.Settled
    := by
  intro chan entry found
  rw [same] at found
  exact settled chan entry found

theorem Settled.deregister (settled : state.Settled) (task : TaskId) :
    (state.deregister task).Settled := by
  intro chan entry found
  rw [chans_deregister, List.getElem?_map] at found
  obtain ⟨before, before_found, rfl⟩ := Option.map_eq_some_iff.mp found
  exact (settled chan before before_found).leave task

section

variable (settled : state.SettledBut chan)
include settled

theorem SettledBut.congr (same : next.chans = state.chans) :
    next.SettledBut chan := by
  constructor
  · rw [same]
    exact settled.others
  · rw [same]
    exact settled.shut

theorem SettledBut.deregister (task : TaskId) :
    (state.deregister task).SettledBut chan := by
  constructor
  · intro other entry found differs
    rw [chans_deregister, List.getElem?_map] at found
    obtain ⟨before, before_found, rfl⟩ := Option.map_eq_some_iff.mp found
    exact (settled.others other before before_found differs).leave task
  · intro entry found closed
    rw [chans_deregister, List.getElem?_map] at found
    obtain ⟨before, before_found, rfl⟩ := Option.map_eq_some_iff.mp found
    rw [Chan.leave, settled.shut before before_found closed, List.filter_nil]

/-- Changing the one channel keeps the others settled. -/
theorem SettledBut.modify {update : Chan Data → Chan Data}
    (changed : next.chans = state.chans.modify chan update)
    (shut : ∀ entry, state.chans[chan]? = some entry → (update entry).closed = true →
      (update entry).senders = []) : next.SettledBut chan := by
  constructor
  · intro other entry found differs
    rw [changed, List.getElem?_modify_ne _ _ (Ne.symm differs)] at found
    exact settled.others other entry found differs
  · intro entry found
    rw [changed, List.getElem?_modify_eq] at found
    obtain ⟨before, before_found, rfl⟩ := Option.map_eq_some_iff.mp found
    exact shut before before_found

/-- A channel with a blocked sender is open. -/
theorem SettledBut.open_of_waiting (found : state.chans[chan]? = some entry)
    (waiting : entry.senders ≠ []) :
    entry.closed = false := by
  cases closed : entry.closed with
  | false => rfl
  | true => exact absurd (settled.shut entry found closed) waiting

end

theorem load_of_found (found : state.chans[chan]? = some entry) :
    state.load chan = entry.buf.length + entry.senders.length := by
  rw [load, found]
  rfl

theorem found_of_modify {update : Chan Data → Chan Data}
    (changed : next.chans = state.chans.modify chan update)
    (found : state.chans[chan]? = some entry) : next.chans[chan]? = some (update entry) := by
  rw [changed, List.getElem?_modify_eq, found]
  rfl

theorem Settled.but (settled : state.Settled) (chan : ChanId) : state.SettledBut chan :=
  ⟨fun other entry found _ => settled other entry found,
    fun entry found closed => ((settled chan entry found).shut closed).1⟩

theorem SettledBut.settled (settled : state.SettledBut chan)
    (here : ∀ entry : Chan Data, state.chans[chan]? = some entry → entry.Settled) :
    state.Settled := by
  intro other entry found
  rcases eq_or_ne other chan with rfl | differs
  · exact here entry found
  · exact settled.others other entry found differs

end Settling

/-! ## The settling loop -/

section Loop

variable {state : State Data} {chan : ChanId} {entry : Chan Data}

/-- A blocked sender whose message enters the buffer. -/
theorem fillBuffer_step (fuel : Nat) {sender : TaskId} {value : Value Data}
    {rest : List (TaskId × Value Data)} (found : state.chans[chan]? = some entry)
    (waiting : entry.senders = (sender, value) :: rest) (space : entry.buf.length < entry.cap) :
    ∃ next : State Data, state.fillBuffer (fuel + 1) chan = next.fillBuffer fuel chan ∧
      next.chans = state.chans.modify chan fun entry =>
        { entry with
          senders := rest, buf := entry.buf ++ [(value, state.taskVc sender)]
          sends := entry.sends + 1 } := by
  refine ⟨_, by rw [fillBuffer, found]; simp only [waiting, if_pos space]; rfl, ?_⟩
  rw [chans_makeReady]
  change (state.chans.modify chan _).modify chan _ = _
  rw [List.modify_modify_eq]
  rfl

/-- Without a blocked sender or without space the buffer stays as it is. -/
theorem fillBuffer_stop (fuel : Nat) (found : state.chans[chan]? = some entry)
    (filled : entry.senders ≠ [] → entry.cap ≤ entry.buf.length) :
    state.fillBuffer fuel chan = state := by
  cases fuel with
  | zero => rfl
  | succ fuel =>
    rw [fillBuffer, found]
    cases waiting : entry.senders with
    | nil => simp only [waiting]
    | cons first rest =>
      have full := filled (by rw [waiting]; exact List.cons_ne_nil first rest)
      simp only [waiting, if_neg (Nat.not_lt_of_ge full)]

/-- Filling the buffer leaves no sender beside free space, and keeps the messages of the channel
and everything settled elsewhere. -/
theorem fillBuffer_spec {fuel : Nat} (settled : state.SettledBut chan)
    (found : state.chans[chan]? = some entry) (enough : entry.senders.length ≤ fuel) :
    ∃ after, (state.fillBuffer fuel chan).chans[chan]? = some after ∧
      (state.fillBuffer fuel chan).SettledBut chan ∧
      (state.fillBuffer fuel chan).load chan = state.load chan ∧
      (after.senders ≠ [] → after.cap ≤ after.buf.length) := by
  induction fuel generalizing state entry with
  | zero =>
    have gone := List.length_eq_zero_iff.mp (Nat.le_zero.mp enough)
    exact ⟨entry, found, settled, rfl, fun waiting => absurd gone waiting⟩
  | succ fuel induction =>
    rcases Nat.lt_or_ge entry.buf.length entry.cap with space | full
    · cases waiting : entry.senders with
      | nil =>
        have filled : entry.senders ≠ [] → entry.cap ≤ entry.buf.length :=
          fun blocked => absurd waiting blocked
        rw [fillBuffer_stop (fuel + 1) found filled]
        exact ⟨entry, found, settled, rfl, filled⟩
      | cons first rest =>
        obtain ⟨sender, value⟩ := first
        obtain ⟨next, step_eq, changed⟩ := fillBuffer_step fuel found waiting space
        have open_ : entry.closed = false := by
          apply settled.open_of_waiting found
          rw [waiting]
          exact List.cons_ne_nil _ rest
        have nextSettled : next.SettledBut chan := by
          apply settled.modify changed
          intro other there closed
          obtain rfl : entry = other := Option.eq_some_unique found there
          rw [open_] at closed
          cases closed
        have here := found_of_modify changed found
        have fewer : rest.length ≤ fuel := by
          rw [waiting] at enough
          exact Nat.le_of_succ_le_succ enough
        obtain ⟨after, after_found, afterSettled, load_eq, filled⟩ :=
          induction nextSettled here fewer
        rw [step_eq]
        refine ⟨after, after_found, afterSettled, load_eq.trans ?_, filled⟩
        rw [load_of_found here, load_of_found found, waiting]
        simp only [List.length_append, List.length_cons, List.length_nil]
        omega
    · rw [fillBuffer_stop (fuel + 1) found fun _ => full]
      exact ⟨entry, found, settled, rfl, fun _ => full⟩

/-- Taking a message takes one, from the buffer or from a blocked sender. -/
theorem takeMessage_spec (settled : state.SettledBut chan) (found : state.chans[chan]? = some entry)
    (holds : entry.buf ≠ [] ∨ entry.senders ≠ []) :
    ∃ message next, state.takeMessage chan = some (message, next) ∧ next.SettledBut chan ∧
      next.load chan + 1 = state.load chan := by
  have load_eq := load_of_found found
  cases buffered : entry.buf with
  | cons message rest =>
    have changed : (state.modifyChan chan fun entry => { entry with buf := rest }).chans =
        state.chans.modify chan fun entry => { entry with buf := rest } := rfl
    refine ⟨message, _, ?_, settled.modify changed ?_, ?_⟩
    · rw [takeMessage, found, Option.bind_some]
      simp only [buffered]
    · exact fun other there closed => settled.shut other there closed
    · rw [load_eq, load_of_found (found_of_modify changed found), buffered]
      simp only [List.length_cons]
      omega
  | nil =>
    cases waiting : entry.senders with
    | nil => simp [buffered, waiting] at holds
    | cons first rest =>
      obtain ⟨sender, value⟩ := first
      have open_ : entry.closed = false := by
        apply settled.open_of_waiting found
        rw [waiting]
        exact List.cons_ne_nil _ rest
      have answer : ∃ next : State Data,
          state.takeMessage chan = some ((value, state.taskVc sender), next) ∧
          next.chans = state.chans.modify chan fun entry =>
            { entry with senders := rest, sends := entry.sends + 1 } := by
        refine ⟨_, by
          rw [takeMessage, found, Option.bind_some]
          simp only [buffered, waiting]
          rfl, ?_⟩
        rw [chans_makeReady]
        change (state.chans.modify chan _).modify chan _ = _
        rw [List.modify_modify_eq]
        rfl
      obtain ⟨next, taken, changed⟩ := answer
      refine ⟨_, next, taken, settled.modify changed ?_, ?_⟩
      · intro other there closed
        obtain rfl : entry = other := Option.eq_some_unique found there
        rw [open_] at closed
        cases closed
      · rw [load_eq, load_of_found (found_of_modify changed found), buffered, waiting]
        simp only [List.length_cons, List.length_nil]
        omega

theorem load_deregister_le (state : State Data) (chan : ChanId) (task : TaskId) :
    (state.deregister task).load chan ≤ state.load chan := by
  rw [load, load, chans_deregister, List.getElem?_map]
  cases state.chans[chan]? with
  | none => exact Nat.le_refl _
  | some entry =>
    have fewer := List.length_filter_le (fun pair : TaskId × Value Data => pair.1 ≠ task)
      entry.senders
    simp only [Option.map_some, Option.elim_some, Chan.leave]
    omega

section

variable (settled : state.SettledBut chan)
include settled

/-- Handing a message to a waiter takes one off the channel. -/
theorem deliver_spec (found : state.chans[chan]? = some entry)
    (holds : entry.buf ≠ [] ∨ entry.senders ≠ []) (task : TaskId) (arm : Option Nat) :
    (state.deliver chan task arm).SettledBut chan ∧
      (state.deliver chan task arm).load chan < state.load chan := by
  have footprint : ∀ acting : State Data, acting.chans = state.chans →
      ∃ message next, acting.takeMessage chan = some (message, next) ∧ next.SettledBut chan ∧
        next.load chan + 1 = state.load chan := by
    intro acting same
    have here : acting.chans[chan]? = some entry := by rw [same]; exact found
    obtain ⟨message, next, taken, nextSettled, load_eq⟩ :=
      takeMessage_spec (settled.congr same) here holds
    refine ⟨message, next, taken, nextSettled, load_eq.trans ?_⟩
    rw [load, load, same]
  have acted : (if arm.isSome then state.opSelectConsume task else state).chans = state.chans := by
    split
    · exact chans_opSelectConsume state task
    · rfl
  obtain ⟨message, next, taken, nextSettled, load_eq⟩ := footprint _ acted
  obtain ⟨value, senderVc⟩ := message
  unfold deliver
  simp only [taken]
  have counted : (next.modifyChan chan fun entry => { entry with recvs := entry.recvs + 1 }).chans =
      next.chans.modify chan fun entry => { entry with recvs := entry.recvs + 1 } := rfl
  have countedSettled := nextSettled.modify counted fun other there closed =>
    nextSettled.shut other there closed
  have counted_load : (next.modifyChan chan fun entry =>
      { entry with recvs := entry.recvs + 1 }).load chan = next.load chan := by
    rw [load, load, counted, List.getElem?_modify_eq]
    cases next.chans[chan]? <;> rfl
  constructor
  · refine (SettledBut.deregister (countedSettled.congr ?_) task).congr (chans_makeReady _ _ _)
    exact chans_hbEdge _ senderVc task
  · have fewer := load_deregister_le ((next.modifyChan chan fun entry =>
      { entry with recvs := entry.recvs + 1 }).hbEdge senderVc task) chan task
    have merged : ((next.modifyChan chan fun entry =>
        { entry with recvs := entry.recvs + 1 }).hbEdge senderVc task).load chan =
        next.load chan := by
      rw [← counted_load, load, load, chans_hbEdge]
    rw [load, chans_makeReady, ← load]
    omega

/-- A drained closed channel has no waiters left. -/
theorem releaseDrained_settled
    (found : state.chans[chan]? = some entry) (sold : entry.senders = []) :
    (state.releaseDrained chan entry).Settled := by
  unfold releaseDrained
  have freed : ∀ acting : State Data, acting.Settled → ∀ pair : TaskId × Nat,
      (((acting.opSelectConsume pair.1).deregister pair.1).makeReady pair.1
        (.arm pair.2 (some closedError))).Settled := by
    intro acting before pair
    refine Settled.congr (Settled.deregister (before.congr ?_) pair.1) (chans_makeReady _ _ _)
    exact chans_opSelectConsume acting pair.1
  have woken := chans_foldl (state.modifyChan chan fun entry => { entry with receivers := [] })
    (fun acting receiver => acting.makeReady receiver .closed)
    (fun acting receiver => chans_makeReady acting receiver .closed) entry.receivers
  have start : ((entry.receivers.foldl (fun acting receiver => acting.makeReady receiver .closed)
      (state.modifyChan chan fun entry => { entry with receivers := [] })).modifyChan chan
        fun entry => { entry with selecters := [] }).Settled := by
    have changed :
      ((entry.receivers.foldl (fun acting receiver => acting.makeReady receiver .closed)
        (state.modifyChan chan fun entry => { entry with receivers := [] })).modifyChan chan
          fun entry => { entry with selecters := [] }).chans =
        state.chans.modify chan fun entry => { entry with receivers := [], selecters := [] } := by
      rw [modifyChan, woken, modifyChan, List.modify_modify_eq]
      rfl
    have but := settled.modify changed fun other there closed => settled.shut other there closed
    apply but.settled
    intro other there
    obtain rfl := Option.eq_some_unique (found_of_modify changed found) there
    exact ⟨fun waiting => absurd sold waiting, fun waiting => by simp at waiting,
      fun _ => ⟨sold, fun _ => ⟨rfl, rfl⟩⟩⟩
  exact List.foldlRecOn entry.selecters _ start fun acting before pair _ => freed acting before pair

/-- The settling loop settles its channel and keeps the others settled. -/
theorem settleLoop_settled {fuel : Nat}
    (enough : state.load chan < fuel) : (state.settleLoop fuel chan).Settled := by
  induction fuel generalizing state with
  | zero => omega
  | succ fuel induction =>
    rw [settleLoop]
    cases found : state.chans[chan]? with
    | none =>
      simp only [Option.elim_none, fillBuffer, found]
      exact settled.settled fun entry there => by rw [found] at there; cases there
    | some entry =>
      obtain ⟨after, after_found, afterSettled, load_eq, filled⟩ :=
        fillBuffer_spec settled found (Nat.le_refl _)
      simp only [Option.elim_some, after_found]
      split
      · rename_i drained
        obtain ⟨no_buf, no_senders⟩ := drained
        rw [List.isEmpty_iff] at no_buf no_senders
        split
        · exact releaseDrained_settled afterSettled after_found no_senders
        · rename_i open_
          apply afterSettled.settled
          intro other there
          obtain rfl : after = other := Option.eq_some_unique after_found there
          exact ⟨filled, fun _ => ⟨no_buf, no_senders⟩, fun closed => absurd closed open_⟩
      · rename_i holds
        rw [List.isEmpty_iff, List.isEmpty_iff, not_and_or] at holds
        cases waiter : target after with
        | none =>
          simp only
          apply afterSettled.settled
          intro other there
          obtain rfl : after = other := Option.eq_some_unique after_found there
          have idle : after.receivers = [] ∧ after.selecters = [] := by
            unfold target at waiter
            cases receivers : after.receivers <;> cases selecters : after.selecters <;>
              simp_all
          refine ⟨filled, fun waiting => ?_, fun closed => ?_⟩
          · simp [idle] at waiting
          · exact ⟨afterSettled.shut after after_found closed, fun _ => idle⟩
        | some pair =>
          obtain ⟨task, arm⟩ := pair
          simp only
          obtain ⟨deliveredSettled, fewer⟩ := deliver_spec afterSettled after_found holds task arm
          exact induction deliveredSettled (by omega)

/-- Settling a channel restores what a door has changed on it. -/
theorem SettledBut.settleChan :
    (state.settleChan chan).Settled := by
  rw [State.settleChan]
  cases found : state.chans[chan]? with
  | none =>
    rw [Option.elim_none, settleLoop]
    exact settled.settled fun entry there => by rw [found] at there; cases there
  | some entry =>
    apply settleLoop_settled settled
    rw [load_of_found found, Option.elim_some]
    exact Nat.lt_succ_self _

end

end Loop

/-! ## Operations that keep the channels settled -/

section Keeping

variable {state : State Data}

section

variable (settled : state.Settled)
include settled

theorem Settled.wake (task : TaskId) (wake : Wake Data) :
    ((state.deregister task).makeReady task wake).Settled :=
  (settled.deregister task).congr (chans_makeReady _ task wake)

theorem Settled.wakeBlocked (task : TaskId) (wake : Wake Data) :
    (state.wakeBlocked task wake).Settled := by
  rw [State.wakeBlocked]
  split
  · exact settled.congr (chans_makeReady state task wake)
  · exact settled

theorem Settled.cancelTask (fuel : Nat) (task : TaskId) : (state.cancelTask fuel task).Settled := by
  induction fuel generalizing state task with
  | zero => exact settled
  | succ fuel induction =>
    obtain ⟨same, _⟩ | ⟨tcb, ops, _, ⟨same, _⟩ | ⟨owned, _, rfl, same⟩⟩ :=
      cancelTask_cases fuel state task
    · rw [same]
      exact settled
    · rw [same]
      exact settled
    · rw [same]
      have flagged := settled.congr (chans_modifyTask { state with ops } task fun tcb =>
        { tcb with cancelled := true })
      refine List.foldlRecOn _ _ ?_ fun acting before child _ => induction before child
      split
      · exact flagged.wake task .cancelled
      · exact flagged

theorem Settled.cancel (task : TaskId) : (state.cancel task).Settled :=
  settled.cancelTask _ task

theorem Settled.cancelAll (tasks : List TaskId) : (tasks.foldl State.cancel state).Settled :=
  List.foldlRecOn tasks _ settled fun _ before task _ => before.cancel task

theorem Settled.killTask (actor task : TaskId) : (killTask actor state task).Settled := by
  have marked : ((state.op actor (.taskCtl task) true).modifyTask task fun tcb =>
      { tcb with killed := true }).Settled := settled
  unfold State.killTask
  dsimp only
  split
  · exact marked.wake task .killed
  · exact (marked.deregister task).congr (chans_modifyTask _ task _)
  · exact (marked.deregister task).congr (chans_modifyTask _ task _)
  · exact marked
  · exact marked

theorem Settled.exitWith {kill : State Data → ProcId → List RegionId × State Data}
    (keeps : ∀ acting linked, acting.Settled → (kill acting linked).2.Settled) (proc : ProcId)
    (reason : ExitReason Data) : (state.exitWith kill proc reason).2.Settled := by
  unfold State.exitWith
  cases found : state.procs[proc]? with
  | none => exact settled
  | some entry =>
    dsimp only
    split
    · exact settled
    · refine List.foldlRecOn (motive := fun answered : List RegionId × State Data =>
        answered.2.Settled) _ _ settled ?_
      rintro ⟨regions, acting⟩ before linked -
      exact keeps acting linked before

theorem Settled.killProcWithin (fuel : Nat) (proc : ProcId) :
    (state.killProcWithin fuel proc).2.Settled := by
  induction fuel generalizing state proc with
  | zero => exact settled
  | succ fuel induction =>
    rw [State.killProcWithin]
    cases found : state.procs[proc]? with
    | none => exact settled
    | some entry =>
      dsimp only
      split
      · exact settled
      · refine Settled.exitWith ?_ (fun acting linked before => induction before linked) proc _
        exact List.foldlRecOn _ _ settled fun acting before task _ => before.killTask _ task

theorem Settled.killProc (proc : ProcId) : (state.killProc proc).2.Settled :=
  settled.killProcWithin _ proc

theorem Settled.cancelProc (proc : ProcId) : (state.cancelProc proc).Settled := by
  have noted : (state.op state.actor (.proc proc) true).Settled := settled
  exact noted.cancelAll _

theorem Settled.deliverExit (proc : ProcId) (reason : ExitReason Data) :
    (state.deliverExit proc reason).2.Settled :=
  settled.exitWith (fun _ linked before => before.killProcWithin _ linked) proc reason

theorem Settled.publish (actor : TaskId) (exit : PendingExit Data) (chan : ChanId) :
    (publish actor exit state chan).Settled := by
  have but := settled.but chan
  refine SettledBut.settleChan (but.modify rfl ?_)
  exact fun entry found closed => but.shut entry found closed

theorem Settled.publishPending : state.publishPending.Settled := by
  refine List.foldlRecOn _ _ settled fun acting before exit _ => ?_
  exact List.foldlRecOn _ _ before fun later there chan _ => there.publish state.actor exit chan

/-! ## The baton -/

theorem Settled.promoteDueSleeps : state.promoteDueSleeps.Settled :=
  List.foldlRecOn _ _ settled fun _ before sleep _ => before.wakeBlocked sleep.task _

theorem Settled.advanceClock {next : State Data} (advanced : state.advanceClock = some next) :
    next.Settled := by
  obtain ⟨earliest, _, rfl⟩ := Option.map_eq_some_iff.mp advanced
  refine List.foldlRecOn _ _ settled fun acting before timer _ => ?_
  rw [fireTimer]
  split
  · exact before.wake timer.task _
  · exact before

theorem Settled.chooseLoop (fuel : Nat) : (state.chooseLoop fuel).2.Settled := by
  induction fuel generalizing state with
  | zero => exact settled
  | succ fuel induction =>
    have promoted := settled.promoteDueSleeps
    rw [State.chooseLoop]
    split
    · exact promoted
    · cases advanced : state.promoteDueSleeps.advanceClock with
      | some next => exact induction (promoted.advanceClock advanced)
      | none =>
        cases (state.promoteDueSleeps.realSleeps.map RealSleep.due).min? with
        | none => exact promoted
        | some earliest => exact induction promoted

theorem Settled.chooseNext : state.chooseNext.2.Settled :=
  settled.chooseLoop _

theorem Settled.declareDeadlock : state.declareDeadlock.Settled :=
  List.foldlRecOn _ _ settled fun _ before task _ => before.wake task _

end

theorem Settled.runNext {choice : Option TaskId × State Data} (settled : choice.2.Settled) :
    (runNext choice).2.Settled := by
  obtain ⟨next, acting⟩ := choice
  cases next <;> exact settled

theorem Settled.lieDown (settled : state.Settled) (me : TaskId) : (state.lieDown me).Settled := by
  rw [State.lieDown]
  split <;> exact settled

theorem Settled.park (settled : state.Settled) (me : TaskId) : (state.park me).2.Settled := by
  have chosen := (settled.lieDown me).chooseNext
  rw [State.park]
  split
  · rename_i answered
    rw [answered] at chosen
    exact chosen
  · rename_i answered
    rw [answered] at chosen
    exact chosen.declareDeadlock.chooseNext.runNext

theorem Settled.dispatchNext (settled : state.Settled) : state.dispatchNext.2.Settled := by
  have chosen := settled.chooseNext
  rw [State.dispatchNext]
  split
  · rename_i answered
    rw [answered] at chosen
    exact chosen
  · rename_i answered
    rw [answered] at chosen
    split
    · exact chosen
    · exact chosen.declareDeadlock.chooseNext.runNext

end Keeping

end State

/-- The state a door leaves to the baton. -/
def Turn.state : Turn Data → State Data
  | .keeps _ state => state
  | .parks _ state => state
  | .hands state => state

namespace State

/-! ## The doors -/

/-- The channel on which a `select` with a ready arm takes a message or the closed error. -/
def committed (state : State Data) (me : TaskId) (arms : List (Nat × ChanId))
    (timeout : Option (Nat × Nat)) : Option ChanId :=
  let ready := state.readyArms arms timeout
  if (state.refused me).isSome then none
  else
    (ready[(Chooser.pick state.chooser state.decisions.length ready.length).1]?).bind fun arm =>
      if timeout.any fun limit => limit.1 = arm then none
      else (arms.find? fun pair => pair.1 = arm).map Prod.snd

/-- Recording operations changes nothing a decision looks at. -/
theorem foldl_op (state : State Data) (me : TaskId) (arms : List (Nat × ChanId)) :
    ∃ ops, arms.foldl (fun state pair => state.op me (.chan pair.2) true) state =
      { state with ops } := by
  induction arms generalizing state with
  | nil => exact ⟨state.ops, rfl⟩
  | cons pair arms induction => exact induction (state.op me (.chan pair.2) true)

/-- What a `select` does. -/
inductive Selected (state : State Data) (me : TaskId) (arms : List (Nat × ChanId))
    (timeout : Option (Nat × Nat)) : Turn Data → Prop where
  | refused {resolved} (refusal : state.refused me = some resolved)
      (apart : state.committed me arms timeout = none) :
      Selected state me arms timeout (.keeps (.resolved resolved) state)
  | waits {ops} (inside : ∀ pair ∈ arms, pair.2 < state.chans.length)
      (idle : state.readyArms arms timeout = []) (apart : state.committed me arms timeout = none) :
      Selected state me arms timeout
        (.parks me (State.registerSelect { state with ops } me arms timeout))
  | timed {ops arm} (apart : state.committed me arms timeout = none) :
      Selected state me arms timeout (.keeps (.arm arm none)
        (State.decide { state with ops } .arm (state.readyArms arms timeout)).2)
  | commits {ops arm chan turn} (chosen : state.committed me arms timeout = some chan)
      (committing : (State.decide { state with ops } .arm
        (state.readyArms arms timeout)).2.commitArm me arm chan = some turn) :
      Selected state me arms timeout turn

theorem selected_of_select {state : State Data} {me : TaskId} {arms : List (Nat × ChanId)}
    {timeout : Option (Nat × Nat)} {turn : Turn Data}
    (entered : state.select me arms timeout = some turn) :
    Selected state me arms timeout turn := by
  unfold State.select at entered
  cases refusal : state.refused me with
  | some resolved =>
    simp only [refusal] at entered
    cases entered
    exact .refused refusal (by simp [committed, refusal])
  | none =>
    obtain ⟨ops, noted⟩ := foldl_op (state.op me (.taskCtl me) false) me arms
    simp only [refusal, noted] at entered
    split at entered
    · cases entered
    rename_i inside
    split at entered
    · rename_i none_ready
      have idle : state.readyArms arms timeout = [] := List.isEmpty_iff.mp none_ready
      cases entered
      exact .waits (not_not.mp inside) idle (by simp [committed, refusal, idle])
    · obtain ⟨arm, picked, answered⟩ := Option.bind_eq_some_iff.mp entered
      have chosen : (state.readyArms arms timeout)[(Chooser.pick state.chooser
          state.decisions.length (state.readyArms arms timeout).length).1]? = some arm := picked
      split at answered
      · rename_i timed
        cases answered
        exact .timed (by simp [committed, refusal, chosen, timed])
      · rename_i untimed
        obtain ⟨pair, named, committing⟩ := Option.bind_eq_some_iff.mp answered
        exact .commits (by simp [committed, refusal, chosen, untimed, named]) committing

/-- A `select` commits on no channel where a sender is blocked behind a full buffer. -/
def SelectSpares (state : State Data) : Op Data → Prop
  | .select me arms timeout => ∀ chan ∈ state.committed me arms timeout,
      ∀ entry ∈ state.chans[chan]?, entry.buf ≠ [] → entry.senders ≠ [] →
        entry.cap < entry.buf.length
  | _ => True

section Doors

variable {state : State Data} {me : TaskId} {turn : Turn Data} {next : State Data}
  {arms : List (Nat × ChanId)} {arm : Nat} {op : Op Data}

section

variable (settled : state.Settled)
include settled

theorem Settled.immediate (answered : state.immediate me = some turn) :
    turn.state.Settled := by
  unfold State.immediate at answered
  split at answered
  · cases answered
    exact settled
  · obtain ⟨resolved, _, rfl⟩ := Option.map_eq_some_iff.mp answered
    exact settled

theorem Settled.send {chan : ChanId} {value : Value Data}
    (entered : state.send me chan value = some turn) : turn.state.Settled := by
  unfold State.send at entered
  split at entered
  · cases entered
    exact settled
  · obtain ⟨entry, found, answered⟩ := Option.bind_eq_some_iff.mp entered
    split at answered
    · cases answered
      exact settled
    · rename_i open_
      refine Settled.immediate (SettledBut.settleChan ?_) answered
      refine SettledBut.modify (settled.but chan) rfl fun other there closed => ?_
      obtain rfl : entry = other := Option.eq_some_unique found there
      exact absurd closed open_

theorem Settled.recv {chan : ChanId}
    (entered : state.recv me chan = some turn) : turn.state.Settled := by
  unfold State.recv at entered
  split at entered
  · cases entered
    exact settled
  · obtain ⟨entry, found, answered⟩ := Option.bind_eq_some_iff.mp entered
    have but := settled.but chan
    refine Settled.immediate (SettledBut.settleChan ?_) answered
    exact but.modify rfl fun other there closed => but.shut other there closed

theorem Settled.close {chan : ChanId}
    (closed : state.close chan = some next) : next.Settled := by
  obtain ⟨entry, found, rfl⟩ := Option.map_eq_some_iff.mp closed
  split
  · exact settled
  · refine SettledBut.settleChan (SettledBut.congr ?_ (chans_foldl _
      (fun acting (pair : TaskId × Value Data) => acting.makeReady pair.1 .closed)
      (fun acting pair => chans_makeReady acting pair.1 .closed) _))
    exact (settled.but chan).modify rfl fun _ _ _ => rfl

/-- Registering a `select` of which no arm is ready. -/
theorem Settled.registerSelect (me : TaskId)
    (timeout : Option (Nat × Nat))
    (idle : ∀ pair ∈ arms, ∀ entry, state.chans[pair.2]? = some entry → armReady entry = false) :
    (state.registerSelect me arms timeout).Settled := by
  have registered : (arms.foldl (fun state pair => state.modifyChan pair.2 fun entry =>
      { entry with selecters := entry.selecters ++ [(me, pair.1)] }) state).Settled := by
    induction arms generalizing state with
    | nil => exact settled
    | cons pair arms induction =>
      rw [List.foldl_cons]
      refine induction ?_ ?_
      · refine SettledBut.settled ((settled.but pair.2).modify rfl fun other there closed =>
          (settled.but pair.2).shut other there closed) fun entry there => ?_
        rw [modifyChan, List.getElem?_modify_eq] at there
        obtain ⟨before, before_found, rfl⟩ := Option.map_eq_some_iff.mp there
        have quiet := idle pair List.mem_cons_self before before_found
        simp only [armReady, Bool.or_eq_false_iff, Bool.not_eq_false', List.isEmpty_iff] at quiet
        obtain ⟨⟨no_buf, no_senders⟩, open_⟩ := quiet
        refine ⟨fun waiting => absurd no_senders waiting, fun _ => ⟨no_buf, no_senders⟩, ?_⟩
        intro closed
        exact absurd (open_.symm.trans closed) Bool.false_ne_true
      · intro other member entry there
        rw [modifyChan, List.getElem?_modify] at there
        cases before_found : state.chans[other.2]? with
        | none => simp [before_found] at there
        | some before =>
          have quiet := idle other (List.mem_cons_of_mem pair member) before before_found
          rw [before_found] at there
          by_cases same : pair.2 = other.2
          · obtain rfl := Option.some.inj (by simpa [same] using there)
            exact quiet
          · obtain rfl := Option.some.inj (by simpa [same] using there)
            exact quiet
  unfold State.registerSelect
  dsimp only
  split
  · exact registered
  · exact registered

end

/-- Committing an arm takes the next message off its channel. -/
theorem commitArm_spec {chan : ChanId} (entered : state.commitArm me arm chan = some turn) :
    ∃ entry, state.chans[chan]? = some entry ∧
      (entry.buf = [] ∧ turn.state.chans = state.chans ∨
      (∃ message rest, entry.buf = message :: rest ∧
        turn.state.chans = state.chans.modify chan fun entry =>
          { entry with buf := rest, recvs := entry.recvs + 1 }) ∨
      ∃ pair rest, entry.buf = [] ∧ entry.senders = pair :: rest ∧
        turn.state.chans = state.chans.modify chan fun entry =>
          { entry with senders := rest, sends := entry.sends + 1, recvs := entry.recvs + 1 }) := by
  obtain ⟨entry, found, answered⟩ := Option.bind_eq_some_iff.mp entered
  split at answered
  · rename_i drained
    cases answered
    exact ⟨entry, found, .inl ⟨List.isEmpty_iff.mp drained.1, rfl⟩⟩
  · obtain ⟨⟨⟨value, vc⟩, next⟩, taken, rfl⟩ := Option.map_eq_some_iff.mp answered
    refine ⟨entry, found, .inr ?_⟩
    rw [takeMessage, found, Option.bind_some] at taken
    cases buffered : entry.buf with
    | cons message rest =>
      simp only [buffered, Option.some.injEq, Prod.mk.injEq] at taken
      obtain ⟨_, rfl⟩ := taken
      refine .inl ⟨message, rest, rfl, ?_⟩
      change (state.chans.modify chan _).modify chan _ = _
      rw [List.modify_modify_eq]
      rfl
    | nil =>
      cases waiting : entry.senders with
      | nil => simp [buffered, waiting] at taken
      | cons pair rest =>
        obtain ⟨sender, value⟩ := pair
        simp only [buffered, waiting, Option.some.injEq, Prod.mk.injEq] at taken
        obtain ⟨_, rfl⟩ := taken
        refine .inr ⟨_, rest, rfl, rfl, ?_⟩
        change (State.chans (State.makeReady _ _ _)).modify chan _ = _
        rw [chans_makeReady]
        change ((state.chans.modify chan _).modify chan _).modify chan _ = _
        rw [List.modify_modify_eq, List.modify_modify_eq]
        rfl

/-- Committing an arm keeps the channels settled unless it leaves a sender blocked beside the
space it has made. -/
theorem Settled.commitArm_iff (settled : state.Settled) {chan : ChanId}
    (entered : state.commitArm me arm chan = some turn) :
    turn.state.Settled ↔ ∀ entry ∈ state.chans[chan]?, entry.buf ≠ [] → entry.senders ≠ [] →
      entry.cap < entry.buf.length := by
  have but := settled.but chan
  obtain ⟨entry, found, cases⟩ := commitArm_spec entered
  have here := settled chan entry found
  rcases cases with ⟨drained, same⟩ | ⟨message, rest, buffered, changed⟩ |
    ⟨pair, rest, drained, waiting, changed⟩
  · refine ⟨fun _ other there buffered => ?_, fun _ => settled.congr same⟩
    obtain rfl := Option.eq_some_unique found there
    exact absurd drained buffered
  · have after := found_of_modify changed found
    have idle : entry.receivers = [] ∧ entry.selecters = [] := by
      constructor
      · by_contra waiting
        simp [(here.empty (.inl waiting)).1] at buffered
      · by_contra waiting
        simp [(here.empty (.inr waiting)).1] at buffered
    constructor
    · intro nextSettled other there _ waiting
      obtain rfl := Option.eq_some_unique found there
      have full := (nextSettled chan _ after).full waiting
      rw [buffered]
      exact Nat.lt_succ_of_le full
    · intro spares
      refine SettledBut.settled (but.modify changed but.shut) fun other there => ?_
      obtain rfl := Option.eq_some_unique after there
      refine ⟨fun waiting => ?_, fun waiting => ?_, fun closed => ?_⟩
      · have room := spares entry found (by simp [buffered]) waiting
        rw [buffered] at room
        exact Nat.le_of_lt_succ room
      · simp [idle] at waiting
      · exact ⟨(here.shut closed).1, fun _ => idle⟩
  · refine ⟨fun _ other there buffered => ?_, fun _ => ?_⟩
    · obtain rfl := Option.eq_some_unique found there
      exact absurd drained buffered
    · have after := found_of_modify changed found
      have blocked : entry.senders ≠ [] := by
        rw [waiting]
        exact List.cons_ne_nil pair rest
      have open_ := but.open_of_waiting found blocked
      have room := here.full blocked
      refine SettledBut.settled (but.modify changed ?_) fun other there => ?_
      · intro other there closed
        obtain rfl := Option.eq_some_unique found there
        exact absurd (open_.symm.trans closed) Bool.false_ne_true
      · obtain rfl := Option.eq_some_unique after there
        refine ⟨fun _ => room, fun waiters => ?_, fun closed => ?_⟩
        · exact absurd (here.empty waiters).2 blocked
        · exact absurd (open_.symm.trans closed) Bool.false_ne_true

section

variable (settled : state.Settled)
include settled

/-- A `select` keeps the channels settled unless it commits where a sender is blocked. -/
theorem Settled.select_iff {timeout : Option (Nat × Nat)}
    (entered : state.select me arms timeout = some turn) :
    turn.state.Settled ↔ state.SelectSpares (.select me arms timeout) := by
  rw [SelectSpares]
  cases selected_of_select entered with
  | refused refusal apart | timed apart =>
    rw [apart]
    exact ⟨fun _ _ member => (by cases member), fun _ => settled⟩
  | @waits ops inside none_ready apart =>
    rw [apart]
    have noted : State.Settled { state with ops } := settled
    refine ⟨fun _ _ member => (by cases member), fun _ => ?_⟩
    refine noted.registerSelect me timeout fun pair member entry found => ?_
    rw [readyArms, List.append_eq_nil_iff, List.map_eq_nil_iff,
      List.filter_eq_nil_iff] at none_ready
    have quiet := none_ready.1 pair member
    rw [show state.chans[pair.2]? = some entry from found, Option.any_some] at quiet
    exact Bool.eq_false_iff.mpr quiet
  | @commits ops arm chan _ chosen committing =>
    have decided : State.Settled (State.decide { state with ops } .arm
        (state.readyArms arms timeout)).2 := settled
    rw [chosen, decided.commitArm_iff committing]
    constructor
    · intro spares other member
      cases member
      exact spares
    · exact fun spares => spares chan rfl

/-- A fresh channel that nobody waits on is settled. -/
theorem Settled.snoc {fresh : Chan Data} (grown : next.chans = state.chans ++ [fresh])
    (unused : fresh.senders = [] ∧
      fresh.receivers = [] ∧ fresh.selecters = []) : next.Settled := by
  obtain ⟨no_senders, no_receivers, no_selecters⟩ := unused
  intro chan entry found
  rw [grown, List.getElem?_append] at found
  split at found
  · exact settled chan entry found
  · obtain rfl : fresh = entry := by
      obtain ⟨bound, same⟩ := List.getElem?_eq_some_iff.mp found
      rw [← same, List.getElem_singleton]
    refine ⟨fun waiting => absurd no_senders waiting, fun waiting => ?_, fun _ => ?_⟩
    · simp [no_receivers, no_selecters] at waiting
    · exact ⟨no_senders, fun _ => ⟨no_receivers, no_selecters⟩⟩

theorem Settled.monitor {proc : ProcId} {chan : ChanId}
    (monitored : state.monitor proc = some (chan, next)) : next.Settled := by
  unfold State.monitor at monitored
  obtain ⟨entry, found, answered⟩ := Option.map_eq_some_iff.mp monitored
  split at answered
  · obtain ⟨_, rfl⟩ := Prod.mk.inj answered
    exact settled.snoc rfl ⟨rfl, rfl, rfl⟩
  · cases answered
    have grown : (((state.newChan (2 ^ 64 - 1)).2.op (state.newChan (2 ^ 64 - 1)).2.actor
        (.proc proc) true).modifyProc proc fun entry =>
          { entry with monitors := entry.monitors ++ [state.chans.length] }).Settled :=
      settled.snoc rfl ⟨rfl, rfl, rfl⟩
    have but := grown.but state.chans.length
    have fresh : (state.chans ++ [{ cap := 2 ^ 64 - 1 }])[state.chans.length]? =
        some ({ cap := 2 ^ 64 - 1 } : Chan Data) := by simp
    refine SettledBut.settled (but.modify rfl but.shut) fun other there => ?_
    obtain rfl := Option.eq_some_unique (found_of_modify rfl fresh) there
    exact ⟨fun waiting => absurd rfl waiting, fun waiting => by simp at waiting,
      fun closed => by simp at closed⟩

theorem Settled.release {mutex : MutexId} {value : Value Data}
    (released : state.release me mutex value = some next) : next.Settled := by
  obtain ⟨entry, found, answered⟩ := Option.bind_eq_some_iff.mp released
  split at answered
  · simp at answered
  · split at answered
    · cases answered
      exact settled
    · cases answered
      refine settled.congr ?_
      rw [chans_makeReady]
      rfl

theorem Settled.failScope (me : TaskId) (scope : ScopeId) (ended : TaskEnd Data) :
    (state.failScope me scope ended).Settled := by
  unfold State.failScope
  dsimp only
  split
  · exact settled
  · rename_i entry _
    have noted : (state.modifyScope scope fun entry =>
        { entry with failures := entry.failures ++ [ended] }).Settled := settled
    have cancelled := noted.cancelAll (entry.children.filter (· ≠ me))
    split
    · exact cancelled.cancel entry.owner
    · exact cancelled

theorem Settled.wakeJoiner (scope : ScopeId) : (state.wakeJoiner scope).Settled := by
  rw [State.wakeJoiner]
  split
  · exact settled
  · split
    · exact settled.wakeBlocked _ _
    · exact settled

theorem Settled.settleScope (me : TaskId) (scope : ScopeId) (ended : TaskEnd Data) :
    (state.settleScope me scope ended).Settled := by
  have noted : (state.op me (.scope scope) (TaskEnd.failing ended)).Settled := settled
  rw [State.settleScope]
  apply Settled.wakeJoiner
  split
  · exact noted.failScope me scope ended
  · exact noted

theorem Settled.recordEnd (me : TaskId) (scope : Option ScopeId) (ended : TaskEnd Data) :
    (state.recordEnd me scope ended).Settled := by
  cases scope with
  | none => exact settled
  | some scope =>
    have marked : (state.modifyTask me fun tcb =>
        { tcb with state := .done, outcome := some ended }).Settled := settled
    exact marked.settleScope me scope ended

theorem Settled.endTask {ended : TaskEnd Data} {regions : List RegionId}
    (done : state.endTask me ended = some (regions, next)) : next.Settled := by
  obtain ⟨tcb, found, answered⟩ := Option.map_eq_some_iff.mp done
  have noted : (state.op me (.taskCtl me) false).Settled := settled
  have recorded := noted.recordEnd me tcb.scope (TaskEnd.settled ended tcb.cancelled tcb.killed)
  dsimp only at answered
  split at answered
  · have exited := recorded.deliverExit tcb.proc
      (TaskEnd.reason (TaskEnd.settled ended tcb.cancelled tcb.killed))
    rw [answered] at exited
    exact exited
  · rw [← (Prod.mk.inj answered).2]
    exact recorded

end

theorem chans_spawnTask (state : State Data) (parent : TaskId) (scope : Option ScopeId)
    (proc : ProcId) (name : String) :
    (state.spawnTask parent scope proc name).2.chans = state.chans := by
  cases scope <;> rfl

theorem chans_raceCheck (state : State Data) (me : TaskId) (key : RaceKey) (lo hi : Nat)
    (write : Bool) : (state.raceCheck me key lo hi write).2.chans = state.chans := by
  unfold raceCheck
  dsimp only
  split
  · rfl
  · split <;> rfl

theorem chans_atomicAccess (state : State Data) (me : TaskId) (key : RaceKey) (lo hi : Nat)
    (write : Bool) : (state.atomicAccess me key lo hi write).2.chans = state.chans := by
  unfold atomicAccess
  dsimp only
  split
  · rfl
  · split <;> rfl

/-- An `acquire` is refused, takes a free mutex or joins its waiters. -/
theorem acquire_cases {me : TaskId} {mutex : MutexId}
    (acquired : state.acquire me mutex = some turn) :
    (∃ resolved, turn = .keeps (.resolved resolved) state) ∨
      ∃ noted, noted = (state.op me (.taskCtl me) false).op me (.mutex mutex) true ∧
        ((∃ value, turn = .keeps (.resolved (.value value)) (noted.grant mutex me)) ∨
          turn = .parks me (noted.modifyMutex mutex fun entry =>
            { entry with waiters := entry.waiters ++ [me] })) := by
  unfold acquire at acquired
  split at acquired
  · exact .inl ⟨_, (Option.some.inj acquired).symm⟩
  · obtain ⟨entry, _, rfl⟩ := Option.map_eq_some_iff.mp acquired
    refine .inr ⟨_, rfl, ?_⟩
    split
    · exact .inl ⟨_, rfl⟩
    · exact .inr rfl

/-- A `joinScope` takes over the clocks of the children or waits for them. -/
theorem joinScope_cases {me : TaskId} {scope : ScopeId}
    (joined : state.joinScope me scope = some turn) : ∃ entry, state.scopes[scope]? = some entry ∧
      ((∃ failures, turn = .keeps (.joined failures) (entry.children.foldl
          (fun state child => state.hbEdge (state.taskVc child) me)
          ((state.op me (.scope scope) false).modifyScope scope fun entry =>
            { entry with joining := false }))) ∨
        turn = .parks me ((state.op me (.scope scope) false).modifyScope scope fun entry =>
          { entry with joining := true })) := by
  obtain ⟨entry, found, rfl⟩ := Option.map_eq_some_iff.mp joined
  refine ⟨entry, found, ?_⟩
  split
  · exact .inl ⟨_, rfl⟩
  · exact .inr rfl

/-- A `monitor` opens a channel and touches neither scopes nor tasks. -/
theorem monitor_leaves {proc : ProcId} {chan : ChanId}
    (monitored : state.monitor proc = some (chan, next)) :
    next.scopes = state.scopes ∧ next.tasks = state.tasks := by
  obtain ⟨entry, _, answered⟩ := Option.map_eq_some_iff.mp monitored
  dsimp only at answered
  split at answered
  all_goals
    obtain rfl := (Prod.mk.inj answered).2
    exact ⟨rfl, rfl⟩

/-- A door that does not commit beside a blocked sender keeps every channel settled. -/
theorem Settled.enter_iff (settled : state.Settled) (entered : state.enter op = some turn) :
    turn.state.Settled ↔ state.SelectSpares op := by
  have always : turn.state.Settled → (turn.state.Settled ↔ True) :=
    fun holds => ⟨fun _ => trivial, fun _ => holds⟩
  cases entered_of_enter entered with
  | select selected => exact settled.select_iff selected
  | send sent => exact always (settled.send sent)
  | recv received => exact always (settled.recv received)
  | close closed => exact always (settled.close closed)
  | newChan => exact always (settled.snoc rfl ⟨rfl, rfl, rfl⟩)
  | acquire acquired =>
    refine always ?_
    obtain ⟨_, rfl⟩ | ⟨_, rfl, ⟨_, rfl⟩ | rfl⟩ := acquire_cases acquired <;> exact settled
  | release released => exact always (settled.release released)
  | @spawnTask parent scope name tcb =>
    exact always (settled.congr (chans_spawnTask state parent scope tcb.proc name))
  | @joinScope me _ _ joined =>
    refine always ?_
    obtain ⟨entry, _, ⟨_, rfl⟩ | rfl⟩ := joinScope_cases joined
    · refine settled.congr ?_
      exact chans_foldl _ (fun acting child => acting.hbEdge (acting.taskVc child) me)
        (fun _ _ => rfl) entry.children
    · exact settled
  | @cancelScope _ entry => exact always (settled.cancelAll entry.children)
  | endTask finished => exact always (settled.endTask finished)
  | monitor monitored => exact always (settled.monitor monitored)
  | @kill proc => exact always (settled.killProc proc)
  | deliverPending => exact always settled.publishPending
  | @cancelProc proc => exact always (settled.cancelProc proc)
  | @raceCheck me key lo hi write =>
    exact always (settled.congr (chans_raceCheck state me key lo hi write))
  | @atomicAccess me key lo hi write =>
    exact always (settled.congr (chans_atomicAccess state me key lo hi write))
  | newMutex | openScope | dispatchNext | spawnProc | link | netYield | sleepPark | reseed
  | elapse => exact always settled

theorem keeps_of_commitArm {chan : ChanId} (entered : state.commitArm me arm chan = some turn) :
    ∃ answer next, turn = .keeps answer next := by
  obtain ⟨entry, _, answered⟩ := Option.bind_eq_some_iff.mp entered
  split at answered
  · exact ⟨_, _, (Option.some.inj answered).symm⟩
  · obtain ⟨taken, _, rfl⟩ := Option.map_eq_some_iff.mp answered
    exact ⟨_, _, rfl⟩

/-- A `select` that does not keep the baton has no ready arm. -/
theorem spares_of_leaves {timeout : Option (Nat × Nat)}
    (entered : state.select me arms timeout = some turn)
    (leaves : ∀ answer next, turn ≠ .keeps answer next) :
    state.SelectSpares (.select me arms timeout) := by
  rw [SelectSpares]
  cases selected_of_select entered with
  | refused refusal apart | waits inside idle apart | timed apart =>
    rw [apart]
    nofun
  | commits chosen committing =>
    obtain ⟨answer, next, same⟩ := keeps_of_commitArm committing
    exact absurd same (leaves answer next)

/-- A door that parks its task or hands the baton on leaves the channels settled. -/
theorem Settled.enter_of_leaves (settled : state.Settled) (entered : state.enter op = some turn)
    (leaves : ∀ answer next, turn ≠ .keeps answer next) : turn.state.Settled := by
  refine (settled.enter_iff entered).mpr ?_
  cases op with
  | select me arms timeout => exact spares_of_leaves entered leaves
  | _ => trivial

/-- One step keeps the channels settled exactly when it commits beside no blocked sender. -/
theorem Settled.step_iff (settled : state.Settled) (performed : step state op = some next) :
    next.Settled ↔ state.SelectSpares op := by
  obtain ⟨⟨answer, after⟩, answered, rfl⟩ := Option.map_eq_some_iff.mp performed
  obtain ⟨turn, entered, turned⟩ := Option.map_eq_some_iff.mp answered
  unfold door at entered
  split at entered
  · rw [← settled.enter_iff entered, ← congrArg Prod.snd turned]
    cases turn with
    | keeps answer kept => exact Iff.rfl
    | parks me parked =>
      have leaves := settled.enter_of_leaves entered (by simp)
      exact ⟨fun _ => leaves, fun _ => leaves.park me⟩
    | hands handed =>
      have leaves := settled.enter_of_leaves entered (by simp)
      exact ⟨fun _ => leaves, fun _ => leaves.dispatchNext⟩
  · simp at entered

end Doors

/-! ## Whole runs -/

/-- The channel operation a task is blocked in could complete. -/
def CouldComplete (state : State Data) (task : TaskId) : Prop :=
  ∃ (chan : ChanId) (entry : Chan Data), state.chans[chan]? = some entry ∧
    ((∃ value, (task, value) ∈ entry.senders) ∧
        (entry.buf.length < entry.cap ∨ entry.receivers ≠ [] ∨ entry.selecters ≠ [] ∨
          entry.closed = true) ∨
      (task ∈ entry.receivers ∨ ∃ arm, (task, arm) ∈ entry.selecters) ∧
        (entry.buf ≠ [] ∨ entry.senders ≠ [] ∨ entry.closed = true))

/-- No channel operation could complete while the channels are settled. -/
theorem Settled.not_couldComplete {state : State Data} (settled : state.Settled) (task : TaskId) :
    ¬ state.CouldComplete task := by
  rintro ⟨chan, entry, found, ⟨⟨value, member⟩, ready⟩ | ⟨member, ready⟩⟩
  · have here := settled chan entry found
    have waiting : entry.senders ≠ [] := List.ne_nil_of_mem member
    rcases ready with space | receivers | selecters | closed
    · exact absurd (here.full waiting) (Nat.not_le_of_lt space)
    · exact waiting (here.empty (.inl receivers)).2
    · exact waiting (here.empty (.inr selecters)).2
    · exact waiting (here.shut closed).1
  · have here := settled chan entry found
    have waiting : entry.receivers ≠ [] ∨ entry.selecters ≠ [] := by
      rcases member with receiver | ⟨arm, selecter⟩
      · exact .inl (List.ne_nil_of_mem receiver)
      · exact .inr (List.ne_nil_of_mem selecter)
    have quiet := here.empty waiting
    rcases ready with buffered | senders | closed
    · exact buffered quiet.1
    · exact senders quiet.2
    · have gone := (here.shut closed).2 quiet.1
      rcases waiting with receivers | selecters
      · exact receivers gone.1
      · exact selecters gone.2

end State

/-- The state a deadlock is declared in, when the baton finds nothing to run after a door. -/
def Turn.deadlock : Turn Data → Option (State Data)
  | .keeps _ _ => none
  | .parks me state =>
    match (state.lieDown me).chooseNext with
    | (none, dead) => some dead
    | (some _, _) => none
  | .hands state =>
    match state.chooseNext with
    | (none, dead) => if dead.blocked.isEmpty then none else some dead
    | (some _, _) => none

theorem Turn.settled_of_deadlock {turn : Turn Data} {dead : State Data}
    (settled : turn.state.Settled) (declared : turn.deadlock = some dead) : dead.Settled := by
  unfold Turn.deadlock at declared
  cases turn with
  | keeps answer state => simp at declared
  | parks me state =>
    have chosen : (state.lieDown me).chooseNext.2.Settled :=
      (State.Settled.lieDown settled me).chooseNext
    simp only at declared
    split at declared
    · rename_i answered
      cases declared
      rw [answered] at chosen
      exact chosen
    · simp at declared
  | hands state =>
    have chosen : state.chooseNext.2.Settled := State.Settled.chooseNext settled
    simp only at declared
    split at declared
    · rename_i answered
      rw [answered] at chosen
      split at declared
      · simp at declared
      · cases declared
        exact chosen
    · simp at declared

/-- Every channel is settled in every state of a run, and no deadlock of the run is declared over a
task whose channel operation could complete. -/
structure RunSettled (start : State Data) (ops : List (Op Data)) : Prop where
  settled : Always State.step State.Settled start ops
  deadlocks : ∀ front op rest state turn dead, ops = front ++ op :: rest →
    exec State.step start front = some state → state.door op = some turn →
      turn.deadlock = some dead → ∀ task, ¬ dead.CouldComplete task

theorem settled_initial (chooser : Chooser) : (initial chooser : State Data).Settled := by
  intro chan entry found
  simp [initial] at found

/-- A run keeps its channels settled exactly when no `select` commits on a channel where a sender is
blocked behind a full buffer. -/
theorem runSettled_iff (chooser : Chooser) (ops : List (Op Data)) :
    RunSettled (initial chooser) ops ↔
      Guarded State.step State.SelectSpares (initial chooser) ops := by
  have sharp : Always State.step State.Settled (initial chooser : State Data) ops ↔
      Guarded State.step State.SelectSpares (initial chooser) ops :=
    always_iff_guarded (settled_initial chooser) fun state op next settled performed =>
      settled.step_iff performed
  constructor
  · exact fun run => sharp.mp run.settled
  · intro spares
    refine ⟨sharp.mpr spares, ?_⟩
    intro front op rest state turn dead split reached entered declared
    have settled : state.Settled := sharp.mpr spares front (op :: rest) state split reached
    unfold State.door at entered
    split at entered
    · refine (Turn.settled_of_deadlock ?_ declared).not_couldComplete
      refine settled.enter_of_leaves entered ?_
      rintro answer next rfl
      simp [Turn.deadlock] at declared
    · simp at entered

/-- A sender blocked behind a full buffer, and a `select` that takes the buffered message. -/
def selectBesideSender : List (Op Unit) :=
  [.newChan 1, .send 0 0 .unit, .spawnTask 0 none "sender", .netYield 0, .send 1 0 .unit,
    .select 0 [(0, 0)] none]

/-- The `select` leaves the sender blocked beside an empty buffer. -/
theorem unsettled_by_select :
    ¬ ∀ (chooser : Chooser) (ops : List (Op Unit)), RunSettled (initial chooser) ops := by
  intro claim
  have run := claim (.seeded 0 1) selectBesideSender
  have settled := run.settled selectBesideSender [] _ (List.append_nil _).symm rfl
  exact absurd ((settled 0 _ rfl).full (List.cons_ne_nil _ _)) (by decide)

end WolfInterp.Sched
