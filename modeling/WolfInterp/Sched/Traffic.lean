import WolfInterp.Sched.Exits

/-!
# The traffic on a channel

A log of what happens to messages: a send completes, or a message is handed to a receiver. It is
read off the same functions that move the messages, in the order they move them. Between two states
the log and the buffer balance: what was buffered and what has been sent since is what has been
handed on and what is buffered now.
-/

namespace WolfInterp.Sched

open Execution

variable {Data : Type}

/-- What happens to a message. A message without a sender is an exit reason. -/
inductive Traffic (Data : Type) where
  | sent (sender : Option TaskId) (chan : ChanId) (value : Value Data)
  | handed (receiver : TaskId) (chan : ChanId) (value : Value Data)

/-- The values sent on a channel, in the order their sends completed. -/
def sentOn (chan : ChanId) (log : List (Traffic Data)) : List (Value Data) :=
  log.filterMap fun event =>
    match event with
    | .sent _ other value => if other = chan then some value else none
    | .handed .. => none

/-- The values handed to the receivers of a channel, in pairing order. -/
def handedOn (chan : ChanId) (log : List (Traffic Data)) : List (Value Data) :=
  log.filterMap fun event =>
    match event with
    | .sent .. => none
    | .handed _ other value => if other = chan then some value else none

@[simp]
theorem sentOn_nil (chan : ChanId) : sentOn chan ([] : List (Traffic Data)) = [] := rfl

@[simp]
theorem handedOn_nil (chan : ChanId) : handedOn chan ([] : List (Traffic Data)) = [] := rfl

@[simp]
theorem sentOn_append (chan : ChanId) (first second : List (Traffic Data)) :
    sentOn chan (first ++ second) = sentOn chan first ++ sentOn chan second :=
  List.filterMap_append ..

@[simp]
theorem handedOn_append (chan : ChanId) (first second : List (Traffic Data)) :
    handedOn chan (first ++ second) = handedOn chan first ++ handedOn chan second :=
  List.filterMap_append ..

namespace State

/-! ## The log -/

/-- The sends that complete while blocked senders move into buffer space. -/
def fillLog : Nat → State Data → ChanId → List (Traffic Data)
  | 0, _, _ => []
  | fuel + 1, state, chan =>
    match state.chans[chan]? with
    | none => []
    | some entry =>
      match entry.senders with
      | [] => []
      | (sender, value) :: _ =>
        if entry.buf.length < entry.cap then
          .sent (some sender) chan value :: fillLog fuel (state.fillBuffer 1 chan) chan
        else []

/-- The next deliverable message reaches a receiver; a rendezvous completes its send. -/
def takeLog (state : State Data) (chan : ChanId) (receiver : TaskId) : List (Traffic Data) :=
  match state.chans[chan]? with
  | none => []
  | some entry =>
    match entry.buf, entry.senders with
    | (value, _) :: _, _ => [.handed receiver chan value]
    | [], (sender, value) :: _ => [.sent (some sender) chan value, .handed receiver chan value]
    | [], [] => []

/-- The rounds of the settling loop. -/
def settleLoopLog : Nat → State Data → ChanId → List (Traffic Data)
  | 0, _, _ => []
  | fuel + 1, state, chan =>
    let waiting := (state.chans[chan]?).elim 0 fun entry => entry.senders.length
    let filled := state.fillBuffer waiting chan
    state.fillLog waiting chan ++
      match filled.chans[chan]? with
      | none => []
      | some entry =>
        if entry.buf.isEmpty ∧ entry.senders.isEmpty then []
        else
          match target entry with
          | none => []
          | some (task, arm) =>
            filled.takeLog chan task ++ settleLoopLog fuel (filled.deliver chan task arm) chan

def settleLog (state : State Data) (chan : ChanId) : List (Traffic Data) :=
  state.settleLoopLog
    ((state.chans[chan]?).elim 0 fun entry => entry.buf.length + entry.senders.length + 1) chan

/-- An exit reason reaches a monitor. -/
def publishLog (actor : TaskId) (exit : PendingExit Data) (state : State Data) (chan : ChanId) :
    List (Traffic Data) :=
  match state.chans[chan]? with
  | none => []
  | some _ =>
    .sent none chan exit.message ::
      ((state.op actor (.chan chan) true).modifyChan chan fun entry =>
        { entry with buf := entry.buf ++ [(exit.message, exit.vc)],
                     sends := entry.sends + 1 }).settleLog chan

/-- A fold beside the log of its steps. -/
def foldLog {Entry : Type} (step : State Data → Entry → State Data)
    (log : State Data → Entry → List (Traffic Data)) :
    List Entry → State Data → List (Traffic Data)
  | [], _ => []
  | entry :: entries, state => log state entry ++ foldLog step log entries (step state entry)

/-- Every parked exit reason reaches its monitors. -/
def publishPendingLog (state : State Data) : List (Traffic Data) :=
  foldLog (fun acting exit => exit.monitors.foldl (publish state.actor exit) acting)
    (fun acting exit =>
      foldLog (publish state.actor exit) (publishLog state.actor exit) exit.monitors acting)
    state.pending { state with pending := [] }

/-- What a door does to messages. Parking and passing the baton on do nothing to them. -/
def traffic (state : State Data) : Op Data → List (Traffic Data)
  | .send me chan value =>
    if (state.refused me).isSome then []
    else
      match state.chans[chan]? with
      | none => []
      | some entry =>
        if entry.closed then []
        else (((state.op me (.taskCtl me) false).op me (.chan chan) true).modifyChan chan
          fun entry => { entry with senders := entry.senders ++ [(me, value)] }).settleLog chan
  | .recv me chan =>
    if (state.refused me).isSome then []
    else (((state.op me (.taskCtl me) false).op me (.chan chan) true).modifyChan chan
      fun entry => { entry with receivers := entry.receivers ++ [me] }).settleLog chan
  | .select me arms timeout =>
    (state.committed me arms timeout).elim [] fun chan => state.takeLog chan me
  | .close chan =>
    match state.chans[chan]? with
    | none => []
    | some entry =>
      if entry.closed then []
      else (entry.senders.foldl (fun state pair => state.makeReady pair.1 .closed)
        ((state.op state.actor (.chan chan) true).modifyChan chan fun entry =>
          { entry with closed := true, senders := [] })).settleLog chan
  | .deliverPending => state.publishPendingLog
  | .monitor proc =>
    (state.exitOf proc).elim [] fun reason =>
      [.sent none state.chans.length (exitMessage reason)]
  | _ => []

/-- What a run of doors does to messages. -/
def runTraffic : State Data → List (Op Data) → List (Traffic Data)
  | _, [] => []
  | state, op :: ops =>
    match State.step state op with
    | none => []
    | some next => state.traffic op ++ runTraffic next ops

/-! ## The balance -/

/-- The log accounts for the buffers and the counters. -/
structure Flows (state : State Data) (log : List (Traffic Data)) (next : State Data) : Prop where
  values : ∀ chan, handedOn chan log ++ (next.ledger chan).1 =
    (state.ledger chan).1 ++ sentOn chan log
  sends : ∀ chan, (next.ledger chan).2.1 = (state.ledger chan).2.1 + (sentOn chan log).length
  recvs : ∀ chan, (next.ledger chan).2.2 = (state.ledger chan).2.2 + (handedOn chan log).length

section Balance

variable {state middle next : State Data} {first second : List (Traffic Data)}

theorem Flows.of_ledger (same : next.ledger = state.ledger) : Flows state [] next := by
  constructor <;> intro chan <;> rw [same] <;> simp

theorem Flows.refl : Flows state [] state := .of_ledger rfl

theorem Flows.trans (early : Flows state first middle) (late : Flows middle second next) :
    Flows state (first ++ second) next := by
  constructor
  · intro chan
    rw [handedOn_append, sentOn_append, List.append_assoc, late.values, ← List.append_assoc,
      early.values, List.append_assoc]
  · intro chan
    rw [late.sends, early.sends, sentOn_append, List.length_append, Nat.add_assoc]
  · intro chan
    rw [late.recvs, early.recvs, handedOn_append, List.length_append, Nat.add_assoc]

theorem Flows.then_quiet (early : Flows state first middle) (same : next.ledger = middle.ledger) :
    Flows state first next := by
  have both := early.trans (.of_ledger same)
  rw [List.append_nil] at both
  exact both

theorem Flows.after_quiet (late : Flows middle second next) (same : middle.ledger = state.ledger) :
    Flows state second next :=
  (Flows.of_ledger same).trans late

/-- Changing one channel, as an event on that channel. -/
theorem Flows.modifyChan {chan : ChanId} {entry : Chan Data} {log : List (Traffic Data)}
    (found : state.chans[chan]? = some entry) (update : Chan Data → Chan Data)
    (elsewhere : ∀ other, other ≠ chan → sentOn other log = [] ∧ handedOn other log = [])
    (values : handedOn chan log ++ (update entry).buf.map Prod.fst =
      entry.buf.map Prod.fst ++ sentOn chan log)
    (sends : (update entry).sends = entry.sends + (sentOn chan log).length)
    (recvs : (update entry).recvs = entry.recvs + (handedOn chan log).length) :
    Flows state log (state.modifyChan chan update) := by
  have here : (state.modifyChan chan update).ledger chan =
      ((update entry).buf.map Prod.fst, (update entry).sends, (update entry).recvs) := by
    rw [ledger, State.modifyChan, List.getElem?_modify_eq, found]
    rfl
  have before : state.ledger chan = (entry.buf.map Prod.fst, entry.sends, entry.recvs) := by
    rw [ledger, found]
    rfl
  have others : ∀ other, other ≠ chan →
      (state.modifyChan chan update).ledger other = state.ledger other := by
    intro other differs
    rw [ledger, ledger, State.modifyChan, List.getElem?_modify]
    simp [differs.symm]
  constructor
  · intro other
    rcases eq_or_ne other chan with rfl | differs
    · rw [here, before]
      exact values
    · obtain ⟨unsent, unhanded⟩ := elsewhere other differs
      rw [others other differs, unsent, unhanded, List.append_nil, List.nil_append]
  · intro other
    rcases eq_or_ne other chan with rfl | differs
    · rw [here, before]
      exact sends
    · rw [others other differs, (elsewhere other differs).1]
      rfl
  · intro other
    rcases eq_or_ne other chan with rfl | differs
    · rw [here, before]
      exact recvs
    · rw [others other differs, (elsewhere other differs).2]
      rfl

end Balance

/-! ## Settling balances -/

section Settling

variable {state next : State Data} {chan : ChanId}

/-- A sender whose message moves into the buffer completes its send. -/
theorem flows_bufferSender {entry : Chan Data} (sender : TaskId) (value : Value Data)
    (rest : List (TaskId × Value Data)) (found : state.chans[chan]? = some entry) :
    Flows state [.sent (some sender) chan value]
      ((((state.modifyChan chan fun entry => { entry with senders := rest }).tick sender).modifyChan
        chan fun entry =>
          { entry with buf := entry.buf ++ [(value, state.taskVc sender)]
                       sends := entry.sends + 1 }).makeReady sender (.ok .unit)) := by
  have left : ((state.modifyChan chan fun entry => { entry with senders := rest }).tick
      sender).chans[chan]? = some { entry with senders := rest } := by
    change (state.modifyChan chan _).chans[chan]? = _
    rw [modifyChan, List.getElem?_modify_eq, found]
    rfl
  refine Flows.then_quiet (Flows.after_quiet (Flows.modifyChan left _ ?_ ?_ ?_ ?_) ?_)
    (mild_makeReady _ sender (.ok .unit)).ledger
  · exact fun other differs => by simp [sentOn, handedOn, differs.symm]
  · simp [sentOn, handedOn]
  · simp [sentOn]
  · simp [handedOn]
  · exact ledger_modifyChan state chan _ fun _ => ⟨rfl, rfl, rfl⟩

/-- A relation of logs and states that settling a channel keeps: it composes, and a step in which a
sender moves into the buffer, a drained channel is released or a message is delivered has it. -/
structure Settling (Rel : List (Traffic Data) → State Data → State Data → Prop) : Prop where
  refl : ∀ state, Rel [] state state
  trans : ∀ {log more state middle next}, Rel log state middle → Rel more middle next →
    Rel (log ++ more) state next
  buffers : ∀ {state : State Data} {chan entry sender value rest},
    state.chans[chan]? = some entry → entry.senders = (sender, value) :: rest →
    Rel [.sent (some sender) chan value] state
      ((((state.modifyChan chan fun entry => { entry with senders := rest }).tick sender).modifyChan
        chan fun entry =>
          { entry with buf := entry.buf ++ [(value, state.taskVc sender)]
                       sends := entry.sends + 1 }).makeReady sender (.ok .unit))
  drains : ∀ {state : State Data} {chan entry}, state.chans[chan]? = some entry →
    Rel [] state (state.releaseDrained chan entry)
  delivers : ∀ {state : State Data} {chan entry task arm}, state.chans[chan]? = some entry →
    ¬ (entry.buf.isEmpty ∧ entry.senders.isEmpty) → target entry = some (task, arm) →
    Rel (state.takeLog chan task) state (state.deliver chan task arm)

section

variable {Rel : List (Traffic Data) → State Data → State Data → Prop} (settling : Settling Rel)
include settling

theorem Settling.fillBuffer (fuel : Nat) (state : State Data) (chan : ChanId) :
    Rel (state.fillLog fuel chan) state (state.fillBuffer fuel chan) := by
  induction fuel generalizing state with
  | zero => exact settling.refl state
  | succ fuel induction =>
    rw [State.fillBuffer, fillLog]
    cases found : state.chans[chan]? with
    | none => exact settling.refl state
    | some entry =>
      cases waiting : entry.senders with
      | nil =>
        simp only [waiting]
        exact settling.refl state
      | cons first rest =>
        obtain ⟨sender, value⟩ := first
        simp only [waiting]
        split
        · rename_i space
          simp only [State.fillBuffer, found, waiting, if_pos space]
          exact settling.trans (settling.buffers found waiting) (induction _)
        · exact settling.refl state

theorem Settling.settleLoop (fuel : Nat) (state : State Data) (chan : ChanId) :
    Rel (state.settleLoopLog fuel chan) state (state.settleLoop fuel chan) := by
  induction fuel generalizing state with
  | zero => exact settling.refl state
  | succ fuel induction =>
    rw [State.settleLoop, settleLoopLog]
    have filled := settling.fillBuffer
      ((state.chans[chan]?).elim 0 fun entry => entry.senders.length) state chan
    have alone := settling.trans filled (settling.refl _)
    cases found : (state.fillBuffer ((state.chans[chan]?).elim 0
        fun entry => entry.senders.length) chan).chans[chan]? with
    | none => exact alone
    | some entry =>
      dsimp only
      by_cases drained : entry.buf.isEmpty ∧ entry.senders.isEmpty
      · rw [if_pos drained, if_pos drained]
        split
        · exact settling.trans filled (settling.drains found)
        · exact alone
      · rw [if_neg drained, if_neg drained]
        cases waiter : target entry with
        | none => exact alone
        | some pair =>
          have delivered := settling.delivers found drained waiter
          exact settling.trans filled (settling.trans delivered (induction _))

theorem Settling.settleChan (state : State Data) (chan : ChanId) :
    Rel (state.settleLog chan) state (state.settleChan chan) :=
  settling.settleLoop _ state chan

end

theorem modifyChan_modifyChan (state : State Data) (chan : ChanId)
    (first second : Chan Data → Chan Data) : (state.modifyChan chan first).modifyChan chan second =
      state.modifyChan chan fun entry => second (first entry) := by
  simp only [modifyChan, List.modify_modify_eq]
  rfl

/-- Taking a message and counting it as received. -/
theorem flows_takeMessage {message : Value Data × Clock} (receiver : TaskId)
    (taken : state.takeMessage chan = some (message, next)) :
    Flows state (state.takeLog chan receiver)
      (next.modifyChan chan fun entry => { entry with recvs := entry.recvs + 1 }) := by
  obtain ⟨entry, found, answered⟩ := Option.bind_eq_some_iff.mp taken
  cases buffered : entry.buf with
  | cons first rest =>
    simp only [buffered, Option.some.injEq, Prod.mk.injEq] at answered
    obtain ⟨rfl, rfl⟩ := answered
    have logged : state.takeLog chan receiver = [.handed receiver chan first.1] := by
      simp only [takeLog, found, buffered]
    rw [logged, modifyChan_modifyChan]
    refine Flows.modifyChan found _ ?_ ?_ ?_ ?_
    · exact fun other differs => by simp [sentOn, handedOn, differs.symm]
    · simp [sentOn, handedOn, buffered]
    · simp [sentOn]
    · simp [handedOn]
  | nil =>
    cases waiting : entry.senders with
    | nil => simp [buffered, waiting] at answered
    | cons first rest =>
      obtain ⟨sender, value⟩ := first
      simp only [buffered, waiting, Option.some.injEq, Prod.mk.injEq] at answered
      obtain ⟨rfl, rfl⟩ := answered
      have logged : state.takeLog chan receiver =
          [.sent (some sender) chan value, .handed receiver chan value] := by
        simp only [takeLog, found, buffered, waiting]
      have counted : Flows state [.sent (some sender) chan value, .handed receiver chan value]
          (state.modifyChan chan fun entry =>
            { entry with senders := rest, sends := entry.sends + 1
                         recvs := entry.recvs + 1 }) := by
        refine Flows.modifyChan found _ ?_ ?_ ?_ ?_
        · exact fun other differs => by simp [sentOn, handedOn, differs.symm]
        · simp [sentOn, handedOn, buffered]
        · simp [sentOn]
        · simp [handedOn]
      rw [logged]
      refine counted.then_quiet (ledger_of_chans ?_)
      simp only [modifyChan, chans_makeReady, chans_tick, List.modify_modify_eq]
      rfl

theorem flows_deliver (state : State Data) (chan : ChanId) (task : TaskId) (arm : Option Nat)
    {entry : Chan Data} (found : state.chans[chan]? = some entry)
    (holds : ¬ (entry.buf.isEmpty ∧ entry.senders.isEmpty)) :
    Flows state (state.takeLog chan task) (state.deliver chan task arm) := by
  have noted : (if arm.isSome then state.opSelectConsume task else state).chans = state.chans := by
    split
    · exact chans_opSelectConsume state task
    · rfl
  unfold deliver
  dsimp only
  generalize (if arm.isSome then state.opSelectConsume task else state) = acting at noted ⊢
  have same : acting.takeLog chan task = state.takeLog chan task := by
    simp only [takeLog, noted]
  have there : acting.chans[chan]? = some entry := by rw [noted, found]
  split
  · rename_i none_taken
    exfalso
    rw [takeMessage, there, Option.bind_some] at none_taken
    cases buffered : entry.buf with
    | cons first rest => simp [buffered] at none_taken
    | nil =>
      cases waiting : entry.senders with
      | cons first rest => simp [buffered, waiting] at none_taken
      | nil => exact holds (by simp [buffered, waiting])
  · rename_i value senderVc next taken
    have counted := flows_takeMessage task taken
    rw [same] at counted
    generalize (next.modifyChan chan fun entry => { entry with recvs := entry.recvs + 1 }) = after
      at counted ⊢
    have told : (((after.hbEdge senderVc task).deregister task).makeReady task
        (arm.elim (.ok value) fun arm => .arm arm (some value))).ledger = after.ledger :=
      ((mild_hbEdge after senderVc task).trans (mild_rouse _ task _)).ledger
    exact (counted.after_quiet (ledger_of_chans noted)).then_quiet told

theorem flows_settling :
    Settling fun log (state next : State Data) => Flows state log next where
  refl _ := .refl
  trans := Flows.trans
  buffers found _ := flows_bufferSender _ _ _ found
  drains _ := .of_ledger (mild_releaseDrained _ _ _).ledger
  delivers found holds _ := flows_deliver _ _ _ _ found holds

theorem flows_settleChan (state : State Data) (chan : ChanId) :
    Flows state (state.settleLog chan) (state.settleChan chan) :=
  flows_settling.settleChan state chan

theorem flows_publish (actor : TaskId) (exit : PendingExit Data) (state : State Data)
    (chan : ChanId) : Flows state (publishLog actor exit state chan)
      (publish actor exit state chan) := by
  let pushing := (state.op actor (.chan chan) true).modifyChan chan fun entry =>
    { entry with buf := entry.buf ++ [(exit.message, exit.vc)], sends := entry.sends + 1 }
  have settled := flows_settleChan pushing chan
  rw [publishLog]
  cases found : state.chans[chan]? with
  | none =>
    have unchanged : pushing.chans = state.chans :=
      List.modify_eq_self (List.getElem?_eq_none_iff.mp found)
    rw [settleLog, unchanged, found, Option.elim_none, settleLoopLog] at settled
    exact settled.after_quiet (ledger_of_chans unchanged)
  | some entry =>
    have pushed : Flows (state.op actor (.chan chan) true) [.sent none chan exit.message]
        pushing := by
      have there : (state.op actor (.chan chan) true).chans[chan]? = some entry := found
      refine Flows.modifyChan there _ ?_ ?_ ?_ ?_
      · exact fun other differs => by simp [sentOn, handedOn, differs.symm]
      · simp [sentOn, handedOn]
      · simp [sentOn]
      · simp [handedOn]
    exact (pushed.trans settled).after_quiet (ledger_of_chans rfl)

theorem flows_foldl {Entry : Type} {step : State Data → Entry → State Data}
    {log : State Data → Entry → List (Traffic Data)}
    (flows : ∀ acting entry, Flows acting (log acting entry) (step acting entry))
    (entries : List Entry) (state : State Data) :
    Flows state (foldLog step log entries state) (entries.foldl step state) := by
  induction entries generalizing state with
  | nil => exact .refl
  | cons entry entries induction => exact (flows state entry).trans (induction _)

theorem flows_publishPending (state : State Data) :
    Flows state state.publishPendingLog state.publishPending := by
  refine Flows.after_quiet (flows_foldl (fun acting exit => ?_) state.pending
    { state with pending := [] }) rfl
  exact flows_foldl (fun acting chan => flows_publish state.actor exit acting chan) exit.monitors
    acting

end Settling

/-! ## Nothing else moves a message -/

section Quiet

theorem ledger_exitWith {kill : State Data → ProcId → List RegionId × State Data}
    (same : ∀ acting linked, (kill acting linked).2.ledger = acting.ledger) (state : State Data)
    (proc : ProcId) (reason : ExitReason Data) :
    (state.exitWith kill proc reason).2.ledger = state.ledger := by
  rw [exitWith]
  split
  · rfl
  · split
    · rfl
    · refine List.foldlRecOn (motive := fun answer : List RegionId × State Data =>
        answer.2.ledger = state.ledger) _ _ rfl fun answer before linked _ => ?_
      exact (same answer.2 linked).trans before

theorem ledger_killProcWithin (fuel : Nat) (state : State Data) (proc : ProcId) :
    (state.killProcWithin fuel proc).2.ledger = state.ledger := by
  induction fuel generalizing state proc with
  | zero => rfl
  | succ fuel induction =>
    rw [killProcWithin]
    split
    · rfl
    · split
      · rfl
      · exact (ledger_exitWith induction _ proc .killed).trans
          (mild_strike state proc).ledger

theorem ledger_deliverExit (state : State Data) (proc : ProcId) (reason : ExitReason Data) :
    (state.deliverExit proc reason).2.ledger = state.ledger :=
  ledger_exitWith (ledger_killProcWithin _) state proc reason

theorem ledger_settleTurn (turn : Turn Data) : (settleTurn turn).2.ledger = turn.state.ledger := by
  cases turn with
  | keeps answer state => rfl
  | parks me state => exact (unmoved_park state me).ledger
  | hands state => exact (unmoved_dispatchNext state).ledger

theorem ledger_recordEnd (state : State Data) (me : TaskId) (scope : Option ScopeId)
    (ended : TaskEnd Data) : (state.recordEnd me scope ended).ledger = state.ledger := by
  cases scope with
  | none => rfl
  | some scope =>
    exact relates_settleScope (R := fun state next => next.ledger = state.ledger)
      (fun first second => second.trans first) (fun mild => mild.ledger) (fun _ _ => rfl) _ scope

end Quiet

/-! ## The doors balance -/

section Doors

variable {state next : State Data} {me : TaskId} {turn : Turn Data}

theorem flows_send {chan : ChanId} {value : Value Data}
    (entered : state.send me chan value = some turn) :
    Flows state (state.traffic (.send me chan value)) turn.state := by
  unfold State.send at entered
  rw [traffic]
  cases refusal : state.refused me with
  | some resolved =>
    simp only [refusal] at entered
    cases entered
    exact .refl
  | none =>
    simp only [refusal] at entered
    obtain ⟨entry, found, answered⟩ := Option.bind_eq_some_iff.mp entered
    have there : state.chans[chan]? = some entry := found
    simp only [there, Option.isSome_none, Bool.false_eq_true, if_false]
    split at answered
    · rename_i closed
      cases answered
      rw [if_pos closed]
      exact .of_ledger rfl
    · rename_i open_
      rw [if_neg open_]
      refine Flows.then_quiet (Flows.after_quiet (flows_settleChan _ chan) ?_)
        (mild_immediate answered).ledger
      exact ledger_modifyChan _ chan _ fun _ => ⟨rfl, rfl, rfl⟩

theorem flows_recv {chan : ChanId} (entered : state.recv me chan = some turn) :
    Flows state (state.traffic (.recv me chan)) turn.state := by
  unfold State.recv at entered
  rw [traffic]
  cases refusal : state.refused me with
  | some resolved =>
    simp only [refusal] at entered
    cases entered
    exact .refl
  | none =>
    simp only [refusal] at entered
    obtain ⟨entry, found, answered⟩ := Option.bind_eq_some_iff.mp entered
    refine Flows.then_quiet (Flows.after_quiet (flows_settleChan _ chan) ?_)
      (mild_immediate answered).ledger
    exact ledger_modifyChan _ chan _ fun _ => ⟨rfl, rfl, rfl⟩

theorem flows_close {chan : ChanId} (closed : state.close chan = some next) :
    Flows state (state.traffic (.close chan)) next := by
  obtain ⟨entry, found, rfl⟩ := Option.map_eq_some_iff.mp closed
  simp only [traffic, found]
  split
  · exact .refl
  · refine Flows.after_quiet (flows_settleChan _ chan) ?_
    refine (Mild.foldl (fun acting (pair : TaskId × Value Data) =>
      mild_makeReady acting pair.1 .closed) _).ledger.trans ?_
    exact ledger_modifyChan _ chan _ fun _ => ⟨rfl, rfl, rfl⟩

theorem flows_commitArm {arm : Nat} {chan : ChanId}
    (entered : state.commitArm me arm chan = some turn) :
    Flows state (state.takeLog chan me) turn.state := by
  obtain ⟨entry, found, answered⟩ := Option.bind_eq_some_iff.mp entered
  split at answered
  · rename_i drained
    cases answered
    obtain ⟨no_buf, no_senders⟩ := drained
    have silent : state.takeLog chan me = [] := by
      simp only [takeLog, found, List.isEmpty_iff.mp no_buf, List.isEmpty_iff.mp no_senders]
    rw [silent]
    exact .refl
  · obtain ⟨⟨⟨value, vc⟩, after⟩, taken, rfl⟩ := Option.map_eq_some_iff.mp answered
    exact (flows_takeMessage me taken).then_quiet (ledger_of_chans (chans_hbEdge _ vc me))

theorem flows_select {arms : List (Nat × ChanId)} {timeout : Option (Nat × Nat)}
    (entered : state.select me arms timeout = some turn) :
    Flows state (state.traffic (.select me arms timeout)) turn.state := by
  rw [traffic]
  cases selected_of_select entered with
  | refused refusal apart =>
    rw [apart]
    exact .refl
  | @waits ops _ _ apart =>
    rw [apart]
    exact .of_ledger (mild_registerSelect { state with ops } me arms timeout).ledger
  | timed apart =>
    rw [apart]
    exact .of_ledger rfl
  | commits chosen committing =>
    rw [chosen]
    exact (flows_commitArm committing).after_quiet rfl

/-- A new channel has the ledger of a channel to come. -/
theorem ledger_newChan (state : State Data) (cap : Nat) :
    (state.newChan cap).2.ledger = state.ledger := by
  funext other
  change ((state.chans ++ [({ cap := cap } : Chan Data)])[other]?).elim _ _ = _
  rw [ledger, List.getElem?_append]
  split
  · rfl
  · rename_i beyond
    rw [List.getElem?_eq_none (Nat.le_of_not_lt beyond)]
    cases other - state.chans.length <;> rfl

theorem flows_monitor {proc : ProcId} {chan : ChanId}
    (monitored : state.monitor proc = some (chan, next)) :
    Flows state (state.traffic (.monitor proc)) next := by
  obtain ⟨entry, found, answered⟩ := Option.map_eq_some_iff.mp monitored
  have exited : state.exitOf proc = entry.exited := by
    change (state.procs[proc]?).bind Proc.exited = entry.exited
    have there : state.procs[proc]? = some entry := found
    rw [there]
    rfl
  have opened := ledger_newChan state (2 ^ 64 - 1)
  rw [traffic, exited]
  split at answered
  · rename_i running
    cases answered
    rw [running]
    exact .of_ledger opened
  · rename_i reason known
    cases answered
    rw [known]
    have there : (state.chans ++ [({ cap := 2 ^ 64 - 1 } : Chan Data)])[state.chans.length]? =
        some { cap := 2 ^ 64 - 1 } := by simp
    refine Flows.after_quiet (Flows.modifyChan (by exact there) _ ?_ ?_ ?_ ?_) ?_
    · exact fun other differs => by simp [sentOn, handedOn, differs.symm]
    · simp [sentOn, handedOn, exitMessage]
    · simp [sentOn]
    · simp [handedOn]
    · exact opened

/-- What a door does to messages is what its log says. -/
theorem flows_enter {op : Op Data} (entered : state.enter op = some turn) :
    Flows state (state.traffic op) turn.state := by
  cases entered_of_enter entered with
  | send sent => exact flows_send sent
  | recv received => exact flows_recv received
  | select selected => exact flows_select selected
  | close closed => exact flows_close closed
  | monitor monitored => exact flows_monitor monitored
  | deliverPending => exact flows_publishPending state
  | @newChan cap => exact .of_ledger (ledger_newChan state cap)
  | acquire acquired =>
    obtain ⟨_, rfl⟩ | ⟨_, rfl, ⟨_, rfl⟩ | rfl⟩ := acquire_cases acquired <;> exact .of_ledger rfl
  | release released =>
    obtain ⟨entry, _, answered⟩ := Option.bind_eq_some_iff.mp released
    split at answered
    · cases answered
    · split at answered
      · cases answered
        exact .of_ledger rfl
      · cases answered
        exact .of_ledger (mild_makeReady _ _ _).ledger
  | @spawnTask parent scope name tcb =>
    exact .of_ledger (ledger_of_chans (chans_spawnTask state parent scope tcb.proc name))
  | @joinScope me _ _ joined =>
    obtain ⟨entry, _, ⟨_, rfl⟩ | rfl⟩ := joinScope_cases joined
    · refine .of_ledger (Mild.foldl (fun acting child => ?_) _).ledger
      exact mild_hbEdge acting _ me
    · exact .of_ledger rfl
  | @cancelScope _ entry => exact .of_ledger (mild_cancelAll state entry.children).ledger
  | @endTask me ended _ _ finished =>
    obtain ⟨tcb, _, answered⟩ := Option.map_eq_some_iff.mp finished
    have recorded := ledger_recordEnd (state.op me (.taskCtl me) false) me tcb.scope
      (TaskEnd.settled ended tcb.cancelled tcb.killed)
    dsimp only at answered
    split at answered
    · have exited := ledger_deliverExit ((state.op me (.taskCtl me) false).recordEnd me tcb.scope
        (TaskEnd.settled ended tcb.cancelled tcb.killed)) tcb.proc
        (TaskEnd.reason (TaskEnd.settled ended tcb.cancelled tcb.killed))
      rw [answered] at exited
      exact .of_ledger (exited.trans recorded)
    · cases answered
      exact .of_ledger recorded
  | @kill proc => exact .of_ledger (ledger_killProcWithin (state.procs.length + 1) state proc)
  | cancelProc => exact .of_ledger (mild_cancelAll _ _).ledger
  | @raceCheck me key lo hi write =>
    exact .of_ledger (ledger_of_chans (chans_raceCheck state me key lo hi write))
  | @atomicAccess me key lo hi write =>
    exact .of_ledger (ledger_of_chans (chans_atomicAccess state me key lo hi write))
  | newMutex | openScope | dispatchNext | spawnProc | link | netYield | sleepPark | reseed
  | elapse => exact .of_ledger rfl

/-- One step moves the messages its log says. -/
theorem flows_step {op : Op Data} (performed : State.step state op = some next) :
    Flows state (state.traffic op) next := by
  obtain ⟨⟨answer, after⟩, answered, rfl⟩ := Option.map_eq_some_iff.mp performed
  obtain ⟨turn, entered, turned⟩ := Option.map_eq_some_iff.mp answered
  unfold door at entered
  split at entered
  · refine (flows_enter entered).then_quiet ?_
    rw [← ledger_settleTurn, turned]
  · cases entered

/-- A run moves the messages its log says. -/
theorem flows_run (ops : List (Op Data)) (run : exec State.step state ops = some next) :
    Flows state (state.runTraffic ops) next := by
  induction ops generalizing state with
  | nil =>
    cases run
    exact .refl
  | cons op ops induction =>
    obtain ⟨middle, performed, rest⟩ := Option.bind_eq_some_iff.mp run
    rw [runTraffic, performed]
    exact (flows_step performed).trans (induction rest)

end Doors

end State

end WolfInterp.Sched
