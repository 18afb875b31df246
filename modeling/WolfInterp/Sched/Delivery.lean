import WolfInterp.Sched.Sessions

/-!
# Delivery on channels

On every channel the values that reach receivers are the values of the completed sends in the order
they completed, with those still in the buffer left over at the end. What a task is answered tells
what became of its message: a send that returns a value has sent it once, one that returns an error
has sent nothing, and a receiver is answered the one value that it was handed. Callers keep to their
contract: a join cut short that is still registered answers a later wait.
-/

namespace WolfInterp.Sched

open Execution

variable {Data : Type}

namespace World

variable {world next : World Data}

/-- The scheduler runs on beside the account. -/
theorem step_sched {op : Op Data} (performed : step world op = some next) :
    State.step world.sched op = some next.sched := by
  obtain ⟨⟨answer, after⟩, answered, rfl⟩ := Option.map_eq_some_iff.mp performed
  obtain ⟨_, turn, admitted, entered, settled⟩ := perform_eq answered
  obtain ⟨_, rfl⟩ := Prod.mk.inj settled
  have opened : world.sched.door op = some turn := by
    rw [State.door, if_pos admitted]
    exact entered
  rw [State.step, silence, State.perform, opened]
  rfl

theorem exec_sched (ops : List (Op Data)) (run : exec step world ops = some next) :
    exec State.step world.sched ops = some next.sched := by
  induction ops generalizing world with
  | nil =>
    cases run
    rfl
  | cons op ops induction =>
    obtain ⟨middle, performed, rest⟩ := Option.bind_eq_some_iff.mp run
    rw [exec_cons, step_sched performed]
    exact induction rest

end World

/-- What has been delivered on the channels when a run has logged its traffic, and what the doors
answer of it from here on. -/
structure Delivered (perform : World Data → Op Data → Option (Answer Data × World Data))
    (log : List (Traffic Data)) (world : World Data) : Prop where
  fifo : ∀ chan, handedOn chan log <+: sentOn chan log
  buffered : ∀ (chan : ChanId) (entry : Chan Data), world.sched.chans[chan]? = some entry →
    sentOn chan log = handedOn chan log ++ entry.buf.map Prod.fst ∧
      entry.recvs + entry.buf.length = entry.sends
  waiting : ∀ task door, world.calls task = some door →
    Paid task door (world.sched.board.wake task) (world.dealt task)
  settles : ∀ op answer next, perform world op = some (answer, next) →
    world.Settles op answer next

/-- Delivery is in order, without loss and without duplication, and every answer tells what has been
sent and handed on. -/
theorem fifo_delivery (chooser : Chooser) (ops : List (Op Data)) {world : World Data}
    (run : exec World.step (World.initial chooser) ops = some world) :
    Delivered World.perform ((initial chooser).runTraffic ops) world := by
  have sound := World.sound_run chooser ops run
  have flows := State.flows_run ops (World.exec_sched ops run)
  have empty : ∀ chan, (initial chooser : State Data).ledger chan = ([], 0, 0) := fun chan => by
    simp [State.ledger, initial]
  have values : ∀ chan, handedOn chan ((initial chooser).runTraffic ops) ++
      (world.sched.ledger chan).1 = sentOn chan ((initial chooser).runTraffic ops) := by
    intro chan
    have kept := flows.values chan
    rw [show (World.initial chooser : World Data).sched = initial chooser from rfl, empty] at kept
    exact kept
  constructor
  · exact fun chan => ⟨_, values chan⟩
  · intro chan entry found
    have shown : world.sched.ledger chan = (entry.buf.map Prod.fst, entry.sends, entry.recvs) := by
      rw [State.ledger, found]
      rfl
    have kept := values chan
    have sends := flows.sends chan
    have recvs := flows.recvs chan
    rw [show (World.initial chooser : World Data).sched = initial chooser from rfl, empty, shown]
      at sends recvs
    rw [shown] at kept
    refine ⟨kept.symm, ?_⟩
    have lengths := congrArg List.length kept
    simp only [List.length_append, List.length_map] at lengths
    simp only [Nat.zero_add] at sends recvs
    rw [sends, recvs]
    omega
  · exact sound.sane.paid
  · exact fun op answer next performed => (World.sound_perform sound performed).2

/-- A message goes through a buffered channel from one task to another. -/
def handover : List (Op Unit) :=
  [.newChan 1, .spawnTask 0 none "receiver", .send 0 0 (.data ()), .netYield 0, .recv 1 0]

theorem fifo_delivery_handover :
    ∃ world, exec World.step (World.initial (.seeded 0 0)) handover = some world ∧
      Delivered World.perform ((initial (.seeded 0 0)).runTraffic handover) world :=
  ⟨_, rfl, fifo_delivery (.seeded 0 0) handover rfl⟩

/-- The end of the child answers the receiver, with a value that nobody has sent. -/
theorem undelivered_after_cutShort : ¬ ∀ chooser ops (world : World Unit),
    exec (silence World.unbound) (World.initial chooser) ops = some world →
      Delivered World.unbound ((initial chooser).runTraffic ops) world := by
  intro claim
  obtain ⟨world, run⟩ : ∃ world, exec (silence World.unbound) (World.initial (.seeded 0 0))
      cutShort = some world := ⟨_, rfl⟩
  have delivered := claim (.seeded 0 0) cutShort world run
  cases run
  have paid :=
    (delivered.settles .dispatchNext _ _ rfl).told 0 (.ok .unit) (.recv 0 0) ⟨rfl, rfl⟩ rfl
  change Paid 0 (.recv 0 0) (some (.ok .unit)) [] at paid
  cases paid with
  | quiet quiet => exact quiet

end WolfInterp.Sched
