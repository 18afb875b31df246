import WolfInterp.Sched.Links
import WolfInterp.Sched.Traffic

/-!
# Exit reasons and regions

The books of a run: which exits it has recorded, which regions it has handed to the caller, which
reasons it has delivered and which are parked. A monitor of an exited proc has its reason either
delivered or parked, never both and never twice, and a parked reason is that of an exit whose region
is handed over already.
-/

namespace WolfInterp.Sched

open Execution

variable {Data : Type}

/-- The exit reasons delivered on a channel. -/
def reasonsOn (chan : ChanId) (log : List (Traffic Data)) : List (Value Data) :=
  log.filterMap fun event =>
    match event with
    | .sent none other value => if other = chan then some value else none
    | .sent (some _) .. => none
    | .handed .. => none

@[simp]
theorem reasonsOn_nil (chan : ChanId) : reasonsOn chan ([] : List (Traffic Data)) = [] := rfl

@[simp]
theorem reasonsOn_append (chan : ChanId) (first second : List (Traffic Data)) :
    reasonsOn chan (first ++ second) = reasonsOn chan first ++ reasonsOn chan second :=
  List.filterMap_append ..

/-- What a parked exit holds for a channel: its reason, once for each registration. -/
def addressed (chan : ChanId) (notice : ProcId × Value Data × List ChanId) : List (Value Data) :=
  List.replicate (notice.2.2.count chan) notice.2.1

/-- The regions that an answer hands to the caller for freeing. -/
def Answer.handedOver : Answer Data → List RegionId
  | .regions freed => freed
  | _ => []

def Turn.handedOver : Turn Data → List RegionId
  | .keeps answer _ => answer.handedOver
  | _ => []

namespace State

/-- The reasons parked for a channel. -/
def parkedFor (state : State Data) (chan : ChanId) : List (Value Data) :=
  (state.pending.map PendingExit.notice).flatMap (addressed chan)

/-- What the monitors of a proc are owed by now. -/
def due (state : State Data) (proc : ProcId) : List (Value Data) :=
  (state.exitOf proc).elim [] fun reason => [exitMessage reason]

/-- The regions handed over by a run, in order. -/
def runRegions : State Data → List (Op Data) → List RegionId
  | _, [] => []
  | state, op :: ops =>
    match state.perform op with
    | none => []
    | some (answer, next) => answer.handedOver ++ runRegions next ops

/-! ## Who delivers reasons -/

section Logs

variable {state next : State Data} (chan : ChanId)

theorem reasonsOn_fillLog (fuel : Nat) (state : State Data) (here : ChanId) :
    reasonsOn chan (state.fillLog fuel here) = [] := by
  induction fuel generalizing state with
  | zero => rfl
  | succ fuel induction =>
    rw [fillLog]
    split
    · rfl
    · split
      · rfl
      · split
        · exact induction _
        · rfl

theorem reasonsOn_takeLog (state : State Data) (here : ChanId) (receiver : TaskId) :
    reasonsOn chan (state.takeLog here receiver) = [] := by
  rw [takeLog]
  split
  · rfl
  · split <;> rfl

theorem reasonsOn_settleLoopLog (fuel : Nat) (state : State Data) (here : ChanId) :
    reasonsOn chan (state.settleLoopLog fuel here) = [] := by
  induction fuel generalizing state with
  | zero => rfl
  | succ fuel induction =>
    rw [settleLoopLog, reasonsOn_append, reasonsOn_fillLog, List.nil_append]
    split
    · rfl
    · split
      · rfl
      · split
        · rfl
        · rw [reasonsOn_append, reasonsOn_takeLog, induction]
          rfl

theorem reasonsOn_settleLog (state : State Data) (here : ChanId) :
    reasonsOn chan (state.settleLog here) = [] :=
  reasonsOn_settleLoopLog chan _ state here

/-- A publication delivers its reason to the one monitor. -/
theorem reasonsOn_publishLog (actor : TaskId) (exit : PendingExit Data) {here : ChanId}
    (known : here < state.chans.length) : reasonsOn chan (publishLog actor exit state here) =
      if here = chan then [exit.message] else [] := by
  rw [publishLog, List.getElem?_eq_getElem known]
  dsimp only
  rw [← List.singleton_append, reasonsOn_append, reasonsOn_settleLog, List.append_nil]
  by_cases same : here = chan <;> simp [reasonsOn, same]

theorem reasonsOn_publishes (actor : TaskId) (exit : PendingExit Data) (monitors : List ChanId)
    (state : State Data) (known : ∀ here ∈ monitors, here < state.chans.length) :
    reasonsOn chan (foldLog (publish actor exit) (publishLog actor exit) monitors state) =
      List.replicate (monitors.count chan) exit.message := by
  induction monitors generalizing state with
  | nil => rfl
  | cons here monitors induction =>
    have kept := (quiet_publish state actor exit here).chans
    have later := induction (publish actor exit state here) fun other member => by
      rw [kept]
      exact known other (List.mem_cons_of_mem here member)
    rw [foldLog, reasonsOn_append, later, reasonsOn_publishLog chan actor exit
      (known here List.mem_cons_self), List.count_cons]
    by_cases same : here = chan
    · subst same
      simp [List.replicate_succ]
    · simp [same]

/-- A publication of all parked exits delivers exactly what was parked. -/
theorem reasonsOn_publishPendingLog
    (known : ∀ exit ∈ state.pending, ∀ here ∈ exit.monitors, here < state.chans.length) :
    reasonsOn chan state.publishPendingLog = state.parkedFor chan := by
  have each : ∀ (exits : List (PendingExit Data)) (acting : State Data),
      (∀ exit ∈ exits, ∀ here ∈ exit.monitors, here < acting.chans.length) →
      reasonsOn chan (foldLog
        (fun acting exit => exit.monitors.foldl (publish state.actor exit) acting)
        (fun acting exit => foldLog (publish state.actor exit) (publishLog state.actor exit)
          exit.monitors acting) exits acting) =
      (exits.map PendingExit.notice).flatMap (addressed chan) := by
    intro exits
    induction exits with
    | nil => exact fun _ _ => rfl
    | cons exit exits induction =>
      intro acting known
      have still : Still acting (exit.monitors.foldl (publish state.actor exit) acting) :=
        Still.foldl (fun acting here => (quiet_publish acting state.actor exit here).toStill) _
      have later := induction _ fun other member here registered => by
        rw [still.chans]
        exact known other (List.mem_cons_of_mem exit member) here registered
      rw [foldLog, reasonsOn_append, later,
        reasonsOn_publishes chan state.actor exit exit.monitors acting
          (known exit List.mem_cons_self)]
      rfl
  exact each state.pending _ known

end Logs

/-! ## What each door does to the books -/

section Doors

variable {state next : State Data} {op : Op Data} {turn : Turn Data}

theorem reasonsOn_traffic (untouched : op.touchesProcs = false) (chan : ChanId) :
    reasonsOn chan (state.traffic op) = [] := by
  cases op with
  | send me here value =>
    rw [traffic]
    split
    · rfl
    · split
      · rfl
      · split
        · rfl
        · exact reasonsOn_settleLog chan _ here
  | recv me here =>
    rw [traffic]
    split
    · rfl
    · exact reasonsOn_settleLog chan _ here
  | select me arms timeout =>
    rw [traffic]
    cases state.committed me arms timeout with
    | none => rfl
    | some here => exact reasonsOn_takeLog chan state here me
  | close here =>
    rw [traffic]
    split
    · rfl
    · split
      · rfl
      · exact reasonsOn_settleLog chan _ here
  | spawnProc _ _ _ | monitor _ | link _ _ | kill _ | endTask _ _ | deliverPending =>
    cases untouched
  | _ => rfl

theorem handedOver_resume (state : State Data) (task : TaskId) :
    (state.resume task).1.handedOver = [] := rfl

theorem handedOver_runNext (choice : Option TaskId × State Data) :
    (runNext choice).1.handedOver = [] := by
  obtain ⟨_ | task, state⟩ := choice
  · rfl
  · exact handedOver_resume state task

/-- Passing the baton on hands no region over. -/
theorem handedOver_settleTurn (turn : Turn Data) :
    (settleTurn turn).1.handedOver = turn.handedOver := by
  cases turn with
  | keeps answer state => rfl
  | parks me state =>
    change (state.park me).1.handedOver = []
    rw [park]
    split
    · exact handedOver_resume _ _
    · exact handedOver_runNext _
  | hands state =>
    change state.dispatchNext.1.handedOver = []
    rw [dispatchNext]
    split
    · exact handedOver_resume _ _
    · split
      · rfl
      · exact handedOver_runNext _

theorem handedOver_immediate {me : TaskId} (answered : state.immediate me = some turn) :
    turn.handedOver = [] := by
  rw [immediate] at answered
  split at answered
  · cases answered
    rfl
  · obtain ⟨resolved, _, rfl⟩ := Option.map_eq_some_iff.mp answered
    rfl

theorem handedOver_select {me : TaskId} {arms : List (Nat × ChanId)} {timeout : Option (Nat × Nat)}
    (entered : state.select me arms timeout = some turn) : turn.handedOver = [] := by
  rw [State.select] at entered
  split at entered
  · cases entered
    rfl
  · dsimp only at entered
    split at entered
    · cases entered
    · split at entered
      · cases entered
        rfl
      · obtain ⟨arm, _, answered⟩ := Option.bind_eq_some_iff.mp entered
        split at answered
        · cases answered
          rfl
        · obtain ⟨pair, _, committing⟩ := Option.bind_eq_some_iff.mp answered
          obtain ⟨entry, _, taking⟩ := Option.bind_eq_some_iff.mp committing
          split at taking
          · cases taking
            rfl
          · obtain ⟨_, _, rfl⟩ := Option.map_eq_some_iff.mp taking
            rfl

/-- Only a kill and a task's end hand regions over. -/
theorem handedOver_enter (unkilled : ∀ proc, op ≠ .kill proc)
    (running : ∀ me ended, op ≠ .endTask me ended) (entered : state.enter op = some turn) :
    turn.handedOver = [] := by
  cases entered_of_enter entered with
  | @kill proc => exact absurd rfl (unkilled proc)
  | @endTask me ended => exact absurd rfl (running me ended)
  | send sent =>
    rw [State.send] at sent
    split at sent
    · cases sent
      rfl
    · obtain ⟨entry, _, answered⟩ := Option.bind_eq_some_iff.mp sent
      split at answered
      · cases answered
        rfl
      · exact handedOver_immediate answered
  | recv received =>
    rw [State.recv] at received
    split at received
    · cases received
      rfl
    · obtain ⟨entry, _, answered⟩ := Option.bind_eq_some_iff.mp received
      exact handedOver_immediate answered
  | select selected => exact handedOver_select selected
  | acquire acquired =>
    obtain ⟨_, rfl⟩ | ⟨_, rfl, ⟨_, rfl⟩ | rfl⟩ := acquire_cases acquired <;> rfl
  | joinScope joined =>
    obtain ⟨entry, _, ⟨_, rfl⟩ | rfl⟩ := joinScope_cases joined <;> rfl
  | _ => rfl

theorem handedOver_perform (unkilled : ∀ proc, op ≠ .kill proc)
    (running : ∀ me ended, op ≠ .endTask me ended) {answer : Answer Data}
    (performed : state.perform op = some (answer, next)) : answer.handedOver = [] := by
  obtain ⟨turn, _, entered, turned⟩ := entered_of_perform performed
  have handed := handedOver_settleTurn turn
  rw [turned, handedOver_enter unkilled running entered] at handed
  exact handed

end Doors

/-! ## The books -/

/-- The exits, regions and reasons of a run so far, beside the state it has reached. -/
structure Books (state : State Data) (log : List (Traffic Data)) (regions : List RegionId)
    (exits : List (ProcId × ExitReason Data)) : Prop where
  nodup : (exits.map Prod.fst).Nodup
  recorded : ∀ proc reason, (proc, reason) ∈ exits ↔ state.exitOf proc = some reason
  regions : regions = exits.flatMap fun exit => (state.regionOf exit.1).toList
  opened : ∀ proc chan, chan ∈ state.monitorsOf proc → chan < state.chans.length
  single : ∀ proc other chan, chan ∈ state.monitorsOf proc → chan ∈ state.monitorsOf other →
    proc = other
  once : ∀ proc, (state.monitorsOf proc).Nodup
  parked : ∀ exit ∈ state.pending, (state.exitOf exit.proc).isSome = true ∧
    ∀ chan ∈ exit.monitors, chan ∈ state.monitorsOf exit.proc
  served : ∀ proc chan, chan ∈ state.monitorsOf proc →
    reasonsOn chan log ++ state.parkedFor chan = state.due proc
  unasked : ∀ chan, (∀ proc, chan ∉ state.monitorsOf proc) →
    reasonsOn chan log ++ state.parkedFor chan = []

section Keeping

variable {state next : State Data} {log : List (Traffic Data)} {regions : List RegionId}
  {exits : List (ProcId × ExitReason Data)}

/-- The books of states that agree on procs and parked exits. -/
theorem Books.congr (books : Books state log regions exits)
    (exited : ∀ proc, next.exitOf proc = state.exitOf proc)
    (monitors : ∀ proc, next.monitorsOf proc = state.monitorsOf proc)
    (owned : ∀ proc, (state.exitOf proc).isSome = true →
      next.regionOf proc = state.regionOf proc) (pending : next.pending = state.pending)
    (chans : state.chans.length ≤ next.chans.length) :
    Books next log regions exits where
  nodup := books.nodup
  recorded proc reason := by rw [exited, books.recorded]
  regions := by
    rw [books.regions]
    refine List.flatMap_congr fun exit member => ?_
    rw [owned]
    rw [(books.recorded exit.1 exit.2).mp member]
    rfl
  opened proc chan member := by
    rw [monitors] at member
    exact (books.opened proc chan member).trans_le chans
  single proc other chan := by
    rw [monitors, monitors]
    exact books.single proc other chan
  once proc := by
    rw [monitors]
    exact books.once proc
  parked exit member := by
    rw [pending] at member
    rw [exited, monitors]
    exact books.parked exit member
  served proc chan member := by
    rw [monitors] at member
    rw [due, exited, parkedFor, pending]
    exact books.served proc chan member
  unasked chan unmonitored := by
    simp only [monitors] at unmonitored
    rw [parkedFor, pending]
    exact books.unasked chan unmonitored

/-- Traffic that delivers no reason changes nothing in the books. -/
theorem Books.silent (books : Books state log regions exits) {more : List (Traffic Data)}
    (quiet : ∀ chan, reasonsOn chan more = []) : Books state (log ++ more) regions exits :=
  { books with
    served proc chan member := by
      rw [reasonsOn_append, quiet, List.append_nil]
      exact books.served proc chan member
    unasked chan unmonitored := by
      rw [reasonsOn_append, quiet, List.append_nil]
      exact books.unasked chan unmonitored }

theorem Books.kept (books : Books state log regions exits) (kept : Kept state next) :
    Books next log regions exits := by
  refine books.congr (exitOf_of_procs kept.procs) ?_ ?_ kept.pending kept.chans
  · intro proc
    rw [monitorsOf, kept.procs, monitorsOf]
  · intro proc _
    rw [regionOf, kept.procs, regionOf]

/-- A list without repetitions picks one entry out of what is due to each. -/
theorem flatMap_single {Entry Key Item : Type} (key : Entry → Key) {entries : List Entry}
    (nodup : (entries.map key).Nodup) {entry : Entry} (member : entry ∈ entries)
    {items : Entry → List Item}
    (others : ∀ other ∈ entries, key other ≠ key entry → items other = []) :
    entries.flatMap items = items entry := by
  induction entries with
  | nil => cases member
  | cons first entries induction =>
    obtain ⟨apart, rest⟩ := List.nodup_cons.mp nodup
    rw [List.flatMap_cons]
    rcases List.mem_cons.mp member with rfl | later
    · have none_later : entries.flatMap items = [] := by
        refine List.flatMap_eq_nil_iff.mpr fun other there => ?_
        refine others other (List.mem_cons_of_mem _ there) fun same => apart ?_
        rw [← same]
        exact List.mem_map_of_mem there
      rw [none_later, List.append_nil]
    · have differs : key first ≠ key entry := fun same => apart (by
        rw [same]
        exact List.mem_map_of_mem later)
      rw [others first List.mem_cons_self differs, List.nil_append]
      exact induction rest later fun other there => others other (List.mem_cons_of_mem _ there)

theorem parkedFor_exits {more : List (ProcId × ExitReason Data)} {freed : List RegionId}
    (ended : Exits state more freed next) (chan : ChanId) :
    next.parkedFor chan = state.parkedFor chan ++ more.flatMap fun exit =>
      List.replicate ((state.monitorsOf exit.1).count chan) (exitMessage exit.2) := by
  rw [parkedFor, ended.pending, List.flatMap_append, ← parkedFor, List.flatMap_map]
  rfl

/-- Exits are entered in the books with their regions; their reasons are parked. -/
theorem Books.ended (books : Books state log regions exits) {more : List (ProcId × ExitReason Data)}
    {freed : List RegionId} (ended : Exits state more freed next) :
    Books next log (regions ++ freed) (exits ++ more) where
  nodup := by
    rw [List.map_append, List.nodup_append']
    refine ⟨books.nodup, ended.nodup, fun proc early late => ?_⟩
    obtain ⟨⟨_, reason⟩, before, rfl⟩ := List.mem_map.mp early
    obtain ⟨exit, after, same⟩ := List.mem_map.mp late
    have open_ := (ended.alive exit after).2
    rw [same, (books.recorded _ reason).mp before] at open_
    cases open_
  recorded proc reason := by
    rw [List.mem_append, books.recorded]
    constructor
    · rintro (known | member)
      · exact ended.kept known
      · exact ended.exitOf_of_mem member
    · intro known
      by_cases member : proc ∈ more.map Prod.fst
      · obtain ⟨⟨_, other⟩, there, rfl⟩ := List.mem_map.mp member
        rw [ended.exitOf_of_mem there] at known
        cases known
        exact .inr there
      · rw [ended.exitOf_of_not_mem member] at known
        exact .inl known
  regions := by
    rw [books.regions, ended.regions, List.flatMap_append]
    simp only [ended.regionOf]
  opened proc chan member := by
    rw [ended.monitorsOf] at member
    rw [ended.chans]
    exact books.opened proc chan member
  single proc other chan := by
    rw [ended.monitorsOf, ended.monitorsOf]
    exact books.single proc other chan
  once proc := by
    rw [ended.monitorsOf]
    exact books.once proc
  parked exit member := by
    have noticed : exit.notice ∈ next.pending.map PendingExit.notice :=
      List.mem_map_of_mem member
    rw [ended.pending, List.mem_append] at noticed
    rcases noticed with earlier | fresh
    · obtain ⟨old, there, same⟩ := List.mem_map.mp earlier
      obtain ⟨same, _, monitors⟩ : old.proc = exit.proc ∧ old.message = exit.message ∧
          old.monitors = exit.monitors := by simpa [PendingExit.notice] using same
      obtain ⟨gone, registered⟩ := books.parked old there
      obtain ⟨reason, known⟩ := Option.isSome_iff_exists.mp gone
      rw [same] at known registered
      rw [monitors] at registered
      refine ⟨by rw [ended.kept known]; rfl, ?_⟩
      rw [ended.monitorsOf]
      exact registered
    · obtain ⟨⟨proc, reason⟩, there, same⟩ := List.mem_map.mp fresh
      obtain ⟨same, _, monitors⟩ : proc = exit.proc ∧ exitMessage reason = exit.message ∧
          state.monitorsOf proc = exit.monitors := by simpa [PendingExit.notice] using same
      subst same
      refine ⟨by rw [ended.exitOf_of_mem there]; rfl, ?_⟩
      rw [ended.monitorsOf, ← monitors]
      exact fun _ registered => registered
  served proc chan member := by
    rw [ended.monitorsOf] at member
    rw [parkedFor_exits ended, ← List.append_assoc, books.served proc chan member]
    -- only an exit of this proc has a reason for the channel
    have others : ∀ exit ∈ more, exit.1 ≠ proc →
        List.replicate ((state.monitorsOf exit.1).count chan) (exitMessage exit.2) = [] := by
      intro exit _ differs
      rw [List.count_eq_zero_of_not_mem, List.replicate_zero]
      exact fun registered => differs (books.single _ _ chan registered member)
    by_cases gone : proc ∈ more.map Prod.fst
    · obtain ⟨⟨_, reason⟩, there, rfl⟩ := List.mem_map.mp gone
      rw [flatMap_single Prod.fst ended.nodup there others, due, due, ended.exitOf_of_mem there,
        (ended.alive _ there).2, List.count_eq_one_of_mem (books.once _) member]
      rfl
    · rw [List.flatMap_eq_nil_iff.mpr, List.append_nil, due, due, ended.exitOf_of_not_mem gone]
      intro exit there
      refine others exit there fun same => gone ?_
      rw [← same]
      exact List.mem_map_of_mem there
  unasked chan unmonitored := by
    simp only [ended.monitorsOf] at unmonitored
    rw [parkedFor_exits ended, ← List.append_assoc, books.unasked chan unmonitored,
      List.nil_append]
    refine List.flatMap_eq_nil_iff.mpr fun exit _ => ?_
    rw [List.count_eq_zero_of_not_mem (unmonitored exit.1), List.replicate_zero]

/-- A publication delivers what was parked. -/
theorem Books.published (books : Books state log regions exits) (procs : next.procs = state.procs)
    (pending : next.pending = []) (chans : next.chans.length = state.chans.length) :
    Books next (log ++ state.publishPendingLog) regions exits := by
  have exited := exitOf_of_procs procs
  have monitors : ∀ proc, next.monitorsOf proc = state.monitorsOf proc := by
    intro proc
    rw [monitorsOf, procs, monitorsOf]
  have delivered : ∀ chan, reasonsOn chan state.publishPendingLog = state.parkedFor chan := by
    intro chan
    refine reasonsOn_publishPendingLog chan fun exit member here registered => ?_
    exact books.opened _ here ((books.parked exit member).2 here registered)
  have emptied : ∀ chan, next.parkedFor chan = [] := by
    intro chan
    rw [parkedFor, pending]
    rfl
  refine { books with
    recorded := ?_, regions := ?_, opened := ?_, single := ?_, once := ?_, parked := ?_
    served := ?_, unasked := ?_ }
  · intro proc reason
    rw [exited, books.recorded]
  · rw [books.regions]
    simp only [regionOf, procs]
  · intro proc chan
    rw [monitors, chans]
    exact books.opened proc chan
  · intro proc other chan
    rw [monitors, monitors]
    exact books.single proc other chan
  · intro proc
    rw [monitors]
    exact books.once proc
  · rw [pending]
    exact fun _ member => absurd member List.not_mem_nil
  · intro proc chan member
    rw [monitors] at member
    rw [reasonsOn_append, delivered, emptied, List.append_nil, due, exited]
    exact books.served proc chan member
  · intro chan unmonitored
    simp only [monitors] at unmonitored
    rw [reasonsOn_append, delivered, emptied, List.append_nil]
    exact books.unasked chan unmonitored

variable {proc : ProcId}

theorem monitorsOf_modify {chan : ChanId} (inside : proc < state.procs.length)
    (changed : next.procs = state.procs.modify proc fun entry =>
      { entry with monitors := entry.monitors ++ [chan] }) (other : ProcId) :
    next.monitorsOf other = state.monitorsOf other ++ if proc = other then [chan] else [] := by
  rw [monitorsOf, monitorsOf, changed, List.getElem?_modify]
  by_cases here : proc = other
  · subst here
    simp [List.getElem?_eq_getElem inside]
  · cases state.procs[other]? <;> simp [here]

theorem regionOf_modify {chan : ChanId} (changed : next.procs = state.procs.modify proc fun entry =>
      { entry with monitors := entry.monitors ++ [chan] }) (other : ProcId) :
    next.regionOf other = state.regionOf other := by
  rw [regionOf, regionOf, changed, List.getElem?_modify]
  cases state.procs[other]? with
  | none => rfl
  | some entry => by_cases here : proc = other <;> simp [here]

/-- A registration opens a channel, and delivers at once when the proc is gone already. -/
theorem Books.monitored (books : Books state log regions exits) (inside : proc < state.procs.length)
    (changed : next.procs = state.procs.modify proc fun entry =>
      { entry with monitors := entry.monitors ++ [state.chans.length] })
    (pending : next.pending = state.pending) (chans : next.chans.length = state.chans.length + 1) :
    Books next (log ++ state.traffic (.monitor proc)) regions exits := by
  have exited : ∀ other, next.exitOf other = state.exitOf other := fun other =>
    (modified_proc (fun _ => by exact ⟨rfl, rfl⟩) changed other).2
  have monitors := monitorsOf_modify inside changed
  have unused : ∀ other, state.chans.length ∉ state.monitorsOf other := fun other member =>
    (books.opened other _ member).false
  have parked : ∀ chan, next.parkedFor chan = state.parkedFor chan := by
    intro chan
    rw [parkedFor, pending, parkedFor]
  have delivered : ∀ chan, reasonsOn chan (state.traffic (.monitor proc)) =
      if state.chans.length = chan then state.due proc else [] := by
    intro chan
    rw [traffic, due]
    cases state.exitOf proc with
    | none => simp
    | some reason => by_cases here : state.chans.length = chan <;> simp [reasonsOn, here]
  have mem_monitors : ∀ other chan, chan ∈ next.monitorsOf other ↔
      chan ∈ state.monitorsOf other ∨ proc = other ∧ chan = state.chans.length := by
    intro other chan
    rw [monitors, List.mem_append]
    by_cases here : proc = other <;> simp [here]
  have before : ∀ {other chan}, chan ∈ state.monitorsOf other → state.chans.length ≠ chan :=
    fun member => (books.opened _ _ member).ne'
  refine { books with
    recorded := ?_, regions := ?_, opened := ?_, single := ?_, once := ?_, parked := ?_
    served := ?_, unasked := ?_ }
  · intro other reason
    rw [exited, books.recorded]
  · rw [books.regions]
    simp only [regionOf_modify changed]
  · intro other chan member
    rw [chans]
    rcases (mem_monitors other chan).mp member with old | ⟨_, rfl⟩
    · exact Nat.lt_succ_of_lt (books.opened other chan old)
    · exact Nat.lt_succ_self _
  · intro first second chan early late
    rcases (mem_monitors first chan).mp early with old | ⟨rfl, rfl⟩
    · rcases (mem_monitors second chan).mp late with also | ⟨_, rfl⟩
      · exact books.single first second chan old also
      · exact absurd old (unused first)
    · rcases (mem_monitors second _).mp late with also | ⟨same, _⟩
      · exact absurd also (unused second)
      · exact same
  · intro other
    rw [monitors]
    refine List.nodup_append'.mpr ⟨books.once other, ?_, fun chan old fresh => ?_⟩
    · split
      · exact List.nodup_singleton _
      · exact List.nodup_nil
    · split at fresh
      · obtain rfl := List.mem_singleton.mp fresh
        exact unused other old
      · cases fresh
  · intro exit member
    rw [pending] at member
    obtain ⟨gone, registered⟩ := books.parked exit member
    rw [exited]
    exact ⟨gone, fun chan there => (mem_monitors _ chan).mpr (.inl (registered chan there))⟩
  · intro other chan member
    have owed : next.due other = state.due other := by rw [due, exited, due]
    rw [reasonsOn_append, delivered, parked, owed]
    rcases (mem_monitors other chan).mp member with old | ⟨rfl, rfl⟩
    · rw [if_neg (before old), List.append_nil]
      exact books.served other chan old
    · have silent := books.unasked state.chans.length unused
      obtain ⟨quiet, unparked⟩ := List.append_eq_nil_iff.mp silent
      rw [quiet, unparked, if_pos rfl, List.nil_append, List.append_nil]
  · intro chan unmonitored
    have old : ∀ other, chan ∉ state.monitorsOf other := fun other member =>
      unmonitored other ((mem_monitors other chan).mpr (.inl member))
    have other : state.chans.length ≠ chan := fun same =>
      unmonitored proc ((mem_monitors proc chan).mpr (.inr ⟨rfl, same.symm⟩))
    rw [reasonsOn_append, delivered, parked, if_neg other, List.append_nil]
    exact books.unasked chan old

/-- A new proc has no monitor. -/
theorem monitorsOf_fresh {fresh : Proc Data} (unmonitored : fresh.monitors = [])
    (grown : next.procs = state.procs ++ [fresh]) (proc : ProcId) :
    next.monitorsOf proc = state.monitorsOf proc := by
  rw [monitorsOf, monitorsOf, grown, Worklist.getElem?_snoc]
  split
  · rename_i last
    rw [List.getElem?_eq_none (Nat.le_of_eq last.symm)]
    exact unmonitored
  · rfl

/-- A link changes no monitor, no region and no exit. -/
theorem found_linked {first second : ProcId} (changed : next.procs =
      ((state.procs.modify first (joinLink second)).modify second (joinLink first)))
    (proc : ProcId) : next.monitorsOf proc = state.monitorsOf proc ∧
      next.regionOf proc = state.regionOf proc ∧ next.exitOf proc = state.exitOf proc := by
  have same : ∀ (entry : Proc Data) other, (joinLink other entry).monitors = entry.monitors ∧
      (joinLink other entry).region = entry.region ∧
      (joinLink other entry).exited = entry.exited := by
    intro entry other
    unfold joinLink
    split <;> exact ⟨rfl, rfl, rfl⟩
  rw [monitorsOf, regionOf, exitOf, changed, List.getElem?_modify, List.getElem?_modify,
    monitorsOf, regionOf, exitOf]
  cases state.procs[proc]? with
  | none => exact ⟨rfl, rfl, rfl⟩
  | some entry =>
    by_cases here : first = proc <;> by_cases there : second = proc <;>
      simp [here, there, same]

/-- A registration stays. -/
theorem registered_step {op : Op Data} {answer : Answer Data}
    (performed : state.perform op = some (answer, next)) {chan : ChanId}
    (member : chan ∈ state.monitorsOf proc) : chan ∈ next.monitorsOf proc := by
  have unmoved : ∀ {acting : State Data}, acting.procs = state.procs →
      chan ∈ acting.monitorsOf proc := by
    intro acting same
    rw [monitorsOf, same]
    exact member
  cases op with
  | spawnProc parent name region =>
    rw [monitorsOf_fresh rfl (spawnProc_procs performed).1]
    exact member
  | monitor other =>
    obtain ⟨inside, changed, _⟩ := monitor_procs performed
    rw [monitorsOf_modify inside changed]
    exact List.mem_append_left _ member
  | link first second =>
    obtain ⟨_, _, changed, _⟩ := link_procs performed
    rw [(found_linked changed proc).1]
    exact member
  | kill other =>
    obtain ⟨_, _, rfl⟩ := kill_answer performed
    obtain ⟨_, ended, _⟩ := killProc_spec state other
    rw [ended.monitorsOf]
    exact member
  | endTask me ended =>
    obtain ⟨acting, _, _, kept, _, recorded, _⟩ := endTask_answer performed
    rw [recorded.monitorsOf]
    exact unmoved kept.procs
  | deliverPending => exact unmoved (deliverPending_procs performed).1
  | _ => exact unmoved (kept_perform rfl performed).procs

/-- One step keeps the books. -/
theorem books_step (books : Books state log regions exits) {op : Op Data} {answer : Answer Data}
    (performed : state.perform op = some (answer, next)) :
    ∃ more, Books next (log ++ state.traffic op) (regions ++ answer.handedOver)
      (exits ++ more) := by
  have still : state.traffic op = [] → answer.handedOver = [] →
      Books next log regions exits → ∃ more, Books next (log ++ state.traffic op)
        (regions ++ answer.handedOver) (exits ++ more) := by
    intro silent unhanded kept
    refine ⟨[], ?_⟩
    rw [silent, unhanded, List.append_nil, List.append_nil, List.append_nil]
    exact kept
  cases op with
  | spawnProc parent name region =>
    obtain ⟨grown, pending, rfl, chans⟩ := spawnProc_procs performed
    have fresh := fresh_proc rfl rfl grown
    have found : ∀ proc, proc < state.procs.length → next.procs[proc]? = state.procs[proc]? := by
      intro proc bound
      rw [grown, Worklist.getElem?_snoc, if_neg (Nat.ne_of_lt bound)]
    refine still rfl rfl (books.congr (fun proc => (fresh proc).2) (monitorsOf_fresh rfl grown)
      ?_ pending ?_)
    · intro proc gone
      rw [regionOf, regionOf, found]
      refine Nat.lt_of_not_le fun beyond => ?_
      rw [exitOf, List.getElem?_eq_none beyond] at gone
      cases gone
    · rw [chans]
  | monitor proc =>
    obtain ⟨inside, changed, pending, rfl, chans⟩ := monitor_procs performed
    refine ⟨[], ?_⟩
    change Books next _ (regions ++ []) (exits ++ [])
    rw [List.append_nil, List.append_nil]
    exact books.monitored inside changed pending chans
  | link first second =>
    obtain ⟨_, _, changed, pending, chans⟩ := link_procs performed
    have unhanded := handedOver_perform (by simp) (by simp) performed
    have found := found_linked changed
    refine still rfl unhanded (books.congr ?_ ?_ ?_ pending (by rw [chans]))
    · exact fun proc => (found proc).2.2
    · exact fun proc => (found proc).1
    · exact fun proc _ => (found proc).2.1
  | kill proc =>
    obtain ⟨_, rfl, rfl⟩ := kill_answer performed
    obtain ⟨more, ended, _⟩ := killProc_spec state proc
    refine ⟨more, ?_⟩
    change Books _ (log ++ []) _ _
    rw [List.append_nil]
    exact books.ended ended
  | endTask me ended =>
    obtain ⟨acting, more, _, kept, rfl, recorded, _⟩ := endTask_answer performed
    refine ⟨more, ?_⟩
    change Books _ (log ++ []) _ _
    rw [List.append_nil]
    exact (books.kept kept).ended recorded
  | deliverPending =>
    obtain ⟨procs, pending, rfl, chans⟩ := deliverPending_procs performed
    refine ⟨[], ?_⟩
    change Books next _ (regions ++ []) (exits ++ [])
    rw [List.append_nil, List.append_nil]
    exact books.published procs pending chans
  | _ =>
    have kept := books.kept (kept_perform rfl performed)
    have unhanded := handedOver_perform (by simp) (by simp) performed
    refine ⟨[], ?_⟩
    rw [unhanded, List.append_nil, List.append_nil]
    exact kept.silent fun chan => reasonsOn_traffic rfl chan

/-- A run keeps the books. -/
theorem books_run (books : Books state log regions exits) (ops : List (Op Data))
    (run : exec State.step state ops = some next) :
    ∃ exits, Books next (log ++ runTraffic state ops) (regions ++ runRegions state ops) exits := by
  induction ops generalizing state log regions exits with
  | nil =>
    cases run
    refine ⟨exits, ?_⟩
    rw [runTraffic, runRegions, List.append_nil, List.append_nil]
    exact books
  | cons op ops induction =>
    obtain ⟨middle, performed, rest⟩ := Option.bind_eq_some_iff.mp run
    obtain ⟨⟨answer, after⟩, answered, rfl⟩ := Option.map_eq_some_iff.mp performed
    obtain ⟨more, kept⟩ := books_step books answered
    obtain ⟨exits, later⟩ := induction kept rest
    refine ⟨exits, ?_⟩
    rw [runTraffic, runRegions, performed, answered, ← List.append_assoc, ← List.append_assoc]
    exact later

theorem books_initial (chooser : Chooser) : Books (initial chooser : State Data) [] [] [] := by
  have unmonitored : ∀ proc, (initial chooser : State Data).monitorsOf proc = [] := by
    intro proc
    cases proc <;> rfl
  have running : ∀ proc, (initial chooser : State Data).exitOf proc = none := by
    intro proc
    cases proc <;> rfl
  constructor
  · exact List.nodup_nil
  · intro proc reason
    rw [running]
    simp
  · rfl
  · intro proc chan member
    rw [unmonitored] at member
    cases member
  · intro proc other chan member
    rw [unmonitored] at member
    cases member
  · intro proc
    rw [unmonitored]
    exact List.nodup_nil
  · exact fun _ member => absurd member List.not_mem_nil
  · intro proc chan member
    rw [unmonitored] at member
    cases member
  · exact fun _ _ => rfl

end Keeping

end State

/-! ## Exactly once -/

/-- What a run that has reached a state has delivered and handed over. -/
structure Accounted (start : State Data) (ops : List (Op Data)) (reached : State Data) : Prop where
  reasons : ∀ proc chan, chan ∈ reached.monitorsOf proc →
    reasonsOn chan (State.runTraffic start ops) ++ reached.parkedFor chan = reached.due proc
  unasked : ∀ chan, (∀ proc, chan ∉ reached.monitorsOf proc) →
    reasonsOn chan (State.runTraffic start ops) = []
  publishing : ∃ next, State.perform reached .deliverPending = some (.unit, next) ∧
    next.pending = [] ∧ ∀ proc chan, chan ∈ reached.monitorsOf proc →
      reasonsOn chan (State.runTraffic start ops ++ reached.traffic .deliverPending) =
        reached.due proc
  regions : ∃ exits : List (ProcId × ExitReason Data), (exits.map Prod.fst).Nodup ∧
    (∀ proc reason, (proc, reason) ∈ exits ↔ reached.exitOf proc = some reason) ∧
    State.runRegions start ops = exits.flatMap fun exit => (reached.regionOf exit.1).toList
  freedFirst : ∀ op next, State.step reached op = some next →
    ∀ proc chan, chan ∈ reached.monitorsOf proc → ∀ value ∈ reasonsOn chan (reached.traffic op),
      ∃ reason, reached.exitOf proc = some reason ∧ value = exitMessage reason ∧
        ∀ region ∈ reached.regionOf proc, region ∈ State.runRegions start ops
  registering : ∀ proc chan next, State.perform reached (.monitor proc) = some (.id chan, next) →
    chan ∈ next.monitorsOf proc
  lasting : ∀ op next, State.step reached op = some next → ∀ proc,
    (∀ chan ∈ reached.monitorsOf proc, chan ∈ next.monitorsOf proc) ∧
      ∀ reason, reached.exitOf proc = some reason → next.exitOf proc = some reason

/-- Only a publication delivers on a channel that is registered already. -/
theorem deliverPending_of_reason {state : State Data} {op : Op Data} {chan : ChanId}
    (opened : chan < state.chans.length) {value : Value Data}
    (member : value ∈ reasonsOn chan (state.traffic op)) : op = .deliverPending := by
  cases op with
  | deliverPending => rfl
  | spawnProc _ _ _ | link _ _ | kill _ | endTask _ _ => cases member
  | monitor proc =>
    refine absurd member ?_
    rw [State.traffic]
    cases state.exitOf proc with
    | none => simp
    | some reason => simp [reasonsOn, opened.ne']
  | _ =>
    rw [State.reasonsOn_traffic rfl] at member
    cases member

/-- In every run each monitor of an exited proc has the reason recorded at the exit delivered or
parked, once; a publication leaves none parked; and the region of an exited proc is handed over
once, at an earlier step than its reason is published. -/
theorem reasons_once (chooser : Chooser) (ops : List (Op Data)) {reached : State Data}
    (run : exec State.step (initial chooser) ops = some reached) :
    Accounted (initial chooser) ops reached := by
  obtain ⟨exits, books⟩ := State.books_run (State.books_initial chooser) ops run
  rw [List.nil_append, List.nil_append] at books
  constructor
  · exact books.served
  · exact fun chan unmonitored => (List.append_eq_nil_iff.mp (books.unasked chan unmonitored)).1
  · have published := State.quiet_publishPending reached
    refine ⟨reached.publishPending, rfl, published.pending, fun proc chan member => ?_⟩
    have later := books.published published.procs published.pending published.chans
    have served := later.served proc chan
    rw [State.parkedFor, published.pending, State.due, State.monitorsOf, published.procs,
      State.exitOf_of_procs published.procs] at served
    exact (List.append_nil _).symm.trans (served member)
  · exact ⟨exits, books.nodup, books.recorded, books.regions⟩
  · intro op next performed proc chan member value delivered
    obtain rfl := deliverPending_of_reason (books.opened proc chan member) delivered
    have parked : value ∈ reached.due proc := by
      rw [← books.served proc chan member, ← State.reasonsOn_publishPendingLog]
      · exact List.mem_append_right _ delivered
      · exact fun exit there here registered =>
          books.opened _ here ((books.parked exit there).2 here registered)
    rw [State.due] at parked
    cases known : reached.exitOf proc with
    | none =>
      rw [known] at parked
      cases parked
    | some reason =>
      rw [known] at parked
      refine ⟨reason, rfl, List.mem_singleton.mp parked, fun region owned => ?_⟩
      rw [books.regions]
      refine List.mem_flatMap.mpr ⟨(proc, reason), (books.recorded proc reason).mpr known, ?_⟩
      exact Option.mem_toList.mpr owned
  · intro proc chan next performed
    obtain ⟨inside, changed, _, answer, _⟩ := State.monitor_procs performed
    obtain rfl : chan = reached.chans.length := by cases answer; rfl
    rw [State.monitorsOf_modify inside changed, if_pos rfl]
    exact List.mem_append_right _ (List.mem_singleton.mpr rfl)
  · intro op next performed proc
    refine ⟨fun chan member => ?_, (State.fate_step performed).1.exits proc⟩
    obtain ⟨⟨answer, after⟩, answered, rfl⟩ := Option.map_eq_some_iff.mp performed
    exact State.registered_step answered member

/-- A proc monitored before and after it fails. -/
def monitoredFailure : List (Op Unit) :=
  [.spawnProc 0 "failing" 1, .monitor 1, .netYield 0, .endTask 1 (.error "Kaboom" []),
    .monitor 1, .deliverPending]

theorem reasons_once_failure : ∃ reached : State Unit,
    exec State.step (initial (.seeded 0 1)) monitoredFailure = some reached ∧
      Accounted (initial (.seeded 0 1)) monitoredFailure reached := by
  obtain ⟨reached, run⟩ : ∃ reached,
      exec State.step (initial (.seeded 0 1) : State Unit) monitoredFailure = some reached :=
    Option.isSome_iff_exists.mp (by decide)
  exact ⟨reached, run, reasons_once (.seeded 0 1) monitoredFailure run⟩

end WolfInterp.Sched
