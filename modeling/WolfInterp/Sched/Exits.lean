import WolfInterp.Sched.Still

/-!
# Cascades of exits

An abnormal exit kills the linked procs, whose exits kill theirs. A cascade records the exit of
each proc it reaches, once, parks one reason for each and answers their regions in the same order;
and it ends with every link of a proc it has killed exited as well. Each kill on the way records an
exit, so the number of procs that have not exited bounds the depth.
-/

namespace WolfInterp.Sched

variable {Data : Type}

/-- What the monitors of a proc are sent. -/
def exitMessage (reason : ExitReason Data) : Value Data := .error "exit" [reason.toValue]

/-- Does a reason take the links along? -/
def ExitReason.abnormal : ExitReason Data → Bool
  | .normal _ => false
  | _ => true

/-- A parked exit without its clock. -/
def PendingExit.notice (exit : PendingExit Data) : ProcId × Value Data × List ChanId :=
  (exit.proc, exit.message, exit.monitors)

/-- Record the exit of a proc. -/
def recordExit (procs : List (Proc Data)) (exit : ProcId × ExitReason Data) : List (Proc Data) :=
  procs.modify exit.1 fun entry => { entry with exited := some exit.2 }

/-- The reason that a list of exits leaves recorded for a proc. -/
def verdict (proc : ProcId) (exits : List (ProcId × ExitReason Data))
    (known : Option (ExitReason Data)) : Option (ExitReason Data) :=
  exits.foldl (fun known exit => if exit.1 = proc then some exit.2 else known) known

section Verdicts

variable {proc : ProcId} {exits : List (ProcId × ExitReason Data)}
  {known : Option (ExitReason Data)}

theorem verdict_of_not_mem (spared : proc ∉ exits.map Prod.fst) :
    verdict proc exits known = known := by
  induction exits with
  | nil => rfl
  | cons exit exits induction =>
    have differs : exit.1 ≠ proc := fun same => spared (by simp [same])
    rw [verdict, List.foldl_cons, if_neg differs]
    exact induction fun later => spared (by simp [later])

theorem verdict_of_mem (nodup : (exits.map Prod.fst).Nodup) {reason : ExitReason Data}
    (member : (proc, reason) ∈ exits) : verdict proc exits known = some reason := by
  induction exits generalizing known with
  | nil => cases member
  | cons exit exits induction =>
    obtain ⟨first, rest⟩ := List.nodup_cons.mp nodup
    rw [verdict, List.foldl_cons]
    rcases List.mem_cons.mp member with rfl | later
    · rw [if_pos rfl]
      exact verdict_of_not_mem first
    · exact induction rest later

theorem getElem?_records (procs : List (Proc Data)) (exits : List (ProcId × ExitReason Data))
    (proc : ProcId) : (exits.foldl recordExit procs)[proc]? =
      (procs[proc]?).map fun entry => { entry with exited := verdict proc exits entry.exited } := by
  induction exits generalizing procs with
  | nil => simp [verdict]
  | cons exit exits induction =>
    rw [List.foldl_cons, induction, recordExit, List.getElem?_modify]
    cases procs[proc]? with
    | none => rfl
    | some entry => by_cases same : exit.1 = proc <;> simp [same, verdict]

theorem length_records (procs : List (Proc Data)) (exits : List (ProcId × ExitReason Data)) :
    (exits.foldl recordExit procs).length = procs.length := by
  induction exits generalizing procs with
  | nil => rfl
  | cons exit exits induction => rw [List.foldl_cons, induction, recordExit, List.length_modify]

end Verdicts

namespace State

/-- The recorded exit of a proc. -/
def exitOf (state : State Data) (proc : ProcId) : Option (ExitReason Data) :=
  (state.procs[proc]?).bind Proc.exited

def linksOf (state : State Data) (proc : ProcId) : List ProcId :=
  (state.procs[proc]?).elim [] Proc.links

def monitorsOf (state : State Data) (proc : ProcId) : List ChanId :=
  (state.procs[proc]?).elim [] Proc.monitors

def regionOf (state : State Data) (proc : ProcId) : Option RegionId :=
  (state.procs[proc]?).bind Proc.region

/-- How many procs have not exited. -/
def living (state : State Data) : Nat := state.procs.countP fun entry => entry.exited.isNone

/-- Exits are recorded, their reasons parked and their regions answered, in one order. -/
structure Exits (state : State Data) (exits : List (ProcId × ExitReason Data))
    (regions : List RegionId) (next : State Data) : Prop where
  procs : next.procs = exits.foldl recordExit state.procs
  scopes : next.scopes = state.scopes
  pending : next.pending.map PendingExit.notice = state.pending.map PendingExit.notice ++
    exits.map fun exit => (exit.1, exitMessage exit.2, state.monitorsOf exit.1)
  regions : regions = exits.flatMap fun exit => (state.regionOf exit.1).toList
  nodup : (exits.map Prod.fst).Nodup
  alive : ∀ exit ∈ exits, exit.1 < state.procs.length ∧ state.exitOf exit.1 = none
  chans : next.chans.length = state.chans.length

section Records

variable {state middle next : State Data} {exits more : List (ProcId × ExitReason Data)}
  {regions others : List RegionId} {proc : ProcId}

theorem Still.noExits (still : Still state next) : Exits state [] [] next where
  procs := still.procs
  scopes := still.scopes
  pending := by rw [still.pending]; simp
  regions := rfl
  nodup := List.nodup_nil
  alive _ member := by cases member
  chans := still.chans

section

variable (recorded : Exits state exits regions next)
include recorded

theorem Exits.found (proc : ProcId) :
    next.procs[proc]? =
      (state.procs[proc]?).map fun entry =>
        { entry with exited := verdict proc exits entry.exited } := by
  rw [recorded.procs, getElem?_records]

theorem Exits.length : next.procs.length = state.procs.length := by
  rw [recorded.procs, length_records]

theorem Exits.linksOf (proc : ProcId) : next.linksOf proc = state.linksOf proc := by
  rw [State.linksOf, State.linksOf, recorded.found]
  cases state.procs[proc]? <;> rfl

theorem Exits.monitorsOf (proc : ProcId) : next.monitorsOf proc = state.monitorsOf proc := by
  rw [State.monitorsOf, State.monitorsOf, recorded.found]
  cases state.procs[proc]? <;> rfl

theorem Exits.regionOf (proc : ProcId) : next.regionOf proc = state.regionOf proc := by
  rw [State.regionOf, State.regionOf, recorded.found]
  cases state.procs[proc]? <;> rfl

theorem Exits.exitOf_of_not_mem (spared : proc ∉ exits.map Prod.fst) :
    next.exitOf proc = state.exitOf proc := by
  rw [exitOf, exitOf, recorded.found]
  cases state.procs[proc]? with
  | none => rfl
  | some entry => exact verdict_of_not_mem spared

theorem Exits.exitOf_of_mem {reason : ExitReason Data} (member : (proc, reason) ∈ exits) :
    next.exitOf proc = some reason := by
  obtain ⟨bound, _⟩ := recorded.alive (proc, reason) member
  rw [exitOf, recorded.found, List.getElem?_eq_getElem bound]
  exact verdict_of_mem recorded.nodup member

/-- A recorded exit stays recorded as it is. -/
theorem Exits.kept {reason : ExitReason Data} (known : state.exitOf proc = some reason) :
    next.exitOf proc = some reason := by
  rw [recorded.exitOf_of_not_mem, known]
  intro member
  obtain ⟨exit, there, rfl⟩ := List.mem_map.mp member
  rw [(recorded.alive exit there).2] at known
  cases known

end

theorem Exits.trans (first : Exits state exits regions middle)
    (second : Exits middle more others next) :
    Exits state (exits ++ more) (regions ++ others) next where
  procs := by rw [second.procs, first.procs, List.foldl_append]
  scopes := second.scopes.trans first.scopes
  pending := by
    rw [second.pending, first.pending, List.map_append, List.append_assoc]
    simp only [first.monitorsOf]
  regions := by
    rw [second.regions, first.regions, List.flatMap_append]
    simp only [first.regionOf]
  nodup := by
    rw [List.map_append, List.nodup_append']
    refine ⟨first.nodup, second.nodup, fun proc early late => ?_⟩
    obtain ⟨⟨_, reason⟩, before, rfl⟩ := List.mem_map.mp early
    obtain ⟨exit, after, same⟩ := List.mem_map.mp late
    have open_ := (second.alive exit after).2
    rw [same, first.exitOf_of_mem before] at open_
    cases open_
  alive := by
    intro exit member
    rcases List.mem_append.mp member with early | late
    · exact first.alive exit early
    · obtain ⟨bound, open_⟩ := second.alive exit late
      rw [first.length] at bound
      refine ⟨bound, ?_⟩
      cases known : state.exitOf exit.1 with
      | none => rfl
      | some reason =>
        rw [first.kept known] at open_
        cases open_
  chans := second.chans.trans first.chans

end Records

/-! ## The number of living procs -/

section Living

variable {state next : State Data} {exits : List (ProcId × ExitReason Data)}
  {regions : List RegionId}

theorem countP_recordExit {procs : List (Proc Data)} {proc : ProcId} {entry : Proc Data}
    (found : procs[proc]? = some entry) (open_ : entry.exited = none) (reason : ExitReason Data) :
    (recordExit procs (proc, reason)).countP (fun entry => entry.exited.isNone) + 1 =
      procs.countP fun entry => entry.exited.isNone := by
  induction procs generalizing proc with
  | nil => simp at found
  | cons first procs induction =>
    cases proc with
    | zero =>
      obtain rfl : first = entry := by simpa using found
      simp [recordExit, open_]
    | succ proc =>
      have later := induction (by simpa using found)
      simp only [recordExit, List.modify_succ_cons, List.countP_cons] at later ⊢
      omega

theorem countP_records_le (procs : List (Proc Data)) (exits : List (ProcId × ExitReason Data)) :
    (exits.foldl recordExit procs).countP (fun entry => entry.exited.isNone) ≤
      procs.countP fun entry => entry.exited.isNone := by
  induction exits generalizing procs with
  | nil => exact le_rfl
  | cons exit exits induction =>
    refine (induction _).trans ?_
    rw [recordExit]
    generalize exit.1 = proc
    induction procs generalizing proc with
    | nil => simp
    | cons first procs step =>
      cases proc with
      | zero => simp [List.countP_cons]
      | succ proc =>
        have later := step proc
        simp only [List.modify_succ_cons, List.countP_cons]
        omega

theorem Exits.living_le (recorded : Exits state exits regions next) :
    next.living ≤ state.living := by
  rw [living, recorded.procs]
  exact countP_records_le _ _

end Living

/-! ## The cascade -/

section Cascade

variable {state : State Data}

/-- A kill of one proc as a cascade: everything it records is a kill, every link of a proc it has
killed has exited, and so has the proc. -/
def Kills (state : State Data) (proc : ProcId) (answer : List RegionId × State Data) : Prop :=
  ∃ exits, Exits state exits answer.1 answer.2 ∧
    (∀ exit ∈ exits, exit.2 = .killed ∧ ∀ linked ∈ state.linksOf exit.1,
      linked < state.procs.length → (answer.2.exitOf linked).isSome = true) ∧
    (proc < state.procs.length → (answer.2.exitOf proc).isSome = true)

theorem kills_of_exited {proc : ProcId} (exited : proc < state.procs.length →
    (state.exitOf proc).isSome = true) : Kills state proc ([], state) :=
  ⟨[], Still.refl.noExits, fun _ member => absurd member List.not_mem_nil, exited⟩

section

variable {kill : State Data → ProcId → List RegionId × State Data} {bound : Nat} {proc : ProcId}
  (kills : ∀ (acting : State Data) proc, acting.living < bound →
    Kills acting proc (kill acting proc))
include kills

/-- Killing one proc after the other. -/
theorem kills_foldl (links : List ProcId) (regions : List RegionId) (few : state.living < bound) :
    ∃ exits more next, links.foldl (fun (regions, state) linked =>
        let (more, state) := kill state linked
        (regions ++ more, state)) (regions, state) = (regions ++ more, next) ∧
      Exits state exits more next ∧
      (∀ exit ∈ exits, exit.2 = .killed ∧ ∀ linked ∈ state.linksOf exit.1,
        linked < state.procs.length → (next.exitOf linked).isSome = true) ∧
      ∀ linked ∈ links, linked < state.procs.length → (next.exitOf linked).isSome = true := by
  induction links generalizing state regions with
  | nil =>
    refine ⟨[], [], state, by simp, Still.refl.noExits, ?_, ?_⟩
    · exact fun _ member => absurd member List.not_mem_nil
    · exact fun _ member => absurd member List.not_mem_nil
  | cons first links induction =>
    obtain ⟨exits, recorded, closed, gone⟩ := kills state first few
    obtain ⟨later, more, next, answer, following, shut, ended⟩ :=
      induction (regions ++ (kill state first).1) (recorded.living_le.trans_lt few)
    have both := recorded.trans following
    -- what has exited after the first kill has exited in the end
    have stays : ∀ proc, ((kill state first).2.exitOf proc).isSome = true →
        (next.exitOf proc).isSome = true := by
      intro proc known
      obtain ⟨reason, known⟩ := Option.isSome_iff_exists.mp known
      rw [following.kept known]
      rfl
    rw [recorded.length] at shut ended
    refine ⟨exits ++ later, (kill state first).1 ++ more, next, ?_, both, ?_, ?_⟩
    · rw [List.foldl_cons, ← List.append_assoc]
      exact answer
    · intro exit member
      rcases List.mem_append.mp member with early | late
      · obtain ⟨killed, links⟩ := closed exit early
        exact ⟨killed, fun linked there bound => stays linked (links linked there bound)⟩
      · obtain ⟨killed, links⟩ := shut exit late
        rw [recorded.linksOf] at links
        exact ⟨killed, links⟩
    · intro linked member bound
      rcases List.mem_cons.mp member with rfl | later
      · exact stays linked (gone bound)
      · exact ended linked later bound

/-- Recording an exit under a kill that cascades. -/
theorem exitWith_spec (inside : proc < state.procs.length) (open_ : state.exitOf proc = none)
    (reason : ExitReason Data) (few : state.living ≤ bound) :
    ∃ exits, Exits state ((proc, reason) :: exits) (state.exitWith kill proc reason).1
        (state.exitWith kill proc reason).2 ∧
      (∀ exit ∈ exits, exit.2 = .killed ∧ ∀ linked ∈ state.linksOf exit.1,
        linked < state.procs.length →
          ((state.exitWith kill proc reason).2.exitOf linked).isSome = true) ∧
      (reason.abnormal = true → ∀ linked ∈ state.linksOf proc, linked < state.procs.length →
        ((state.exitWith kill proc reason).2.exitOf linked).isSome = true) := by
  obtain ⟨entry, found⟩ : ∃ entry, state.procs[proc]? = some entry :=
    ⟨_, List.getElem?_eq_getElem inside⟩
  have unrecorded : entry.exited = none := by simpa [exitOf, found] using open_
  let parked : State Data := { (state.op state.actor (.proc proc) true).modifyProc proc fun entry =>
      { entry with exited := some reason } with
    pending := state.pending ++
      [{ proc, message := .error "exit" [reason.toValue]
         vc := (state.op state.actor (.proc proc) true).taskVc entry.root
         monitors := entry.monitors }] }
  have recorded : Exits state [(proc, reason)] entry.region.toList parked := by
    refine ⟨rfl, rfl, ?_, ?_, List.nodup_singleton proc, ?_, rfl⟩
    · simp [parked, PendingExit.notice, exitMessage, monitorsOf, found]
    · simp [regionOf, found]
    · intro exit member
      obtain rfl := List.mem_singleton.mp member
      exact ⟨inside, open_⟩
  have fewer : parked.living < bound := by
    have counted := countP_recordExit found unrecorded reason
    have same : parked.living + 1 = state.living := counted
    omega
  let links := match reason with
    | .normal _ => []
    | _ => entry.links
  obtain ⟨exits, more, next, answer, following, shut, ended⟩ :=
    kills_foldl kills links entry.region.toList fewer
  have result : state.exitWith kill proc reason = (entry.region.toList ++ more, next) := by
    rw [exitWith, found]
    simp only [unrecorded, Option.isSome_none, Bool.false_eq_true, if_false]
    exact answer
  rw [recorded.length] at shut ended
  simp only [recorded.linksOf] at shut
  rw [result]
  refine ⟨exits, recorded.trans following, shut, fun abnormal linked member => ?_⟩
  refine ended linked ?_
  have all : links = entry.links := by
    cases reason with
    | normal value => cases abnormal
    | _ => rfl
  rw [all]
  simpa [linksOf, found] using member

end

theorem killProcWithin_spec (fuel : Nat) (state : State Data) (few : state.living < fuel)
    (proc : ProcId) : Kills state proc (state.killProcWithin fuel proc) := by
  induction fuel generalizing state proc with
  | zero => exact absurd few (Nat.not_lt_zero _)
  | succ fuel induction =>
    rw [killProcWithin]
    cases found : state.procs[proc]? with
    | none =>
      exact kills_of_exited fun bound => by simp [List.getElem?_eq_getElem bound] at found
    | some entry =>
      dsimp only
      split
      · rename_i exited
        exact kills_of_exited fun _ => by simpa [exitOf, found] using exited
      · rename_i unended
        have unrecorded : entry.exited = none := by simpa using unended
        have struck := (mild_strike state proc).toStill
        generalize (state.members proc).foldl (killTask state.actor)
          (state.op state.actor (.proc proc) true) = acting at struck ⊢
        have bound : proc < state.procs.length :=
          (List.getElem?_eq_some_iff.mp found).1
        have same : acting.living = state.living := by rw [living, living, struck.procs]
        have open_ : acting.exitOf proc = none := by
          rw [exitOf, struck.procs, found]
          exact unrecorded
        obtain ⟨exits, recorded, shut, ended⟩ := exitWith_spec
          (fun acting linked few => induction acting few linked)
          (by rw [struck.procs]; exact bound) open_ .killed (by rw [same]; omega)
        have links := (struck.noExits).linksOf
        simp only [links, struck.procs] at shut ended
        refine ⟨_, struck.noExits.trans recorded, ?_, fun _ => ?_⟩
        · intro exit member
          rcases List.mem_cons.mp member with rfl | later
          · exact ⟨rfl, ended rfl⟩
          · exact shut exit later
        · rw [recorded.exitOf_of_mem List.mem_cons_self]
          rfl

theorem living_le (state : State Data) : state.living ≤ state.procs.length :=
  List.countP_le_length

theorem killProc_spec (state : State Data) (proc : ProcId) :
    Kills state proc (state.killProc proc) :=
  killProcWithin_spec _ state (Nat.lt_succ_of_le state.living_le) proc

/-- The exit of a task's proc as a cascade, an empty one where the proc has exited. -/
theorem deliverExit_spec (state : State Data) (proc : ProcId) (reason : ExitReason Data) :
    ∃ exits, Exits state exits (state.deliverExit proc reason).1
        (state.deliverExit proc reason).2 ∧
      ∀ exit ∈ exits, exit.2.abnormal = true → ∀ linked ∈ state.linksOf exit.1,
        linked < state.procs.length →
          ((state.deliverExit proc reason).2.exitOf linked).isSome = true := by
  cases found : state.procs[proc]? with
  | none =>
    rw [deliverExit, exitWith, found]
    exact ⟨[], Still.refl.noExits, nofun⟩
  | some entry =>
    have inside : proc < state.procs.length := (List.getElem?_eq_some_iff.mp found).1
    have known : state.exitOf proc = entry.exited := by rw [exitOf, found, Option.bind_some]
    cases exited : entry.exited with
    | some _ =>
      rw [deliverExit, exitWith, found]
      simp only [exited, Option.isSome_some, if_true]
      exact ⟨[], Still.refl.noExits, nofun⟩
    | none =>
      obtain ⟨exits, recorded, shut, ended⟩ :=
        exitWith_spec (fun acting linked few => killProcWithin_spec _ acting few linked) inside
          (known.trans exited) reason (Nat.le_succ_of_le state.living_le)
      refine ⟨_, recorded, fun exit member abnormal => ?_⟩
      rcases List.mem_cons.mp member with rfl | later
      · exact ended abnormal
      · exact (shut exit later).2

/-- A kill that has a level for every living proc ends: more levels change nothing. -/
theorem killProcWithin_stable (fuel : Nat) (state : State Data) (few : state.living < fuel)
    (proc : ProcId) (extra : Nat) :
    state.killProcWithin (fuel + extra) proc = state.killProcWithin fuel proc := by
  induction fuel generalizing state proc with
  | zero => exact absurd few (Nat.not_lt_zero _)
  | succ fuel induction =>
    have chains : ∀ (links : List ProcId) (acting : State Data) (regions : List RegionId),
        acting.living < fuel →
        links.foldl (fun (regions, state) linked =>
          let (more, state) := killProcWithin (fuel + extra) state linked
          (regions ++ more, state)) (regions, acting) =
        links.foldl (fun (regions, state) linked =>
          let (more, state) := killProcWithin fuel state linked
          (regions ++ more, state)) (regions, acting) := by
      intro links
      induction links with
      | nil => exact fun _ _ _ => rfl
      | cons first links step =>
        intro acting regions few
        have same := induction acting few first
        obtain ⟨_, recorded, _⟩ := killProcWithin_spec fuel acting few first
        rw [List.foldl_cons, List.foldl_cons]
        simp only [same]
        exact step _ _ (recorded.living_le.trans_lt few)
    rw [Nat.succ_add, killProcWithin, killProcWithin]
    cases found : state.procs[proc]? with
    | none => rfl
    | some entry =>
      dsimp only
      split
      · rfl
      · rename_i unended
        have unrecorded : entry.exited = none := by simpa using unended
        have struck := (mild_strike state proc).toStill
        generalize (state.members proc).foldl (killTask state.actor)
          (state.op state.actor (.proc proc) true) = acting at struck ⊢
        rw [exitWith, exitWith, struck.procs, found]
        simp only [unrecorded, Option.isSome_none, Bool.false_eq_true, if_false]
        refine chains _ _ _ ?_
        have counted := countP_recordExit found unrecorded (.killed : ExitReason Data)
        rw [← struck.procs] at counted
        have same : acting.living = state.living := by rw [living, living, struck.procs]
        change (recordExit acting.procs (proc, .killed)).countP _ < fuel
        rw [living] at same
        omega

end Cascade

end State

end WolfInterp.Sched
