import WolfInterp.Eval.Slots
import WolfInterp.Region.Dead

/-!
# Frozen and freed storage

The doors that change what a place holds: an assignment, a builtin container's mutating method, a
method's write-back of its receiver and the write-back of a `mut` argument. A door that reaches a
container of a frozen or freed region is refused by a region fault exactly when no earlier check
refuses it, it would change something, and it is none of the doors that do not consult the region:
the write-back of an argument, and the two methods of a map of that region.
-/

namespace WolfInterp.Eval

open WolfInterp.Lex (Text)
open WolfInterp.Syntax (ParamMode)

/-- What every write of a changed field keeps, writing back a view set keeps. -/
theorem writeViewSet_keeps {kept : Machine → Machine → Prop} {path : Path} {before after : Value}
    {span : Span} (refl : ∀ machine, kept machine machine)
    (trans : ∀ {first second third}, kept first second → kept second third → kept first third)
    (writes : ∀ name value machine,
      kept machine (writePath (path.project (.field name)) value span machine).2)
    (names : List Text) (machine : Machine) :
    kept machine (writeViewSet path before after span names machine).2 := by
  induction names generalizing machine with
  | nil => exact refl machine
  | cons name names induction =>
    unfold writeViewSet
    cases after.fieldOf name with
    | none => exact induction machine
    | some new =>
      by_cases same : optionSame (before.fieldOf name) new
      · simpa [same] using induction machine
      · have written := writes name new machine
        simp only [same, Bool.false_eq_true, if_false, M.bind_run]
        cases ran : writePath (path.project (.field name)) new span machine with
        | mk result next =>
          rw [ran] at written
          cases result with
          | error signal => exact written
          | ok _ => exact trans written (induction next)

/-! ## The doors -/

/-- A door that changes what a place holds. `before` and `after` are a receiver as its method found
it and as it left it. -/
inductive Door where
  | assign (path : Path) (value : Value) (key : Option Value) (span : Span)
  | method (path : Path) (which : Mutator) (args : List Value) (span : Span)
  | receiver (path : Path) (moded : Bool) (viewSet : List Text) (before after : Value)
      (selfMoved : Option Span) (span : Span)
  | argument (path : Path) (value : Value) (moved : Option Span)

namespace Door

def path : Door → Path
  | assign path _ _ _ | method path _ _ _ | receiver path _ _ _ _ _ _ | argument path _ _ => path

/-- A call of a builtin method on a lent receiver. -/
def methodSite (path : Path) (span : Span) : MethodSite :=
  { path := some path, mode := some .mut_, lend := some true, value := none, viewSet := [], span }

/-- A call of a declared method on a copied receiver. -/
def receiverSite (path : Path) (moded : Bool) (viewSet : List Text) (before : Value)
    (span : Span) : MethodSite :=
  { path := some path, mode := if moded then some .mut_ else none, lend := none,
    value := some before, viewSet, span }

/-- What the door runs. The write-backs of a builtin method's own `mut` arguments are doors of
their own. -/
def run : Door → M Unit
  | assign path value key span => writePathWithKey path value key span
  | method path which args span => do
    let _ ← receiverCall (methodSite path span) (runMutator which args span) fun _ => pure ()
    pure ()
  | receiver path moded viewSet before after selfMoved span => do
    let site := receiverSite path moded viewSet before span
    let written ← M.attempt (writeReceiver site none before (.ok .unit) after)
    markMoved site (.ok .unit) written selfMoved
    M.ofExcept written
  | argument path value moved => writeBack path value moved

/-- The receivers a method is one of. -/
def fits : Mutator → Value → Bool
  | .push, .list _ _ _ _ | .pop, .list _ _ _ _ | .clear, .list _ _ _ _ | .reset, .list _ _ _ _
  | .reserve, .list _ _ _ _ | .mapClear, .map _ _ | .mapRemove, .map _ _ => true
  | _, _ => false

/-- The door is applied: a method to a container that has it. -/
def applies (machine : Machine) : Door → Bool
  | method path which _ _ => (machine.slotAt path).any fun slot => fits which slot.value
  | _ => true

/-- The homes of the containers the door changes: those above the place, and the one at the place
where the door changes it in itself. -/
def containers (machine : Machine) : Door → List RegionId
  | assign path _ _ _ | argument path _ _ => machine.homesOf path false
  | method path _ _ _ => machine.homesOf path true
  | receiver path _ viewSet _ _ _ _ => machine.homesOf path (!viewSet.isEmpty)

/-- The door reaches frozen or freed storage. -/
def Reaches (machine : Machine) (door : Door) : Prop :=
  door.applies machine = true ∧ ∃ id ∈ door.containers machine, machine.store.Dead id

end Door

/-- A region fault. -/
def IsFault {α : Type} : Except Signal α → Prop
  | .error (.trap trap) => trap.kind = .regionFault
  | _ => False

/-- A command is refused by a region fault, and no place has changed. -/
def Refused {α : Type} (command : M α) (machine : Machine) : Prop :=
  IsFault (command machine).1 ∧ (command machine).2.frames = machine.frames ∧
    (command machine).2.globals = machine.globals

/-- The parameter mode and the held accesses let a write through. -/
def Machine.Open (machine : Machine) (path : Path) : Prop :=
  machine.readParamWrite path = none ∧ machine.access.conflict path .exclusive = none

/-- The first field of a view set that a method changed. -/
def changedField (before after : Value) : List Text → Option Text
  | [] => none
  | name :: rest =>
    match after.fieldOf name with
    | none => changedField before after rest
    | some new =>
      if optionSame (before.fieldOf name) new then changedField before after rest
      else some name

/-- A method run on a receiver in hand succeeds and changes it. -/
def Mutator.Changes (method : Mutator) (receiver : Value) (args : List Value) (span : Span)
    (machine : Machine) : Prop :=
  ∃ value after, (mutate method receiver args span machine).1 = .ok (.ok value, after) ∧
    after.same receiver = false

/-- The list methods ask for their receiver's own home first. -/
def homeRefuses (machine : Machine) : Value → Prop
  | .list _ _ _ (some home) => machine.store.Dead home
  | _ => False

/-- What a door needs for a region fault to refuse it: it consults the region, it would change
something, and the checks made before let it through. -/
def Door.Consults (machine : Machine) : Door → Prop
  | assign path _ _ _ => machine.Open path
  | method path which args span =>
    ∃ slot, machine.slotAt path = some slot ∧
      (homeRefuses machine slot.value ∨
        ((∃ id ∈ machine.homesOf path false, machine.store.Dead id) ∧ machine.Open path ∧
          which.Changes slot.value args span machine))
  | receiver path _ viewSet before after _ _ =>
    after.same before = false ∧
      if viewSet = [] then machine.Open path
      else ∃ name, changedField before after viewSet = some name ∧
        machine.Open (path.project (.field name))
  | argument _ _ _ => False

/-! ## Homes on a walk -/

theorem Value.home_graft (value : Value) (step : Proj) (slot : Slot Value) :
    (value.graft step slot).home = value.home := by
  cases value <;> cases step <;> rfl

theorem homesAlong_true_iff {slot : Slot Value} {path : List Proj} {id : RegionId} :
    id ∈ homesAlong true slot path ↔ id ∈ homesAlong false slot path ∨
        ∃ target, slots.walk slot path = some target ∧ target.value.home = some id := by
  induction path generalizing slot with
  | nil => simp [homesAlong]
  | cons step path induction =>
    rw [homesAlong, homesAlong, Lens.walk_cons]
    cases found : slots.child slot step with
    | none => simp
    | some next => simp only [List.mem_append, induction, Option.bind_some, or_assoc]

/-- One more step goes through the container a walk ends at. -/
theorem homesAlong_snoc {slot : Slot Value} {path : List Proj} {step : Proj} {id : RegionId} :
    id ∈ homesAlong false slot (path ++ [step]) ↔ id ∈ homesAlong true slot path := by
  induction path generalizing slot with
  | nil =>
    simp only [List.nil_append, homesAlong, List.mem_append, Option.mem_toList, if_true]
    cases found : slots.child slot step <;> simp
  | cons first path induction =>
    rw [List.cons_append, homesAlong, homesAlong]
    cases found : slots.child slot first with
    | none => rfl
    | some next => simp only [List.mem_append, induction]

theorem homesAlong_prefix {slot : Slot Value} {path rest : List Proj} {id : RegionId}
    (member : id ∈ homesAlong false slot path) : id ∈ homesAlong false slot (path ++ rest) := by
  induction path generalizing slot with
  | nil => simp [homesAlong] at member
  | cons step path induction =>
    rw [homesAlong] at member
    rw [List.cons_append, homesAlong]
    cases found : slots.child slot step with
    | none => simpa [found] using member
    | some next =>
      simp only [found, List.mem_append] at member ⊢
      exact member.imp_right induction

/-- A change of what a walk ends at changes no home on the way. -/
theorem homesAlong_change {slot : Slot Value} {path : List Proj}
    (update : Slot Value → Slot Value) :
    homesAlong false (slots.change update slot path) path = homesAlong false slot path := by
  induction path generalizing slot with
  | nil => simp [homesAlong]
  | cons step path induction =>
    cases found : slots.child slot step with
    | none => rw [Lens.change_of_walk_none (by rw [Lens.walk_cons, found]; rfl)]
    | some next =>
      have kept : (slots.graft slot step (slots.change update next path)).value.home =
          slot.value.home := Value.home_graft slot.value step _
      rw [Lens.change_of_child found, homesAlong, homesAlong, kept,
        slots.child_graft found, found]
      dsimp only
      rw [induction]

namespace Machine

variable {machine : Machine} {path : Path}

/-- The flag is set before any region is dead. -/
def Bitten (machine : Machine) : Prop := ∀ id, machine.store.Dead id → machine.store.teeth = true

theorem homesOf_project (path : Path) (step : Proj) (id : RegionId) :
    id ∈ machine.homesOf (path.project step) false ↔ id ∈ machine.homesOf path true := by
  have base : machine.baseSlot (path.project step) = machine.baseSlot path := rfl
  rw [homesOf, homesOf, base]
  cases machine.baseSlot path with
  | none => rfl
  | some slot => exact homesAlong_snoc

theorem mem_homesOf_true {id : RegionId} :
    id ∈ machine.homesOf path true ↔ id ∈ machine.homesOf path false ∨
      ∃ slot, machine.slotAt path = some slot ∧ slot.value.home = some id := by
  rw [homesOf, homesOf, slotAt]
  cases machine.baseSlot path with
  | none => simp
  | some slot => exact homesAlong_true_iff

theorem writeRefusal_isSome_iff (bitten : machine.Bitten) : (machine.writeRefusal path).isSome ↔
      ∃ id ∈ machine.homesOf path false, machine.store.Dead id := by
  unfold writeRefusal
  by_cases teeth : machine.store.teeth
  · simp only [teeth, Bool.not_true, Bool.false_eq_true, if_false]
    cases freed : (machine.homesOf path false).find? fun id =>
        decide (machine.regionState id = some .freed) with
    | some id =>
      have member := List.mem_of_find?_eq_some freed
      have state := List.find?_some freed
      simp only [decide_eq_true_eq] at state
      simp only [Option.isSome_some, true_iff]
      exact ⟨id, member, .inl state⟩
    | none =>
      rw [List.find?_eq_none] at freed
      simp only [Option.isSome_map, List.find?_isSome, decide_eq_true_eq]
      constructor
      · rintro ⟨id, member, state⟩
        exact ⟨id, member, .inr state⟩
      · rintro ⟨id, member, dead⟩
        refine ⟨id, member, dead.resolve_left fun state => ?_⟩
        exact freed id member (decide_eq_true state)
  · simp only [teeth, Bool.not_false, if_true, Option.isSome_none, Bool.false_eq_true, false_iff]
    rintro ⟨id, _, dead⟩
    exact teeth (bitten id dead)

theorem homesOf_changeSlot (update : Slot Value → Slot Value) :
    (machine.changeSlot path update).homesOf path false = machine.homesOf path false := by
  rw [homesOf, homesOf, baseSlot_changeSlot ⟨rfl, rfl⟩]
  cases machine.baseSlot path with
  | none => rfl
  | some slot => exact homesAlong_change update

theorem writebackWouldTrap_of_refusal (refusal : (machine.writeRefusal path).isSome) :
    machine.writebackWouldTrap path = true := by
  simp [writebackWouldTrap, refusal]

end Machine

/-! ## Writes -/

section Writes

variable {machine : Machine} {path : Path} {value : Value} {key : Option Value} {span : Span}

@[simp]
theorem checkAccess_run (path : Path) (access : Access) (span : Span) (machine : Machine) :
    checkAccess path access span machine =
      match machine.access.conflict path access with
      | some held => (.error (.trap { kind := .exclusivity, span, secondary := some held.span }),
          machine)
      | none => (.ok (), machine) := by
  change (match machine.access.conflict path access with
    | some held => (M.trap .exclusivity span (some held.span) : M Unit)
    | none => pure ()) machine = _
  cases machine.access.conflict path access <;> rfl

theorem writebackWouldTrap_eq_false : machine.writebackWouldTrap path = false ↔
    machine.Open path ∧ machine.writeRefusal path = none := by
  simp [Machine.writebackWouldTrap, Machine.Open]

/-- A write whose checks do not pass. -/
theorem write_trapped (predicted : machine.writebackWouldTrap path = true) (value : Value)
    (key : Option Value) (span : Span) :
    ∃ trap : Trap, writePathWithKey path value key span machine = (.error (.trap trap), machine) ∧
      (trap.kind = .exclusivity ∧ ¬ machine.Open path ∨
        trap.kind = .regionFault ∧ machine.Open path) ∧ trap.span = span := by
  unfold writePathWithKey Machine.Open
  simp only [M.bind_run, M.get_run]
  cases mode : machine.readParamWrite path with
  | some paramSpan => exact ⟨_, rfl, .inl ⟨rfl, by simp⟩, rfl⟩
  | none =>
    simp only [M.bind_run, checkAccess_run]
    cases claims : machine.access.conflict path .exclusive with
    | some held => exact ⟨_, rfl, .inl ⟨rfl, by simp⟩, rfl⟩
    | none =>
      cases homes : machine.writeRefusal path with
      | some refused =>
        obtain ⟨id, state⟩ := refused
        cases state <;> exact ⟨_, rfl, .inr ⟨rfl, by simp⟩, rfl⟩
      | none => simp [Machine.writebackWouldTrap, mode, claims, homes] at predicted

/-- The store a write ends with. -/
def Machine.storeAt (machine : Machine) (path : Path) (value : Value) (span : Span) :
    Except Signal Unit × Machine :=
  match machine.slotAt path with
  | none => M.unsupported machine
  | some _ => accessPlace path .write span
      ((machine.changeSlot path fun _ => Slot.live value).noteCapturedWrite path span)

/-- The machine a write stores into: its map is grown where the slot is missing. -/
def Machine.Ready (machine : Machine) (path : Path) (key : Option Value) (ready : Machine) : Prop :=
  (machine.slotAt path).isSome ∧ ready = machine ∨
    machine.slotAt path = none ∧ machine.insertMapKey path key = some ready

/-- A write whose checks pass stores, unless no map holds the place. -/
theorem write_checked (free : machine.writebackWouldTrap path = false) (value : Value)
    (key : Option Value) (span : Span) :
    (machine.slotAt path = none ∧ machine.insertMapKey path key = none ∧
      writePathWithKey path value key span machine = M.unsupported machine) ∨
    ∃ ready, machine.Ready path key ready ∧
      writePathWithKey path value key span machine = ready.storeAt path value span := by
  obtain ⟨⟨mode, claims⟩, homes⟩ := writebackWouldTrap_eq_false.mp free
  have stores (ready : Machine) : (do
      let machine ← M.get
      match machine.slotAt path with
      | none => M.unsupported
      | some _ => do
        M.modify fun machine =>
          (machine.changeSlot path fun _ => Slot.live value).noteCapturedWrite path span
        accessPlace path .write span : M Unit) ready = ready.storeAt path value span := by
    rw [M.bind_run, M.get_run, Machine.storeAt]
    dsimp only
    cases ready.slotAt path <;> rfl
  unfold writePathWithKey
  simp only [M.bind_run, M.get_run, mode, checkAccess_run, claims, homes]
  cases found : machine.slotAt path with
  | some slot => exact .inr ⟨machine, .inl ⟨by rw [found]; rfl, rfl⟩, stores machine⟩
  | none =>
    cases inserted : machine.insertMapKey path key with
    | none => exact .inl ⟨rfl, rfl, rfl⟩
    | some grown => exact .inr ⟨grown, .inr ⟨found, inserted⟩, stores grown⟩

/-- A write that the region refuses stores nothing, and faults when no earlier check traps. -/
theorem write_of_refusal (refusal : (machine.writeRefusal path).isSome) (value : Value)
    (key : Option Value) (span : Span) :
    ∃ signal, writePathWithKey path value key span machine = (.error signal, machine) ∧
      (IsFault (.error signal : Except Signal Unit) ↔ machine.Open path) := by
  obtain ⟨trap, run, kind, -⟩ :=
    write_trapped (Machine.writebackWouldTrap_of_refusal refusal) value key span
  refine ⟨_, run, ?_⟩
  rcases kind with ⟨kind, closed⟩ | ⟨kind, opened⟩
  · simp [IsFault, kind, closed]
  · simp [IsFault, kind, opened]

/-- An access moves nothing but the provenance, and ends well, in a finding or in an abort. -/
theorem accessPlace_run (path : Path) (kind : AccessKind) (span : Span) (machine : Machine) :
    ∃ answer prov, accessPlace path kind span machine = (answer, { machine with prov }) ∧
      (answer = .ok () ∨ answer = .error .panic ∨ ∃ finding, answer = .error (.ub finding)) := by
  unfold accessPlace
  simp only [M.bind_run, M.get_run]
  cases machine.prov.accessPlace (machine.placeKey path) kind span with
  | none => exact ⟨_, machine.prov, rfl, .inr (.inl rfl)⟩
  | some accessed =>
    obtain ⟨answer, prov⟩ := accessed
    cases answer with
    | ok => exact ⟨_, prov, rfl, .inl rfl⟩
    | error finding => exact ⟨_, prov, rfl, .inr (.inr ⟨finding, rfl⟩)⟩

theorem accessPlace_not_fault (path : Path) (kind : AccessKind) (span : Span) (machine : Machine) :
    ¬ IsFault (accessPlace path kind span machine).1 := by
  obtain ⟨_, prov, run, rfl | rfl | ⟨finding, rfl⟩⟩ := accessPlace_run path kind span machine <;>
    simp [run, IsFault]

theorem write_isFault_iff : IsFault (writePathWithKey path value key span machine).1 ↔
      machine.Open path ∧ (machine.writeRefusal path).isSome := by
  cases refusal : machine.writeRefusal path with
  | some refused =>
    have refuses : (machine.writeRefusal path).isSome := by rw [refusal]; rfl
    obtain ⟨signal, run, fault⟩ := write_of_refusal refuses value key span
    rw [run, fault]
    simp
  | none =>
    simp only [Option.isSome_none, Bool.false_eq_true, and_false, iff_false]
    cases predicted : machine.writebackWouldTrap path with
    | true =>
      obtain ⟨trap, run, kind, -⟩ := write_trapped predicted value key span
      rcases kind with ⟨kind, -⟩ | ⟨-, opened⟩
      · simp [run, IsFault, kind]
      · rw [writebackWouldTrap_eq_false.mpr ⟨opened, refusal⟩] at predicted
        cases predicted
    | false =>
      rcases write_checked predicted value key span with ⟨-, -, run⟩ | ⟨ready, -, run⟩
      · simp [run, IsFault]
      · rw [run, Machine.storeAt]
        split
        · simp [IsFault]
        · exact accessPlace_not_fault path .write span _

end Writes

/-! ## Methods -/

/-- Another store whose regions are in the same states. -/
def SameStates (before after : Store Value) : Prop :=
  (∀ id, after.state id = before.state id) ∧ after.teeth = before.teeth

theorem SameStates.dead {before after : Store Value} (same : SameStates before after)
    (id : RegionId) : after.Dead id ↔ before.Dead id := by
  rw [Store.Dead, Store.Dead, same.1]

/-- A command on a receiver that answers, touches nothing but ledgers and raises no region
fault. -/
def Settles (command : OnReceiver) (machine : Machine) : Prop :=
  ∃ result after store, command machine = (.ok (result, after), { machine with store }) ∧
    SameStates machine.store store ∧ ¬ IsFault result

section Methods

variable {machine : Machine} {home : Option RegionId} {span : Span} {receiver : Value}

theorem settles_pure {result : Except Signal Value} (calm : ¬ IsFault result) (after : Value) :
    Settles (pure (result, after)) machine :=
  ⟨result, after, machine.store, rfl, ⟨fun _ => rfl, rfl⟩, calm⟩

theorem chargeHome_run (home : Option RegionId) (bytes : Nat) (span : Span) (machine : Machine) :
    ∃ result store, chargeHome home bytes span machine = (result, { machine with store }) ∧
      SameStates machine.store store ∧ ¬ IsFault result := by
  unfold chargeHome
  simp only [M.bind_run, M.get_run]
  cases home with
  | none => exact ⟨.ok (), machine.store, rfl, ⟨fun _ => rfl, rfl⟩, by simp [IsFault]⟩
  | some id =>
    cases charged : machine.store.chargeGrowth id bytes with
    | ok store =>
      simp only [charged]
      exact ⟨.ok (), store, rfl, Store.states_chargeGrowth charged, by simp [IsFault]⟩
    | error breach =>
      simp only [charged]
      exact ⟨.error (.trap ⟨.allocContract, span, _⟩), machine.store, rfl, ⟨fun _ => rfl, rfl⟩,
        by simp [IsFault]⟩

theorem checkHomeWrite_run (bitten : machine.Bitten) (home : Option RegionId) (span : Span) :
    ∃ result, checkHomeWrite home span machine = (result, machine) ∧
      ((result = .ok () ∧ ∀ id, home = some id → ¬ machine.store.Dead id) ∨
        (IsFault result ∧ result.isOk = false ∧ ∃ id, home = some id ∧ machine.store.Dead id)) := by
  unfold checkHomeWrite
  simp only [M.bind_run, M.get_run]
  cases home with
  | none => exact ⟨.ok (), rfl, .inl ⟨rfl, nofun⟩⟩
  | some id =>
    by_cases dead : machine.store.Dead id
    · simp only [bitten id dead, Bool.not_true, Bool.false_eq_true, if_false,
        Machine.regionState]
      rcases dead with freed | frozen
      · rw [freed]
        exact ⟨_, rfl, .inr ⟨rfl, rfl, id, rfl, .inl freed⟩⟩
      · rw [frozen]
        exact ⟨_, rfl, .inr ⟨rfl, rfl, id, rfl, .inr frozen⟩⟩
    · refine ⟨.ok (), ?_, .inl ⟨rfl, fun _ same => Option.some.inj same ▸ dead⟩⟩
      split
      · rfl
      · simp only [Machine.regionState]
        rw [Store.Dead, not_or] at dead
        cases state : machine.store.state id with
        | none => rfl
        | some now =>
          cases now with
          | freed => exact absurd state dead.1
          | frozen => exact absurd state dead.2
          | _ => rfl

theorem adoptElement_not_fault (elem : Option ElemTy) (arg : Value) (span : Span) :
    ¬ IsFault (adoptElement elem arg span) := by
  unfold adoptElement
  split
  · simp [IsFault]
  · dsimp only
    split
    · split <;> simp [IsFault]
    · simp [IsFault]
  · simp [IsFault]

theorem pushArgs_not_fault (elem : Option ElemTy) (span : Span) (items : List (Slot Value))
    (args : List Value) : ¬ IsFault (pushArgs elem span items args).1 := by
  induction args generalizing items with
  | nil => simp [pushArgs, IsFault]
  | cons arg args induction =>
    rw [pushArgs]
    cases adopted : adoptElement elem arg span with
    | ok value => exact induction _
    | error signal =>
      have calm := adoptElement_not_fault elem arg span
      rw [adopted] at calm
      cases signal <;> exact calm

/-- A command on a receiver whose own home is dead, when it is one that asks, faults and changes
nothing; on any other it settles. -/
def Asks (receiver : Value) (command : OnReceiver) (machine : Machine) : Prop :=
  (homeRefuses machine receiver ∧ ∃ result, IsFault result ∧
    command machine = (.ok (result, receiver), machine)) ∨
  (¬ homeRefuses machine receiver ∧ Settles command machine)

/-- A list method asks for its receiver's home first. -/
theorem asks_of_settles (bitten : machine.Bitten) {items : List (Slot Value)} {capacity : Nat}
    {elem : Option ElemTy} {rest : OnReceiver} (settles : Settles rest machine) :
    Asks (.list items capacity elem home)
      (checkedFirst (checkHomeWrite home span) (.list items capacity elem home) rest) machine := by
  have refuses : homeRefuses machine (.list items capacity elem home) ↔
      ∃ id, home = some id ∧ machine.store.Dead id := by
    cases home <;> simp [homeRefuses]
  obtain ⟨checked, run, ⟨rfl, alive⟩ | ⟨fault, failed, dead⟩⟩ :=
    checkHomeWrite_run bitten home span
  · refine .inr ⟨fun refused => ?_, ?_⟩
    · obtain ⟨id, same, dead⟩ := refuses.mp refused
      exact alive id same dead
    · obtain ⟨result, after, store, ran, same, calm⟩ := settles
      refine ⟨result, after, store, ?_, same, calm⟩
      simp [checkedFirst, run, ran]
  · refine .inl ⟨refuses.mpr dead, ?_⟩
    cases checked with
    | ok _ => cases failed
    | error signal =>
      refine ⟨.error signal, ?_, ?_⟩
      · cases signal <;> exact fault
      · simp [checkedFirst, run]

section Lists

variable {items : List (Slot Value)} {capacity : Nat} {elem : Option ElemTy} {args : List Value}

theorem listPush_asks (bitten : machine.Bitten) :
    Asks (.list items capacity elem home)
      (listPush items capacity elem home args span) machine := by
  apply asks_of_settles bitten
  have calm := pushArgs_not_fault elem span items args
  cases pushed : pushArgs elem span items args with
  | mk result stored =>
    rw [pushed] at calm
    cases result with
    | error signal => exact settles_pure (by cases signal <;> exact calm) _
    | ok _ =>
      obtain ⟨charged, store, run, same, calm⟩ := chargeHome_run home
        (growthBytesStrided capacity stored.length (strideOf stored)) span machine
      refine ⟨charged.map fun () => .unit, _, store, by simp [run]; rfl, same, ?_⟩
      cases charged with
      | ok _ => simp [IsFault, Except.map]
      | error signal => cases signal <;> exact calm

theorem listPop_asks (bitten : machine.Bitten) :
    Asks (.list items capacity elem home) (listPop items capacity elem home span) machine := by
  apply asks_of_settles bitten
  split
  · exact settles_pure (by simp [IsFault]) _
  · exact settles_pure (by simp [IsFault]) _
  · exact settles_pure (by simp [IsFault]) _

theorem listReserve_asks (bitten : machine.Bitten) :
    Asks (.list items capacity elem home) (listReserve items capacity elem home args span)
      machine := by
  apply asks_of_settles bitten
  split
  · split
    · exact settles_pure (by simp [IsFault]) _
    · split
      · exact settles_pure (by simp [IsFault]) _
      · split
        · exact settles_pure (by simp [IsFault]) _
        · rename_i room _
          obtain ⟨charged, store, run, same, calm⟩ := chargeHome_run home
            (Ledger.roundToGrain (Ledger.saturatingAdd Ledger.headerBytes (Ledger.saturatingMul room
              (if elem = some .byte then 1 else Ledger.slotBytes)))) span machine
          cases charged with
          | ok _ =>
            refine ⟨.ok .unit, .list items room elem home, store, ?_, same, by simp [IsFault]⟩
            simp [run]
          | error signal =>
            refine ⟨.error signal, .list items capacity elem home, store, ?_, same, ?_⟩
            · simp [run]
            · cases signal <;> exact calm
  · exact settles_pure (by simp [IsFault]) _

end Lists

theorem mapRemove_settles (pairs : List (Value × Slot Value)) (home : Option RegionId)
    (args : List Value) (span : Span) (machine : Machine) :
    Settles (mapRemove pairs home args span) machine := by
  unfold mapRemove
  split
  · split
    · exact settles_pure (by simp [IsFault]) _
    · split
      · exact settles_pure (by simp [IsFault]) _
      · exact settles_pure (by simp [IsFault]) _
      · exact settles_pure (by simp [IsFault]) _
  · exact settles_pure (by simp [IsFault]) _

/-- The list methods ask for their receiver's home, and the map methods do not. -/
theorem mutate_asks {which : Mutator} (fits : Door.fits which receiver) (bitten : machine.Bitten)
    (args : List Value) (span : Span) :
    Asks receiver (mutate which receiver args span) machine := by
  revert fits
  fun_cases mutate which receiver args span with
  | case1 => exact fun _ => listPush_asks bitten
  | case2 => exact fun _ => listPop_asks bitten
  | case3 | case4 => exact fun _ => asks_of_settles bitten (settles_pure (by simp [IsFault]) _)
  | case5 => exact fun _ => listReserve_asks bitten
  | case6 => exact fun _ => .inr ⟨not_false, settles_pure (by simp [IsFault]) _⟩
  | case7 pairs home =>
    exact fun _ => .inr ⟨not_false, mapRemove_settles pairs home args span machine⟩
  | case8 => simp_all [Door.fits]

end Methods

/-! ## What the doors do -/

section States

variable {machine : Machine} {path : Path}

theorem store_changeSlot (update : Slot Value → Slot Value) :
    (machine.changeSlot path update).store = machine.store := by
  unfold Machine.changeSlot Machine.setBase
  split
  · rfl
  · split <;> rfl

theorem refusal_of_sameStates (bitten : machine.Bitten) {store : Store Value}
    (same : SameStates machine.store store) :
    (({ machine with store } : Machine).writeRefusal path).isSome ↔
      ∃ id ∈ machine.homesOf path false, machine.store.Dead id := by
  have later : ({ machine with store } : Machine).Bitten := fun id dead =>
    same.2.trans (bitten id ((same.dead id).mp dead))
  rw [Machine.writeRefusal_isSome_iff later]
  simp only [same.dead]
  rfl

end States

namespace Door

variable {machine left : Machine} {path : Path} {slot : Slot Value} {which : Mutator}
  {args : List Value} {span : Span} {result : Except Signal Value} {after : Value}

/-- A method whose write-back would trap works on a copy. -/
theorem method_run_copied (found : machine.slotAt path = some slot)
    (traps : machine.writebackWouldTrap path = true)
    (ran : mutate which slot.value args span machine = (.ok (result, after), left)) :
    (method path which args span).run machine =
      match result with
      | .error signal => (.error signal, left)
      | .ok _ =>
        if after.same slot.value then (.ok (), left) else writePath path after span left := by
  cases result with
  | error signal =>
    simp [run, receiverCall, methodSite, MethodSite.lendNow, traps, takeReceiver, found,
      runMutator, ran, writeReceiver, markMoved, Except.isOk, Except.toBool]
  | ok value =>
    by_cases same : after.same slot.value
    · simp [run, receiverCall, methodSite, MethodSite.lendNow, traps, takeReceiver, found,
        runMutator, ran, writeReceiver, markMoved, Except.isOk, Except.toBool, same]
    · simp [run, receiverCall, methodSite, MethodSite.lendNow, traps, takeReceiver, found,
        runMutator, ran, writeReceiver, markMoved, Except.isOk, Except.toBool, same]
      cases writePath path after span left with
      | mk written final => cases written <;> rfl

/-- The machine while a receiver is lent. -/
abbrev lent (machine : Machine) (path : Path) : Machine :=
  machine.changeSlot path fun slot => { slot with value := .unit }

/-- A method whose write-back would not trap works on the receiver itself. -/
theorem method_run_lent (found : machine.slotAt path = some slot)
    (free : machine.writebackWouldTrap path = false)
    (ran : mutate which slot.value args span (lent machine path) = (.ok (result, after), left)) :
    (method path which args span).run machine =
      match result with
      | .error signal =>
        (.error signal, left.changeSlot path fun slot => { slot with value := after })
      | .ok _ =>
        if containerWriteStamp slot.value ≠ containerWriteStamp after then
          writePath path after span left
        else (.ok (), left.changeSlot path fun slot => { slot with value := after }) := by
  cases result with
  | error signal =>
    simp [run, receiverCall, methodSite, MethodSite.lendNow, free, takeReceiver, lendPath, found,
      runMutator, ran, writeReceiver, restoreLent, markMoved, Except.isOk, Except.toBool]
  | ok value =>
    by_cases same : containerWriteStamp slot.value = containerWriteStamp after
    · simp [run, receiverCall, methodSite, MethodSite.lendNow, free, takeReceiver, lendPath, found,
        runMutator, ran, writeReceiver, restoreLent, markMoved, Except.isOk, Except.toBool, same]
    · simp [run, receiverCall, methodSite, MethodSite.lendNow, free, takeReceiver, lendPath, found,
        runMutator, ran, writeReceiver, restoreLent, markMoved, Except.isOk, Except.toBool, same]
      cases writePath path after span left with
      | mk written final => cases written <;> rfl

section

variable (bitten : machine.Bitten)
include bitten

theorem assign_refused_iff {value : Value} {key : Option Value}
    (reaches : (assign path value key span).Reaches machine) :
    Refused (assign path value key span).run machine ↔
      (assign path value key span).Consults machine := by
  have refusal := (Machine.writeRefusal_isSome_iff bitten).mpr reaches.2
  obtain ⟨signal, run, fault⟩ := write_of_refusal refusal value key span
  change Refused (writePathWithKey path value key span) machine ↔ machine.Open path
  rw [Refused, run, fault]
  simp

theorem method_refused_copied (found : machine.slotAt path = some slot)
    (fits : fits which slot.value) (traps : machine.writebackWouldTrap path = true) :
    Refused (method path which args span).run machine ↔
      (method path which args span).Consults machine := by
  have consults : (method path which args span).Consults machine ↔
      homeRefuses machine slot.value ∨
        ((∃ id ∈ machine.homesOf path false, machine.store.Dead id) ∧ machine.Open path ∧
          which.Changes slot.value args span machine) := by
    simp [Consults, found]
  rw [consults]
  rcases mutate_asks fits bitten args span with
    ⟨refuses, result, fault, ran⟩ | ⟨willing, result, after, store, ran, same, calm⟩
  · simp only [refuses, true_or, iff_true]
    rw [Refused, method_run_copied found traps ran]
    cases result with
    | ok value => cases fault
    | error signal => exact ⟨by cases signal <;> exact fault, rfl, rfl⟩
  · have ends := method_run_copied found traps ran
    simp only [willing, false_or]
    cases result with
    | error signal =>
      have fails : ¬ which.Changes slot.value args span machine := by
        rintro ⟨value, after, ok, _⟩
        rw [ran] at ok
        cases ok
      simp only [fails, and_false, iff_false]
      rw [Refused, ends]
      exact fun refused => absurd refused.1 (by cases signal <;> exact calm)
    | ok value =>
      by_cases unchanged : after.same slot.value
      · have fails : ¬ which.Changes slot.value args span machine := by
          rintro ⟨value, after, ok, changed⟩
          rw [ran] at ok
          cases ok
          rw [unchanged] at changed
          cases changed
        simp only [fails, and_false, iff_false]
        rw [Refused, ends, if_pos unchanged]
        exact fun refused => refused.1
      · have changes : which.Changes slot.value args span machine :=
          ⟨value, after, by rw [ran], by simpa using unchanged⟩
        rw [Refused, ends, if_neg unchanged]
        simp only [changes, and_true]
        rw [← refusal_of_sameStates bitten same]
        constructor
        · rintro ⟨fault, -⟩
          obtain ⟨opens, refusal⟩ := write_isFault_iff.mp fault
          exact ⟨refusal, opens⟩
        · rintro ⟨refusal, opens⟩
          obtain ⟨signal, stopped, fault⟩ := write_of_refusal refusal after none span
          rw [writePath, stopped]
          refine ⟨?_, rfl, rfl⟩
          have raised := fault.mpr opens
          cases signal <;> exact raised

theorem method_refused_lent (found : machine.slotAt path = some slot) (fits : fits which slot.value)
    (free : machine.writebackWouldTrap path = false) :
    Refused (method path which args span).run machine ↔
      (method path which args span).Consults machine := by
  have clear : ¬ ∃ id ∈ machine.homesOf path false, machine.store.Dead id := by
    rw [← Machine.writeRefusal_isSome_iff bitten]
    intro refusal
    rw [Machine.writebackWouldTrap_of_refusal refusal] at free
    cases free
  have consults : (method path which args span).Consults machine ↔
      homeRefuses machine slot.value := by
    simp only [Consults, found, Option.some.injEq, exists_eq_left', clear, false_and, or_false]
  rw [consults]
  have lentBitten : (lent machine path).Bitten := by
    rw [Machine.Bitten, store_changeSlot]
    exact bitten
  have sameRefusal : homeRefuses (lent machine path) slot.value ↔
      homeRefuses machine slot.value := by
    unfold homeRefuses
    rw [store_changeSlot]
  rcases mutate_asks fits lentBitten args span with
    ⟨refuses, result, fault, ran⟩ | ⟨willing, result, after, store, ran, same, calm⟩
  · rw [sameRefusal] at refuses
    simp only [refuses, iff_true]
    have ends := method_run_lent found free ran
    cases result with
    | ok value => cases fault
    | error signal =>
      have restored : (lent machine path).changeSlot path (fun held =>
          { held with value := slot.value }) = machine := by
        rw [Machine.changeSlot_changeSlot]
        exact Machine.changeSlot_of_fixed found rfl
      rw [Refused, ends, restored]
      exact ⟨by cases signal <;> exact fault, rfl, rfl⟩
  · rw [sameRefusal] at willing
    simp only [willing, iff_false]
    have ends := method_run_lent found free ran
    rw [Refused, ends]
    rintro ⟨fault, -⟩
    cases result with
    | error signal => exact calm (by cases signal <;> exact fault)
    | ok value =>
      dsimp only at fault
      split at fault
      · have refusal := (write_isFault_iff.mp fault).2
        rw [refusal_of_sameStates lentBitten same] at refusal
        obtain ⟨id, member, dead⟩ := refusal
        rw [Machine.homesOf_changeSlot] at member
        rw [store_changeSlot] at dead
        exact clear ⟨id, member, dead⟩
      · exact fault

theorem method_refused_iff (reaches : (method path which args span).Reaches machine) :
    Refused (method path which args span).run machine ↔
      (method path which args span).Consults machine := by
  obtain ⟨slot, found, fits⟩ := (Option.any_eq_true _ _).mp reaches.1
  cases would : machine.writebackWouldTrap path with
  | true => exact method_refused_copied bitten found fits would
  | false => exact method_refused_lent bitten found fits would

/-- The write-back of a view set stops at the first field that changed. -/
theorem writeViewSet_run (reached : ∃ id ∈ machine.homesOf path true, machine.store.Dead id)
    (before after : Value) (span : Span) (names : List Text) :
    match changedField before after names with
    | none => writeViewSet path before after span names machine = (.ok (), machine)
    | some name => ∃ signal, writeViewSet path before after span names machine =
        (.error signal, machine) ∧ (IsFault (.error signal : Except Signal Unit) ↔
          machine.Open (path.project (.field name))) := by
  induction names with
  | nil => rfl
  | cons name names induction =>
    rw [changedField]
    unfold writeViewSet
    cases field : after.fieldOf name with
    | none => simpa using induction
    | some new =>
      by_cases same : optionSame (before.fieldOf name) new
      · simpa [same] using induction
      · have refusal : (machine.writeRefusal (path.project (.field name))).isSome := by
          rw [Machine.writeRefusal_isSome_iff bitten]
          simpa only [Machine.homesOf_project] using reached
        obtain ⟨signal, stopped, fault⟩ := write_of_refusal refusal new none span
        have run : writePath (path.project (.field name)) new span machine =
            (.error signal, machine) := stopped
        simp only [same, Bool.false_eq_true, if_false, M.bind_run, run]
        exact ⟨signal, rfl, fault⟩

end

variable {moded : Bool} {viewSet : List Text} {before : Value} {selfMoved : Option Span}

/-- A receiver's write-back that is stopped marks nothing moved. -/
theorem receiver_run_stopped {signal : Signal}
    (stopped : writeReceiver (receiverSite path moded viewSet before span) none before (.ok .unit)
      after machine = (.error signal, machine)) :
    (receiver path moded viewSet before after selfMoved span).run machine =
      (.error signal, machine) := by
  simp only [run, M.bind_run, M.attempt_run, stopped]
  cases selfMoved <;> simp [markMoved, receiverSite, Except.isOk, Except.toBool]

theorem receiver_run_through
    (through : writeReceiver (receiverSite path moded viewSet before span) none before (.ok .unit)
      after machine = (.ok (), machine)) :
    ((receiver path moded viewSet before after selfMoved span).run machine).1 = .ok () := by
  simp only [run, M.bind_run, M.attempt_run, through]
  cases selfMoved with
  | none => rfl
  | some at_ => cases moded <;> rfl

theorem receiver_keep (kept : after.same before = true) :
    writeReceiver (receiverSite path moded viewSet before span) none before (.ok .unit) after =
      pure () := by
  cases moded <;> simp [writeReceiver, receiverSite, kept, Except.isOk, Except.toBool]

theorem receiver_write (changed : after.same before = false) :
    writeReceiver (receiverSite path moded viewSet before span) none before (.ok .unit) after =
      if viewSet = [] then writePath path after span
      else writeViewSet path before after span viewSet := by
  cases moded <;> cases viewSet <;>
    simp [writeReceiver, receiverSite, changed, Except.isOk, Except.toBool]

theorem receiver_refused_iff (bitten : machine.Bitten)
    (reaches : (receiver path moded viewSet before after selfMoved span).Reaches machine) :
    Refused (receiver path moded viewSet before after selfMoved span).run machine ↔
      (receiver path moded viewSet before after selfMoved span).Consults machine := by
  have reached : ∃ id ∈ machine.homesOf path (!viewSet.isEmpty), machine.store.Dead id := reaches.2
  have stops {signal : Signal} (stopped : writeReceiver
        (receiverSite path moded viewSet before span) none before (.ok .unit) after machine =
          (.error signal, machine)) :
      Refused (receiver path moded viewSet before after selfMoved span).run machine ↔
        IsFault (.error signal : Except Signal Unit) := by
    rw [Refused, receiver_run_stopped stopped]
    exact and_iff_left ⟨rfl, rfl⟩
  have passes (through : writeReceiver (receiverSite path moded viewSet before span) none before
        (.ok .unit) after machine = (.ok (), machine)) :
      ¬ Refused (receiver path moded viewSet before after selfMoved span).run machine := by
    rintro ⟨fault, -⟩
    rw [receiver_run_through through] at fault
    exact fault
  cases changed : after.same before with
  | true =>
    have kept : writeReceiver (receiverSite path moded viewSet before span) none before
        (.ok .unit) after machine = (.ok (), machine) := by
      rw [receiver_keep changed]
      rfl
    simp only [Consults, changed, Bool.true_eq_false, false_and, iff_false]
    exact passes kept
  | false =>
    have writes : writeReceiver (receiverSite path moded viewSet before span) none before
        (.ok .unit) after =
          if viewSet = [] then writePath path after span
          else writeViewSet path before after span viewSet := receiver_write changed
    simp only [Consults, changed, true_and]
    by_cases whole : viewSet = []
    · subst whole
      have refusal := (Machine.writeRefusal_isSome_iff bitten).mpr reached
      obtain ⟨signal, stopped, fault⟩ := write_of_refusal refusal after none span
      rw [if_pos rfl] at writes ⊢
      rw [stops (by rw [writes]; exact stopped), fault]
    · have nonempty : (!viewSet.isEmpty) = true := by simp [whole]
      rw [nonempty] at reached
      have run := writeViewSet_run bitten reached before after span viewSet
      rw [if_neg whole] at writes ⊢
      cases first : changedField before after viewSet with
      | none =>
        rw [first] at run
        simp only [reduceCtorEq, false_and, exists_false, iff_false]
        exact passes (by rw [writes]; exact run)
      | some name =>
        rw [first] at run
        obtain ⟨signal, stopped, fault⟩ := run
        rw [stops (by rw [writes]; exact stopped), fault]
        simp

/-- A door that reaches dead storage is refused by a region fault exactly when it consults it. -/
theorem refused_iff (bitten : machine.Bitten) (door : Door) (reaches : door.Reaches machine) :
    Refused door.run machine ↔ door.Consults machine := by
  cases door with
  | assign => exact assign_refused_iff bitten reaches
  | method => exact method_refused_iff bitten reaches
  | receiver => exact receiver_refused_iff bitten reaches
  | argument => exact iff_of_false (fun refused => refused.1) id

end Door

end WolfInterp.Eval
