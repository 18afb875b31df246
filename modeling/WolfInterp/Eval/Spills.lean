import WolfInterp.Eval.Extents
import WolfInterp.Eval.Writes

/-!
# What a refused container method leaves

Every method of a `List` or a `Map`, called on a lent receiver, on one it takes and on a temporary.
A method refused before it works leaves all as it was. Two ways out come later than that: a `push`
stores its arguments before the growth is charged, and the growth is charged before a copied
receiver is written back.
-/

namespace WolfInterp.Eval

open WolfInterp.Lex (Text)
open WolfInterp.Syntax (ParamMode)

/-! ## The methods -/

/-- The methods of a container that only read it. -/
inductive Query where
  | len | count | isEmpty | get | first | last | pairs
  deriving DecidableEq

def readElement (slot : Slot Value) (span : Span) : Except Signal Value :=
  match slot.state with
  | .live => .ok slot.value
  | .moved at_ => .error (.trap { kind := .useAfterMove, span, secondary := some at_ })

def elementOrNone (slot : Option (Slot Value)) (span : Span) : Except Signal Value :=
  match slot with
  | some slot => readElement slot span
  | none => .ok noneRow

/-- The site of the first slot that was moved out. -/
def movedPair : List (Value × Slot Value) → Option Span
  | [] => none
  | (_, ⟨.moved at_, _⟩) :: _ => some at_
  | (_, ⟨.live, _⟩) :: rest => movedPair rest

/-- The method's arm for the receiver. -/
def Query.answer (which : Query) (receiver : Value) (args : List Value) (span : Span)
    (current : RegionId) : Except Signal Value :=
  match which, receiver with
  | .len, .list items _ _ _ | .count, .list items _ _ _ => .ok (.int items.length .int)
  | .isEmpty, .list items _ _ _ => .ok (.bool items.isEmpty)
  | .get, .list items _ _ _ =>
    match args.head? with
    | some (.int index _) => elementOrNone (itemAt items index) span
    | _ => .error .unsupported
  | .first, .list items _ _ _ => elementOrNone items.head? span
  | .last, .list items _ _ _ => elementOrNone items.getLast? span
  | .len, .map entries _ | .count, .map entries _ => .ok (.int entries.length .int)
  | .isEmpty, .map entries _ => .ok (.bool entries.isEmpty)
  | .pairs, .map entries _ =>
    match movedPair entries with
    | some at_ => .error (.trap { kind := .useAfterMove, span, secondary := some at_ })
    | none =>
      let items := entries.map fun (key, slot) =>
        Slot.live (.tuple [Slot.live key, Slot.live slot.value])
      .ok (.list items (Ledger.slotCapacity items.length) none (some current))
  | _, _ => .error .unsupported

/-- A method of a container; `par` hands the elements to tasks that run the program's own code. -/
inductive ContainerMethod where
  | mutator (which : Mutator)
  | query (which : Query)
  | par (work : Value → List Value → M Value)

def ContainerMethod.builtin (span : Span) : ContainerMethod → Builtin
  | mutator which => .mutator which
  | query which => .query fun receiver args store =>
    (which.answer receiver args span store.current, store)
  | par work => .par work

/-! ## The calls -/

/-- Where a receiver is: in a place it is lent from, in a place the call takes, or nowhere. -/
inductive Holder where
  | lent (path : Path) (mode : Option ParamMode)
  | taken (path : Path) (copy : Value)
  | temporary (copy : Value) (mode : Option ParamMode)

def Holder.path : Holder → Option Path
  | lent path _ | taken path _ => some path
  | temporary _ _ => none

def Holder.site (mutates : Bool) (span : Span) : Holder → MethodSite
  | lent path mode =>
    { path := some path, mode, lend := some mutates, value := none, viewSet := [], span }
  | taken path copy =>
    { path := some path, mode := some .take, lend := none, value := some copy, viewSet := [],
      span }
  | temporary copy mode =>
    { path := none, mode, lend := none, value := some copy, viewSet := [], span }

/-- A method call on a container whose arguments have run. -/
structure ContainerCall where
  holder : Holder
  method : ContainerMethod
  evaluated : Args
  span : Span

namespace ContainerCall

variable (call : ContainerCall) (machine : Machine)

def run : M Value :=
  let method := call.method.builtin call.span
  receiverCall (call.holder.site method.mutates call.span)
    (fun receiver => method.body call.span receiver call.evaluated.values)
    fun left => finishArgs call.evaluated left.finals left.moved

/-- The container the method works on. -/
def receiver : Value :=
  match call.holder with
  | .lent path _ => (machine.slotAt path).elim .unit Slot.value
  | .taken _ copy | .temporary copy _ => copy

/-- A call the evaluator makes: a `take` receiver is not lent, one whose method changes it is not
taken, no `mut` argument meets the place of the receiver (as its claim keeps them apart), and
pruning does not abort. The code a `par` runs is the program's own: it is taken to leave place and
birth region alone. -/
structure Fits : Prop where
  mode : ∀ path mode, call.holder = .lent path mode → mode ≠ some .take
  taken : ∀ path copy which, call.holder = .taken path copy → call.method ≠ .mutator which
  apart : ∀ path, call.holder.path = some path →
    ∀ entry ∈ call.evaluated.writebacks, path.Apart entry.2
  work : ∀ work, call.method = .par work → ∀ receiver args machine id path,
    (work receiver args machine).2.slotAt path = machine.slotAt path ∧
      (work receiver args machine).2.store.region id = machine.store.region id
  settles : (call.evaluated.protectors.foldl Provenance.unprotect machine.prov).prune.isSome

/-- The slot the receiver is in and its birth region are as they were: its elements, their order
and states, the capacity, and the ledger. -/
def Unmutated (after : Machine) : Prop :=
  (∀ path, call.holder.path = some path → after.slotAt path = machine.slotAt path) ∧
    ∀ id, (call.receiver machine).home = some id → after.store.region id = machine.store.region id

end ContainerCall

/-- What a call claims while its arguments run, the place of a `mut` receiver as well, is apart from
every place that a `mut` argument is granted. -/
theorem apart_of_granted {set : AccessSet} {held : Held} {path : Path} {reach : Reach}
    (claimed : held ∈ set.held) (granted : set.conflictAs path .exclusive reach = none) :
    held.path.Apart path := by
  intro same
  have free : ¬ held.path.Overlaps path := by
    have free := List.find?_eq_none.mp granted held claimed
    rw [← Path.conflictsWith_iff]
    cases why : held.why <;> simp_all [Held.meets]
  have equal (steps : List Proj) :
      List.Forall₂ (fun one two => Proj.mayEqual one two = true) steps steps :=
    List.forall₂_same.mpr fun step _ => by cases step <;> simp [Proj.mayEqual]
  rcases Lens.prefix_or_parts held.path.projections path.projections with
    ⟨rest, split⟩ | ⟨rest, split⟩ | parts
  · exact absurd ⟨same.1, same.2, .inl ⟨_, rest, split.symm, equal _⟩⟩ free
  · exact absurd ⟨same.1, same.2, .inr ⟨_, rest, split.symm, equal _⟩⟩ free
  · exact parts

/-- The call ended in a trap or a refusal. -/
def Failed {α : Type} (result : Except Signal α) : Prop :=
  result = .error .unsupported ∨ ∃ trap, result = .error (.trap trap)

/-! ## When a call mutates and fails -/

section Conditions

variable (store : Store Value) (elem : Option ElemTy) (home : Option RegionId)

/-- The home lets the container be written. -/
def HomeOpen : Prop :=
  store.teeth = true → ∀ id, home = some id → store.state id ≠ some .freed ∧
    store.state id ≠ some .frozen

/-- What the element type takes: anything, but a literal must fit, and bytes take no integer. -/
def Accepts : Value → Prop
  | .int value ty =>
    elem ≠ some .byte ∧
    (ty.literal = true → ((elem.bind ElemTy.asInt).getD .int).holds value = true)
  | _ => True

/-- An argument as it is stored. -/
def adopted : Value → Value
  | .int value ty => .int value (if ty.literal then (elem.bind ElemTy.asInt).getD .int else ty)
  | value => value

/-- The elements a `push` leaves. -/
def pushed (items : List (Slot Value)) (args : List Value) : List (Slot Value) :=
  items ++ args.map fun arg => Slot.live (adopted elem arg)

def pushRoom (capacity : Nat) (stored : List (Slot Value)) : Nat :=
  if capacity < stored.length then Ledger.slotCapacity stored.length else capacity

/-- What a `push` is charged. -/
def pushBytes (capacity : Nat) (stored : List (Slot Value)) : Nat :=
  growthBytesStrided capacity stored.length (strideOf stored)

/-- What a `reserve` is charged. -/
def reserveBytes (room : Nat) : Nat :=
  let stride := if elem = some .byte then 1 else Ledger.slotBytes
  Ledger.roundToGrain (Ledger.saturatingAdd Ledger.headerBytes (Ledger.saturatingMul room stride))

/-- The charge would pass the cap of the birth region. -/
def OverCap (bytes : Nat) : Prop :=
  bytes ≠ 0 ∧ ∃ id region cap, home = some id ∧ store.region id = some region ∧
    region.cap = some cap ∧ cap < Ledger.saturatingAdd region.bytes bytes

/-- The charge is taken and shows in the ledger, which it does below saturation. -/
def Grows (bytes : Nat) : Prop :=
  ¬ OverCap store home bytes ∧ bytes ≠ 0 ∧ ∃ id region, home = some id ∧
    store.region id = some region ∧ Ledger.saturatingAdd region.bytes bytes ≠ region.bytes

end Conditions

/-- A `push` that has stored something when it is refused: an argument after the first does not fit
the element type, or the growth passes the cap. -/
def Spills (which : Mutator) (receiver : Value) (args : List Value) (store : Store Value) : Prop :=
  match which, receiver with
  | .push, .list items capacity elem home =>
    HomeOpen store home ∧
      ((∃ first rest, args = first :: rest ∧ Accepts elem first ∧
          ∃ arg ∈ rest, ¬ Accepts elem arg) ∨
        ((∀ arg ∈ args, Accepts elem arg) ∧
          (args ≠ [] ∨ pushRoom capacity items ≠ capacity) ∧
          OverCap store home (pushBytes capacity (pushed elem items args))))
  | _, _ => False

/-- The method is done and has charged the birth region. -/
def Charges (which : Mutator) (receiver : Value) (args : List Value) (store : Store Value) : Prop :=
  match which, receiver with
  | .push, .list items capacity elem home =>
    HomeOpen store home ∧ (∀ arg ∈ args, Accepts elem arg) ∧
      Grows store home (pushBytes capacity (pushed elem items args))
  | .reserve, .list _ capacity elem home =>
    HomeOpen store home ∧ ∃ want ty room, args = [.int want ty] ∧ 0 < want ∧
      (capacity : Int) < want ∧ want < 2 ^ 64 ∧ checkedPower want.toNat = some room ∧
      Grows store home (reserveBytes elem room)
  | _, _ => False

/-- The receiver as a method leaves it that was charged. -/
def Mutator.left (which : Mutator) (receiver : Value) (args : List Value) : Value :=
  match which, receiver, args with
  | .push, .list items capacity elem home, args =>
    let stored := pushed elem items args
    .list stored (pushRoom capacity stored) elem home
  | .reserve, .list items capacity elem home, [.int want _] =>
    .list items ((checkedPower want.toNat).getD capacity) elem home
  | _, receiver, _ => receiver

/-- A lent receiver keeps what it was when no `push` spills into it. One that cannot be written back
is worked on as a copy, and then the birth region keeps its ledger when the method charges nothing,
leaves an equal value, or can be written back after all once the arguments' own claims are gone. -/
def ContainerCall.Keeps (call : ContainerCall) (machine : Machine) : Prop :=
  match call.method, call.holder with
  | .mutator which, .lent path _ =>
    let receiver := call.receiver machine
    let args := call.evaluated.values
    let released := { machine with access := machine.access.release call.evaluated.held }
    if machine.writebackWouldTrap path then
      ¬ (Charges which receiver args machine.store ∧
        (which.left receiver args).same receiver = false ∧
        released.writebackWouldTrap path = true)
    else ¬ Spills which receiver args machine.store
  | _, _ => True

/-! ## The checks and the charge -/

section Steps

variable {machine : Machine} {home : Option RegionId} {span : Span}

theorem checkHomeWrite_cases (home : Option RegionId) (span : Span) (machine : Machine) :
    (HomeOpen machine.store home ∧ checkHomeWrite home span machine = (.ok (), machine)) ∨
      (¬ HomeOpen machine.store home ∧
        ∃ trap, checkHomeWrite home span machine = (.error (.trap trap), machine)) := by
  unfold checkHomeWrite HomeOpen
  simp only [M.bind_run, M.get_run, Machine.regionState]
  cases home with
  | none => exact .inl ⟨(by simp), rfl⟩
  | some id =>
    dsimp only
    cases machine.store.teeth with
    | false => exact .inl ⟨(by simp), rfl⟩
    | true =>
      simp only [Bool.not_true, Bool.false_eq_true, if_false]
      cases state : machine.store.state id with
      | none => exact .inl ⟨by simp [state], rfl⟩
      | some now =>
        cases now
        case freed => exact .inr ⟨by simp [state], _, rfl⟩
        case frozen => exact .inr ⟨by simp [state], _, rfl⟩
        all_goals exact .inl ⟨by simp [state], rfl⟩

theorem admits_cases (region : Region) (bytes : Nat) :
    (∃ cap, region.cap = some cap ∧ cap < Ledger.saturatingAdd region.bytes bytes ∧
        ∃ breach, Store.admits region bytes = .error breach) ∨
      ((∀ cap, region.cap = some cap → ¬ cap < Ledger.saturatingAdd region.bytes bytes) ∧
        Store.admits region bytes = .ok (Ledger.saturatingAdd region.bytes bytes)) := by
  unfold Store.admits
  cases region.cap with
  | none => exact .inr ⟨nofun, rfl⟩
  | some cap =>
    dsimp only
    by_cases beyond : cap < Ledger.saturatingAdd region.bytes bytes
    · exact .inl ⟨cap, rfl, beyond, by rw [if_pos beyond]; exact ⟨_, rfl⟩⟩
    · refine .inr ⟨?_, if_neg beyond⟩
      rintro _ ⟨⟩
      exact beyond

/-- A charge that is taken changes the ledger of the birth region or nothing. -/
theorem chargeGrowth_cases (store : Store Value) (id : RegionId) (bytes : Nat) :
    (OverCap store (some id) bytes ∧ ∃ breach, store.chargeGrowth id bytes = .error breach) ∨
      (¬ OverCap store (some id) bytes ∧ ∃ next, store.chargeGrowth id bytes = .ok next ∧
        (next.region id ≠ store.region id ↔ Grows store (some id) bytes)) := by
  unfold Store.chargeGrowth
  by_cases free : bytes = 0
  · rw [if_pos free]
    exact .inr ⟨fun beyond => beyond.1 free, store, rfl,
      iff_of_false (fun differs => differs rfl) fun grows => grows.2.1 free⟩
  rw [if_neg free]
  cases found : store.region id with
  | none =>
    refine .inr ⟨?_, store, rfl, iff_of_false (fun differs => differs found) ?_⟩
    · rintro ⟨-, _, region, cap, ⟨⟩, held, -⟩
      rw [found] at held
      cases held
    · rintro ⟨-, -, _, region, ⟨⟩, held, -⟩
      rw [found] at held
      cases held
  | some region =>
    dsimp only
    rcases admits_cases region bytes with ⟨cap, capped, beyond, breach, refused⟩ | ⟨under, total⟩
    · rw [refused]
      exact .inl ⟨⟨free, id, region, cap, rfl, found, capped, beyond⟩, breach, rfl⟩
    · rw [total]
      have kept : ¬ OverCap store (some id) bytes := by
        rintro ⟨-, _, held, cap, ⟨⟩, again, capped, beyond⟩
        rw [found] at again
        cases again
        exact under cap capped beyond
      refine .inr ⟨kept, _, rfl, ?_⟩
      have charged : ({ store with regions := store.regions.modify id fun held =>
          { held with bytes := Ledger.saturatingAdd region.bytes bytes } } :
            Store Value).region id =
          some { region with bytes := Ledger.saturatingAdd region.bytes bytes } := by
        have held : store.regions[id]? = some region := found
        simp [Store.region, held]
      rw [charged]
      constructor
      · intro differs
        refine ⟨kept, free, id, region, rfl, found, fun same => differs ?_⟩
        rw [same]
      · rintro ⟨-, -, _, held, ⟨⟩, again, shows_⟩ same
        rw [found] at again
        cases again
        exact shows_ (congrArg Region.bytes (Option.some.inj same))

theorem chargeHome_cases (home : Option RegionId) (bytes : Nat) (span : Span) (machine : Machine) :
    (OverCap machine.store home bytes ∧
        ∃ trap, chargeHome home bytes span machine = (.error (.trap trap), machine)) ∨
      (¬ OverCap machine.store home bytes ∧ ∃ store,
        chargeHome home bytes span machine = (.ok (), { machine with store }) ∧
          SameStates machine.store store ∧
          ((∃ id, home = some id ∧ store.region id ≠ machine.store.region id) ↔
            Grows machine.store home bytes)) := by
  unfold chargeHome
  simp only [M.bind_run, M.get_run]
  cases home with
  | none =>
    refine .inr ⟨fun beyond => ?_, machine.store, rfl, .refl _, ?_⟩
    · obtain ⟨-, _, _, _, ⟨⟩, -⟩ := beyond
    · constructor
      · rintro ⟨_, ⟨⟩, -⟩
      · rintro ⟨-, -, _, _, ⟨⟩, -⟩
  | some id =>
    rcases chargeGrowth_cases machine.store id bytes with ⟨beyond, breach, refused⟩ |
      ⟨under, next, taken, differs⟩
    · simp only [refused]
      exact .inl ⟨beyond, _, rfl⟩
    · simp only [taken]
      refine .inr ⟨under, next, rfl, Store.states_chargeGrowth taken, ?_⟩
      rw [← differs]
      constructor
      · rintro ⟨_, ⟨⟩, changed⟩
        exact changed
      · exact fun changed => ⟨id, rfl, changed⟩

end Steps

/-! ## What a mutating method leaves -/

section Mutators

variable {elem : Option ElemTy} {span : Span}

theorem adoptElement_cases (elem : Option ElemTy) (arg : Value) (span : Span) :
    (Accepts elem arg ∧ adoptElement elem arg span = .ok (adopted elem arg)) ∨
      (¬ Accepts elem arg ∧ ∃ signal, adoptElement elem arg span = .error signal ∧
        Failed (.error signal : Except Signal Value)) := by
  cases arg with
  | int value ty =>
    by_cases bytes : elem = some .byte
    · subst bytes
      exact .inr ⟨fun taken => taken.1 rfl, _, rfl, .inl rfl⟩
    have plain : adoptElement elem (.int value ty) span =
        if ty.literal then
          if ((elem.bind ElemTy.asInt).getD .int).holds value then
            .ok (.int value ((elem.bind ElemTy.asInt).getD .int))
          else .error (.trap { kind := .overflow, span })
        else .ok (.int value ty) := by
      cases elem with
      | none => rfl
      | some declared =>
        cases declared with
        | int _ => rfl
        | byte => exact absurd rfl bytes
    rw [plain]
    by_cases literal : ty.literal = true
    · by_cases holds : ((elem.bind ElemTy.asInt).getD .int).holds value = true
      · refine .inl ⟨⟨bytes, fun _ => holds⟩, ?_⟩
        simp [holds, adopted, literal]
      · refine .inr ⟨fun taken => holds (taken.2 literal), .trap { kind := .overflow, span }, ?_,
          .inr ⟨_, rfl⟩⟩
        simp [literal, holds]
    · refine .inl ⟨⟨bytes, fun on => absurd on literal⟩, ?_⟩
      simp [adopted, literal]
  | _ => exact .inl ⟨trivial, by cases elem with
      | none => rfl
      | some ty => cases ty <;> rfl⟩

/-- The arguments of a `push` are all stored, or those before a refused one are. -/
theorem pushArgs_cases (items : List (Slot Value)) (args : List Value) :
    ((∀ arg ∈ args, Accepts elem arg) ∧
        pushArgs elem span items args = (.ok (), pushed elem items args)) ∨
      ∃ signal front, pushArgs elem span items args = (.error signal, items ++ front) ∧
        Failed (.error signal : Except Signal Value) ∧ (∃ arg ∈ args, ¬ Accepts elem arg) ∧
        (front ≠ [] ↔ ∃ first rest, args = first :: rest ∧ Accepts elem first ∧
          ∃ arg ∈ rest, ¬ Accepts elem arg) := by
  induction args generalizing items with
  | nil => exact .inl ⟨nofun, by simp [pushArgs, pushed]⟩
  | cons arg rest induction =>
    rw [pushArgs]
    rcases adoptElement_cases elem arg span with
      ⟨taken, stored⟩ | ⟨refused, signal, stopped, failed⟩
    · rw [stored]
      dsimp only
      rcases induction (items ++ [Slot.live (adopted elem arg)]) with ⟨all, ran⟩ |
        ⟨signal, front, ran, failed, later, -⟩
      · refine .inl ⟨?_, ?_⟩
        · intro other member
          rcases List.mem_cons.mp member with rfl | member
          · exact taken
          · exact all other member
        · rw [ran]
          simp [pushed]
      · refine .inr ⟨signal, Slot.live (adopted elem arg) :: front, ?_, failed, ?_, ?_⟩
        · rw [ran]
          simp
        · obtain ⟨other, member, refused⟩ := later
          exact ⟨other, List.mem_cons_of_mem _ member, refused⟩
        · exact iff_of_true (List.cons_ne_nil _ _) ⟨arg, rest, rfl, taken, later⟩
    · rw [stopped]
      refine .inr ⟨signal, [], by rw [List.append_nil], failed,
        ⟨arg, List.mem_cons_self, refused⟩, iff_of_false (fun no => no rfl) ?_⟩
      rintro ⟨first, others, ⟨⟩, taken, -⟩
      exact refused taken

/-- How a mutating method ends on a receiver in hand. -/
structure Turns (which : Mutator) (receiver : Value) (args : List Value) (machine : Machine)
    (result : Except Signal Value) (after : Value) (store : Store Value) : Prop where
  states : SameStates machine.store store
  refused : ∀ signal, result = .error signal → Failed result ∧ store = machine.store ∧
    (after ≠ receiver ↔ Spills which receiver args machine.store)
  done : ∀ value, result = .ok value → ¬ Spills which receiver args machine.store
  charged : Charges which receiver args machine.store ↔
    result.isOk = true ∧ ∃ id, receiver.home = some id ∧ store.region id ≠ machine.store.region id
  left : Charges which receiver args machine.store → after = which.left receiver args

variable {which : Mutator} {receiver : Value} {args : List Value} {machine : Machine}

/-- A method refused before it works. -/
theorem Turns.early {signal : Signal} (failed : Failed (.error signal : Except Signal Value))
    (spills : ¬ Spills which receiver args machine.store)
    (charges : ¬ Charges which receiver args machine.store) :
    Turns which receiver args machine (.error signal) receiver machine.store where
  states := .refl _
  refused _ _ := ⟨failed, rfl, iff_of_false (fun differs => differs rfl) spills⟩
  done _ same := nomatch same
  charged := iff_of_false charges fun ⟨ok, _⟩ => nomatch ok
  left charged := absurd charged charges

/-- A method that is done and charges nothing. -/
theorem Turns.free {value : Value} (after : Value)
    (spills : ¬ Spills which receiver args machine.store)
    (charges : ¬ Charges which receiver args machine.store) :
    Turns which receiver args machine (.ok value) after machine.store where
  states := .refl _
  refused _ same := nomatch same
  done _ _ := spills
  charged := iff_of_false charges fun ⟨_, _, _, differs⟩ => differs rfl
  left charged := absurd charged charges

variable {rest : OnReceiver}

theorem checkedFirst_error {check : M Unit} {signal : Signal}
    (stopped : check machine = (.error signal, machine)) :
    checkedFirst check receiver rest machine = (.ok (.error signal, receiver), machine) := by
  unfold checkedFirst
  rw [M.bind_run, M.attempt_run, stopped]
  rfl

theorem checkedFirst_through {check : M Unit} (passed : check machine = (.ok (), machine)) :
    checkedFirst check receiver rest machine = rest machine := by
  unfold checkedFirst
  rw [M.bind_run, M.attempt_run, passed]

/-- How a command on a receiver turns. -/
def Ends (which : Mutator) (receiver : Value) (args : List Value) (machine : Machine)
    (command : OnReceiver) : Prop :=
  ∃ result after store, command machine = (.ok (result, after), { machine with store }) ∧
    Turns which receiver args machine result after store

theorem ends_listPush (items : List (Slot Value)) (capacity : Nat) (home : Option RegionId) :
    Ends .push (.list items capacity elem home) args machine
      (listPush items capacity elem home args span) := by
  unfold listPush Ends
  rcases checkHomeWrite_cases home span machine with ⟨open_, passed⟩ | ⟨closed, trap, stopped⟩
  swap
  · refine ⟨_, _, machine.store, checkedFirst_error stopped, .early (.inr ⟨trap, rfl⟩) ?_ ?_⟩
    · exact fun spills => closed spills.1
    · exact fun charges => closed charges.1
  rw [checkedFirst_through passed]
  rcases pushArgs_cases items args with ⟨all, ran⟩ | ⟨signal, front, ran, failed, refused, late⟩
  · rw [ran]
    have accepted (first : Value) (rest : List Value) (whole : args = first :: rest) :
        ¬ ∃ arg ∈ rest, ¬ Accepts elem arg := by
      rintro ⟨arg, member, refused⟩
      exact refused (all arg (whole ▸ List.mem_cons_of_mem _ member))
    have bytes : growthBytesStrided capacity (pushed elem items args).length
        (strideOf (pushed elem items args)) = pushBytes capacity (pushed elem items args) := rfl
    simp only [M.bind_run, M.attempt_run, bytes]
    rcases chargeHome_cases home (pushBytes capacity (pushed elem items args)) span machine with
      ⟨beyond, trap, stopped⟩ | ⟨under, store, charged, states, differs⟩
    · rw [stopped]
      refine ⟨_, _, machine.store, rfl, .refl _, ?_, fun _ same => (nomatch same), ?_,
        fun charges => absurd beyond charges.2.2.1⟩
      · refine fun _ _ => ⟨.inr ⟨trap, rfl⟩, rfl, ?_⟩
        constructor
        · intro differs
          refine ⟨open_, .inr ⟨all, ?_, beyond⟩⟩
          by_contra neither
          obtain ⟨rfl, room⟩ : args = [] ∧ pushRoom capacity items = capacity := by
            simpa using neither
          have none_ : pushed elem items [] = items := List.append_nil items
          rw [none_] at differs
          exact differs (congrArg (fun room => Value.list items room elem home) room)
        · rintro ⟨-, ⟨first, rest, whole, -, later⟩ | ⟨-, grown | room, -⟩⟩ same
          · exact accepted first rest whole later
          · have kept : pushed elem items args = items := (Value.list.inj same).1
            have longer := congrArg List.length kept
            simp only [pushed, List.length_append, List.length_map] at longer
            exact grown (List.length_eq_zero_iff.mp (by omega))
          · obtain ⟨kept, header, -⟩ := Value.list.inj same
            rw [kept] at header
            exact room header
      · exact iff_of_false (fun charges => charges.2.2.1 beyond) fun ⟨ok, _⟩ => nomatch ok
    · rw [charged]
      refine ⟨_, _, store, rfl, states, fun _ same => (nomatch same), fun _ _ => ?_, ?_,
        fun _ => rfl⟩
      · rintro ⟨-, ⟨first, rest, whole, -, later⟩ | ⟨-, -, beyond⟩⟩
        · exact accepted first rest whole later
        · exact under beyond
      · constructor
        · exact fun charges => ⟨rfl, differs.mpr charges.2.2⟩
        · exact fun ⟨_, changed⟩ => ⟨open_, all, differs.mp changed⟩
  · rw [ran]
    obtain ⟨arg, member, no⟩ := refused
    refine ⟨_, _, machine.store, rfl, .refl _, fun _ _ => ⟨failed, rfl, ?_⟩,
      fun _ same => (nomatch same), ?_, fun charges => absurd (charges.2.1 arg member) no⟩
    · constructor
      · intro differs
        refine ⟨open_, .inl (late.mp fun empty => differs ?_)⟩
        rw [empty, List.append_nil]
      · rintro ⟨-, stored | ⟨all, -⟩⟩ same
        · exact late.mpr stored (List.append_right_eq_self.mp (Value.list.inj same).1)
        · exact no (all arg member)
    · exact iff_of_false (fun charges => no (charges.2.1 arg member)) fun ⟨ok, _⟩ => nomatch ok

theorem Ends.early {signal : Signal} (failed : Failed (.error signal : Except Signal Value))
    (spills : ¬ Spills which receiver args machine.store)
    (charges : ¬ Charges which receiver args machine.store) :
    Ends which receiver args machine (pure (.error signal, receiver)) :=
  ⟨_, _, machine.store, rfl, .early failed spills charges⟩

theorem Ends.free {value : Value} (after : Value)
    (spills : ¬ Spills which receiver args machine.store)
    (charges : ¬ Charges which receiver args machine.store) :
    Ends which receiver args machine (pure (.ok value, after)) :=
  ⟨_, _, machine.store, rfl, .free after spills charges⟩

/-- A method behind its receiver's home. -/
theorem Ends.checkedFirst {home : Option RegionId}
    (spills : Spills which receiver args machine.store → HomeOpen machine.store home)
    (charges : Charges which receiver args machine.store → HomeOpen machine.store home)
    (ends : HomeOpen machine.store home → Ends which receiver args machine rest) :
    Ends which receiver args machine (checkedFirst (checkHomeWrite home span) receiver rest) := by
  rcases checkHomeWrite_cases home span machine with ⟨open_, passed⟩ | ⟨closed, trap, stopped⟩
  · obtain ⟨result, after, store, ran, turns⟩ := ends open_
    exact ⟨result, after, store, (checkedFirst_through passed).trans ran, turns⟩
  · exact ⟨_, _, machine.store, checkedFirst_error stopped,
      .early (.inr ⟨trap, rfl⟩) (fun spills' => closed (spills spills'))
        fun charges' => closed (charges charges')⟩

theorem ends_listPop (items : List (Slot Value)) (capacity : Nat) (home : Option RegionId) :
    Ends .pop (.list items capacity elem home) args machine
      (listPop items capacity elem home span) := by
  refine Ends.checkedFirst ?_ ?_ fun _ => ?_
  · nofun
  · nofun
  split
  · exact .free _ nofun nofun
  · exact .early (.inr ⟨_, rfl⟩) nofun nofun
  · exact .free _ nofun nofun

theorem ends_listClear (items : List (Slot Value)) (capacity : Nat) (home : Option RegionId)
    (which : Mutator) (drains : which = .clear ∨ which = .reset) :
    Ends which (.list items capacity elem home) args machine
      (listClear items capacity elem home span) := by
  have calm : ¬ Spills which (.list items capacity elem home) args machine.store ∧
      ¬ Charges which (.list items capacity elem home) args machine.store := by
    rcases drains with rfl | rfl <;> exact ⟨nofun, nofun⟩
  refine Ends.checkedFirst ?_ ?_ fun _ => .free _ calm.1 calm.2
  · exact fun spills => absurd spills calm.1
  · exact fun charges => absurd charges calm.2

theorem ends_mapRemove (pairs : List (Value × Slot Value)) (home : Option RegionId) :
    Ends .mapRemove (.map pairs home) args machine (mapRemove pairs home args span) := by
  unfold mapRemove
  split
  · split
    · exact .free _ nofun nofun
    · split
      · exact .free _ nofun nofun
      · exact .early (.inr ⟨_, rfl⟩) nofun nofun
      · exact .free _ nofun nofun
  · exact .early (.inl rfl) nofun nofun

theorem ends_listReserve (items : List (Slot Value)) (capacity : Nat) (home : Option RegionId) :
    Ends .reserve (.list items capacity elem home) args machine
      (listReserve items capacity elem home args span) := by
  refine Ends.checkedFirst ?_ ?_ fun open_ => ?_
  · nofun
  · exact fun charges => charges.1
  split
  · rename_i want ty
    by_cases small : want ≤ 0 ∨ want ≤ (capacity : Int)
    · rw [if_pos small]
      refine .free _ nofun ?_
      rintro ⟨-, _, _, room, ⟨⟩, positive, beyond, -⟩
      omega
    rw [if_neg small]
    by_cases large : (2 ^ 64 : Int) ≤ want
    · rw [if_pos large]
      refine .early (.inr ⟨_, rfl⟩) nofun ?_
      rintro ⟨-, _, _, room, ⟨⟩, -, -, fits, -⟩
      omega
    rw [if_neg large]
    cases power : checkedPower want.toNat with
    | none =>
      refine .early (.inr ⟨_, rfl⟩) nofun ?_
      rintro ⟨-, _, _, room, ⟨⟩, -, -, -, powers, -⟩
      rw [power] at powers
      cases powers
    | some room =>
      have charges : Charges .reserve (.list items capacity elem home) [.int want ty]
          machine.store ↔ Grows machine.store home (reserveBytes elem room) := by
        constructor
        · rintro ⟨-, _, _, _, ⟨⟩, -, -, -, powers, grows⟩
          rw [power] at powers
          cases powers
          exact grows
        · intro grows
          exact ⟨open_, want, ty, room, rfl, by omega, by omega, by omega, power, grows⟩
      have bytes : Ledger.roundToGrain (Ledger.saturatingAdd Ledger.headerBytes
          (Ledger.saturatingMul room (if elem = some .byte then 1 else Ledger.slotBytes))) =
            reserveBytes elem room := rfl
      unfold Ends
      simp only [M.bind_run, M.attempt_run, bytes]
      rcases chargeHome_cases home (reserveBytes elem room) span machine with
        ⟨beyond, trap, stopped⟩ | ⟨under, store, charged, states, differs⟩
      · rw [stopped]
        exact ⟨_, _, machine.store, rfl, .early (.inr ⟨trap, rfl⟩) nofun
          fun charged => (charges.mp charged).1 beyond⟩
      · rw [charged]
        refine ⟨_, _, store, rfl, states, fun _ same => (nomatch same), fun _ _ => nofun, ?_, ?_⟩
        · rw [charges, ← differs]
          exact ⟨fun changed => ⟨rfl, changed⟩, fun ⟨_, changed⟩ => changed⟩
        · intro _
          simp only [Mutator.left, power, Option.getD_some]
  · rename_i shape
    refine .early (.inl rfl) nofun ?_
    rintro ⟨-, want, ty, room, rfl, -⟩
    exact shape want ty rfl

/-- Every mutating method ends so. -/
theorem ends_mutate (which : Mutator) (receiver : Value) (args : List Value) (span : Span)
    (machine : Machine) : Ends which receiver args machine (mutate which receiver args span) := by
  fun_cases mutate which receiver args span with
  | case1 items capacity elem home => exact ends_listPush items capacity home
  | case2 items capacity elem home => exact ends_listPop items capacity home
  | case3 items capacity elem home =>
    exact ends_listClear items capacity home .clear (.inl rfl)
  | case4 items capacity elem home =>
    exact ends_listClear items capacity home .reset (.inr rfl)
  | case5 items capacity elem home => exact ends_listReserve items capacity home
  | case6 => exact .free _ id id
  | case7 pairs home => exact ends_mapRemove pairs home
  | case8 _ _ none_push _ _ _ none_reserve =>
    have spills : ¬ Spills which receiver args machine.store := by
      fun_cases Spills which receiver args machine.store with
      | case1 => exact (none_push _ _ _ _ rfl rfl).elim
      | case2 => exact id
    have charges : ¬ Charges which receiver args machine.store := by
      fun_cases Charges which receiver args machine.store with
      | case1 => exact (none_push _ _ _ _ rfl rfl).elim
      | case2 => exact (none_reserve _ _ _ _ rfl rfl).elim
      | case3 => exact id
    exact .early (.inl rfl) spills charges

end Mutators

/-! ## Around the method -/

section Around

variable {machine : Machine} {path : Path}

theorem writebackWouldTrap_changeSlot (update : Slot Value → Slot Value) :
    (machine.changeSlot path update).writebackWouldTrap path = machine.writebackWouldTrap path := by
  have refusal : (machine.changeSlot path update).writeRefusal path =
      machine.writeRefusal path := by
    unfold Machine.writeRefusal Machine.regionState
    rw [Machine.homesOf_changeSlot, store_changeSlot]
  unfold Machine.writebackWouldTrap
  rw [readParamWrite_changeSlot, refusal, (changeSlot_fields machine).1]

theorem writebackWouldTrap_sameStates {store : Store Value}
    (same : SameStates machine.store store) :
    ({ machine with store } : Machine).writebackWouldTrap path =
      machine.writebackWouldTrap path := by
  have refusal : ({ machine with store } : Machine).writeRefusal path =
      machine.writeRefusal path := by
    unfold Machine.writeRefusal Machine.regionState
    simp only [same.1, same.2]
    rfl
  unfold Machine.writebackWouldTrap
  rw [refusal]
  rfl

/-- The write-back of a place is seen neither by the store nor by a path apart. -/
theorem writeBack_apart (other : Path) (value : Value) (moved : Option Span) (machine : Machine) :
    (writeBack other value moved machine).2.store = machine.store ∧
      ∀ path : Path, path.Apart other →
        (writeBack other value moved machine).2.slotAt path = machine.slotAt path ∧
        (writeBack other value moved machine).2.writebackWouldTrap path =
          machine.writebackWouldTrap path := by
  have noted (written : Machine) : (if moved.isSome then written.notePartMoved other
      else written) = { written with
        partsMoved := written.partsMoved || (moved.isSome && !other.projections.isEmpty) } := by
    unfold Machine.notePartMoved
    cases moved <;> cases other.projections <;> simp
  unfold writeBack
  simp only [M.modify_run, noted]
  refine ⟨store_changeSlot _, fun path apart => ⟨(spared_changeSlot apart _).slot, ?_⟩⟩
  change (machine.changeSlot other _).writebackWouldTrap path = _
  unfold Machine.writebackWouldTrap
  rw [readParamWrite_changeSlot, writeRefusal_changeSlot_apart apart,
    (changeSlot_fields machine).1]

/-- The write-backs of places apart from a path. -/
theorem writeBacks_apart (finals : List Value) (moved : List (Option Span))
    (writebacks : List (Nat × Path)) (machine : Machine) :
    (writeBacks finals moved writebacks machine).2.store = machine.store ∧
      ∀ path : Path, (∀ entry ∈ writebacks, path.Apart entry.2) →
        (writeBacks finals moved writebacks machine).2.slotAt path = machine.slotAt path ∧
        (writeBacks finals moved writebacks machine).2.writebackWouldTrap path =
          machine.writebackWouldTrap path := by
  induction writebacks generalizing machine with
  | nil => exact ⟨rfl, fun _ _ => ⟨rfl, rfl⟩⟩
  | cons entry rest induction =>
    obtain ⟨index, other⟩ := entry
    unfold writeBacks
    cases finals[index]? with
    | none =>
      refine ⟨(induction machine).1, fun path apart => (induction machine).2 path ?_⟩
      exact fun entry member => apart entry (List.mem_cons_of_mem _ member)
    | some value =>
      have here := writeBack_apart other value (moved[index]?).join machine
      have later := induction (writeBack other value (moved[index]?).join machine).2
      refine ⟨later.1.trans here.1, fun path apart => ?_⟩
      have first := here.2 path (apart (index, other) List.mem_cons_self)
      have others := later.2 path fun entry member =>
        apart entry (List.mem_cons_of_mem _ member)
      exact ⟨others.1.trans first.1, others.2.trans first.2⟩

/-- The end of the arguments' extent, where pruning does not abort. -/
theorem finishArgs_apart (evaluated : Args) (finals : List Value) (moved : List (Option Span))
    (settles : (evaluated.protectors.foldl Provenance.unprotect machine.prov).prune.isSome) :
    ∃ final, finishArgs evaluated finals moved machine = (.ok (), final) ∧
      final.store = machine.store ∧
      ∀ path : Path, (∀ entry ∈ evaluated.writebacks, path.Apart entry.2) →
        final.slotAt path = machine.slotAt path ∧ final.writebackWouldTrap path =
          ({ machine with access := machine.access.release evaluated.held } :
            Machine).writebackWouldTrap path := by
  obtain ⟨pruned, settled⟩ := Option.isSome_iff_exists.mp settles
  unfold finishArgs provStep unprotectAll
  simp only [M.bind_run, M.modify_run, M.get_run, settled]
  have kept := writeBacks_apart finals moved evaluated.writebacks
    { machine with access := machine.access.release evaluated.held, prov := pruned }
  refine ⟨_, ?_, kept.1, kept.2⟩
  exact Prod.ext (writeBacks_ok finals moved evaluated.writebacks _) rfl

theorem finishArgs_aborts (evaluated : Args) (finals : List Value) (moved : List (Option Span))
    (unsettled : ¬ (evaluated.protectors.foldl Provenance.unprotect machine.prov).prune.isSome) :
    (finishArgs evaluated finals moved machine).1 = .error .panic := by
  have none_ := Option.not_isSome_iff_eq_none.mp unsettled
  unfold finishArgs provStep unprotectAll
  simp only [M.bind_run, M.modify_run, M.get_run, none_, M.signal_run]

theorem receiverCall_stopped {site : MethodSite}
    {run : Value → M (Except Signal Value × MethodEnd)} {finish : MethodEnd → M Unit}
    {before : Value} {result : Except Signal Value} {left : MethodEnd} {lent worked : Machine}
    {signal : Signal}
    (taken : takeReceiver site (site.lendNow machine) machine = (.ok before, lent))
    (ran : run before lent = (.ok (result, left), worked))
    (stopped : (finish left worked).1 = .error signal) :
    (receiverCall site run finish machine).1 = .error signal := by
  have whole : finish left worked = (.error signal, (finish left worked).2) := Prod.ext stopped rfl
  unfold receiverCall
  simp only [M.bind_run, M.get_run, taken, ran]
  rw [whole]

theorem receiverCall_run {site : MethodSite} {run : Value → M (Except Signal Value × MethodEnd)}
    {finish : MethodEnd → M Unit} {before : Value} {result : Except Signal Value}
    (left : MethodEnd) {lent worked final : Machine}
    (taken : takeReceiver site (site.lendNow machine) machine = (.ok before, lent))
    (ran : run before lent = (.ok (result, left), worked)) (selfMoved : left.selfMoved = none)
    (finished : finish left worked = (.ok (), final)) :
    receiverCall site run finish machine =
      let written := writeReceiver site (site.lendNow machine) before result left.receiver final
      (written.1.bind fun _ => result, written.2) := by
  unfold receiverCall
  simp only [M.bind_run, M.get_run, taken, ran, finished, selfMoved, markMoved_none, M.attempt_run,
    M.pure_run]
  cases (writeReceiver site (site.lendNow machine) before result left.receiver final).1 <;> rfl

end Around

/-! ## Calls that only read -/

section Reads

variable {call : ContainerCall} {machine : Machine}

/-- A method's body that only reads its receiver. -/
theorem reads_body (fits : call.Fits machine) (reads : ∀ which, call.method ≠ .mutator which)
    (receiver : Value) (entered : Machine) : (call.method.builtin call.span).mutates = false ∧
    ∃ result worked, (call.method.builtin call.span).body call.span receiver call.evaluated.values
        entered = (.ok (result, ⟨receiver, call.evaluated.values, [], none⟩), worked) ∧
      ∀ id path, worked.slotAt path = entered.slotAt path ∧
        worked.store.region id = entered.store.region id := by
  cases method : call.method with
  | mutator which => exact absurd method (reads which)
  | query which => exact ⟨rfl, _, _, rfl, fun _ _ => ⟨rfl, rfl⟩⟩
  | par work =>
    exact ⟨rfl, _, _, rfl, fun id path =>
      fits.work work method receiver call.evaluated.values entered id path⟩

/-- A call whose method only reads, up to its write-back. -/
theorem reads_run (fits : call.Fits machine) (reads : ∀ which, call.method ≠ .mutator which)
    {site : MethodSite}
    (at_ : call.holder.site (call.method.builtin call.span).mutates call.span = site)
    (before : Value) (lent : Machine)
    (taken : takeReceiver site (site.lendNow machine) machine = (.ok before, lent)) :
    (call.run machine).1 = .error .panic ∨ ∃ result final,
      call.run machine =
        (let written := writeReceiver site (site.lendNow machine) before result before final
        (written.1.bind fun _ => result, written.2)) ∧
      (∀ id, final.store.region id = lent.store.region id) ∧
      ∀ path, call.holder.path = some path → final.slotAt path = lent.slotAt path := by
  obtain ⟨-, result, worked, ran, kept⟩ := reads_body fits reads before lent
  unfold ContainerCall.run
  rw [at_]
  by_cases settles :
      (call.evaluated.protectors.foldl Provenance.unprotect worked.prov).prune.isSome
  · obtain ⟨final, finished, store, spared⟩ :=
      finishArgs_apart call.evaluated call.evaluated.values [] settles
    refine .inr ⟨result, final, ?_, fun id => ?_, ?_⟩
    · exact receiverCall_run ⟨before, call.evaluated.values, [], none⟩ taken ran rfl finished
    · rw [store]
      exact (kept id (Path.local_ 0 [])).2
    · intro path own
      rw [(spared path (fits.apart path own)).1]
      exact (kept 0 path).1
  · exact .inl (receiverCall_stopped taken ran (finishArgs_aborts _ _ _ settles))

theorem lendPath_run (path : Path) (machine : Machine) :
    lendPath path machine = (.ok ((machine.slotAt path).elim .unit Slot.value),
      machine.changeSlot path fun slot => { slot with value := .unit }) := by
  unfold lendPath
  simp only [M.bind_run, M.get_run]
  cases found : machine.slotAt path with
  | none => rw [Machine.changeSlot_of_none found]; rfl
  | some slot => rfl

/-- A lent slot given its own value back. -/
theorem slotAt_restored {path : Path} {final : Machine} (kept : final.slotAt path =
      (machine.changeSlot path fun slot => { slot with value := .unit }).slotAt path)
    (after : Value) :
    (final.changeSlot path fun slot => { slot with value := after }).slotAt path =
      (machine.slotAt path).map fun slot => { slot with value := after } := by
  rw [Machine.slotAt_changeSlot, kept, Machine.slotAt_changeSlot, Option.map_map]
  rfl

/-- A call whose method only reads leaves what it read. -/
theorem unmutated_of_reads (fits : call.Fits machine)
    (reads : ∀ which, call.method ≠ .mutator which)
    (failed : Failed (call.run machine).1) : call.Unmutated machine (call.run machine).2 := by
  have mutates := (reads_body fits reads .unit machine).1
  have quiet : ¬ Failed (.error .panic : Except Signal Value) := by
    rintro (no | ⟨_, no⟩) <;> cases no
  cases held : call.holder with
  | lent path mode =>
    have site : call.holder.site (call.method.builtin call.span).mutates call.span =
        (Holder.lent path mode).site false call.span := by rw [held, mutates]
    have own : call.holder.path = some path := by rw [held]; rfl
    have untaken := fits.mode path mode held
    rcases reads_run fits reads site _ _ (lendPath_run path machine) with panics |
      ⟨result, final, ran, regions, slot⟩
    · rw [panics] at failed
      exact absurd failed quiet
    have restored : call.run machine = (result, final.changeSlot path fun slot =>
        { slot with value := (machine.slotAt path).elim .unit Slot.value }) := by
      rw [ran]
      simp [Holder.site, MethodSite.lendNow, writeReceiver, restoreLent, untaken, Except.bind]
    rw [restored]
    refine ⟨fun other same => ?_, fun id _ => ?_⟩
    · obtain rfl : path = other := Option.eq_some_unique own same
      rw [slotAt_restored (slot path own)]
      cases machine.slotAt path <;> rfl
    · rw [store_changeSlot, regions, store_changeSlot]
  | taken path copy =>
    have site : call.holder.site (call.method.builtin call.span).mutates call.span =
        (Holder.taken path copy).site false call.span := by rw [held, mutates]
    have own : call.holder.path = some path := by rw [held]; rfl
    rcases reads_run fits reads site copy machine rfl with panics |
      ⟨result, final, ran, regions, slot⟩
    · rw [panics] at failed
      exact absurd failed quiet
    have stays : (call.run machine).2 = final := by
      cases result with
      | error signal =>
        rw [ran]
        simp [Holder.site, MethodSite.lendNow, writeReceiver, Except.isOk, Except.toBool]
      | ok value =>
        have moves : call.run machine =
            ((movePathBy path call.span final).1.bind fun _ => .ok value,
              (movePathBy path call.span final).2) := by
          rw [ran]
          simp only [Holder.site, MethodSite.lendNow, writeReceiver, Except.isOk,
            Except.toBool, decide_true, Bool.and_self, if_true, M.bind_run, M.pure_run]
          cases movePathBy path call.span final with
          | mk answer after => cases answer <;> rfl
        rw [moves] at failed ⊢
        rcases Machine.movePathBy_cases path call.span final with ⟨_, kept⟩ | ⟨taken, answered⟩
        · rw [kept]
        · simp only [answered, Except.bind] at failed
          rcases failed with no | ⟨_, no⟩ <;> cases no
    rw [stays]
    exact ⟨slot, fun id _ => regions id⟩
  | temporary copy mode =>
    have site : call.holder.site (call.method.builtin call.span).mutates call.span =
        (Holder.temporary copy mode).site false call.span := by rw [held, mutates]
    rcases reads_run fits reads site copy machine rfl with panics |
      ⟨result, final, ran, regions, slot⟩
    · rw [panics] at failed
      exact absurd failed quiet
    rw [ran]
    exact ⟨slot, fun id _ => regions id⟩

end Reads

/-! ## Calls that change their receiver -/

section Changes

variable {call : ContainerCall} {machine : Machine} {which : Mutator}

theorem mutate_unit (which : Mutator) (args : List Value) (span : Span) (machine : Machine) :
    mutate which .unit args span machine = (.ok (.error .unsupported, .unit), machine) := by
  cases which <;> rfl

/-- A call whose method may change its receiver, up to its write-back. -/
theorem mutator_run (fits : call.Fits machine) (method : call.method = .mutator which)
    {site : MethodSite}
    (at_ : call.holder.site (call.method.builtin call.span).mutates call.span = site)
    (before : Value) (lent : Machine) (store : lent.store = machine.store)
    (prov : lent.prov = machine.prov)
    (taken : takeReceiver site (site.lendNow machine) machine = (.ok before, lent)) :
    ∃ result after final,
      call.run machine =
        (let written := writeReceiver site (site.lendNow machine) before result after final
        (written.1.bind fun _ => result, written.2)) ∧
      Turns which before call.evaluated.values machine result after final.store ∧
      (before = .unit → result = .error .unsupported) ∧
      (mutate which before call.evaluated.values call.span lent).1 = .ok (result, after) ∧
      ∀ path, call.holder.path = some path → final.slotAt path = lent.slotAt path ∧
        final.writebackWouldTrap path =
          ({ lent with access := lent.access.release call.evaluated.held } :
            Machine).writebackWouldTrap path := by
  obtain ⟨result, after, charged, mutated, turns⟩ :=
    ends_mutate which before call.evaluated.values call.span lent
  have body : (call.method.builtin call.span).body call.span before call.evaluated.values lent =
      (.ok (result, ⟨after, call.evaluated.values, [], none⟩), { lent with store := charged }) := by
    rw [method]
    simp only [ContainerMethod.builtin, Builtin.body, M.bind_run, mutated, M.pure_run]
  have settles : (call.evaluated.protectors.foldl Provenance.unprotect
      ({ lent with store := charged } : Machine).prov).prune.isSome := by
    change (call.evaluated.protectors.foldl Provenance.unprotect lent.prov).prune.isSome
    rw [prov]
    exact fits.settles
  obtain ⟨final, finished, kept, spared⟩ :=
    finishArgs_apart call.evaluated call.evaluated.values [] settles
  refine ⟨result, after, final, ?_, ?_, ?_, congrArg Prod.fst mutated, fun path own => ?_⟩
  · unfold ContainerCall.run
    rw [at_]
    exact receiverCall_run ⟨after, call.evaluated.values, [], none⟩ taken body rfl finished
  · rw [kept]
    have turned : Turns which before call.evaluated.values lent result after charged := turns
    exact ⟨store ▸ turned.states, store ▸ turned.refused, store ▸ turned.done,
      store ▸ turned.charged, store ▸ turned.left⟩
  · rintro rfl
    rw [mutate_unit] at mutated
    exact (Prod.mk.inj (Except.ok.inj (congrArg Prod.fst mutated))).1.symm
  · obtain ⟨slot, traps⟩ := spared path (fits.apart path own)
    refine ⟨slot, traps.trans ?_⟩
    have states : SameStates lent.store charged := turns.states
    exact @writebackWouldTrap_sameStates
      { lent with access := lent.access.release call.evaluated.held } path charged states

theorem writebackWouldTrap_release {path : Path} (count : Nat)
    (free : machine.writebackWouldTrap path = false) :
    ({ machine with access := machine.access.release count } :
      Machine).writebackWouldTrap path = false := by
  obtain ⟨⟨mode, claims⟩, homes⟩ := writebackWouldTrap_eq_false.mp free
  exact writebackWouldTrap_eq_false.mpr ⟨⟨mode, conflict_release _ count _ claims⟩, homes⟩

/-- A write-back whose checks pass, to a slot that is there, fails neither way. -/
theorem write_not_failed {path : Path} {slot : Slot Value} (value : Value) (span : Span)
    (free : machine.writebackWouldTrap path = false) (found : machine.slotAt path = some slot) :
    ¬ Failed (writePath path value span machine).1 := by
  obtain ⟨-, through, calm⟩ := write_present value span free found
  rintro (refused | ⟨trap, trapped⟩)
  · exact through (.inl refused)
  · exact calm trap trapped

theorem failed_of_bind {written : Except Signal Unit} {value : Value}
    (failed : Failed (written.bind fun _ => (.ok value : Except Signal Value))) :
    Failed written := by
  cases written with
  | ok _ => rcases failed with no | ⟨_, no⟩ <;> cases no
  | error signal =>
    rcases failed with no | ⟨trap, no⟩
    · exact .inl (congrArg _ (Except.error.inj no))
    · exact .inr ⟨trap, congrArg _ (Except.error.inj no)⟩

variable {mode : Option ParamMode}

section

variable (fits : call.Fits machine) (method : call.method = .mutator which)
include fits method

/-- A mutating call on a copy, made since its write-back would trap. -/
theorem unmutated_iff_copied {path : Path} (held : call.holder = .lent path mode)
    (traps : machine.writebackWouldTrap path = true) :
    (Failed (call.run machine).1 → call.Unmutated machine (call.run machine).2) ↔
      ¬ (Charges which (call.receiver machine) call.evaluated.values machine.store ∧
        (which.left (call.receiver machine) call.evaluated.values).same
          (call.receiver machine) = false ∧
        ({ machine with access := machine.access.release call.evaluated.held } :
          Machine).writebackWouldTrap path = true) := by
  have site : call.holder.site (call.method.builtin call.span).mutates call.span =
      (Holder.lent path mode).site true call.span := by
    rw [held, method]
    rfl
  have own : call.holder.path = some path := by rw [held]; rfl
  have untaken := fits.mode path mode held
  have cancelled : ((Holder.lent path mode).site true call.span).lendNow machine = none := by
    simp [Holder.site, MethodSite.lendNow, traps]
  have taken : takeReceiver ((Holder.lent path mode).site true call.span)
      (((Holder.lent path mode).site true call.span).lendNow machine) machine =
        (.ok (call.receiver machine), machine) := by
    rw [cancelled, ContainerCall.receiver, held]
    rfl
  obtain ⟨result, after, final, ran, turns, unit, -, spared⟩ :=
    mutator_run fits method site _ machine rfl rfl taken
  obtain ⟨slot, predicted⟩ := spared path own
  have unmutated (regions : ∀ id, (call.receiver machine).home = some id →
      final.store.region id = machine.store.region id) : call.Unmutated machine final := by
    refine ⟨fun other same => ?_, regions⟩
    obtain rfl : path = other := Option.eq_some_unique own same
    exact slot
  rw [cancelled] at ran
  cases result with
  | error signal =>
    have ended : call.run machine = (.error signal, final) := by
      rw [ran]
      simp [Holder.site, writeReceiver, Except.isOk, Except.toBool, Except.bind]
    rw [ended]
    refine iff_of_true (fun _ => unmutated fun id _ => ?_) ?_
    · rw [(turns.refused signal rfl).2.1]
    · rintro ⟨charges, -⟩
      cases (turns.charged.mp charges).1
  | ok value =>
    obtain ⟨base, present⟩ : ∃ base, machine.slotAt path = some base := by
      cases found : machine.slotAt path with
      | some base => exact ⟨base, rfl⟩
      | none =>
        have none_ : call.receiver machine = .unit := by
          rw [ContainerCall.receiver, held]
          simp only [found, Option.elim_none]
        cases unit none_
    by_cases same : after.same (call.receiver machine) = true
    · have ended : call.run machine = (.ok value, final) := by
        rw [ran]
        simp [Holder.site, writeReceiver, Except.isOk, Except.toBool, Except.bind, untaken, same]
      rw [ended]
      refine iff_of_true (fun failed => ?_) ?_
      · rcases failed with no | ⟨_, no⟩ <;> cases no
      · rintro ⟨charges, differs, -⟩
        rw [← turns.left charges, same] at differs
        cases differs
    have ended : call.run machine = ((writePath path after call.span final).1.bind fun _ =>
        .ok value, (writePath path after call.span final).2) := by
      rw [ran]
      simp [Holder.site, writeReceiver, Except.isOk, Except.toBool, untaken, same]
    cases final_ : final.writebackWouldTrap path with
    | true =>
      obtain ⟨trap, stopped, -⟩ := write_stopped after call.span final_
      rw [ended, stopped]
      constructor
      · rintro kept ⟨charges, -, -⟩
        obtain ⟨-, id, home, differs⟩ := turns.charged.mp charges
        exact differs ((kept (.inr ⟨trap, rfl⟩)).2 id home)
      · intro keeps _
        apply unmutated
        intro id home
        by_contra differs
        have charges := turns.charged.mpr ⟨rfl, id, home, differs⟩
        refine keeps ⟨charges, ?_, predicted.symm.trans final_⟩
        rw [← turns.left charges]
        exact Bool.eq_false_iff.mpr same
    | false =>
      have through := write_not_failed after call.span final_ (slot.trans present)
      rw [ended]
      refine iff_of_true (fun failed => ?_) ?_
      · exact absurd (failed_of_bind failed) through
      · rintro ⟨-, -, trapped⟩
        rw [← predicted, final_] at trapped
        cases trapped

/-- A mutating call on the container itself, out of its slot. -/
theorem unmutated_iff_lent {path : Path} (held : call.holder = .lent path mode)
    (free : machine.writebackWouldTrap path = false) :
    (Failed (call.run machine).1 → call.Unmutated machine (call.run machine).2) ↔
      ¬ Spills which (call.receiver machine) call.evaluated.values machine.store := by
  have site : call.holder.site (call.method.builtin call.span).mutates call.span =
      (Holder.lent path mode).site true call.span := by
    rw [held, method]
    rfl
  have own : call.holder.path = some path := by rw [held]; rfl
  have untaken := fits.mode path mode held
  have lends : ((Holder.lent path mode).site true call.span).lendNow machine = some true := by
    simp [Holder.site, MethodSite.lendNow, free]
  have receiver : call.receiver machine = (machine.slotAt path).elim .unit Slot.value := by
    rw [ContainerCall.receiver, held]
  let lent := machine.changeSlot path fun slot => { slot with value := .unit }
  have taken : takeReceiver ((Holder.lent path mode).site true call.span)
      (((Holder.lent path mode).site true call.span).lendNow machine) machine =
        (.ok (call.receiver machine), lent) := by
    rw [lends, receiver]
    exact lendPath_run path machine
  obtain ⟨result, after, final, ran, turns, unit, -, spared⟩ :=
    mutator_run fits method site _ lent (store_changeSlot _) (changeSlot_fields machine).2.1 taken
  obtain ⟨slot, predicted⟩ := spared path own
  rw [lends] at ran
  cases result with
  | error signal =>
    have ended : call.run machine =
        (.error signal, final.changeSlot path fun slot => { slot with value := after }) := by
      rw [ran]
      simp [Holder.site, writeReceiver, restoreLent, Except.isOk, Except.toBool, Except.bind,
        untaken]
    obtain ⟨failed, store, spills⟩ := turns.refused signal rfl
    have restored := slotAt_restored slot after
    rw [ended, ← spills, not_not]
    constructor
    · intro kept
      have same := (kept failed).1 path own
      rw [restored] at same
      cases found : machine.slotAt path with
      | none =>
        by_contra differs
        have spilled := spills.mp differs
        rw [receiver, found] at spilled
        cases which <;> exact spilled
      | some base =>
        rw [found] at same
        rw [receiver, found]
        exact congrArg Slot.value (Option.some.inj same)
    · intro same _
      refine ⟨fun other named => ?_, fun id _ => ?_⟩
      · obtain rfl : path = other := Option.eq_some_unique own named
        rw [restored, same, receiver]
        cases machine.slotAt path <;> rfl
      · rw [store_changeSlot, store]
  | ok value =>
    refine iff_of_true (fun failed => ?_) (turns.done value rfl)
    obtain ⟨base, present⟩ : ∃ base, machine.slotAt path = some base := by
      cases found : machine.slotAt path with
      | some base => exact ⟨base, rfl⟩
      | none =>
        have none_ : call.receiver machine = .unit := by rw [receiver, found]; rfl
        cases unit none_
    by_cases stamp : containerWriteStamp (call.receiver machine) = containerWriteStamp after
    · have ended : (call.run machine).1 = .ok value := by
        rw [ran]
        simp [Holder.site, writeReceiver, restoreLent, Except.bind, untaken, stamp]
      rw [ended] at failed
      rcases failed with no | ⟨_, no⟩ <;> cases no
    · have ended : (call.run machine).1 =
          (writePath path after call.span final).1.bind fun _ => .ok value := by
        rw [ran]
        simp [Holder.site, writeReceiver, Except.isOk, Except.toBool, untaken, stamp]
      rw [ended] at failed
      have there : final.slotAt path = some { base with value := .unit } := by
        rw [slot, Machine.slotAt_changeSlot, present]
        rfl
      have open_ : final.writebackWouldTrap path = false := by
        rw [predicted, changeSlot_access, (changeSlot_fields machine).1,
          writebackWouldTrap_changeSlot]
        exact writebackWouldTrap_release _ free
      exact absurd (failed_of_bind failed) (write_not_failed after call.span open_ there)

/-- A mutating call on a receiver that is in no place. -/
theorem unmutated_of_temporary {copy : Value} (held : call.holder = .temporary copy mode)
    (failed : Failed (call.run machine).1) : call.Unmutated machine (call.run machine).2 := by
  have site : call.holder.site (call.method.builtin call.span).mutates call.span =
      (Holder.temporary copy mode).site true call.span := by
    rw [held, method]
    rfl
  obtain ⟨result, after, final, ran, turns, -, -, -⟩ :=
    mutator_run fits method site copy machine rfl rfl rfl
  have ended : call.run machine = (result, final) := by
    rw [ran]
    rfl
  rw [ended] at failed ⊢
  refine ⟨fun path own => ?_, fun id _ => ?_⟩
  · rw [held] at own
    cases own
  · cases result with
    | error signal => rw [(turns.refused signal rfl).2.1]
    | ok value => rcases failed with no | ⟨_, no⟩ <;> cases no

end

/-- A call leaves its receiver and the ledger alone when it fails, exactly when no `push` spills
into a lent list and no growth is charged before a write-back that traps. -/
theorem unmutated_iff (call : ContainerCall) (machine : Machine) (fits : call.Fits machine) :
    (Failed (call.run machine).1 → call.Unmutated machine (call.run machine).2) ↔
      call.Keeps machine := by
  cases method : call.method with
  | query which =>
    refine iff_of_true (unmutated_of_reads fits fun other same => ?_) ?_
    · rw [method] at same
      cases same
    · simp only [ContainerCall.Keeps, method]
  | par work =>
    refine iff_of_true (unmutated_of_reads fits fun other same => ?_) ?_
    · rw [method] at same
      cases same
    · simp only [ContainerCall.Keeps, method]
  | mutator which =>
    cases held : call.holder with
    | lent path mode =>
      cases traps : machine.writebackWouldTrap path with
      | true =>
        rw [unmutated_iff_copied fits method held traps]
        simp only [ContainerCall.Keeps, method, held, traps, if_true]
      | false =>
        rw [unmutated_iff_lent fits method held traps]
        simp only [ContainerCall.Keeps, method, held, traps, Bool.false_eq_true, if_false]
    | taken path copy => exact absurd method (fits.taken path copy which held)
    | temporary copy mode =>
      refine iff_of_true (unmutated_of_temporary fits method held) ?_
      simp only [ContainerCall.Keeps, method, held]

end Changes

/-! ## A push that spills -/

/-- `(mut xs).push(true)`. -/
def pushOne : ContainerCall :=
  { holder := .lent { frame := none, base := "xs".toList, projections := [] } (some .mut_)
    method := .mutator .push
    evaluated := { values := [.bool true] }
    span := ⟨0, 0⟩ }

/-- `xs` is an empty list of a region whose budget is spent. -/
def spentHome : Machine :=
  { globals := [("xs".toList, Slot.live (.list [] 0 none (some 1)))]
    store := ((Store.new).create (some "r") .arena (some (0, ⟨0, 0⟩)) ⟨0, 0⟩).2 }

theorem pushOne_fits : pushOne.Fits spentHome where
  mode _ _ held := by
    cases held
    nofun
  taken _ _ _ held := nomatch held
  apart _ _ _ member := nomatch member
  work _ par := nomatch par
  settles := rfl

theorem pushOne_iff : (Failed (pushOne.run spentHome).1 →
    pushOne.Unmutated spentHome (pushOne.run spentHome).2) ↔ pushOne.Keeps spentHome :=
  unmutated_iff pushOne spentHome pushOne_fits

/-- The growth passes the cap, and the element stays in the list. -/
theorem not_unmutated : ¬ ∀ (call : ContainerCall) (machine : Machine), call.Fits machine →
    Failed (call.run machine).1 → call.Unmutated machine (call.run machine).2 := by
  intro claim
  have kept := claim pushOne spentHome pushOne_fits (.inr ⟨_, rfl⟩)
  have slot := kept.1 { frame := none, base := "xs".toList, projections := [] } rfl
  have before : spentHome.slotAt { frame := none, base := "xs".toList, projections := [] } =
      some (Slot.live (.list [] 0 none (some 1))) := rfl
  have after : ((pushOne.run spentHome).2.slotAt
      { frame := none, base := "xs".toList, projections := [] }).map
        (fun slot => containerWriteStamp slot.value) = some (some (1, 4)) := by
    decide +kernel
  rw [slot, before] at after
  cases after

end WolfInterp.Eval
