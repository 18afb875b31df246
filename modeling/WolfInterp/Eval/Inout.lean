import WolfInterp.Eval.Writes

/-!
# What a mutating call leaves in its receiver's place

A `mut` receiver is handed to the callee as a value, and the callee's final self is stored back when
the call returns: the whole of it, or the fields of a view set. The store is skipped where the final
self equals the one the call began with, by an equality that takes `0.0` for `-0.0` and sees neither
a text's home nor an error's row and flag.
-/

namespace WolfInterp.Eval

open WolfInterp.Lex (Text)
open WolfInterp.Syntax (ParamMode)

/-! ## The halves of a call -/

/-- A call up to the end of its arguments' extent: whether the receiver is lent, the receiver it
began with, its result and what it left. -/
def calleeEnd (site : MethodSite) (run : Value → M (Except Signal Value × MethodEnd))
    (finish : MethodEnd → M Unit) :
    M (Option Bool × Value × Except Signal Value × MethodEnd) := do
  let machine ← M.get
  let lend := site.lendNow machine
  let before ← takeReceiver site lend
  let (result, left) ← run before
  finish left
  pure (lend, before, result, left)

/-- The write-back of a call. -/
def settleCall (site : MethodSite) (lend : Option Bool) (before : Value)
    (result : Except Signal Value) (left : MethodEnd) : M Value := do
  let written ← M.attempt (writeReceiver site lend before result left.receiver)
  markMoved site result written left.selfMoved
  M.ofExcept written
  M.ofExcept result

/-! ## What the place should hold -/

/-- The place holds the callee's final self: the whole of it, or its view set's fields beside the
caller's own in the others. It is moved out when the callee left it moved out. -/
structure HoldsSelf (path : Path) (viewSet : List Text) (left : MethodEnd) (final after : Machine) :
    Prop where
  whole : viewSet = [] → (after.slotAt path).map Slot.value = some left.receiver
  fields : ∀ name ∈ viewSet, ∀ new, left.receiver.fieldOf name = some new →
    (after.slotAt (path.project (.field name))).map Slot.value = some new
  others : viewSet ≠ [] → ∀ name, name ∉ viewSet →
    after.slotAt (path.project (.field name)) = final.slotAt (path.project (.field name))
  moved : ∀ at_, left.selfMoved = some at_ → (after.slotAt path).map Slot.state = some (.moved at_)

/-- What is not stored is there already: a final self that equals the one the call began with, a
view set's field that does, and the slot a lend is restored to. -/
structure StandsAlready (path : Path) (viewSet : List Text) (lend : Option Bool) (before : Value)
    (left : MethodEnd) (final : Machine) : Prop where
  lent : ∀ mutates, lend = some mutates →
    mutates = false ∨ containerWriteStamp before = containerWriteStamp left.receiver →
    (final.slotAt path).isSome = true
  whole : lend = none → viewSet = [] → left.receiver.same before = true →
    (final.slotAt path).map Slot.value = some left.receiver
  fields : ∀ name ∈ viewSet, ∀ new, left.receiver.fieldOf name = some new →
    left.receiver.same before = true ∨ optionSame (before.fieldOf name) new = true →
    (final.slotAt (path.project (.field name))).map Slot.value = some new
  moved : viewSet ≠ [] → left.selfMoved.isSome = true → (final.slotAt path).isSome = true

/-! ## The write-back -/

section WriteBacks

variable {path : Path} {before after : Value} {span : Span}

theorem sameBase_project (path : Path) (step : Proj) : (path.project step).SameBase path :=
  ⟨rfl, rfl⟩

theorem parts_fields (path : Path) {name other : Text} (differ : name ≠ other) :
    Lens.Parts (path.project (.field name)).projections (path.project (.field other)).projections :=
  ⟨path.projections, .field name, [], .field other, [],
    fun same => differ (Proj.field.inj same), rfl, rfl⟩

/-- A view set's write-back stores the fields that changed and no others. -/
structure FieldsBack (path : Path) (before after : Value) (names : List Text)
    (final stored : Machine) : Prop where
  changed : ∀ name ∈ names, ∀ new, after.fieldOf name = some new →
    optionSame (before.fieldOf name) new = false →
    (stored.slotAt (path.project (.field name))).map Slot.value = some new
  kept : ∀ name, (name ∈ names → ∀ new, after.fieldOf name = some new →
      optionSame (before.fieldOf name) new = true) →
    stored.slotAt (path.project (.field name)) = final.slotAt (path.project (.field name))
  state : (stored.slotAt path).map Slot.state = (final.slotAt path).map Slot.state

variable {final stored : Machine} {first : Text} {rest : List Text}

theorem FieldsBack.skip (back : FieldsBack path before after rest final stored)
    (quiet : ∀ new, after.fieldOf first = some new →
      optionSame (before.fieldOf first) new = true) :
    FieldsBack path before after (first :: rest) final stored where
  changed name member new found differs := by
    rcases List.mem_cons.mp member with rfl | later
    · rw [quiet new found] at differs
      cases differs
    · exact back.changed name later new found differs
  kept name same := back.kept name fun later => same (List.mem_cons_of_mem _ later)
  state := back.state

theorem FieldsBack.store {middle : Machine} {new : Value}
    (back : FieldsBack path before after rest middle stored)
    (found : after.fieldOf first = some new)
    (differs : optionSame (before.fieldOf first) new = false)
    (stores : final.Stores new (path.project (.field first)) middle) :
    FieldsBack path before after (first :: rest) final stored where
  changed name member fresh held changed := by
    by_cases later : name ∈ rest
    · exact back.changed name later fresh held changed
    · obtain rfl : name = first := by
        rcases List.mem_cons.mp member with same | member
        · exact same
        · exact absurd member later
      obtain rfl : new = fresh := Option.eq_some_unique found held
      rw [back.kept name fun member => absurd member later, stores.slotAt_self]
      rfl
  kept name quiet := by
    have differ : first ≠ name := by
      rintro rfl
      have equal := quiet List.mem_cons_self new found
      rw [differs] at equal
      cases equal
    rw [back.kept name fun later => quiet (List.mem_cons_of_mem _ later)]
    exact stores.slotAt_parts ⟨rfl, rfl⟩ (parts_fields path differ)
  state := back.state.trans (stores.state_above (sameBase_project path _) rfl)

theorem writeViewSet_ok {names : List Text}
    (ended : writeViewSet path before after span names final = (.ok (), stored)) :
    FieldsBack path before after names final stored := by
  induction names generalizing final with
  | nil =>
    cases ended
    exact ⟨nofun, fun _ _ => rfl, rfl⟩
  | cons first rest induction =>
    unfold writeViewSet at ended
    dsimp only at ended
    cases found : after.fieldOf first with
    | none =>
      rw [found] at ended
      refine (induction ended).skip fun new same => ?_
      rw [found] at same
      cases same
    | some new =>
      rw [found] at ended
      dsimp only at ended
      cases same : optionSame (before.fieldOf first) new with
      | true =>
        rw [same] at ended
        refine (induction ended).skip fun other also => ?_
        obtain rfl : new = other := Option.eq_some_unique found also
        exact same
      | false =>
        rw [same] at ended
        simp only [Bool.false_eq_true, if_false, M.bind_run] at ended
        cases wrote : writePath (path.project (.field first)) new span final with
        | mk result middle =>
          rw [wrote] at ended
          cases result with
          | error signal => cases ended
          | ok _ => exact (induction ended).store found same (stores_of_write wrote)

end WriteBacks

/-! ## The end of a call -/

section Ends

variable {site : MethodSite} {path : Path} {lend : Option Bool} {before value : Value}
  {left : MethodEnd} {final stored after : Machine}

theorem receiverCall_eq (site : MethodSite) (run : Value → M (Except Signal Value × MethodEnd))
    (finish : MethodEnd → M Unit) (machine : Machine) {result : Except Signal Value}
    (ended : calleeEnd site run finish machine = (.ok (lend, before, result, left), final)) :
    receiverCall site run finish machine = settleCall site lend before result left final := by
  unfold calleeEnd at ended
  unfold receiverCall
  simp only [M.bind_run, M.get_run] at ended ⊢
  cases taken : takeReceiver site (site.lendNow machine) machine with
  | mk receiver entered =>
    rw [taken] at ended
    cases receiver with
    | error signal => cases ended
    | ok receiver =>
      dsimp only at ended ⊢
      cases ran : run receiver entered with
      | mk outcome worked =>
        rw [ran] at ended
        cases outcome with
        | error signal => cases ended
        | ok outcome =>
          dsimp only at ended ⊢
          cases finished : finish outcome.2 worked with
          | mk done final' =>
            rw [finished] at ended
            cases done with
            | error signal => cases ended
            | ok _ =>
              cases ended
              rfl

/-- A call that returns has written back, and then marked what was moved. -/
theorem settleCall_ok {answer : Value} (at_ : site.path = some path) (mode : site.mode = some .mut_)
    (returned : settleCall site lend before (.ok value) left final = (.ok answer, after)) :
    ∃ stored, writeReceiver site lend before (.ok value) left.receiver final = (.ok (), stored) ∧
      after = match left.selfMoved with
        | none => stored
        | some at_ => (stored.changeSlot path fun slot =>
          { slot with state := .moved at_ }).notePartMoved path := by
  unfold settleCall at returned
  simp only [M.bind_run, M.attempt_run] at returned
  cases wrote : writeReceiver site lend before (.ok value) left.receiver final with
  | mk written stored =>
    rw [wrote] at returned
    cases written with
    | error signal =>
      have unmarked : markMoved site (.ok value) (.error signal) left.selfMoved = pure () := by
        unfold markMoved
        cases site.path <;> cases left.selfMoved <;> simp [Except.isOk, Except.toBool]
      simp only [unmarked, M.pure_run, M.ofExcept_run] at returned
      cases returned
    | ok _ =>
      refine ⟨stored, rfl, ?_⟩
      unfold markMoved at returned
      rw [at_] at returned
      cases moved : left.selfMoved with
      | none =>
        rw [moved] at returned
        cases returned
        rfl
      | some at_ =>
        rw [moved] at returned
        simp only [mode, Except.isOk, Except.toBool, decide_true, Bool.and_self, if_true,
          M.modify_run, M.ofExcept_run] at returned
        cases returned
        rfl

/-- Marking a slot moved keeps its value and what lies below it. -/
theorem marked (path : Path) (selfMoved : Option Span) (stored : Machine) :
    let after := match selfMoved with
      | none => stored
      | some at_ => (stored.changeSlot path fun slot =>
        { slot with state := .moved at_ }).notePartMoved path
    (after.slotAt path).map Slot.value = (stored.slotAt path).map Slot.value ∧
      (∀ name, after.slotAt (path.project (.field name)) =
        stored.slotAt (path.project (.field name))) ∧
      ((∀ at_, selfMoved = some at_ → (after.slotAt path).map Slot.state = some (.moved at_)) ↔
        (selfMoved.isSome = true → (stored.slotAt path).isSome = true)) := by
  cases selfMoved with
  | none => exact ⟨rfl, fun _ => rfl, iff_of_true nofun nofun⟩
  | some at_ =>
    have noted (machine : Machine) (other : Path) :
        (machine.notePartMoved path).slotAt other = machine.slotAt other := by
      unfold Machine.notePartMoved
      split <;> rfl
    dsimp only
    simp only [noted, Machine.slotAt_changeSlot]
    refine ⟨?_, fun name => ?_, ?_⟩
    · cases stored.slotAt path <;> rfl
    · have same : path.SameBase (path.project (.field name)) := ⟨rfl, rfl⟩
      have below : (path.project (.field name)).projections =
          path.projections ++ [.field name] := rfl
      rw [Machine.slotAt_changeSlot_below same below]
      change _ = (stored.baseSlot path).bind fun slot =>
        slots.walk slot (path.projections ++ [.field name])
      unfold Machine.slotAt
      cases stored.baseSlot path with
      | none => rfl
      | some base =>
        simp only [Option.bind_some, Lens.walk_append]
        rfl
    · cases stored.slotAt path with
      | none => simp
      | some slot => simp

/-- What the write-back has stored when it comes to the marking. -/
structure HoldsStored (path : Path) (viewSet : List Text) (left : MethodEnd) (stored : Machine) :
    Prop where
  whole : viewSet = [] → (stored.slotAt path).map Slot.value = some left.receiver
  fields : ∀ name ∈ viewSet, ∀ new, left.receiver.fieldOf name = some new →
    (stored.slotAt (path.project (.field name))).map Slot.value = some new
  there : left.selfMoved.isSome = true → (stored.slotAt path).isSome = true

theorem holdsStored_whole (viewSet : List Text)
    (whole : (stored.slotAt path).map Slot.value = some left.receiver) (plain : viewSet = []) :
    HoldsStored path viewSet left stored where
  whole _ := whole
  fields name member := by
    rw [plain] at member
    cases member
  there _ := by
    cases found : stored.slotAt path with
    | none =>
      rw [found] at whole
      cases whole
    | some slot => rfl

section

variable (at_ : site.path = some path) (mode : site.mode = some .mut_)
include at_ mode

/-- The write-back of a receiver that was lent. -/
theorem holdsStored_lent {mutates : Bool} (plain : site.viewSet = [])
    (written : writeReceiver site (some mutates) before (.ok value) left.receiver final =
      (.ok (), stored)) : HoldsStored path site.viewSet left stored ↔
      StandsAlready path site.viewSet (some mutates) before left final := by
  rw [plain]
  unfold writeReceiver at written
  rw [at_] at written
  simp only [mode, Except.isOk, Except.toBool, Bool.true_and, Option.isSome_some, if_true,
    Option.some.injEq, reduceCtorEq, decide_false, Bool.false_eq_true, if_false] at written
  by_cases stays : mutates = false ∨ containerWriteStamp before = containerWriteStamp left.receiver
  · have restored : stored = final.changeSlot path fun slot =>
        { slot with value := left.receiver } := by
      have skips : ¬ (mutates = true ∧
          containerWriteStamp before ≠ containerWriteStamp left.receiver) := by
        rintro ⟨on, differs⟩
        rcases stays with off | same
        · rw [on] at off
          cases off
        · exact differs same
      simp only [Bool.and_eq_true, decide_eq_true_eq, if_neg skips, restoreLent,
        M.modify_run] at written
      exact (congrArg Prod.snd written).symm
    have slot : stored.slotAt path = (final.slotAt path).map fun slot =>
        { slot with value := left.receiver } := by
      rw [restored]
      exact Machine.slotAt_changeSlot path _
    constructor
    · intro holds
      refine ⟨fun _ _ _ => ?_, (by simp), (by simp), fun differs => absurd rfl differs⟩
      have whole := holds.whole rfl
      rw [slot] at whole
      cases found : final.slotAt path with
      | none =>
        rw [found] at whole
        cases whole
      | some _ => rfl
    · intro already
      obtain ⟨base, found⟩ := Option.isSome_iff_exists.mp (already.lent mutates rfl stays)
      apply holdsStored_whole [] _ rfl
      rw [slot, found]
      rfl
  · have stamps : mutates = true ∧
        containerWriteStamp before ≠ containerWriteStamp left.receiver := by
      constructor
      · cases mutates with
        | false => exact absurd (.inl rfl) stays
        | true => rfl
      · exact fun same => stays (.inr same)
    simp only [Bool.and_eq_true, decide_eq_true_eq, if_pos stamps] at written
    refine iff_of_true (holdsStored_whole [] ?_ rfl) ?_
    · rw [(stores_of_write written).slotAt_self]
      rfl
    · refine ⟨fun other same also => ?_, (by simp), (by simp), fun differs => absurd rfl differs⟩
      cases same
      exact absurd also stays

/-- The write-back of a whole receiver that was handed in as a copy. -/
theorem holdsStored_whole_copy (plain : site.viewSet = [])
    (written : writeReceiver site none before (.ok value) left.receiver final = (.ok (), stored)) :
    HoldsStored path site.viewSet left stored ↔
      StandsAlready path site.viewSet none before left final := by
  unfold writeReceiver at written
  rw [at_] at written
  simp only [mode, plain, Except.isOk, Except.toBool, Bool.true_and, Option.isSome_none,
    Option.some.injEq, reduceCtorEq, decide_false, Bool.false_eq_true, if_false,
    List.isEmpty_nil, Bool.not_true, Bool.false_and] at written
  rw [plain]
  cases same : left.receiver.same before with
  | true =>
    simp only [same, Bool.not_true, Bool.false_eq_true, if_false, M.pure_run] at written
    obtain rfl : final = stored := congrArg Prod.snd written
    constructor
    · intro holds
      exact ⟨(by simp), fun _ _ _ => holds.whole rfl, (by simp), fun differs => absurd rfl differs⟩
    · exact fun already => holdsStored_whole [] (already.whole rfl rfl same) rfl
  | false =>
    simp only [same, Bool.not_false, if_true] at written
    refine iff_of_true (holdsStored_whole [] ?_ rfl) ?_
    · rw [(stores_of_write written).slotAt_self]
      rfl
    · refine ⟨(by simp), fun _ _ equal => ?_, (by simp), fun differs => absurd rfl differs⟩
      rw [same] at equal
      cases equal

/-- The write-back of a view set. -/
theorem holdsStored_fields (viewed : site.viewSet ≠ [])
    (written : writeReceiver site none before (.ok value) left.receiver final = (.ok (), stored)) :
    (HoldsStored path site.viewSet left stored ↔
      StandsAlready path site.viewSet none before left final) ∧
      ∀ name, name ∉ site.viewSet → stored.slotAt (path.project (.field name)) =
        final.slotAt (path.project (.field name)) := by
  have listed : site.viewSet.isEmpty = false := by
    cases viewSet : site.viewSet with
    | nil => exact absurd viewSet viewed
    | cons _ _ => rfl
  unfold writeReceiver at written
  rw [at_] at written
  simp only [mode, listed, Except.isOk, Except.toBool, Bool.true_and, Option.isSome_none,
    Option.some.injEq, reduceCtorEq, decide_false, Bool.false_eq_true, if_false,
    Bool.not_false] at written
  cases same : left.receiver.same before with
  | true =>
    simp only [same, Bool.not_true, Bool.false_eq_true, if_false, M.pure_run] at written
    obtain rfl : final = stored := congrArg Prod.snd written
    refine ⟨⟨fun holds => ?_, fun already => ?_⟩, fun _ _ => rfl⟩
    · exact ⟨(by simp), fun _ empty => absurd empty viewed,
        fun name member new found _ => holds.fields name member new found,
        fun _ moved => holds.there moved⟩
    · exact ⟨fun empty => absurd empty viewed,
        fun name member new found => already.fields name member new found (.inl same),
        fun moved => already.moved viewed moved⟩
  | false =>
    simp only [same, Bool.not_false, if_true] at written
    have back := writeViewSet_ok written
    have there : (stored.slotAt path).isSome = (final.slotAt path).isSome := by
      have state := congrArg Option.isSome back.state
      rwa [Option.isSome_map, Option.isSome_map] at state
    have kept {name : Text} {new : Value} (found : left.receiver.fieldOf name = some new)
        (equal : optionSame (before.fieldOf name) new = true) :
        stored.slotAt (path.project (.field name)) =
          final.slotAt (path.project (.field name)) := by
      apply back.kept
      intro _ other also
      obtain rfl : new = other := Option.eq_some_unique found also
      exact equal
    refine ⟨⟨fun holds => ?_, fun already => ?_⟩, fun name outside => ?_⟩
    · refine ⟨(by simp), fun _ empty => absurd empty viewed, fun name member new found equal => ?_,
        fun _ moved => ?_⟩
      · rcases equal with whole | equal
        · rw [same] at whole
          cases whole
        · rw [← kept found equal]
          exact holds.fields name member new found
      · rw [← there]
        exact holds.there moved
    · refine ⟨fun empty => absurd empty viewed, fun name member new found => ?_, fun moved => ?_⟩
      · cases equal : optionSame (before.fieldOf name) new with
        | true =>
          rw [kept found equal]
          exact already.fields name member new found (.inr equal)
        | false => exact back.changed name member new found equal
      · rw [there]
        exact already.moved viewed moved
    · exact back.kept name fun member => absurd member outside

end

/-- The marking at the end of a call sees what the write-back stored. -/
theorem holdsSelf_iff_stored (viewSet : List Text) (others : viewSet ≠ [] → ∀ name, name ∉ viewSet →
      stored.slotAt (path.project (.field name)) = final.slotAt (path.project (.field name)))
    (ended : after = match left.selfMoved with
      | none => stored
      | some at_ => (stored.changeSlot path fun slot =>
        { slot with state := .moved at_ }).notePartMoved path) :
    HoldsSelf path viewSet left final after ↔ HoldsStored path viewSet left stored := by
  obtain ⟨value, below, state⟩ := marked path left.selfMoved stored
  rw [← ended] at value below state
  constructor
  · intro holds
    refine ⟨fun plain => ?_, fun name member new found => ?_, state.mp holds.moved⟩
    · rw [← value]
      exact holds.whole plain
    · rw [← below]
      exact holds.fields name member new found
  · intro holds
    refine ⟨fun plain => ?_, fun name member new found => ?_, fun viewed name outside => ?_,
      state.mpr holds.there⟩
    · rw [value]
      exact holds.whole plain
    · rw [below]
      exact holds.fields name member new found
    · rw [below]
      exact others viewed name outside

theorem lends_of_calleeEnd {run : Value → M (Except Signal Value × MethodEnd)}
    {finish : MethodEnd → M Unit} {machine : Machine} {mutates : Bool}
    {result : Except Signal Value} (ended : calleeEnd site run finish machine =
      (.ok (some mutates, before, result, left), final)) : site.lend.isSome = true := by
  have lent : site.lendNow machine = some mutates := by
    unfold calleeEnd at ended
    simp only [M.bind_run, M.get_run] at ended
    split at ended
    · split at ended
      · split at ended
        · exact (Prod.mk.inj (Except.ok.inj (Prod.mk.inj ended).1)).1
        · cases ended
      · cases ended
    · cases ended
  unfold MethodSite.lendNow at lent
  cases found : site.lend with
  | some _ => rfl
  | none => simp [found] at lent

/-- The place of a `mut` receiver holds the callee's final self when the call returns, exactly when
what the write-back skips is there already. -/
theorem holdsSelf_iff (site : MethodSite) (path : Path)
    (run : Value → M (Except Signal Value × MethodEnd)) (finish : MethodEnd → M Unit)
    (machine : Machine) (at_ : site.path = some path) (mode : site.mode = some .mut_)
    (plain : site.lend.isSome = true → site.viewSet = []) {answer : Value}
    (ended : calleeEnd site run finish machine = (.ok (lend, before, .ok value, left), final))
    (returned : receiverCall site run finish machine = (.ok answer, after)) :
    HoldsSelf path site.viewSet left final after ↔
      StandsAlready path site.viewSet lend before left final := by
  rw [receiverCall_eq site run finish machine ended] at returned
  obtain ⟨stored, written, marking⟩ := settleCall_ok at_ mode returned
  cases lend with
  | some mutates =>
    have whole : site.viewSet = [] := plain (lends_of_calleeEnd ended)
    rw [holdsSelf_iff_stored site.viewSet (fun viewed => absurd whole viewed) marking]
    exact holdsStored_lent at_ mode whole written
  | none =>
    by_cases viewed : site.viewSet = []
    · rw [holdsSelf_iff_stored site.viewSet (fun differs => absurd viewed differs) marking]
      exact holdsStored_whole_copy at_ mode viewed written
    · obtain ⟨holds, others⟩ := holdsStored_fields at_ mode viewed written
      rw [holdsSelf_iff_stored site.viewSet (fun _ => others) marking]
      exact holds

end Ends

/-! ## A change that is skipped -/

/-- A struct of one float. -/
def floatBox (bits : Nat) : Value := .struct "P".toList [("x".toList, Slot.live (.float bits))] none

def boxPath : Path := { frame := none, base := "p".toList, projections := [] }

/-- A `mut self` method on a box that holds `0.0`. -/
def boxSite : MethodSite :=
  { path := some boxPath, mode := some .mut_, lend := none, value := some (floatBox 0),
    viewSet := [], span := ⟨0, 0⟩ }

/-- Its body leaves the box with a float in it. -/
def leaveBox (bits : Nat) (_ : Value) : M (Except Signal Value × MethodEnd) :=
  pure (.ok .unit, ⟨floatBox bits, [], [], none⟩)

def boxMachine : Machine := { globals := [("p".toList, Slot.live (floatBox 0))] }

/-- The write-back takes the two zeros for one. -/
theorem boxCall_run (bits : Nat) (same : (floatBox bits).same (floatBox 0) = true) :
    receiverCall boxSite (leaveBox bits) (fun _ => pure ()) boxMachine =
      (.ok .unit, boxMachine) := by
  simp [receiverCall, MethodSite.lendNow, boxSite, takeReceiver, leaveBox, writeReceiver, same,
    markMoved, Except.isOk, Except.toBool]

theorem boxCall_writes (bits : Nat) (differs : (floatBox bits).same (floatBox 0) = false) :
    receiverCall boxSite (leaveBox bits) (fun _ => pure ()) boxMachine =
      (.ok .unit, boxMachine.setBase boxPath (Slot.live (floatBox bits))) := by
  simp [receiverCall, MethodSite.lendNow, boxSite, takeReceiver, leaveBox, writeReceiver, differs,
    markMoved, Except.isOk, Except.toBool]
  rfl

/-- A method that leaves `1.0` is written back. -/
theorem boxSite_iff : HoldsSelf boxPath [] ⟨floatBox 4607182418800017408, [], [], none⟩ boxMachine
      (boxMachine.setBase boxPath (Slot.live (floatBox 4607182418800017408))) ↔
    StandsAlready boxPath [] none (floatBox 0) ⟨floatBox 4607182418800017408, [], [], none⟩
      boxMachine :=
  holdsSelf_iff boxSite boxPath (leaveBox 4607182418800017408) (fun _ => pure ()) boxMachine rfl rfl
    nofun rfl (boxCall_writes 4607182418800017408 (by decide +kernel))

/-- A method that leaves `-0.0` is not written back: the place still holds `0.0`. -/
theorem not_holdsSelf : ¬ ∀ (site : MethodSite) (path : Path)
    (run : Value → M (Except Signal Value × MethodEnd)) (finish : MethodEnd → M Unit)
    (machine : Machine), site.path = some path → site.mode = some .mut_ →
    (site.lend.isSome = true → site.viewSet = []) → ∀ lend before value left final answer after,
      calleeEnd site run finish machine = (.ok (lend, before, .ok value, left), final) →
      receiverCall site run finish machine = (.ok answer, after) →
      HoldsSelf path site.viewSet left final after := by
  intro claim
  have holds :=
    claim boxSite boxPath (leaveBox 9223372036854775808) (fun _ => pure ()) boxMachine rfl
    rfl nofun none (floatBox 0) .unit ⟨floatBox 9223372036854775808, [], [], none⟩ boxMachine .unit
    boxMachine rfl (boxCall_run _ (by decide +kernel))
  have whole := holds.whole rfl
  have held : (boxMachine.slotAt boxPath).map Slot.value = some (floatBox 0) := rfl
  rw [held] at whole
  simp [floatBox, Slot.live] at whole

end WolfInterp.Eval
