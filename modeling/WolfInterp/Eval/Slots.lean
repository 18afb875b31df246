import WolfInterp.Eval.Calls

/-!
# How a change of a slot is seen

What every path finds after the slot of one path was changed: the slot itself, what lies below and
above it, and everything the change does not reach.
-/

namespace WolfInterp.Eval

open WolfInterp.Lex (Text)

/-! ## Scopes -/

section Scopes

variable {name other : Text} {old : Slot Value} {scopes : List Scope}

theorem lookupLocal_replaceLocal (found : lookupLocal name scopes = some old) (slot : Slot Value) :
    lookupLocal name (replaceLocal name slot scopes) = some slot := by
  induction scopes with
  | nil => cases found
  | cons scope rest induction =>
    rw [lookupLocal] at found
    rw [replaceLocal]
    cases entry : entryOf (· = name) scope.locals with
    | none =>
      rw [entry] at found
      rw [lookupLocal, entry]
      exact induction found
    | some held =>
      change lookupLocal name ({ scope with locals := _ } :: rest) = _
      rw [lookupLocal, entryOf_setEntry entry]

theorem lookupLocal_replaceLocal_ne (differ : other ≠ name) (slot : Slot Value)
    (scopes : List Scope) :
    lookupLocal other (replaceLocal name slot scopes) = lookupLocal other scopes := by
  induction scopes with
  | nil => rfl
  | cons scope rest induction =>
    rw [replaceLocal]
    cases entry : entryOf (· = name) scope.locals with
    | none => rw [lookupLocal, lookupLocal, induction]
    | some held =>
      have apart : ∀ key : Text, decide (key = other) = true → ¬ decide (key = name) = true := by
        intro key also hit
        simp only [decide_eq_true_eq] at also hit
        exact differ (also.symm.trans hit)
      rw [lookupLocal, lookupLocal, entryOf_setEntry_ne apart]

theorem replaceLocal_lookupLocal (found : lookupLocal name scopes = some old) :
    replaceLocal name old scopes = scopes := by
  induction scopes with
  | nil => cases found
  | cons scope rest induction =>
    rw [lookupLocal] at found
    rw [replaceLocal]
    cases entry : entryOf (· = name) scope.locals with
    | none =>
      rw [entry] at found
      rw [induction found]
    | some held =>
      rw [entry] at found
      cases found
      rw [setEntry_entryOf entry]

theorem replaceLocal_replaceLocal (first second : Slot Value) (scopes : List Scope) :
    replaceLocal name second (replaceLocal name first scopes) =
      replaceLocal name second scopes := by
  induction scopes with
  | nil => rfl
  | cons scope rest induction =>
    cases entry : entryOf (· = name) scope.locals with
    | none => simp [replaceLocal, entry, induction]
    | some held => simp [replaceLocal, entry, entryOf_setEntry entry, setEntry_setEntry]

end Scopes

/-! ## Base bindings -/

/-- Two paths start at one binding. -/
def Path.SameBase (path other : Path) : Prop := path.frame = other.frame ∧ path.base = other.base

namespace Machine

variable {machine : Machine} {path other : Path} {old : Slot Value}

theorem baseSlot_of_sameBase (same : path.SameBase other) :
    machine.baseSlot path = machine.baseSlot other := by
  rw [baseSlot, baseSlot, same.1, same.2]

theorem baseSlot_setBase (found : machine.baseSlot path = some old) (slot : Slot Value) :
    (machine.setBase path slot).baseSlot path = some slot := by
  obtain ⟨frame, base, projections⟩ := path
  cases frame with
  | none => exact entryOf_setEntry found slot
  | some frame =>
    obtain ⟨entry, present, local_⟩ := Option.bind_eq_some_iff.mp found
    change ((machine.frames.modify frame _)[frame]?).bind _ = _
    rw [List.getElem?_modify_eq, present]
    exact lookupLocal_replaceLocal local_ slot

theorem baseSlot_setBase_ne (differ : ¬ path.SameBase other) (slot : Slot Value) :
    (machine.setBase path slot).baseSlot other = machine.baseSlot other := by
  obtain ⟨frame, base, projections⟩ := path
  obtain ⟨frame', base', projections'⟩ := other
  have apart : frame = frame' → base' ≠ base := fun same also => differ ⟨same, also.symm⟩
  cases frame with
  | none =>
    cases frame' with
    | none =>
      refine entryOf_setEntry_ne (fun key also hit => ?_) slot _
      simp only [decide_eq_true_eq] at also hit
      exact apart rfl (also.symm.trans hit)
    | some frame' => rfl
  | some frame =>
    cases frame' with
    | none => rfl
    | some frame' =>
      change ((machine.frames.modify frame _)[frame']?).bind _ = (machine.frames[frame']?).bind _
      rw [List.getElem?_modify]
      by_cases same : frame = frame'
      · cases present : machine.frames[frame']? with
        | none => rfl
        | some entry =>
          simp only [same, if_true, Option.bind_some]
          exact lookupLocal_replaceLocal_ne (apart (by rw [same])) slot _
      · simp [same]

theorem setBase_baseSlot (found : machine.baseSlot path = some old) :
    machine.setBase path old = machine := by
  obtain ⟨frame, base, projections⟩ := path
  cases frame with
  | none => simp only [setBase, setEntry_entryOf found]
  | some frame =>
    obtain ⟨entry, present, local_⟩ := Option.bind_eq_some_iff.mp found
    have same : (machine.frames.modify frame fun frame =>
        { frame with scopes := replaceLocal base old frame.scopes }) = machine.frames := by
      apply List.ext_getElem?
      intro position
      rw [List.getElem?_modify]
      by_cases hit : frame = position
      · subst hit
        simp [present, replaceLocal_lookupLocal local_]
      · simp [hit]
    simp only [setBase, same]

theorem setBase_setBase (path : Path) (first second : Slot Value) :
    (machine.setBase path first).setBase path second = machine.setBase path second := by
  obtain ⟨frame, base, projections⟩ := path
  cases frame with
  | none => simp only [setBase, setEntry_setEntry]
  | some frame =>
    simp only [setBase]
    congr 1
    apply List.ext_getElem?
    intro position
    simp only [List.getElem?_modify]
    by_cases hit : frame = position
    · cases machine.frames[position]? <;> simp [hit, replaceLocal_replaceLocal]
    · simp [hit]

/-! ## Slots -/

theorem baseSlot_changeSlot (same : path.SameBase other) (update : Slot Value → Slot Value) :
    (machine.changeSlot path update).baseSlot other =
      (machine.baseSlot other).map fun slot => slots.change update slot path.projections := by
  have named (state : Machine) : state.baseSlot other = state.baseSlot path :=
    (baseSlot_of_sameBase same).symm
  rw [named, named, changeSlot]
  cases found : machine.baseSlot path with
  | none => exact found
  | some slot => exact baseSlot_setBase found _

theorem baseSlot_changeSlot_ne (differ : ¬ path.SameBase other) (update : Slot Value → Slot Value) :
    (machine.changeSlot path update).baseSlot other = machine.baseSlot other := by
  rw [changeSlot]
  cases machine.baseSlot path with
  | none => rfl
  | some slot => exact baseSlot_setBase_ne differ _

theorem slotAt_changeSlot_ne (differ : ¬ path.SameBase other) (update : Slot Value → Slot Value) :
    (machine.changeSlot path update).slotAt other = machine.slotAt other := by
  rw [slotAt, slotAt, baseSlot_changeSlot_ne differ]

theorem slotAt_changeSlot (path : Path) (update : Slot Value → Slot Value) :
    (machine.changeSlot path update).slotAt path = (machine.slotAt path).map update := by
  rw [slotAt, slotAt, baseSlot_changeSlot ⟨rfl, rfl⟩]
  cases machine.baseSlot path with
  | none => rfl
  | some slot => exact Lens.walk_change_self update slot path.projections

/-- What lies below a changed slot. -/
theorem slotAt_changeSlot_below (same : path.SameBase other) {rest : List Proj}
    (extends_ : other.projections = path.projections ++ rest) (update : Slot Value → Slot Value) :
    (machine.changeSlot path update).slotAt other =
      (machine.slotAt path).bind fun slot => slots.walk (update slot) rest := by
  rw [slotAt, baseSlot_changeSlot same, slotAt, baseSlot_of_sameBase same, extends_]
  cases machine.baseSlot other with
  | none => rfl
  | some slot => exact Lens.walk_change_below update slot path.projections rest

/-- What lies above a changed slot. -/
theorem slotAt_changeSlot_above (same : path.SameBase other) {rest : List Proj}
    (extends_ : path.projections = other.projections ++ rest) (update : Slot Value → Slot Value) :
    (machine.changeSlot path update).slotAt other =
      (machine.slotAt other).map fun slot => slots.change update slot rest := by
  rw [slotAt, baseSlot_changeSlot same, slotAt, extends_]
  cases machine.baseSlot other with
  | none => rfl
  | some slot => exact Lens.walk_change_above update slot other.projections rest

/-- What a change at a parting path leaves. -/
theorem slotAt_changeSlot_parts (same : path.SameBase other)
    (parts : Lens.Parts path.projections other.projections) (update : Slot Value → Slot Value) :
    (machine.changeSlot path update).slotAt other = machine.slotAt other := by
  rw [slotAt, baseSlot_changeSlot same, slotAt]
  cases machine.baseSlot other with
  | none => rfl
  | some slot => exact Lens.walk_change_of_parts parts update slot

/-- Two changes of one slot are one. -/
theorem changeSlot_changeSlot (path : Path) (first second : Slot Value → Slot Value) :
    (machine.changeSlot path first).changeSlot path second =
      machine.changeSlot path fun slot => second (first slot) := by
  cases found : machine.baseSlot path with
  | none =>
    have kept : machine.changeSlot path first = machine := by rw [changeSlot, found]
    rw [kept, changeSlot, changeSlot, found]
  | some slot =>
    have changed : (machine.changeSlot path first).baseSlot path =
        (machine.baseSlot path).map fun slot => slots.change first slot path.projections :=
      baseSlot_changeSlot ⟨rfl, rfl⟩ first
    rw [found, Option.map_some] at changed
    rw [changeSlot, changed]
    simp only [changeSlot, found, setBase_setBase, Lens.change_change]

/-- A change that keeps the slot keeps the machine. -/
theorem changeSlot_of_fixed {slot : Slot Value} (found : machine.slotAt path = some slot)
    {update : Slot Value → Slot Value} (fixed : update slot = slot) :
    machine.changeSlot path update = machine := by
  obtain ⟨base, present, walked⟩ := Option.bind_eq_some_iff.mp found
  rw [changeSlot, present]
  change machine.setBase path (slots.change update base path.projections) = machine
  rw [Lens.change_of_fixed walked fixed]
  exact setBase_baseSlot present

/-- A change of a slot that is not there. -/
theorem changeSlot_of_none (missing : machine.slotAt path = none)
    (update : Slot Value → Slot Value) : machine.changeSlot path update = machine := by
  rw [changeSlot]
  cases present : machine.baseSlot path with
  | none => rfl
  | some slot =>
    have walked : slots.walk slot path.projections = none := by
      rw [slotAt, present] at missing
      exact missing
    change machine.setBase path (slots.change update slot path.projections) = machine
    rw [Lens.change_of_walk_none walked]
    exact setBase_baseSlot present

end Machine

end WolfInterp.Eval
