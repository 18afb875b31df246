import WolfInterp.Eval.Slots

/-!
# Contents without their slot states

What a place holds when the states of the slots inside it are left out: a move changes states only.
-/

namespace WolfInterp.Eval

open WolfInterp.Lex (Text)

mutual

/-- A value with every slot inside it live. -/
def bare : Value → Value
  | .tuple items => .tuple (bareItems items)
  | .struct name fields home => .struct name (bareFields fields) home
  | .list items capacity elem home => .list (bareItems items) capacity elem home
  | .map pairs home => .map (barePairs pairs) home
  | value => value

def bareSlot : Slot Value → Slot Value
  | ⟨_, value⟩ => Slot.live (bare value)

def bareItems : List (Slot Value) → List (Slot Value)
  | [] => []
  | slot :: rest => bareSlot slot :: bareItems rest

def bareFields : List (Text × Slot Value) → List (Text × Slot Value)
  | [] => []
  | (name, slot) :: rest => (name, bareSlot slot) :: bareFields rest

def barePairs : List (Value × Slot Value) → List (Value × Slot Value)
  | [] => []
  | (key, slot) :: rest => (key, bareSlot slot) :: barePairs rest

end

theorem bareItems_eq_map (items : List (Slot Value)) : bareItems items = items.map bareSlot := by
  induction items with
  | nil => rfl
  | cons slot rest induction => rw [bareItems, induction, List.map_cons]

theorem bareFields_eq_map (fields : List (Text × Slot Value)) :
    bareFields fields = fields.map fun entry => (entry.1, bareSlot entry.2) := by
  induction fields with
  | nil => rfl
  | cons entry rest induction => rw [bareFields, induction, List.map_cons]

theorem barePairs_eq_map (pairs : List (Value × Slot Value)) :
    barePairs pairs = pairs.map fun entry => (entry.1, bareSlot entry.2) := by
  induction pairs with
  | nil => rfl
  | cons entry rest induction => rw [barePairs, induction, List.map_cons]

theorem bareSlot_eq (slot : Slot Value) : bareSlot slot = Slot.live (bare slot.value) := by
  obtain ⟨state, value⟩ := slot
  rw [bareSlot]

theorem home_bare (value : Value) : (bare value).home = value.home := by
  cases value <;> rfl

section Entries

variable {α β γ : Type} {wanted : α → Bool} (shape : β → γ)

theorem entryOf_map (entries : List (α × β)) :
    entryOf wanted (entries.map fun entry => (entry.1, shape entry.2)) =
      (entryOf wanted entries).map shape := by
  induction entries with
  | nil => rfl
  | cons entry rest induction =>
    by_cases hit : wanted entry.1
    · simp [entryOf, hit]
    · simp [entryOf, hit, induction]

theorem entryOf_append {entries : List (α × β)} {value : β}
    (found : entryOf wanted entries = some value) (rest : List (α × β)) :
    entryOf wanted (entries ++ rest) = some value := by
  induction entries with
  | nil => cases found
  | cons entry entries induction =>
    by_cases hit : wanted entry.1
    · simpa [entryOf, hit] using found
    · simp only [entryOf, hit] at found
      simp [entryOf, hit, induction found]

theorem itemAt_map (items : List β) (at_ : Int) :
    itemAt (items.map shape) at_ = (itemAt items at_).map shape := by
  unfold itemAt
  split
  · exact List.getElem?_map
  · rfl

theorem map_setEntry (value : β) (entries : List (α × β)) :
    (setEntry wanted value entries).map (fun entry => (entry.1, shape entry.2)) =
      setEntry wanted (shape value) (entries.map fun entry => (entry.1, shape entry.2)) := by
  induction entries with
  | nil => rfl
  | cons entry rest induction =>
    by_cases hit : wanted entry.1
    · simp [setEntry, hit]
    · simp [setEntry, hit, induction]

theorem map_setItem (items : List β) (at_ : Int) (item : β) :
    (setItem items at_ item).map shape = setItem (items.map shape) at_ (shape item) := by
  unfold setItem
  split
  · exact List.map_set
  · rfl

end Entries

theorem child_bare (slot : Slot Value) (step : Proj) :
    slots.child (bareSlot slot) step = (slots.child slot step).map bareSlot := by
  obtain ⟨state, value⟩ := slot
  change (bare value).child step = (value.child step).map bareSlot
  cases value <;> cases step <;> try rfl
  · rw [bare, bareItems_eq_map]
    exact itemAt_map bareSlot _ _
  · rw [bare, bareFields_eq_map]
    exact entryOf_map bareSlot _
  · rw [bare, bareItems_eq_map]
    exact itemAt_map bareSlot _ _
  · rw [bare, barePairs_eq_map]
    exact entryOf_map bareSlot _

theorem graft_bare (slot new : Slot Value) (step : Proj) :
    bareSlot (slots.graft slot step new) = slots.graft (bareSlot slot) step (bareSlot new) := by
  obtain ⟨state, value⟩ := slot
  change Slot.live (bare (value.graft step new)) =
    Slot.live ((bare value).graft step (bareSlot new))
  congr 1
  cases value <;> cases step <;> try rfl
  · simp only [bare, Value.graft, bareItems_eq_map, map_setItem]
  · simp only [bare, Value.graft, bareFields_eq_map, map_setEntry]
  · simp only [bare, Value.graft, bareItems_eq_map, map_setItem]
  · simp only [bare, Value.graft, barePairs_eq_map, map_setEntry]

theorem walk_bare (slot : Slot Value) (path : List Proj) :
    slots.walk (bareSlot slot) path = (slots.walk slot path).map bareSlot := by
  induction path generalizing slot with
  | nil => rfl
  | cons step path induction =>
    rw [Lens.walk_cons, Lens.walk_cons, child_bare]
    cases slots.child slot step with
    | none => rfl
    | some next => exact induction next

/-- A change of states alone is no change of the contents. -/
theorem bareSlot_change {update : Slot Value → Slot Value}
    (keeps : ∀ slot, bareSlot (update slot) = bareSlot slot) (slot : Slot Value)
    (path : List Proj) : bareSlot (slots.change update slot path) = bareSlot slot := by
  induction path generalizing slot with
  | nil => exact keeps slot
  | cons step path induction =>
    cases found : slots.child slot step with
    | none => rw [Lens.change_of_walk_none (by rw [Lens.walk_cons, found]; rfl)]
    | some next =>
      have bared : slots.child (bareSlot slot) step = some (bareSlot next) := by
        rw [child_bare, found]
        rfl
      rw [Lens.change_of_child found, graft_bare, induction]
      exact slots.graft_child bared

namespace Machine

/-- The contents of the place a path denotes. -/
def bareAt (machine : Machine) (path : Path) : Option (Slot Value) :=
  (machine.slotAt path).map bareSlot

/-- Every place holds what it held, slot states aside. -/
def SameContent (before after : Machine) : Prop := ∀ path, after.bareAt path = before.bareAt path

variable {machine : Machine} {path : Path}

theorem SameContent.trans {first second third : Machine} (one : SameContent first second)
    (two : SameContent second third) : SameContent first third :=
  fun path => (two path).trans (one path)

theorem sameContent_changeSlot {update : Slot Value → Slot Value}
    (keeps : ∀ slot, bareSlot (update slot) = bareSlot slot) (path : Path) :
    SameContent machine (machine.changeSlot path update) := by
  intro other
  by_cases same : path.SameBase other
  · rw [bareAt, bareAt, slotAt, slotAt, baseSlot_changeSlot same]
    cases machine.baseSlot other with
    | none => rfl
    | some slot =>
      simp only [Option.map_some, Option.bind_some]
      rw [← walk_bare, bareSlot_change keeps, walk_bare]
  · rw [bareAt, bareAt, slotAt_changeSlot_ne same]

end Machine

end WolfInterp.Eval
