import WolfInterp.Eval.Slots

/-!
# Where a local lives

A name denotes its innermost, newest local. What a local is does not depend on what shadows it: its
storage is a frame, a scope counted from the outermost and a position counted from the oldest.
-/

namespace WolfInterp.Eval

open WolfInterp.Lex (Text)

/-- An entry of a list, counted from the end. -/
def fromEnd {α : Type} (index : Nat) : List α → Option α
  | [] => none
  | head :: rest => if index = rest.length then some head else fromEnd index rest

section FromEnd

variable {α : Type} {index : Nat} {entries : List α}

theorem fromEnd_isSome : (fromEnd index entries).isSome ↔ index < entries.length := by
  induction entries with
  | nil => simp [fromEnd]
  | cons head rest induction =>
    rw [fromEnd]
    split
    · rename_i same
      simp [same]
    · rename_i differ
      rw [induction, List.length_cons]
      omega

theorem mem_of_fromEnd {entry : α} (found : fromEnd index entries = some entry) : entry ∈ entries
    := by
  induction entries with
  | nil => cases found
  | cons head rest induction =>
    rw [fromEnd] at found
    split at found
    · cases found
      exact List.mem_cons_self
    · exact List.mem_cons_of_mem _ (induction found)

/-- What is put in front is not counted. -/
theorem fromEnd_append (front : List α) (inside : index < entries.length) :
    fromEnd index (front ++ entries) = fromEnd index entries := by
  induction front with
  | nil => rfl
  | cons head rest induction =>
    rw [List.cons_append, fromEnd, if_neg, induction]
    rw [List.length_append]
    omega

end FromEnd

/-- The storage of a local. -/
structure Storage where
  frame : Nat
  depth : Nat
  position : Nat
  deriving DecidableEq

/-- The position of the newest local of a name. -/
def positionIn (name : Text) : List (Text × Slot Value) → Option Nat
  | [] => none
  | (other, _) :: rest => if other = name then some rest.length else positionIn name rest

/-- The scope and the position of the innermost, newest local of a name. -/
def locate (name : Text) : List Scope → Option (Nat × Nat)
  | [] => none
  | scope :: rest =>
    match positionIn name scope.locals with
    | some position => some (rest.length, position)
    | none => locate name rest

/-- A local of a frame. -/
def localIn (depth position : Nat) (scopes : List Scope) : Option (Text × Slot Value) :=
  (fromEnd depth scopes).bind fun scope => fromEnd position scope.locals

namespace Machine

variable (machine : Machine)

/-- The local at a storage: its name and its slot. -/
def storage (place : Storage) : Option (Text × Slot Value) :=
  (machine.frames[place.frame]?).bind fun frame =>
    localIn place.depth place.position frame.scopes

/-- The storage a path's base denotes. -/
def storageOf (path : Path) : Option Storage :=
  path.frame.bind fun own => (machine.frames[own]?).bind fun frame =>
    (locate path.base frame.scopes).map fun (depth, position) => ⟨own, depth, position⟩

end Machine

section Replace

variable {name : Text} {slot : Slot Value} {locals : List (Text × Slot Value)} {position : Nat}

theorem positionIn_isSome :
    (positionIn name locals).isSome = (entryOf (· = name) locals).isSome := by
  induction locals with
  | nil => rfl
  | cons entry rest induction =>
    obtain ⟨other, held⟩ := entry
    by_cases same : other = name <;> simp [positionIn, entryOf, same, induction]

theorem length_setEntry (locals : List (Text × Slot Value)) :
    (setEntry (· = name) slot locals).length = locals.length := by
  induction locals with
  | nil => rfl
  | cons entry rest induction =>
    obtain ⟨other, held⟩ := entry
    by_cases same : other = name <;> simp [setEntry, same, induction]

/-- Setting an entry keeps every name, and every slot but the one it is at. -/
theorem fromEnd_setEntry (name : Text) (slot : Slot Value) {other : Text} {held : Slot Value}
    (found : fromEnd position locals = some (other, held)) :
    ∃ after, fromEnd position (setEntry (· = name) slot locals) = some (other, after) ∧
      (positionIn name locals ≠ some position → after = held) := by
  induction locals with
  | nil => cases found
  | cons entry rest induction =>
    obtain ⟨first, kept⟩ := entry
    rw [fromEnd] at found
    by_cases here : position = rest.length
    · rw [if_pos here] at found
      cases found
      by_cases same : other = name
      · refine ⟨slot, ?_, fun apart => ?_⟩
        · simp [setEntry, same, fromEnd, here]
        · simp [positionIn, same, here] at apart
      · refine ⟨held, ?_, fun _ => rfl⟩
        simp [setEntry, same, fromEnd, here, length_setEntry]
    · rw [if_neg here] at found
      by_cases same : first = name
      · refine ⟨held, ?_, fun _ => rfl⟩
        simp [setEntry, same, fromEnd, here, found]
      · obtain ⟨after, there, kept⟩ := induction found
        refine ⟨after, ?_, fun apart => kept ?_⟩
        · simp [setEntry, same, fromEnd, length_setEntry, here, there]
        · simpa [positionIn, same] using apart

theorem length_replaceLocal (scopes : List Scope) :
    (replaceLocal name slot scopes).length = scopes.length := by
  induction scopes with
  | nil => rfl
  | cons scope rest induction =>
    rw [replaceLocal]
    cases entryOf (· = name) scope.locals with
    | none => rw [List.length_cons, List.length_cons, induction]
    | some _ => rfl

theorem positionIn_setEntry (other : Text) (locals : List (Text × Slot Value)) :
    positionIn other (setEntry (· = name) slot locals) = positionIn other locals := by
  induction locals with
  | nil => rfl
  | cons entry rest induction =>
    obtain ⟨first, held⟩ := entry
    by_cases same : first = name
    · simp [setEntry, positionIn, same]
    · simp [setEntry, positionIn, same, induction, length_setEntry]

theorem locate_replaceLocal (other : Text) (scopes : List Scope) :
    locate other (replaceLocal name slot scopes) = locate other scopes := by
  induction scopes with
  | nil => rfl
  | cons scope rest induction =>
    rw [replaceLocal]
    cases entryOf (· = name) scope.locals with
    | none => rw [locate, locate, length_replaceLocal, induction]
    | some _ => rw [locate, locate, positionIn_setEntry]

theorem name_of_positionIn (found : positionIn name locals = some position) :
    ∃ held, fromEnd position locals = some (name, held) := by
  induction locals with
  | nil => cases found
  | cons entry rest induction =>
    obtain ⟨first, held⟩ := entry
    rw [positionIn] at found
    rw [fromEnd]
    by_cases same : first = name
    · rw [if_pos same] at found
      cases found
      exact ⟨held, by rw [if_pos rfl, same]⟩
    · rw [if_neg same] at found
      obtain ⟨held', there⟩ := induction found
      have inside : position < rest.length := fromEnd_isSome.mp (by rw [there]; rfl)
      exact ⟨held', by rw [if_neg (by omega), there]⟩

theorem name_of_locate {scopes : List Scope} {depth : Nat}
    (found : locate name scopes = some (depth, position)) :
    ∃ held, localIn depth position scopes = some (name, held) := by
  induction scopes with
  | nil => cases found
  | cons scope rest induction =>
    rw [locate] at found
    unfold localIn at induction ⊢
    rw [fromEnd]
    cases bound : positionIn name scope.locals with
    | none =>
      rw [bound] at found
      obtain ⟨held, there⟩ := induction found
      obtain ⟨outer, present, _⟩ := Option.bind_eq_some_iff.mp there
      have inside : depth < rest.length := fromEnd_isSome.mp (by rw [present]; rfl)
      exact ⟨held, by rw [if_neg (by omega), there]⟩
    | some at_ =>
      rw [bound] at found
      cases found
      rw [if_pos rfl]
      exact name_of_positionIn bound

theorem localIn_replaceLocal (name : Text) (slot : Slot Value) {scopes : List Scope} {depth : Nat}
    {other : Text} {held : Slot Value}
    (found : localIn depth position scopes = some (other, held)) :
    ∃ after, localIn depth position (replaceLocal name slot scopes) = some (other, after) ∧
      (locate name scopes ≠ some (depth, position) → after = held) := by
  induction scopes with
  | nil => cases found
  | cons scope rest induction =>
    unfold localIn at found induction ⊢
    rw [fromEnd] at found
    rw [replaceLocal, locate]
    have same : (positionIn name scope.locals).isSome = (entryOf (· = name) scope.locals).isSome :=
      positionIn_isSome
    cases bound : entryOf (· = name) scope.locals with
    | none =>
      rw [bound] at same
      have unbound : positionIn name scope.locals = none := by simpa using same
      rw [unbound]
      dsimp only
      rw [fromEnd, length_replaceLocal]
      by_cases here : depth = rest.length
      · rw [if_pos here] at found ⊢
        exact ⟨held, found, fun _ => rfl⟩
      · rw [if_neg here] at found ⊢
        exact induction found
    | some old =>
      rw [bound] at same
      obtain ⟨at_, bound_⟩ := Option.isSome_iff_exists.mp same
      rw [bound_]
      dsimp only
      rw [fromEnd]
      by_cases here : depth = rest.length
      · rw [if_pos here] at found ⊢
        obtain ⟨after, there, kept⟩ := fromEnd_setEntry name slot found
        refine ⟨after, there, fun apart => kept fun same => apart ?_⟩
        rw [bound_] at same
        rw [here, Option.some.inj same]
      · rw [if_neg here] at found ⊢
        exact ⟨held, found, fun _ => rfl⟩

end Replace

namespace Machine

variable {machine : Machine} {path : Path} {place : Storage} {name : Text} {slot : Slot Value}

/-- A change of a place keeps every local's name, and every slot but that of the place's base. -/
theorem storage_changeSlot (update : Slot Value → Slot Value)
    (found : machine.storage place = some (name, slot)) :
    ∃ after, (machine.changeSlot path update).storage place = some (name, after) ∧
      (machine.storageOf path ≠ some place → after = slot) := by
  unfold changeSlot
  cases machine.baseSlot path with
  | none => exact ⟨slot, found, fun _ => rfl⟩
  | some base =>
    obtain ⟨own, name', projections⟩ := path
    cases own with
    | none => exact ⟨slot, found, fun _ => rfl⟩
    | some own =>
      dsimp only [setBase]
      obtain ⟨frame, present, inside⟩ := Option.bind_eq_some_iff.mp found
      unfold storage storageOf
      dsimp only
      rw [List.getElem?_modify]
      by_cases same : own = place.frame
      · subst same
        obtain ⟨after, there, kept⟩ := localIn_replaceLocal name'
          (slots.change update base projections) inside
        refine ⟨after, ?_, fun apart => kept fun located => apart ?_⟩
        · simp only [if_true, present, Option.map_eq_map, Option.map_some, Option.bind_some]
          exact there
        · simp only [present, Option.bind_some, located, Option.map_some]
      · refine ⟨slot, ?_, fun _ => rfl⟩
        simp only [same, if_false, present, Option.map_eq_map, Option.map_some, Option.bind_some]
        exact inside

theorem serial_changeSlot (update : Slot Value → Slot Value) (index : Nat) :
    ((machine.changeSlot path update).frames[index]?).map Frame.serial =
      (machine.frames[index]?).map Frame.serial := by
  unfold changeSlot
  cases machine.baseSlot path with
  | none => rfl
  | some base =>
    unfold setBase
    cases path.frame with
    | none => rfl
    | some own =>
      dsimp only
      rw [List.getElem?_modify]
      cases machine.frames[index]? with
      | none => rfl
      | some frame => by_cases same : own = index <;> simp [same]

/-- A change of a place moves no name. -/
theorem storageOf_changeSlot (other : Path) (update : Slot Value → Slot Value) :
    (machine.changeSlot other update).storageOf path = machine.storageOf path := by
  unfold changeSlot
  cases machine.baseSlot other with
  | none => rfl
  | some base =>
    unfold setBase
    cases other.frame with
    | none => rfl
    | some own =>
      unfold storageOf
      cases path.frame with
      | none => rfl
      | some index =>
        dsimp only [Option.bind_some]
        rw [List.getElem?_modify]
        cases machine.frames[index]? with
        | none => rfl
        | some frame => by_cases same : own = index <;> simp [same, locate_replaceLocal]

/-- The local a path's base denotes has its name. -/
theorem name_of_storageOf (denotes : machine.storageOf path = some place)
    (found : machine.storage place = some (name, slot)) :
    path.frame = some place.frame ∧ path.base = name := by
  obtain ⟨own, framed, inside⟩ := Option.bind_eq_some_iff.mp denotes
  obtain ⟨frame, present, located⟩ := Option.bind_eq_some_iff.mp inside
  obtain ⟨⟨depth, position⟩, here, same⟩ := Option.map_eq_some_iff.mp located
  cases same
  refine ⟨framed, ?_⟩
  obtain ⟨held, there⟩ := name_of_locate here
  rw [storage, present, Option.bind_some, there] at found
  cases found
  rfl

/-- A step that moves no frame moves no local. -/
theorem storage_of_frames {after : Machine} (frames : after.frames = machine.frames) :
    after.storage place = machine.storage place := by
  rw [storage, storage, frames]

theorem storageOf_of_frames {after : Machine} (frames : after.frames = machine.frames) :
    after.storageOf path = machine.storageOf path := by
  rw [storageOf, storageOf, frames]

end Machine

end WolfInterp.Eval
