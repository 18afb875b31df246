import WolfInterp.Eval.LoanRuns

/-!
# A write stores once or not at all

`Stored` and `Machine.Stores` say what an exact write is, slot by slot and with nothing of the
walk's own arithmetic: every field, element, entry, binding, scope and frame beside the place
stands where it stood. A write that is not stopped is such a store; one that is stopped leaves the
machine alone.
-/

namespace WolfInterp.Eval

open WolfInterp.Lex (Text)

/-! ## An exact store -/

/-- The slot after the value was stored at the path below the slot before: the first field or
entry of a step's name is the one a step means, and a map may grow at its end. -/
inductive Stored (value : Value) : List Proj → Slot Value → Slot Value → Prop
  | here (old : Slot Value) : Stored value [] old (Slot.live value)
  | field {rest : List Proj} {old new : Slot Value} {state : SlotState} {name wanted : Text}
      {front back : List (Text × Slot Value)} {home : Option RegionId}
      (fresh : ∀ entry ∈ front, entry.1 ≠ wanted) (below : Stored value rest old new) :
      Stored value (.field wanted :: rest)
        ⟨state, .struct name (front ++ (wanted, old) :: back) home⟩
        ⟨state, .struct name (front ++ (wanted, new) :: back) home⟩
  | item {rest : List Proj} {old new : Slot Value} {state : SlotState}
      {front back : List (Slot Value)} (below : Stored value rest old new) :
      Stored value (.index front.length :: rest) ⟨state, .tuple (front ++ old :: back)⟩
        ⟨state, .tuple (front ++ new :: back)⟩
  | element {rest : List Proj} {old new : Slot Value} {state : SlotState}
      {front back : List (Slot Value)} {capacity : Nat} {elem : Option ElemTy}
      {home : Option RegionId} (below : Stored value rest old new) :
      Stored value (.index front.length :: rest)
        ⟨state, .list (front ++ old :: back) capacity elem home⟩
        ⟨state, .list (front ++ new :: back) capacity elem home⟩
  | entry {rest : List Proj} {old new : Slot Value} {state : SlotState} {key : MapKey}
      {stored : Value} {front back : List (Value × Slot Value)} {home : Option RegionId}
      (fresh : ∀ pair ∈ front, ¬ key.names pair.1) (names : key.names stored)
      (below : Stored value rest old new) :
      Stored value (.key key :: rest) ⟨state, .map (front ++ (stored, old) :: back) home⟩
        ⟨state, .map (front ++ (stored, new) :: back) home⟩
  | grown {state : SlotState} {key : MapKey} {pairs : List (Value × Slot Value)}
      {home : Option RegionId} (absent : ∀ pair ∈ pairs, ¬ key.names pair.1) :
      Stored value [.key key] ⟨state, .map pairs home⟩
        ⟨state, .map (pairs ++ [(key.toValue, Slot.live value)]) home⟩

/-- The machine after the value was stored at the path: one binding is another, the newest of its
name in the innermost scope that has it, and every other local and global is as it was. -/
inductive Machine.Stores (value : Value) (path : Path) (machine after : Machine) : Prop
  | global {newer older : List (Text × Slot Value)} {old new : Slot Value}
      (owner : path.frame = none)
      (before : machine.globals = newer ++ (path.base, old) :: older)
      (newest : ∀ entry ∈ newer, entry.1 ≠ path.base)
      (stored : Stored value path.projections old new)
      (globals : after.globals = newer ++ (path.base, new) :: older)
      (frames : after.frames = machine.frames)
  | local_ {callers callees : List Frame} {frame : Frame} {inner outer : List Scope}
      {scope : Scope} {newer older : List (Text × Slot Value)} {old new : Slot Value}
      (owner : path.frame = some callers.length)
      (before : machine.frames = callers ++
        { frame with scopes := inner ++
            { scope with locals := newer ++ (path.base, old) :: older } :: outer } :: callees)
      (innermost : ∀ scope ∈ inner, ∀ entry ∈ scope.locals, entry.1 ≠ path.base)
      (newest : ∀ entry ∈ newer, entry.1 ≠ path.base)
      (stored : Stored value path.projections old new)
      (frames : after.frames = callers ++
        { frame with scopes := inner ++
            { scope with locals := newer ++ (path.base, new) :: older } :: outer } :: callees)
      (globals : after.globals = machine.globals)

/-! ## What a step replaces -/

section Steps

variable {α β : Type} {wanted : α → Bool} {entries : List (α × β)} {key : α} {old new : Slot Value}
  {rest : List Proj}

theorem entryOf_split {old : β} (found : entryOf wanted entries = some old) :
    ∃ front key back, entries = front ++ (key, old) :: back ∧ wanted key = true ∧
      (∀ entry ∈ front, ¬ wanted entry.1) ∧
      ∀ new, setEntry wanted new entries = front ++ (key, new) :: back := by
  induction entries with
  | nil => cases found
  | cons entry rest induction =>
    obtain ⟨key, held⟩ := entry
    by_cases hit : wanted key
    · simp only [entryOf, hit, if_true, Option.some.injEq] at found
      subst found
      exact ⟨[], key, rest, rfl, hit, by simp, fun new => by simp [setEntry, hit]⟩
    · simp only [entryOf, hit] at found
      obtain ⟨front, key', back, split_, names, fresh, set⟩ := induction found
      refine ⟨(key, held) :: front, key', back, by rw [split_]; rfl, names, ?_, fun new => ?_⟩
      · intro entry member
        rcases List.mem_cons.mp member with rfl | later
        · exact hit
        · exact fresh entry later
      · simp [setEntry, hit, set new]

theorem entryOf_none_iff : entryOf wanted entries = none ↔ ∀ entry ∈ entries, ¬ wanted entry.1 := by
  induction entries with
  | nil => simp [entryOf]
  | cons entry rest induction =>
    by_cases hit : wanted entry.1 <;> simp [entryOf, hit, induction]

theorem getElem?_split {items : List β} {index : Nat} {item : β}
    (present : items[index]? = some item) :
    ∃ front back, front.length = index ∧ items = front ++ item :: back := by
  obtain ⟨within, held⟩ := List.getElem?_eq_some_iff.mp present
  refine ⟨items.take index, items.drop (index + 1), ?_, ?_⟩
  · rw [List.length_take]
    omega
  · rw [← held, List.getElem_cons_drop, List.take_append_drop]

theorem itemAt_split {items : List β} {at_ : Int} {old : β} (found : itemAt items at_ = some old) :
    ∃ front back, items = front ++ old :: back ∧ at_ = front.length ∧
      ∀ new, setItem items at_ new = front ++ new :: back := by
  unfold itemAt at found
  split at found
  · rename_i inside
    obtain ⟨front, back, depth, rfl⟩ := getElem?_split found
    refine ⟨front, back, rfl, by omega, fun new => ?_⟩
    rw [setItem, if_pos inside, ← depth, List.set_append_right _ _ (Nat.le_refl _), Nat.sub_self,
      List.set_cons_zero]
  · cases found

theorem entryOf_append_cons {front back : List (α × β)} (fresh : ∀ entry ∈ front, ¬ wanted entry.1)
    (names : wanted key = true) (value : β) :
    entryOf wanted (front ++ (key, value) :: back) = some value := by
  induction front with
  | nil => simp [entryOf, names]
  | cons entry rest induction =>
    have miss := fresh entry List.mem_cons_self
    have later := induction fun entry member => fresh entry (List.mem_cons_of_mem _ member)
    simp [entryOf, miss, later]

/-- Another name finds what it found before an entry was replaced. -/
theorem entryOf_append_cons_ne {front back : List (α × β)} (apart : ¬ wanted key) (old new : β) :
    entryOf wanted (front ++ (key, old) :: back) =
      entryOf wanted (front ++ (key, new) :: back) := by
  induction front with
  | nil => simp [entryOf, apart]
  | cons entry rest induction => simp only [List.cons_append, entryOf, induction]

theorem entryOf_snoc_ne (apart : ¬ wanted key) (value : β) :
    entryOf wanted (entries ++ [(key, value)]) = entryOf wanted entries := by
  induction entries with
  | nil => simp [entryOf, apart]
  | cons entry rest induction => simp only [List.cons_append, entryOf, induction]

theorem itemAt_append_cons (front back : List β) (item : β) :
    itemAt (front ++ item :: back) front.length = some item := by
  simp [itemAt]

theorem itemAt_append_cons_ne (front back : List β) (old new : β) {at_ : Int}
    (differ : at_ ≠ front.length) :
    itemAt (front ++ old :: back) at_ = itemAt (front ++ new :: back) at_ := by
  unfold itemAt
  split
  · have apart : at_.toNat ≠ front.length := by omega
    rcases Nat.lt_or_gt_of_ne apart with before | after
    · rw [List.getElem?_append_left before, List.getElem?_append_left before]
    · obtain ⟨rest, position⟩ : ∃ rest, at_.toNat - front.length = rest + 1 :=
        ⟨at_.toNat - front.length - 1, by omega⟩
      rw [List.getElem?_append_right (by omega), List.getElem?_append_right (by omega), position]
      rfl
  · rfl

/-- The slot a step finds, replaced by what a store below makes of it. -/
theorem Stored.step {value : Value} {step : Proj} {rest : List Proj} {slot old new : Slot Value}
    (child : slots.child slot step = some old) (below : Stored value rest old new) :
    Stored value (step :: rest) slot (slots.graft slot step new) := by
  obtain ⟨state, whole⟩ := slot
  change whole.child step = some old at child
  change Stored value (step :: rest) ⟨state, whole⟩ ⟨state, whole.graft step new⟩
  revert child
  fun_cases Value.child whole step with
  | case1 name fields home wanted =>
    intro child
    obtain ⟨front, key, back, rfl, names, fresh, set⟩ := entryOf_split child
    obtain rfl : key = wanted := by simpa using names
    rw [Value.graft, set]
    exact .field (fun entry member => by simpa using fresh entry member) below
  | case2 items at_ =>
    intro child
    obtain ⟨front, back, rfl, rfl, set⟩ := itemAt_split child
    rw [Value.graft, set]
    exact .item below
  | case3 items capacity elem home at_ =>
    intro child
    obtain ⟨front, back, rfl, rfl, set⟩ := itemAt_split child
    rw [Value.graft, set]
    exact .element below
  | case4 pairs home key =>
    intro child
    obtain ⟨front, stored, back, rfl, names, fresh, set⟩ := entryOf_split child
    rw [Value.graft, set]
    exact .entry fresh names below
  | case5 => rintro ⟨⟩

/-- A store below a path is a store. -/
theorem Stored.under {value : Value} {path rest : List Proj} {slot old : Slot Value}
    {update : Slot Value → Slot Value} (found : slots.walk slot path = some old)
    (below : Stored value rest old (update old)) :
    Stored value (path ++ rest) slot (slots.change update slot path) := by
  induction path generalizing slot with
  | nil =>
    cases found
    exact below
  | cons step path induction =>
    rw [Lens.walk_cons] at found
    obtain ⟨next, child, walked⟩ := Option.bind_eq_some_iff.mp found
    rw [List.cons_append, Lens.change_of_child child]
    exact Stored.step child (induction walked)

/-- The path of a store names the value. -/
theorem Stored.walk_self {value : Value} {path : List Proj} (stored : Stored value path old new) :
    slots.walk new path = some (Slot.live value) := by
  induction stored with
  | here old => rfl
  | @field rest old new state name wanted front back home fresh below induction =>
    have child : slots.child ⟨state, .struct name (front ++ (wanted, new) :: back) home⟩
        (.field wanted) = some new :=
      entryOf_append_cons (fun entry member => by simpa using fresh entry member) (by simp) new
    rw [Lens.walk_cons, child]
    exact induction
  | @item rest old new state front back below induction =>
    have child : slots.child ⟨state, .tuple (front ++ new :: back)⟩ (.index front.length) =
        some new := itemAt_append_cons front back new
    rw [Lens.walk_cons, child]
    exact induction
  | @element rest old new state front back capacity elem home below induction =>
    have child : slots.child ⟨state, .list (front ++ new :: back) capacity elem home⟩
        (.index front.length) = some new := itemAt_append_cons front back new
    rw [Lens.walk_cons, child]
    exact induction
  | @entry rest old new state key stored front back home fresh names below induction =>
    have child : slots.child ⟨state, .map (front ++ (stored, new) :: back) home⟩ (.key key) =
        some new := entryOf_append_cons fresh names new
    rw [Lens.walk_cons, child]
    exact induction
  | @grown state key pairs home absent =>
    have child : slots.child ⟨state, .map (pairs ++ [(key.toValue, Slot.live value)]) home⟩
        (.key key) = some (Slot.live value) :=
      entryOf_append_cons absent key.names_toValue (Slot.live value)
    rw [Lens.walk_cons, child]
    rfl

/-- Another step than a store's finds what it found. -/
theorem Stored.child_ne {value : Value} {step other : Proj}
    (stored : Stored value (step :: rest) old new) (differ : step ≠ other) :
    slots.child new other = slots.child old other := by
  cases stored with
  | @field _ old new state name wanted front back home fresh below =>
    cases other with
    | field name' =>
      refine (entryOf_append_cons_ne ?_ old new).symm
      simpa using fun same => differ (congrArg Proj.field same)
    | _ => rfl
  | @item _ old new state front back below =>
    cases other with
    | index at_ =>
      exact (itemAt_append_cons_ne front back old new
        fun same => differ (congrArg Proj.index same.symm)).symm
    | _ => rfl
  | @element _ old new state front back capacity elem home below =>
    cases other with
    | index at_ =>
      exact (itemAt_append_cons_ne front back old new
        fun same => differ (congrArg Proj.index same.symm)).symm
    | _ => rfl
  | @entry _ old new state key stored front back home fresh names below =>
    cases other with
    | key key' =>
      refine (entryOf_append_cons_ne (fun also => ?_) old new).symm
      exact differ (congrArg Proj.key (MapKey.names_inj names also))
    | _ => rfl
  | @grown state key pairs home absent =>
    cases other with
    | key key' =>
      refine entryOf_snoc_ne (fun also => ?_) (Slot.live value)
      exact differ (congrArg Proj.key (MapKey.names_inj key.names_toValue also))
    | _ => rfl

/-- The first step of a store, when the store goes on below it. -/
theorem Stored.child_self {value : Value} {step next : Proj}
    (stored : Stored value (step :: next :: rest) old new) :
    ∃ below below', slots.child old step = some below ∧ slots.child new step = some below' ∧
      Stored value (next :: rest) below below' := by
  cases stored with
  | @field _ old new state name wanted front back home fresh below =>
    have found (slot : Slot Value) : slots.child
        ⟨state, .struct name (front ++ (wanted, slot) :: back) home⟩ (.field wanted) = some slot :=
      entryOf_append_cons (fun entry member => by simpa using fresh entry member) (by simp) slot
    exact ⟨old, new, found old, found new, below⟩
  | @item _ old new state front back below =>
    exact ⟨old, new, itemAt_append_cons front back old, itemAt_append_cons front back new, below⟩
  | @element _ old new state front back capacity elem home below =>
    exact ⟨old, new, itemAt_append_cons front back old, itemAt_append_cons front back new, below⟩
  | @entry _ old new state key stored front back home fresh names below =>
    exact ⟨old, new, entryOf_append_cons fresh names old, entryOf_append_cons fresh names new,
      below⟩

/-- A store keeps what a path names that branches off. -/
theorem Stored.walk_parts {value : Value} {path other : List Proj}
    (stored : Stored value path old new) (parts : Lens.Parts path other) :
    slots.walk new other = slots.walk old other := by
  obtain ⟨front, step, rest, step', rest', differ, rfl, rfl⟩ := parts
  induction front generalizing old new with
  | nil => rw [List.nil_append, Lens.walk_cons, Lens.walk_cons, stored.child_ne differ]
  | cons first front induction =>
    obtain ⟨next, later, shape⟩ : ∃ next later, front ++ step :: rest = next :: later := by
      cases front <;> exact ⟨_, _, rfl⟩
    rw [List.cons_append, shape] at stored
    obtain ⟨below, below', before, after, deeper⟩ := stored.child_self
    rw [← shape] at deeper
    rw [List.cons_append, Lens.walk_cons, Lens.walk_cons, before, after]
    exact induction deeper

/-- A store below a slot keeps the slot's own state. -/
theorem Stored.state_above {value : Value} {step : Proj} {front : List Proj}
    (stored : Stored value (front ++ step :: rest) old new) :
    (slots.walk new front).map Slot.state = (slots.walk old front).map Slot.state := by
  induction front generalizing old new with
  | nil => cases stored <;> rfl
  | cons first front induction =>
    obtain ⟨next, later, shape⟩ : ∃ next later, front ++ step :: rest = next :: later := by
      cases front <;> exact ⟨_, _, rfl⟩
    rw [List.cons_append, shape] at stored
    obtain ⟨below, below', before, after, deeper⟩ := stored.child_self
    rw [← shape] at deeper
    rw [Lens.walk_cons, Lens.walk_cons, before, after]
    exact induction deeper

/-- An entry at the end of a map that has none of its name is the one its name means. -/
theorem setEntry_snoc (absent : ∀ entry ∈ entries, ¬ wanted entry.1) (names : wanted key = true)
    (old new : β) : setEntry wanted new (entries ++ [(key, old)]) = entries ++ [(key, new)] := by
  induction entries with
  | nil => simp [setEntry, names]
  | cons entry rest induction =>
    have miss := absent entry List.mem_cons_self
    have later := induction fun entry member => absent entry (List.mem_cons_of_mem _ member)
    simp [setEntry, miss, later]

end Steps

/-- The binding a name means, with what stands beside it. -/
theorem lookupLocal_split {name : Text} {scopes : List Scope} {old : Slot Value}
    (found : lookupLocal name scopes = some old) :
    ∃ (inner : List Scope) (scope : Scope) (newer older : List (Text × Slot Value))
      (outer : List Scope),
        scopes = inner ++ { scope with locals := newer ++ (name, old) :: older } :: outer ∧
        (∀ scope ∈ inner, ∀ entry ∈ scope.locals, entry.1 ≠ name) ∧
        (∀ entry ∈ newer, entry.1 ≠ name) ∧
        ∀ new, replaceLocal name new scopes =
          inner ++ { scope with locals := newer ++ (name, new) :: older } :: outer := by
  induction scopes with
  | nil => cases found
  | cons scope rest induction =>
    cases here : entryOf (· = name) scope.locals with
    | some slot =>
      simp only [lookupLocal, here, Option.some.injEq] at found
      subst found
      obtain ⟨newer, key, older, split_, names, fresh, set⟩ := entryOf_split here
      obtain rfl : key = name := by simpa using names
      refine ⟨[], scope, newer, older, rest, ?_, by simp, ?_, fun new => ?_⟩
      · rw [← split_]
        rfl
      · exact fun entry member => by simpa using fresh entry member
      · simp only [replaceLocal, here, set new, List.nil_append]
    | none =>
      simp only [lookupLocal, here] at found
      obtain ⟨inner, owner, newer, older, outer, split_, innermost, newest, set⟩ :=
        induction found
      refine ⟨scope :: inner, owner, newer, older, outer, by rw [split_]; rfl, ?_, newest, ?_⟩
      · intro passed member entry local_
        rcases List.mem_cons.mp member with rfl | later
        · simpa using entryOf_none_iff.mp here entry local_
        · exact innermost passed later entry local_
      · intro new
        simp only [replaceLocal, here, set new, List.cons_append]

theorem lookupLocal_append {name : Text} {inner : List Scope}
    (fresh : ∀ scope ∈ inner, ∀ entry ∈ scope.locals, entry.1 ≠ name) (scopes : List Scope) :
    lookupLocal name (inner ++ scopes) = lookupLocal name scopes := by
  induction inner with
  | nil => rfl
  | cons scope rest induction =>
    have miss : entryOf (· = name) scope.locals = none :=
      entryOf_none_iff.mpr fun entry member => by
        simpa using fresh scope List.mem_cons_self entry member
    have later := induction fun other member => fresh other (List.mem_cons_of_mem _ member)
    simp only [List.cons_append, lookupLocal, miss, later]

namespace Machine

variable {machine after : Machine} {path other : Path} {value : Value}

section

variable (stores : machine.Stores value path after)
include stores

/-- A store is one into the slot of the path's binding. -/
theorem Stores.baseSlot :
    ∃ old new, machine.baseSlot path = some old ∧ after.baseSlot path = some new ∧
      Stored value path.projections old new := by
  obtain ⟨owner, base, projections⟩ := path
  have named {newer older : List (Text × Slot Value)} (newest : ∀ entry ∈ newer, entry.1 ≠ base)
      (slot : Slot Value) : entryOf (· = base) (newer ++ (base, slot) :: older) = some slot :=
    entryOf_append_cons (fun entry member => by simpa using newest entry member) (by simp) slot
  cases stores with
  | @global newer older old new owned before newest stored globals frames =>
    obtain rfl : owner = none := owned
    refine ⟨old, new, ?_, ?_, stored⟩
    · rw [Machine.baseSlot, before]
      exact named newest old
    · rw [Machine.baseSlot, globals]
      exact named newest new
  | @local_ callers callees frame inner outer scope newer older old new owned before innermost
      newest stored frames globals =>
      obtain rfl : owner = some callers.length := owned
      have bound (slot : Slot Value) : lookupLocal base (inner ++
          { scope with locals := newer ++ (base, slot) :: older } :: outer) = some slot := by
        rw [lookupLocal_append innermost, lookupLocal, named newest slot]
      refine ⟨old, new, ?_, ?_, stored⟩
      · rw [Machine.baseSlot, before]
        simpa using bound old
      · rw [Machine.baseSlot, frames]
        simpa using bound new

theorem Stores.slotAt_self : after.slotAt path = some (Slot.live value) := by
  obtain ⟨old, new, -, found, stored⟩ := stores.baseSlot
  rw [slotAt, found]
  exact stored.walk_self

/-- A store keeps what it is apart from, below the same binding. -/
theorem Stores.slotAt_parts (same : path.SameBase other)
    (parts : Lens.Parts path.projections other.projections) :
    after.slotAt other = machine.slotAt other := by
  obtain ⟨old, new, before, found, stored⟩ := stores.baseSlot
  rw [slotAt, slotAt, ← baseSlot_of_sameBase same, ← baseSlot_of_sameBase same, before, found]
  exact stored.walk_parts parts

/-- A store below a slot keeps the slot's own state. -/
theorem Stores.state_above (same : path.SameBase other) {step : Proj} {rest : List Proj}
    (below : path.projections = other.projections ++ step :: rest) :
    (after.slotAt other).map Slot.state = (machine.slotAt other).map Slot.state := by
  obtain ⟨old, new, before, found, stored⟩ := stores.baseSlot
  rw [below] at stored
  rw [slotAt, slotAt, ← baseSlot_of_sameBase same, ← baseSlot_of_sameBase same, before, found]
  exact stored.state_above

end

/-- A store into the slot of the path's binding. -/
theorem Stores.of_setBase {old new : Slot Value} (found : machine.baseSlot path = some old)
    (stored : Stored value path.projections old new)
    (frames : after.frames = (machine.setBase path new).frames)
    (globals : after.globals = (machine.setBase path new).globals) :
    Stores value path machine after := by
  obtain ⟨owner, base, projections⟩ := path
  cases owner with
  | none =>
    obtain ⟨newer, key, older, split_, names, newest, set⟩ := entryOf_split found
    obtain rfl : key = base := by simpa using names
    refine .global rfl split_ (fun entry member => by simpa using newest entry member) stored ?_
      frames
    rw [globals]
    exact set new
  | some index =>
    obtain ⟨frame, present, bound⟩ := Option.bind_eq_some_iff.mp found
    obtain ⟨inner, scope, newer, older, outer, split_, innermost, newest, set⟩ :=
      lookupLocal_split bound
    obtain ⟨callers, callees, depth, before⟩ := getElem?_split present
    subst depth
    have placed : machine.frames = callers ++ { frame with scopes := inner ++
        { scope with locals := newer ++ (base, old) :: older } :: outer } :: callees := by
      rw [before, ← split_]
    refine .local_ rfl placed innermost newest stored ?_ globals
    rw [frames, ← set new, setBase, before]
    simp [List.modify_eq_take_drop]

/-- The slot a path denotes is replaced. -/
theorem stores_changeSlot {slot : Slot Value} (found : machine.slotAt path = some slot)
    (frames : after.frames = (machine.changeSlot path fun _ => Slot.live value).frames)
    (globals : after.globals = (machine.changeSlot path fun _ => Slot.live value).globals) :
    Stores value path machine after := by
  obtain ⟨base, present, walked⟩ := Option.bind_eq_some_iff.mp found
  rw [changeSlot, present] at frames globals
  have stored : Stored value (path.projections ++ []) base
      (slots.change (fun _ => Slot.live value) base path.projections) :=
    Stored.under walked (.here slot)
  rw [List.append_nil] at stored
  exact Stores.of_setBase present stored frames globals

/-- The map above an absent key has grown, and its new entry is then the slot replaced. -/
theorem stores_insertMapKey {grown : Machine} (missing : machine.slotAt path = none)
    (inserted : machine.insertMapKey path none = some grown)
    (frames : after.frames = (grown.changeSlot path fun _ => Slot.live value).frames)
    (globals : after.globals = (grown.changeSlot path fun _ => Slot.live value).globals) :
    Stores value path machine after := by
  unfold insertMapKey at inserted
  split at inserted
  · rename_i key last
    split at inserted
    · rename_i state pairs home found
      cases inserted
      have split_ : path.projections = path.parent.projections ++ [.key key] :=
        (List.dropLast_append_getLast? _ last).symm
      obtain ⟨base, present, walked⟩ := Option.bind_eq_some_iff.mp found
      have here : machine.baseSlot path = some base := present
      have absent : ∀ pair ∈ pairs, ¬ key.names pair.1 := by
        rw [slotAt, here, Option.bind_some, split_, Lens.walk_append, walked, Option.bind_some,
          Lens.walk_cons] at missing
        apply entryOf_none_iff.mp
        cases child : entryOf key.names pairs with
        | none => rfl
        | some slot =>
          have held : slots.child ⟨state, .map pairs home⟩ (.key key) = some slot := child
          rw [held] at missing
          cases missing
      let grow : Slot Value → Slot Value := fun slot =>
        { slot with value := .map (pairs ++ [(key.toValue, Slot.live Value.unit)]) home }
      let new := slots.change (fun _ => Slot.live value)
        (slots.change grow base path.parent.projections) path.projections
      have stored : Stored value path.projections base new := by
        have entered : slots.change (fun _ => Slot.live value) (grow ⟨state, .map pairs home⟩)
            [.key key] = ⟨state, .map (pairs ++ [(key.toValue, Slot.live value)]) home⟩ := by
          have child : slots.child (grow ⟨state, .map pairs home⟩) (.key key) =
              some (Slot.live Value.unit) := by
            exact entryOf_append_cons absent key.names_toValue _
          rw [Lens.change_of_child child]
          exact congrArg (fun pairs => Slot.mk state (Value.map pairs home))
            (setEntry_snoc absent key.names_toValue _ _)
        simp only [new]
        rw [split_, Lens.change_append, Lens.change_change]
        apply Stored.under walked
        rw [entered]
        exact .grown absent
      have replaced : (machine.changeSlot path.parent grow).changeSlot path
          (fun _ => Slot.live value) = machine.setBase path new := by
        have based : (machine.changeSlot path.parent grow).baseSlot path =
            some (slots.change grow base path.parent.projections) := by
          have near : path.parent.SameBase path := ⟨rfl, rfl⟩
          rw [baseSlot_changeSlot near, here, Option.map_some]
        rw [changeSlot, based, changeSlot, present]
        exact setBase_setBase path _ _
      exact Stores.of_setBase here stored (frames.trans (congrArg Machine.frames replaced))
        (globals.trans (congrArg Machine.globals replaced))
    · cases inserted
  · cases inserted

end Machine

/-! ## A write -/

/-- A write was stopped before the place: it trapped at the write, or the path denotes no place. -/
def Stopped (span : Span) (result : Except Signal Unit) : Prop :=
  result = .error .unsupported ∨ ∃ trap : Trap, result = .error (.trap trap) ∧
    (trap.kind = .exclusivity ∨ trap.kind = .regionFault) ∧ trap.span = span

/-- What a write may come to: the value stored at the path and nothing else changed, or nothing
changed at all. -/
def Exact (value : Value) (path : Path) (span : Span) (machine : Machine)
    (ended : Except Signal Unit × Machine) : Prop :=
  (machine.Stores value path ended.2 ∧ ¬ Stopped span ended.1) ∨
    (ended.2 = machine ∧ Stopped span ended.1)

section Writes

variable {machine : Machine} {path : Path} {value : Value} {span : Span}

theorem accessPlace_not_stopped (path : Path) (kind : AccessKind) (span : Span)
    (machine : Machine) : ¬ Stopped span (accessPlace path kind span machine).1 ∧
      ∀ trap, (accessPlace path kind span machine).1 ≠ .error (.trap trap) := by
  obtain ⟨_, prov, run, rfl | rfl | ⟨finding, rfl⟩⟩ := accessPlace_run path kind span machine <;>
    simp [run, Stopped]

/-- Captured generations and provenance are no slots. -/
theorem noteCapturedWrite_slots (machine : Machine) (path : Path) (span : Span) :
    (machine.noteCapturedWrite path span).frames = machine.frames ∧
      (machine.noteCapturedWrite path span).globals = machine.globals := by
  unfold Machine.noteCapturedWrite
  split
  · exact ⟨rfl, rfl⟩
  · dsimp only
    split <;> exact ⟨rfl, rfl⟩

section

variable {slot : Slot Value} (value : Value) (span : Span)

/-- The end of a write whose checks passed: `ready` is the machine, or the machine with its map
grown. -/
theorem store_exact {ready : Machine} (found : ready.slotAt path = some slot)
    (stores : ∀ after : Machine,
      after.frames = (ready.changeSlot path fun _ => Slot.live value).frames →
      after.globals = (ready.changeSlot path fun _ => Slot.live value).globals →
      machine.Stores value path after) :
    let ended := ready.storeAt path value span
    machine.Stores value path ended.2 ∧ ¬ Stopped span ended.1 ∧
      ∀ trap, ended.1 ≠ .error (.trap trap) := by
  simp only [Machine.storeAt, found]
  have through := accessPlace_not_stopped path .write span
    ((ready.changeSlot path fun _ => Slot.live value).noteCapturedWrite path span)
  obtain ⟨prov, kept⟩ := accessPlace_keeps path .write span
    ((ready.changeSlot path fun _ => Slot.live value).noteCapturedWrite path span)
  obtain ⟨frames, globals⟩ := noteCapturedWrite_slots
    (ready.changeSlot path fun _ => Slot.live value) path span
  refine ⟨?_, through⟩
  rw [kept]
  exact stores _ frames globals

/-- A write whose checks do not pass. -/
theorem write_stopped (predicted : machine.writebackWouldTrap path = true) :
    ∃ trap : Trap, writePath path value span machine = (.error (.trap trap), machine) ∧
      (trap.kind = .exclusivity ∨ trap.kind = .regionFault) ∧ trap.span = span := by
  obtain ⟨trap, run, kind, at_⟩ := write_trapped predicted value none span
  exact ⟨trap, run, kind.imp And.left And.left, at_⟩

/-- A write whose checks pass, to a slot that is there. -/
theorem write_present (free : machine.writebackWouldTrap path = false)
    (found : machine.slotAt path = some slot) :
    let ended := writePath path value span machine
    machine.Stores value path ended.2 ∧ ¬ Stopped span ended.1 ∧
      ∀ trap, ended.1 ≠ .error (.trap trap) := by
  obtain ⟨gone, -⟩ | ⟨ready, ⟨-, rfl⟩ | ⟨gone, -⟩, run⟩ := write_checked free value none span
  · rw [found] at gone
    cases gone
  · rw [writePath, run]
    exact store_exact value span found fun after => Machine.stores_changeSlot found
  · rw [found] at gone
    cases gone

/-- A write whose checks pass stores or finds no place. -/
theorem write_free (free : machine.writebackWouldTrap path = false) :
    let ended := writePath path value span machine
    Exact value path span machine ended ∧ ∀ trap, ended.1 ≠ .error (.trap trap) := by
  rw [writePath]
  obtain ⟨-, -, run⟩ | ⟨ready, grows, run⟩ := write_checked free value none span <;> rw [run]
  · exact ⟨.inr ⟨rfl, .inl rfl⟩, by simp⟩
  obtain ⟨there, rfl⟩ | ⟨gone, inserted⟩ := grows
  · obtain ⟨slot, found⟩ := Option.isSome_iff_exists.mp there
    obtain ⟨stores, through, calm⟩ := store_exact value span found fun after =>
      Machine.stores_changeSlot found
    exact ⟨.inl ⟨stores, through⟩, calm⟩
  · obtain ⟨slot, there⟩ : ∃ slot, ready.slotAt path = some slot := by
      by_contra absent
      have missing : ready.slotAt path = none := by
        simpa [Option.eq_none_iff_forall_ne_some] using absent
      have own : ∀ step stored, path.projections.getLast? = some (.key step) →
          (none : Option Value) = some stored → step.names stored = true :=
        by rintro _ _ _ ⟨⟩
      exact Machine.not_strays own ⟨gone, ready, inserted, missing⟩
    obtain ⟨stores, through, calm⟩ := store_exact value span there fun after =>
      Machine.stores_insertMapKey gone inserted
    exact ⟨.inl ⟨stores, through⟩, calm⟩

end

/-- A write that ends well stored its value. -/
theorem stores_of_write {after : Machine}
    (ended : writePath path value span machine = (.ok (), after)) :
    machine.Stores value path after := by
  cases predicted : machine.writebackWouldTrap path with
  | true =>
    obtain ⟨trap, stopped, -⟩ := write_stopped value span predicted
    rw [stopped] at ended
    cases ended
  | false =>
    obtain ⟨⟨stores, -⟩ | ⟨-, stopped⟩, -⟩ := write_free value span predicted
    · rw [ended] at stores
      exact stores
    · rw [ended] at stopped
      rcases stopped with no | ⟨_, no, -⟩ <;> cases no

/-- A write stores exactly its value at its path or leaves every slot alone, and the predictor says
beforehand when it will trap. -/
theorem write_exact (path : Path) (value : Value) (span : Span) (machine : Machine) :
    Exact value path span machine (writePath path value span machine) ∧
      (machine.writebackWouldTrap path = true ↔
        ∃ trap, writePath path value span machine = (.error (.trap trap), machine)) := by
  cases predicted : machine.writebackWouldTrap path with
  | true =>
    obtain ⟨trap, ended, kind, place⟩ := write_stopped value span predicted
    refine ⟨.inr ⟨by rw [ended], .inr ⟨trap, by rw [ended], kind, place⟩⟩, ?_⟩
    exact iff_of_true rfl ⟨trap, ended⟩
  | false =>
    obtain ⟨exact_, calm⟩ := write_free value span predicted
    refine ⟨exact_, iff_of_false Bool.false_ne_true ?_⟩
    rintro ⟨trap, ended⟩
    exact calm trap (by rw [ended])

end Writes

end WolfInterp.Eval
