import WolfInterp.Eval.Within

/-!
# Runs over frozen storage

A run of doors, moves, bindings and region operations in any order. What a container of a dead
region holds stays what it was for as long as no door bypasses the check and nothing rebinds the
place it is found at.
-/

namespace WolfInterp.Eval

open WolfInterp.Lex (Text)

/-! ## Steps -/

/-- A step of a run. `rest` is any step that moves neither a binding nor a region. -/
inductive Op where
  | door (door : Door)
  | take (path : Path) (span : Span)
  | declare (name : Text) (slot : Slot Value)
  | global (name : Text) (slot : Slot Value)
  | pushScope (scope : Scope)
  | popScope
  | pushFrame (frame : Frame)
  | popFrame
  | region (op : RegionOp)
  | openFresh (name : Option String) (span : Span)
  | rest (other : Machine)

namespace Machine

variable (machine : Machine)

/-- The newest frame's scopes changed. -/
def onScopes (update : List Scope → List Scope) : Machine :=
  { machine with
    frames := machine.frames.modify (machine.frames.length - 1) fun frame =>
      { frame with scopes := update frame.scopes } }

/-- Bind a name in the innermost scope. -/
def bindLocal (name : Text) (slot : Slot Value) : List Scope → List Scope
  | [] => []
  | scope :: rest => { scope with locals := (name, slot) :: scope.locals } :: rest

/-- Take another machine's state for all that is neither a binding nor a region. -/
def besides (other : Machine) : Machine :=
  { other with
    frames := machine.frames
    globals := machine.globals
    store := { other.store with regions := machine.store.regions, teeth := machine.store.teeth } }

def apply : Op → Machine
  | .door door => (door.run machine).2
  | .take path span => (movePathBy path span machine).2
  | .declare name slot => machine.onScopes (bindLocal name slot)
  | .global name slot => { machine with globals := (name, slot) :: machine.globals }
  | .pushScope scope => machine.onScopes ({ scope with locals := [] } :: ·)
  | .popScope => machine.onScopes List.tail
  | .pushFrame frame => { machine with frames := machine.frames ++ [frame] }
  | .popFrame => { machine with frames := machine.frames.dropLast }
  | .region op => { machine with store := machine.store.applyRegion op }
  | .openFresh name span =>
    let created := machine.store.create name .arena none span
    { machine with store := created.2.forceOpen created.1 }
  | .rest other => machine.besides other

/-- One step; a method is not applied to a receiver that does not have it. -/
def step (machine : Machine) (op : Op) : Option Machine :=
  match op with
  | .door door => if door.applies machine then some (machine.apply op) else none
  | op => some (machine.apply op)

end Machine

/-- The step gives the place a path denotes another binding or another value. -/
def Op.Rebinds (machine : Machine) (path : Path) : Op → Prop
  | .door used => used.path.Above path
  | .declare name _ => path.frame = some (machine.frames.length - 1) ∧ path.base = name
  | .global name _ => path.frame = none ∧ path.base = name
  | .popScope =>
    path.frame = some (machine.frames.length - 1) ∧
      ∃ frame scope rest, machine.frames.getLast? = some frame ∧ frame.scopes = scope :: rest ∧
        (entryOf (· = path.base) scope.locals).isSome
  | .popFrame => path.frame = some (machine.frames.length - 1)
  | _ => False

/-- The step does not bypass the check, and rebinds the place only by a door that is stopped. -/
def Op.Spares (path : Path) (machine : Machine) (op : Op) : Prop :=
  (∀ door, op = .door door → door.Reaches machine → ¬ door.Bypasses machine) ∧
    (op.Rebinds machine path → ∃ door, op = .door door ∧ door.Reaches machine)

/-- A door that reaches dead storage is refused. -/
def Op.Refuses (machine : Machine) (op : Op) : Prop :=
  ∀ door, op = .door door → door.Reaches machine → Refused door.run machine

/-- A door that reaches dead storage consults it. -/
def Op.Asks (machine : Machine) (op : Op) : Prop :=
  ∀ door, op = .door door → door.Reaches machine → door.Consults machine

/-! ## What a step keeps -/

namespace Machine

variable {machine next : Machine} {op : Op} {path : Path}

theorem checkWhole_keeps (value : Value) (span : Span) (machine : Machine) :
    (checkWhole value span machine).2 = machine := by
  unfold checkWhole
  simp only [M.bind_run, M.get_run]
  split
  · unfold movedPartTrap
    cases movedPart value <;> rfl
  · rfl

/-- A move that is refused moves nothing; any other takes the value out of its slot. -/
theorem movePathBy_cases (path : Path) (span : Span) (machine : Machine) :
    (∃ signal, movePathBy path span machine = (.error signal, machine)) ∨
      ∃ value, movePathBy path span machine = (.ok value,
        ((machine.changeSlot path fun slot => (slot.takeValue span).2).notePartMoved
          path).noteCapturedWrite path span) := by
  unfold movePathBy
  simp only [M.bind_run, checkAccess_run]
  cases machine.access.conflict path .exclusive with
  | some held => exact .inl ⟨_, rfl⟩
  | none =>
    simp only [M.get_run]
    cases machine.resolve path with
    | none => exact .inl ⟨_, rfl⟩
    | some found =>
      obtain ⟨slot, _ | moved⟩ := found
      · dsimp only
        cases machine.freedRegionOnRead path with
        | some freed => exact .inl ⟨_, rfl⟩
        | none =>
          dsimp only
          rw [M.bind_run]
          cases whole : checkWhole slot.value span machine with
          | mk result after =>
            obtain rfl : after = machine := by
              rw [← checkWhole_keeps slot.value span machine, whole]
            cases result with
            | error signal => exact .inl ⟨_, rfl⟩
            | ok _ => exact .inr ⟨_, rfl⟩
      · exact .inl ⟨_, rfl⟩

/-- A move changes slot states and no content. -/
theorem take_spec (path : Path) (span : Span) :
    SameContent machine (movePathBy path span machine).2 ∧
      (movePathBy path span machine).2.store = machine.store := by
  rcases movePathBy_cases path span machine with ⟨_, ran⟩ | ⟨_, ran⟩
  · rw [ran]
    exact ⟨fun _ => rfl, rfl⟩
  · rw [ran]
    let taken := machine.changeSlot path fun slot => (slot.takeValue span).2
    have contents : SameContent machine taken := by
      apply sameContent_changeSlot
      intro slot
      rw [bareSlot_eq, bareSlot_eq, Slot.takeValue]
    have parts := notes_notePartMoved taken path
    have notes := notes_noteCapturedWrite (taken.notePartMoved path) path span
    refine ⟨(contents.trans parts.sameContent).trans notes.sameContent, ?_⟩
    exact (notes.2.2.trans parts.2.2).trans (store_changeSlot _)

/-- What a step does to the regions. -/
theorem ages_step (bitten : machine.Bitten) (stepped : machine.step op = some next) :
    machine.store.Ages next.store := by
  cases op with
  | door door =>
    rw [step] at stepped
    split at stepped
    · rename_i applied
      cases stepped
      have states := (door_within door bitten applied).states
      exact Store.ages_of_state states.1 states.2
    · cases stepped
  | take path span =>
    cases stepped
    rw [apply, (take_spec path span).2]
    exact .refl _
  | region op =>
    cases stepped
    exact Store.ages_applyRegion machine.store op
  | openFresh name span =>
    cases stepped
    exact Store.ages_openFresh machine.store name span
  | rest other =>
    cases stepped
    exact Store.ages_of_state (fun _ => rfl) rfl
  | _ =>
    cases stepped
    exact .refl _

theorem bitten_step (bitten : machine.Bitten) (stepped : machine.step op = some next) :
    next.Bitten := by
  have ages := ages_step bitten stepped
  intro id dead
  rcases ages.bitten id dead with before | teeth
  · exact ages.teeth (bitten id before)
  · exact teeth

/-! ## Bindings -/

theorem baseSlot_onScopes {update : List Scope → List Scope} {slot : Slot Value}
    (keeps : path.frame = some (machine.frames.length - 1) → ∀ frame,
      machine.frames.getLast? = some frame → lookupLocal path.base frame.scopes = some slot →
        lookupLocal path.base (update frame.scopes) = some slot)
    (found : machine.baseSlot path = some slot) :
    (machine.onScopes update).baseSlot path = some slot := by
  obtain ⟨own, base, projections⟩ := path
  cases own with
  | none => exact found
  | some own =>
    obtain ⟨frame, present, local_⟩ := Option.bind_eq_some_iff.mp found
    change ((machine.frames.modify _ _)[own]?).bind _ = _
    rw [List.getElem?_modify]
    by_cases newest : machine.frames.length - 1 = own
    · have last : machine.frames.getLast? = some frame := by
        rw [List.getLast?_eq_getElem?, newest]
        exact present
      simp only [newest, if_true, present, Option.map_eq_map, Option.map_some, Option.bind_some]
      exact keeps (by rw [newest]) frame last local_
    · simp only [newest, if_false, present, Option.map_eq_map, Option.map_some, Option.bind_some]
      exact local_

theorem baseSlot_step {slot : Slot Value} (stepped : machine.step op = some next)
    (binds : ¬ op.Rebinds machine path) (found : machine.baseSlot path = some slot) :
    (∃ path span, op = .take path span) ∨ (∃ door, op = .door door) ∨
      next.baseSlot path = some slot := by
  cases op with
  | door door => exact .inr (.inl ⟨door, rfl⟩)
  | take path span => exact .inl ⟨path, span, rfl⟩
  | declare name bound =>
    cases stepped
    refine .inr (.inr (baseSlot_onScopes (fun newest frame _ present => ?_) found))
    have differ : path.base ≠ name := fun same => binds ⟨newest, same⟩
    cases scopes : frame.scopes with
    | nil => simp [scopes, lookupLocal] at present
    | cons scope rest =>
      rw [scopes] at present
      rw [bindLocal, lookupLocal]
      simpa [entryOf, Ne.symm differ, lookupLocal] using present
  | global name bound =>
    cases stepped
    refine .inr (.inr ?_)
    obtain ⟨own, base, projections⟩ := path
    cases own with
    | some own => exact found
    | none =>
      have differ : base ≠ name := fun same => binds ⟨rfl, same⟩
      change entryOf (· = base) machine.globals = some slot at found
      change entryOf (· = base) ((name, bound) :: machine.globals) = some slot
      simpa [entryOf, Ne.symm differ] using found
  | pushScope scope =>
    cases stepped
    exact .inr (.inr (baseSlot_onScopes (fun _ frame _ present => present) found))
  | popScope =>
    cases stepped
    refine .inr (.inr (baseSlot_onScopes (fun newest frame last present => ?_) found))
    cases scopes : frame.scopes with
    | nil => simp [scopes, lookupLocal] at present
    | cons scope rest =>
      rw [scopes, lookupLocal] at present
      cases bound : entryOf (· = path.base) scope.locals with
      | none => simpa [bound] using present
      | some held =>
        exact absurd ⟨newest, frame, scope, rest, last, scopes, by rw [bound]; rfl⟩ binds
  | pushFrame frame =>
    cases stepped
    refine .inr (.inr ?_)
    obtain ⟨own, base, projections⟩ := path
    cases own with
    | none => exact found
    | some own =>
      obtain ⟨held, present, local_⟩ := Option.bind_eq_some_iff.mp found
      have bound := (List.getElem?_eq_some_iff.mp present).1
      change ((machine.frames ++ [frame])[own]?).bind _ = _
      rw [List.getElem?_append_left bound, present]
      exact local_
  | popFrame =>
    cases stepped
    refine .inr (.inr ?_)
    obtain ⟨own, base, projections⟩ := path
    cases own with
    | none => exact found
    | some own =>
      obtain ⟨held, present, local_⟩ := Option.bind_eq_some_iff.mp found
      have bound := (List.getElem?_eq_some_iff.mp present).1
      have older : own < machine.frames.length - 1 := by
        have differ : own ≠ machine.frames.length - 1 := fun same => binds (congrArg some same)
        omega
      change ((machine.frames.dropLast)[own]?).bind _ = _
      rw [List.getElem?_dropLast, if_pos older, present]
      exact local_
  | region op =>
    cases stepped
    exact .inr (.inr found)
  | openFresh name span =>
    cases stepped
    exact .inr (.inr found)
  | rest other =>
    cases stepped
    exact .inr (.inr found)

/-! ## What a run keeps -/

/-- A container of a dead region is found at or above a place of this content. -/
structure Rests (path : Path) (id : RegionId) (content : Slot Value) (machine : Machine) :
    Prop where
  bitten : machine.Bitten
  dead : machine.store.Dead id
  home : ∃ above : Path, above.Above path ∧ machine.homeAt above = some id
  content : machine.bareAt path = some content

theorem containers_above {door : Door} {id : RegionId}
    (member : id ∈ machine.homesOf door.path false) : id ∈ door.containers machine := by
  cases door with
  | assign => exact member
  | argument => exact member
  | method => exact mem_homesOf_true.mpr (.inl member)
  | receiver path moded viewSet =>
    change id ∈ machine.homesOf path (!viewSet.isEmpty)
    cases viewSet with
    | nil => exact member
    | cons => exact mem_homesOf_true.mpr (.inl member)

theorem rests_of_sameContent {id : RegionId} {content : Slot Value}
    (rests : Rests path id content machine) (same : SameContent machine next)
    (bitten : next.Bitten) (dead : next.store.Dead id) : Rests path id content next := by
  obtain ⟨above, over_, home⟩ := rests.home
  refine ⟨bitten, dead, ⟨above, over_, ?_⟩, (same path).trans rests.content⟩
  rw [same.homeAt]
  exact home

theorem rests_step {id : RegionId} {content : Slot Value} (rests : Rests path id content machine)
    (spares : op.Spares path machine) (stepped : machine.step op = some next) :
    Rests path id content next := by
  have bitten := bitten_step rests.bitten stepped
  have dead := (ages_step rests.bitten stepped).dead id rests.dead
  obtain ⟨above, over_, home⟩ := rests.home
  obtain ⟨slot, found, same⟩ := Option.map_eq_some_iff.mp rests.content
  obtain ⟨base, based, walked⟩ := Option.bind_eq_some_iff.mp found
  by_cases binds : op.Rebinds machine path
  · obtain ⟨door, rfl, reaches⟩ := spares.2 binds
    have kept := door_sameContent door rests.bitten reaches (spares.1 door rfl reaches)
    rw [step, if_pos reaches.1] at stepped
    cases stepped
    exact rests_of_sameContent rests kept bitten dead
  rcases baseSlot_step stepped binds based with ⟨taken, span, rfl⟩ | ⟨door, rfl⟩ | bound
  · cases stepped
    exact rests_of_sameContent rests (take_spec taken span).1 bitten dead
  · rw [step] at stepped
    split at stepped
    · rename_i applied
      cases stepped
      by_cases reaches : door.Reaches machine
      · exact rests_of_sameContent rests
          (door_sameContent door rests.bitten reaches (spares.1 door rfl reaches)) bitten dead
      · have within := door_within door rests.bitten applied
        have away : ¬ door.path.Above path := binds
        have apart : ¬ path.Above door.path := by
          intro under
          apply reaches
          refine ⟨applied, id, containers_above ?_, rests.dead⟩
          exact mem_homesOf_of_above home (over_.trans under) fun up => away (up.trans over_)
        refine ⟨bitten, dead, ⟨above, over_, ?_⟩, ?_⟩
        · exact within.home (fun up => away (up.trans over_)) home
        · rw [bareAt]
          change ((door.run machine).2.slotAt path).map bareSlot = some content
          rw [within.apart away apart found]
          exact congrArg some same
    · cases stepped
  · have kept (other : Path) (shared : other.SameBase path) :
        next.slotAt other = machine.slotAt other := by
      rw [slotAt, slotAt, baseSlot_of_sameBase shared, bound, baseSlot_of_sameBase shared, based]
    refine ⟨bitten, dead, ⟨above, over_, ?_⟩, ?_⟩
    · rw [homeAt, kept above over_.1]
      exact home
    · rw [bareAt, kept path ⟨rfl, rfl⟩]
      exact rests.content

end Machine

open Execution

theorem bitten_initial : ({} : Machine).Bitten := by
  rintro id (freed | frozen)
  · simp [Store.state, Store.region] at freed
  · simp [Store.state, Store.region] at frozen

/-- In every run the doors that reach frozen or freed storage are refused exactly when they consult
it. What is found in such a container stays what it was, for as long as no door bypasses the check
and nothing rebinds the place it is found at. -/
theorem frozen_storage (ops : List Op) :
    (Attempted Machine.step Op.Refuses {} ops ↔ Attempted Machine.step Op.Asks {} ops) ∧
      ∀ front middle rest before after path id content, ops = front ++ middle ++ rest →
        exec Machine.step {} front = some before → exec Machine.step before middle = some after →
        before.store.Dead id → id ∈ before.homesOf path true →
        before.bareAt path = some content → Attempted Machine.step (Op.Spares path) before middle →
        after.bareAt path = some content := by
  have bitten {front : List Op} {machine : Machine}
      (run : exec Machine.step {} front = some machine) : machine.Bitten :=
    inv_of_exec Machine.Bitten bitten_initial
      (fun state op next held stepped => Machine.bitten_step held stepped) run
  constructor
  · constructor
    · intro refuses front op rest machine split run door same reaches
      have refused := refuses front op rest machine split run door same reaches
      exact (Door.refused_iff (bitten run) door reaches).mp refused
    · intro asks front op rest machine split run door same reaches
      have consults := asks front op rest machine split run door same reaches
      exact (Door.refused_iff (bitten run) door reaches).mpr consults
  · intro front middle rest before after path id content split run later dead member held spares
    have start : Machine.Rests path id content before :=
      ⟨bitten run, dead, Machine.mem_homesOf_iff.mp member, held⟩
    have final := inv_of_guarded (Machine.Rests path id content) (Op.Spares path) start
      (fun machine op next rests spared stepped => Machine.rests_step rests spared stepped)
      spares.guarded later
    exact final.content

/-- A map built in a region that is frozen after. -/
def frozenMap : List Op :=
  [.region (.create none .arena none ⟨0, 0⟩), .region (.freeze 0),
    .pushFrame { module := [], serial := 0, scopes := [{}] },
    .declare "m".toList (Slot.live (.map [(.char 'a', Slot.live .unit)] (some 0)))]

/-- `m['a'] = true` leaves it as it was. -/
theorem frozenMap_kept : ((exec Machine.step {} frozenMap).bind fun machine =>
      (exec Machine.step machine [.door (.assign
        ((Path.local_ 0 "m".toList).project (.key (.char 'a'))) (.bool true) none ⟨0, 0⟩)]).bind
          fun machine => machine.bareAt (Path.local_ 0 "m".toList)) =
      some (Slot.live (.map [(.char 'a', Slot.live .unit)] (some 0))) := by
  let write : Door :=
    .assign ((Path.local_ 0 "m".toList).project (.key (.char 'a'))) (.bool true) none ⟨0, 0⟩
  obtain ⟨machine, built⟩ : ∃ machine, exec Machine.step {} frozenMap = some machine := ⟨_, rfl⟩
  have found : machine.bareAt (Path.local_ 0 "m".toList) =
      some (Slot.live (.map [(.char 'a', Slot.live .unit)] (some 0))) := by
    cases built
    rfl
  have member : 0 ∈ machine.homesOf (Path.local_ 0 "m".toList) true := by
    cases built
    decide
  have dead : machine.store.Dead 0 := by
    cases built
    decide
  obtain ⟨after, wrote⟩ : ∃ after, exec Machine.step machine [.door write] = some after :=
    ⟨_, rfl⟩
  have reaches : write.Reaches machine := by
    cases built
    exact ⟨rfl, 0, by decide, by decide⟩
  have spares : Attempted Machine.step (Op.Spares (Path.local_ 0 "m".toList)) machine
      [.door write] := by
    rw [attempted_cons_iff]
    refine ⟨⟨?_, fun _ => ⟨write, rfl, reaches⟩⟩, fun _ _ => attempted_nil _ _⟩
    rintro door same -
    cases same
    exact not_false
  have kept := (frozen_storage (frozenMap ++ [.door write])).2 frozenMap [.door write] [] machine
    after (Path.local_ 0 "m".toList) 0 _ (by simp) built wrote dead member found spares
  rw [built, Option.bind_some]
  change (exec Machine.step machine [.door write]).bind _ = _
  rw [wrote]
  exact kept

/-- `m.clear()` empties it. -/
theorem frozenMap_cleared : ¬ ∀ ops, Attempted Machine.step Op.Refuses {} ops := by
  intro claim
  let clear : Door := .method (Path.local_ 0 "m".toList) .mapClear [] ⟨0, 0⟩
  have refused := claim (frozenMap ++ [.door clear]) frozenMap (.door clear) [] _ rfl rfl clear rfl
    ⟨by decide, 0, by decide, by decide⟩
  exact refused.1

end WolfInterp.Eval
