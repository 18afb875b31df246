import WolfInterp.Eval.Access
import WolfInterp.Sched.State

/-!
# The machine

Frames of scopes of locals, the module state, the accesses held, the region store and the
provenance forest, with the commands that run on them. A command ends in a value or in a signal.
Scopes and locals are innermost and newest first.
-/

namespace WolfInterp.Eval

open WolfInterp.Lex (Text)
open WolfInterp.Syntax (Expr)
open WolfInterp.Sched (TrapKind)

/-! ## Signals -/

/-- A trap: its kind, where it happened and the second place it names. -/
structure Trap where
  kind : TrapKind
  span : Span
  secondary : Option Span := none
  deriving DecidableEq

/-- How an evaluation ends without a value. `panic` is the source's own abort. -/
inductive Signal where
  | return_ (value : Value)
  | break_ (value : Value)
  | continue_
  | trap (trap : Trap)
  | procKilled
  | exit (code : Nat)
  | ub (finding : UbFinding)
  | unsupported
  | panic

/-! ## Frames -/

/-- A lexical scope. `held` is how many accesses were held when it was entered. -/
structure Scope where
  locals : List (Text × Slot Value) := []
  homes : List RegionId := []
  regionBoundary : Bool := false
  defers : List (Bool × Expr) := []
  held : Nat := 0

/-- A function activation. -/
structure Frame where
  module : Text
  serial : Nat
  scopes : List Scope
  row : List Text := []
  readParams : List (Text × Span) := []
  mutParams : List Text := []
  retInt : Option IntTy := none

/-- The innermost, newest local of a name. -/
def lookupLocal (name : Text) : List Scope → Option (Slot Value)
  | [] => none
  | scope :: rest =>
    match entryOf (· = name) scope.locals with
    | some slot => some slot
    | none => lookupLocal name rest

/-- The scopes with the innermost, newest local of a name replaced. -/
def replaceLocal (name : Text) (slot : Slot Value) : List Scope → List Scope
  | [] => []
  | scope :: rest =>
    match entryOf (· = name) scope.locals with
    | some _ => { scope with locals := setEntry (· = name) slot scope.locals } :: rest
    | none => scope :: replaceLocal name slot rest

/-- One evaluator's state, and the tables its task shares with the others. -/
structure Machine where
  frames : List Frame := []
  globals : List (Text × Slot Value) := []
  access : AccessSet := {}
  store : Store Value := {}
  prov : Provenance := {}
  /-- A part of a value has been left moved out. -/
  partsMoved : Bool := false
  task : Nat := 0
  nextFrameSerial : Nat := 0
  capturedPlaces : List (Nat × Text) := []
  /-- The write generation of a captured place, and its last write. -/
  captureGens : List ((Nat × Text) × (Nat × Span)) := []

/-! ## Commands -/

/-- A command: it runs on a machine and ends in a value or a signal. -/
def M (α : Type) : Type := Machine → Except Signal α × Machine

namespace M

variable {α β : Type}

protected def pure (value : α) : M α := fun machine => (.ok value, machine)

protected def bind (command : M α) (next : α → M β) : M β := fun machine =>
  match command machine with
  | (.ok value, after) => next value after
  | (.error signal, after) => (.error signal, after)

instance : Monad M where
  pure := M.pure
  bind := M.bind

/-- Leave by a signal. -/
def signal (why : Signal) : M α := fun machine => (.error why, machine)

def get : M Machine := fun machine => (.ok machine, machine)

def modify (update : Machine → Machine) : M Unit := fun machine => (.ok (), update machine)

/-- Run a command and answer how it ended. -/
def attempt (command : M α) : M (Except Signal α) := fun machine =>
  let (result, after) := command machine
  (.ok result, after)

/-- End as a result says. -/
def ofExcept (result : Except Signal α) : M α := fun machine => (result, machine)

def trap (kind : TrapKind) (span : Span) (secondary : Option Span) : M α :=
  signal (.trap { kind, span, secondary })

def unsupported : M α := signal .unsupported

@[simp]
theorem pure_run (value : α) (machine : Machine) :
    (pure value : M α) machine = (.ok value, machine) := rfl

@[simp]
theorem bind_run (command : M α) (next : α → M β) (machine : Machine) :
    (command >>= next) machine =
      match command machine with
      | (.ok value, after) => next value after
      | (.error signal, after) => (.error signal, after) := rfl

@[simp]
theorem signal_run (why : Signal) (machine : Machine) :
    (signal why : M α) machine = (.error why, machine) := rfl

@[simp]
theorem get_run (machine : Machine) : get machine = (.ok machine, machine) := rfl

@[simp]
theorem modify_run (update : Machine → Machine) (machine : Machine) :
    modify update machine = (.ok (), update machine) := rfl

@[simp]
theorem attempt_run (command : M α) (machine : Machine) :
    attempt command machine = (.ok (command machine).1, (command machine).2) := rfl

@[simp]
theorem ofExcept_run (result : Except Signal α) (machine : Machine) :
    ofExcept result machine = (result, machine) := rfl

@[simp]
theorem trap_run (kind : TrapKind) (span : Span) (secondary : Option Span) (machine : Machine) :
    (trap kind span secondary : M α) machine =
    (.error (.trap { kind, span, secondary }), machine) :=
  rfl

@[simp]
theorem unsupported_run (machine : Machine) :
    (unsupported : M α) machine = (.error .unsupported, machine) := rfl

end M

/-! ## Places of a machine -/

namespace Machine

variable (machine : Machine)

/-- The slot of a path's base binding. -/
def baseSlot (path : Path) : Option (Slot Value) :=
  match path.frame with
  | none => entryOf (· = path.base) machine.globals
  | some frame => (machine.frames[frame]?).bind fun frame => lookupLocal path.base frame.scopes

def setBase (path : Path) (slot : Slot Value) : Machine :=
  match path.frame with
  | none => { machine with globals := setEntry (· = path.base) slot machine.globals }
  | some frame =>
    { machine with
      frames := machine.frames.modify frame fun frame =>
        { frame with scopes := replaceLocal path.base slot frame.scopes } }

/-- The slot a path denotes. -/
def slotAt (path : Path) : Option (Slot Value) :=
  (machine.baseSlot path).bind fun slot => slots.walk slot path.projections

/-- The machine with the slot a path denotes changed. -/
def changeSlot (path : Path) (update : Slot Value → Slot Value) : Machine :=
  match machine.baseSlot path with
  | none => machine
  | some slot => machine.setBase path (slots.change update slot path.projections)

/-- The earliest move along a walk: where it happened and how deep. -/
def earliestMove : Slot Value → List Proj → Nat → Option (Span × Nat)
  | slot, path, depth =>
    match slot.state, path with
    | .moved at_, _ => some (at_, depth)
    | .live, [] => none
    | .live, step :: rest =>
      match slots.child slot step with
      | none => none
      | some next => earliestMove next rest (depth + 1)

/-- The slot a path denotes, and the earliest move along the way. -/
def resolve (path : Path) : Option (Slot Value × Option (Span × Nat)) :=
  (machine.slotAt path).map fun slot =>
    (slot, (machine.baseSlot path).bind fun base => earliestMove base path.projections 0)

/-- The key of a place in the provenance forest: task, frame and path. -/
def placeKey (path : Path) : String :=
  let steps := path.projections.map fun
    | .field name => "." ++ String.ofList name
    | .index at_ => s!"[{at_}]"
    | .key (.str text) => "[" ++ (String.ofList text).quote ++ "]"
    | .key (.int value) => s!"[{value}]"
    | .key (.char value) => s!"[{value.quote}]"
    | .key (.bool value) => s!"[{value}]"
    | .unknownIndex => "[?]"
  s!"t{machine.task}:{path.frame.getD (2 ^ 64 - 1)}:{String.ofList path.base}" ++ String.join steps

end Machine

end WolfInterp.Eval
