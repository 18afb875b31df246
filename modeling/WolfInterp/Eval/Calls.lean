import WolfInterp.Eval.Containers

/-!
# Call extents

What a call holds while it runs and what it writes back when it ends: the `mut` arguments, and a
method's receiver, which is lent when it is a builtin container and copied when it is not.
-/

namespace WolfInterp.Eval

open WolfInterp.Lex (Text)
open WolfInterp.Syntax (ParamMode)

/-! ## Arguments -/

/-- The tag a retagged argument was given. -/
structure PendingRetag where
  alloc : AllocId
  tag : TagId
  bind : Bool
  deriving DecidableEq

/-- An evaluated argument list, and what it holds for the call. -/
structure Args where
  values : List Value := []
  writebacks : List (Nat × Path) := []
  held : Nat := 0
  retags : List (Nat × PendingRetag) := []
  protectors : List TagId := []

/-- Run a provenance operation that answers nothing and may abort. -/
def provStep (op : Provenance → Option Provenance) : M Unit := do
  let machine ← M.get
  match op machine.prov with
  | some prov => M.modify fun machine => { machine with prov }
  | none => M.signal .panic

def unprotectAll (tags : List TagId) : M Unit :=
  M.modify fun machine => { machine with prov := tags.foldl Provenance.unprotect machine.prov }

/-- Store a `mut` argument's final value, with its state, into the place it came from. -/
def writeBack (path : Path) (value : Value) (moved : Option Span) : M Unit :=
  M.modify fun machine =>
    let written := machine.changeSlot path fun _ =>
      { state := moved.elim .live .moved, value }
    if moved.isSome then written.notePartMoved path else written

def writeBacks (finals : List Value) (moved : List (Option Span)) : List (Nat × Path) → M Unit
  | [] => pure ()
  | (index, path) :: rest => do
    match finals[index]? with
    | none => pure ()
    | some value => writeBack path value (moved[index]?).join
    writeBacks finals moved rest

/-- The end of a call's extent: its accesses and protectors go, its `mut` arguments come back. -/
def finishArgs (evaluated : Args) (finals : List Value) (moved : List (Option Span)) : M Unit := do
  M.modify fun machine => { machine with access := machine.access.release evaluated.held }
  unprotectAll evaluated.protectors
  provStep Provenance.prune
  writeBacks finals moved evaluated.writebacks

/-! ## Receivers -/

/-- How a method left its receiver and its arguments. -/
structure MethodEnd where
  receiver : Value
  finals : List Value
  moved : List (Option Span)
  selfMoved : Option Span

/-- What a method call knows of itself once its arguments are evaluated. `lend` is whether the
receiver is lent and the method changes it; `value` is a receiver that was copied. -/
structure MethodSite where
  path : Option Path
  mode : Option ParamMode
  lend : Option Bool
  value : Option Value
  viewSet : List Text
  span : Span

/-- The field of a struct. -/
def Value.fieldOf (name : Text) : Value → Option Value
  | .struct _ fields _ => (entryOf (· = name) fields).map Slot.value
  | _ => none

def optionSame : Option Value → Value → Bool
  | some left, right => left.same right
  | none, _ => false

/-- Write back the fields of a view set that a callee changed. -/
def writeViewSet (path : Path) (before after : Value) (span : Span) : List Text → M Unit
  | [] => pure ()
  | name :: rest => do
    match after.fieldOf name with
    | none => pure ()
    | some new =>
      if optionSame (before.fieldOf name) new then pure ()
      else writePath (path.project (.field name)) new span
    writeViewSet path before after span rest

/-- A mutating lend is cancelled when its write-back would fault before it stores. -/
def MethodSite.lendNow (site : MethodSite) (machine : Machine) : Option Bool :=
  match site.lend, site.path with
  | some true, some path => if machine.writebackWouldTrap path then none else some true
  | lend, _ => lend

/-- The receiver in hand. -/
def takeReceiver (site : MethodSite) (lend : Option Bool) : M Value := do
  match site.value, site.path with
  | some value, _ => pure value
  | none, some path =>
    if lend.isSome then lendPath path
    else do
      let machine ← M.get
      pure ((machine.slotAt path).elim .unit Slot.value)
  | none, none => M.signal .panic

/-- What a method call stores back into its receiver's place. -/
def writeReceiver (site : MethodSite) (lend : Option Bool) (before : Value)
    (result : Except Signal Value) (after : Value) : M Unit :=
  match site.path with
  | none => pure ()
  | some path =>
    let ok := result.isOk
    if ok && site.mode = some .take then do
      let _ ← movePathBy path site.span
      pure ()
    else if lend.isSome then
      if ok && lend = some true &&
          containerWriteStamp before ≠ containerWriteStamp after then
        writePath path after site.span
      else restoreLent path after
    else if ok && !site.viewSet.isEmpty && !after.same before then
      writeViewSet path before after site.span site.viewSet
    else if ok && !after.same before then writePath path after site.span
    else pure ()

/-- A `mut self` that was moved out leaves its place moved out. -/
def markMoved (site : MethodSite) (result : Except Signal Value) (written : Except Signal Unit)
    (selfMoved : Option Span) : M Unit :=
  match site.path, selfMoved with
  | some path, some at_ =>
    if result.isOk && written.isOk && site.mode = some .mut_ then
      M.modify fun machine =>
        (machine.changeSlot path fun slot => { slot with state := .moved at_ }).notePartMoved path
    else pure ()
  | _, _ => pure ()

/-- A method call from its entry to its write-backs; `finish` ends the arguments' extent. -/
def receiverCall (site : MethodSite) (run : Value → M (Except Signal Value × MethodEnd))
    (finish : MethodEnd → M Unit) : M Value := do
  let machine ← M.get
  let lend := site.lendNow machine
  let before ← takeReceiver site lend
  let (result, left) ← run before
  finish left
  let written ← M.attempt (writeReceiver site lend before result left.receiver)
  markMoved site result written left.selfMoved
  M.ofExcept written
  M.ofExcept result

/-- A builtin container's method. -/
def runMutator (method : Mutator) (args : List Value) (span : Span) (receiver : Value) :
    M (Except Signal Value × MethodEnd) := do
  let (result, after) ← mutate method receiver args span
  pure (result, { receiver := after, finals := args, moved := [], selfMoved := none })

end WolfInterp.Eval
