import WolfInterp.Eval.Calls

/-!
# Method calls

A method call from its receiver to its answer: the receiver is read and tagged and, when it is
`mut`, claimed; the arguments run; the call is entered; the receiver is lent or handed in as the
copy that was read; and what the method left is written back.
-/

namespace WolfInterp.Eval

open WolfInterp.Lex (Text)
open WolfInterp.Syntax (ParamMode)

/-! ## The receiver -/

/-- The receiver's protected child: its place key, allocation and tag. -/
structure ReceiverTag where
  key : String
  alloc : AllocId
  child : TagId

def openCall : M CallId := do
  let machine ← M.get
  let (call, access) := machine.access.openCall
  M.modify fun machine => { machine with access }
  pure call

def enterCall (call : CallId) : M Unit :=
  M.modify fun machine => { machine with access := machine.access.enterCall call }

def releaseReceiver (tag : Option ReceiverTag) (previous : Option (AllocId × TagId)) : M Unit :=
  match tag with
  | none => pure ()
  | some tag => do
    unprotectAll [tag.child]
    M.modify fun machine => { machine with prov := machine.prov.restorePlace tag.key previous }
    provStep Provenance.prune

/-- The arguments of a call that was entered, and its receiver's tag. -/
structure Entered where
  evaluated : Args
  tag : Option ReceiverTag
  previous : Option (AllocId × TagId)

/-- A method's body on the receiver in hand and the arguments' values. -/
abbrev MethodBody := Value → List Value → M (Except Signal Value × MethodEnd)

end WolfInterp.Eval
