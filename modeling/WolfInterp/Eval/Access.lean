import WolfInterp.Eval.Value

/-!
# Held accesses

Exclusivity is a stack of held accesses: one is pushed for a call's extent, a borrow's or a loop's,
and a new access is checked against every one still held.
-/

namespace WolfInterp.Eval

/-- How a path is touched. -/
inductive Access where
  | shared
  | exclusive
  deriving DecidableEq

/-- One argument list's identity while it is evaluated. -/
abbrev CallId := Nat

/-- Why an access is held open. -/
inductive HeldWhy where
  | call
  /-- A claim of an argument list that is still being evaluated. -/
  | pending (call : CallId)
  | borrow
  | iteration
  deriving DecidableEq

/-- An access held open for some extent. -/
structure Held where
  path : Path
  access : Access
  span : Span
  why : HeldWhy
  deriving DecidableEq

/-- What a new access is to a pending claim. -/
inductive Reach where
  | access
  | lend (call : CallId)
  | borrow
  deriving DecidableEq

/-- A held access meets a new one. -/
def Held.meets (held : Held) (path : Path) (access : Access) (reach : Reach) : Bool :=
  (held.access = .exclusive || access = .exclusive) && held.path.conflictsWith path &&
    match held.why with
    | .pending call =>
      access = .exclusive ||
        match reach with
        | .access => false
        | .lend lentTo => lentTo = call
        | .borrow => true
    | .call | .borrow | .iteration => true

/-- The accesses held, newest last, and the last call id handed out. -/
structure AccessSet where
  held : List Held := []
  nextCall : CallId := 0
  deriving DecidableEq

/-- The path's base lives in the frame or deeper; a global's is deeper than every frame. -/
def Path.inFrame (path : Path) (frame : Nat) : Bool :=
  match path.frame with
  | some own => frame ≤ own
  | none => true

namespace AccessSet

variable (set : AccessSet)

/-- The first held access that meets a new one. -/
def conflictAs (path : Path) (access : Access) (reach : Reach) : Option Held :=
  set.held.find? fun held => held.meets path access reach

def conflict (path : Path) (access : Access) : Option Held := set.conflictAs path access .access

/-- A fresh id for an argument list about to be evaluated. -/
def openCall : CallId × AccessSet := (set.nextCall + 1, { set with nextCall := set.nextCall + 1 })

/-- Call entry: the claims the call's arguments hold pending take effect. -/
def enterCall (call : CallId) : AccessSet :=
  { set with
    held := set.held.map fun held =>
      if held.why = .pending call then { held with why := .call } else held }

/-- Every held access that meets the new one lies below its path, and one does. -/
def conflictsOnlyBelow (path : Path) (access : Access) : Bool :=
  let meeting := set.held.filter fun held => held.meets path access .access
  !meeting.isEmpty &&
    meeting.all fun held => path.projections.length < held.path.projections.length

def push (held : Held) : AccessSet := { set with held := set.held ++ [held] }

/-- Withdraw the first claim a call holds pending on a path. -/
def withdraw (call : CallId) (path : Path) : AccessSet :=
  { set with held := set.held.eraseP fun held => held.why = .pending call && held.path = path }

/-- Release the newest `count` accesses. -/
def release (count : Nat) : AccessSet :=
  { set with held := set.held.take (set.held.length - count) }

/-- Release every access whose base lives in the frame or deeper. -/
def releaseFrame (frame : Nat) : AccessSet :=
  { set with held := set.held.filter fun held => !held.path.inFrame frame }

end AccessSet

end WolfInterp.Eval
