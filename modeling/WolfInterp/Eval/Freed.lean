import WolfInterp.Eval.FrozenRuns
import WolfInterp.Eval.Index

/-!
# Reads of freed storage

A use of a place faults exactly when a container on the way to it, or the one it ends at, is homed
in a freed region. What lies inside the value is not asked.
-/

namespace WolfInterp.Eval

open WolfInterp.Lex (Text)
open Execution

/-! ## Homes inside a value -/

mutual

/-- The homes of a value and of everything inside it. -/
def homesIn : Value → List RegionId
  | .str _ home => home.toList
  | .tuple items => homesItems items
  | .struct _ fields home => home.toList ++ homesFields fields
  | .list items _ _ home => home.toList ++ homesItems items
  | .map pairs home => home.toList ++ homesPairs pairs
  | .error _ payload _ _ => homesAll payload
  | _ => []

def homesItems : List (Slot Value) → List RegionId
  | [] => []
  | ⟨_, value⟩ :: rest => homesIn value ++ homesItems rest

def homesFields : List (Text × Slot Value) → List RegionId
  | [] => []
  | (_, ⟨_, value⟩) :: rest => homesIn value ++ homesFields rest

def homesPairs : List (Value × Slot Value) → List RegionId
  | [] => []
  | (key, ⟨_, value⟩) :: rest => homesIn key ++ homesIn value ++ homesPairs rest

def homesAll : List Value → List RegionId
  | [] => []
  | value :: rest => homesIn value ++ homesAll rest

end

/-- A use of a place that yields a value: a read, a whole read, a move and an index read. -/
inductive Use where
  | read (path : Path) (span : Span)
  | whole (path : Path) (span : Span)
  | take (path : Path) (span : Span)
  | element (site : IndexSite) (first : Bracket)

namespace Use

def path : Use → Path
  | read path _ | whole path _ | take path _ => path
  | element site _ => site.path

def run : Use → M Value
  | read path span => readPath path span
  | whole path span => readWhole path span
  | take path span => movePathBy path span
  | element site first => indexRead site first []

/-- How the use touches the place. -/
def access : Use → Access
  | take _ _ => .exclusive
  | _ => .shared

/-- Only an index read leaves claims on parts of its container to the element. -/
def below (machine : Machine) : Use → Bool
  | element site _ => site.below machine
  | _ => false

end Use

/-- What refuses an element once it is picked: the pick itself, a claim that meets its place, a part
moved out of it. -/
def IndexSite.refusal (site : IndexSite) (below : Bool) (first : Bracket) (machine : Machine) :
    Except Signal (Proj × Value) → Option Signal
  | .error signal => some signal
  | .ok (step, element) =>
    match below && (machine.access.conflict (site.path.project step) .shared).isSome,
        machine.access.conflict site.path .shared with
    | true, some held => some
        (.trap { kind := .exclusivity, span := site.baseSpan, secondary := some held.span })
    | _, _ =>
      match site.whole && machine.partsMoved, movedPart element with
      | true, some (_, movedAt) => some
          (.trap { kind := .useAfterMove, span := first.span, secondary := some movedAt })
      | _, _ => none

/-- What a use checks before it yields or evaluates anything. -/
def Use.guard : Use → M Unit
  | read path span | whole path span => readClaim path span
  | element site _ => do
    let machine ← M.get
    site.claim (site.below machine)
  | take path span => do
    let _ ← movePathBy path span
    pure ()

/-! ## What the checks see -/

section Checks

variable {machine after : Machine} {path : Path} {span : Span}

end Checks

/-! ## What a use yields -/

section Yields

variable {machine after : Machine} {path : Path} {span : Span} {value : Value}

section

variable (bitten : machine.Bitten)
include bitten

end

end Yields

/-! ## Runs -/

end WolfInterp.Eval
