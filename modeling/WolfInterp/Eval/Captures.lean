import Mathlib.Data.List.Lex
import WolfInterp.Eval.Doors

/-!
# Closures and what they capture

A closure copies every live local of its frame where it is built, and lends the names its body uses:
each loan remembers how often its place had been written. A call checks the loans before the body
runs on the copies.
-/

namespace WolfInterp.Eval

open WolfInterp.Lex (Text)
open WolfInterp.Syntax (Kind Node Pattern)

/-! ## Free names -/

/-- The names a pattern binds. -/
def patternNames : {kind : Kind} → Node kind → List Text
  | _, .bindingPat name => [name]
  | _, .variantPat _ fields => patternNames fields
  | _, .tuplePat items => patternNames items
  | _, .orPat alternatives => patternNames alternatives
  | _, .structPat _ fields _ => patternNames fields
  | _, .fieldPat _ (.some pattern) => patternNames pattern
  | _, .fieldPat name .none => [name]
  | _, .atPat name pattern => name :: patternNames pattern
  | _, .cons head tail => patternNames head ++ patternNames tail
  | _, _ => []

/-- The names a statement binds for the ones after it. -/
def boundNames : {kind : Kind} → Node kind → List Text
  | _, .stmt _ kind => boundNames kind
  | _, .bindingStmt binding => boundNames binding
  | _, .binding _ pattern _ _ => patternNames pattern
  | _, .cons head tail => boundNames head ++ boundNames tail
  | _, _ => []

/-- A module's row tags, and what counts as a lowercase letter. -/
structure RowWords where
  lower : Char → Bool
  tags : List Text

/-- A pattern that is a row's tag and binds nothing. -/
def patternIsTag (words : RowWords) (scrutineeRow : Option (List Text)) : Pattern → Bool
  | .bindingPat name =>
    scrutineeRow.any fun row =>
      (name.head?.any words.lower) && (name ∈ row || name ∈ words.tags)
  | _ => false

/-- What the walk carries down: the names bound so far, the rows of the error binders, the row of
the scrutinee of the `match` whose arms are walked, and whether the statements of a block bind. -/
structure Binders where
  locals : List Text
  errRows : List (Text × List Text) := []
  scrutinee : Option (List Text) := none
  binds : Bool := false

def Binders.bind (binders : Binders) (names : List Text) : Binders :=
  { binders with locals := names ++ binders.locals }

/-- The names bound after a statement, in a block whose statements bind. -/
def Binders.after {kind : Kind} (binders : Binders) (node : Node kind) : Binders :=
  if binders.binds then binders.bind (boundNames node) else binders

/-- The row of a scrutinee that is an error binder's bare name. -/
def Binders.rowOf (binders : Binders) : Syntax.Expr → Option (List Text)
  | .path ⟨[name]⟩ => entryOf (· = name) binders.errRows
  | _ => none

/-- The names of a closure's parameters. -/
def paramNames : {kind : Kind} → Node kind → List Text
  | _, .closureParam _ name _ => [name]
  | _, .cons head tail => paramNames head ++ paramNames tail
  | _, _ => []

/-- The bare names a node uses and does not bind. A path of several segments is no bare name, and
the operands of `when` and `in`, a region's budget and the captures of foreign code are not
walked. -/
def freeNames (words : RowWords) : {kind : Kind} → Node kind → Binders → List Text
  | _, .path ⟨[name]⟩, binders => if name ∈ binders.locals then [] else [name]
  | _, .blockExpr block, binders => freeNames words block { binders with binds := true }
  | _, .closure params body _, binders => freeNames words body (binders.bind (paramNames params))
  | _, .match_ scrutinee arms, binders =>
    freeNames words scrutinee binders ++
      freeNames words arms { binders with scrutinee := binders.rowOf scrutinee, binds := false }
  | _, .matchArm pattern guard body _, binders =>
    let inner :=
      if patternIsTag words binders.scrutinee pattern then binders
      else binders.bind (patternNames pattern)
    freeNames words guard inner ++ freeNames words body inner
  | _, .for_ pattern iter body, binders =>
    freeNames words iter binders ++
      freeNames words body { binders.bind (patternNames pattern) with binds := true }
  | _, .elseDefault expr handler, binders =>
    freeNames words expr binders ++ freeNames words handler binders
  | _, .elseBlock block, binders => freeNames words block { binders with binds := true }
  | _, .elseExpr expr, binders => freeNames words expr binders
  | _, .elseHandler (.bindingPat name) body, binders =>
    freeNames words body
      { binders.bind [name] with errRows := (name, []) :: binders.errRows }
  | _, .elseHandler pattern body, binders =>
    freeNames words body (binders.bind (patternNames pattern))
  -- The bodies of these are walked statement by statement, and their own bindings bind nothing.
  | _, .if_ cond then_ otherwise, binders =>
    freeNames words cond binders ++ freeNames words then_ { binders with binds := false } ++
      freeNames words otherwise binders
  | _, .while_ cond body, binders =>
    freeNames words cond binders ++ freeNames words body { binders with binds := false }
  | _, .loop body, binders => freeNames words body { binders with binds := false }
  | _, .regionSugar _ _ _ body, binders => freeNames words body { binders with binds := false }
  | _, .in_ _ body, binders => freeNames words body { binders with binds := false }
  | _, .scope _ body, binders => freeNames words body { binders with binds := false }
  | _, .unsafe_ body, binders => freeNames words body { binders with binds := false }
  | _, .when_ _ body, binders => freeNames words body { binders with binds := false }
  | _, .block stmts tail, binders =>
    freeNames words stmts binders ++ freeNames words tail (binders.after stmts)
  | _, .stmt _ kind, binders => freeNames words kind binders
  | _, .bindingStmt binding, binders => freeNames words binding binders
  | _, .binding _ _ _ value, binders => freeNames words value binders
  | _, .assign place _ value _, binders =>
    freeNames words place binders ++ freeNames words value binders
  | _, .defer _ expr, binders => freeNames words expr binders
  | _, .exprStmt expr, binders => freeNames words expr binders
  | _, .assumeNoalias operands, binders => freeNames words operands binders
  | _, .str literal, binders => freeNames words literal binders
  | _, .strLit _ parts, binders => freeNames words parts binders
  | _, .strInterp interpolation, binders => freeNames words interpolation binders
  | _, .interpolation expr format, binders =>
    freeNames words expr binders ++ freeNames words format binders
  | _, .fmtInterp expr, binders => freeNames words expr binders
  | _, .structLit _ fields, binders => freeNames words fields binders
  | _, .fieldInit _ value, binders => freeNames words value binders
  | _, .tuple items, binders => freeNames words items binders
  | _, .list items, binders => freeNames words items binders
  | _, .group expr, binders => freeNames words expr binders
  | _, .try_ expr, binders => freeNames words expr binders
  | _, .fromEnd expr, binders => freeNames words expr binders
  | _, .freeze expr, binders => freeNames words expr binders
  | _, .unary _ operand, binders => freeNames words operand binders
  | _, .binary _ lhs rhs, binders => freeNames words lhs binders ++ freeNames words rhs binders
  | _, .cast expr _, binders => freeNames words expr binders
  | _, .call callee args, binders =>
    freeNames words callee binders ++ freeNames words args binders
  | _, .arg _ expr, binders => freeNames words expr binders
  | _, .bracketApply base args _, binders =>
    freeNames words base binders ++ freeNames words args binders
  | _, .valueArg arg, binders => freeNames words arg binders
  | _, .member base _, binders => freeNames words base binders
  | _, .modedReceiver _ place, binders => freeNames words place binders
  | _, .range start stop _, binders =>
    freeNames words start binders ++ freeNames words stop binders
  | _, .return_ value, binders => freeNames words value binders
  | _, .break_ value, binders => freeNames words value binders
  | _, .spawnProc _ args, binders => freeNames words args binders
  | _, .select arms, binders => freeNames words arms binders
  | _, .selectArm kind body _, binders =>
    freeNames words kind binders ++ freeNames words body binders
  | _, .recv _ channel, binders => freeNames words channel binders
  | _, .timeout deadline, binders => freeNames words deadline binders
  | _, .asm _ operands, binders => freeNames words operands binders
  | _, .asmOperand _ _ _ value, binders => freeNames words value binders
  | _, .borrow place source, binders =>
    freeNames words place binders ++ freeNames words source binders
  | _, .cons head tail, binders =>
    freeNames words head binders ++ freeNames words tail (binders.after head)
  | _, .some value, binders => freeNames words value binders
  | _, _, _ => []

/-- The free names of a closure's body, in order. A closure is built with no row vocabulary, so that
no letter is asked about. -/
def usedNames (params : List Text) (body : Syntax.Expr) : List Text :=
  ((freeNames { lower := Char.isLower, tags := [] } body { locals := params }).dedup).insertionSort
    (· ≤ ·)

theorem mem_usedNames {name : Text} {params : List Text} {body : Syntax.Expr} :
    name ∈ usedNames params body ↔
      name ∈ freeNames { lower := Char.isLower, tags := [] } body { locals := params } := by
  rw [usedNames, List.mem_insertionSort, List.mem_dedup]

/-! ## Building a closure -/

namespace Machine

/-- How often a captured place was written. -/
def generationOf (machine : Machine) (key : Nat × Text) : Nat :=
  ((entryOf (· = key) machine.captureGens).map Prod.fst).getD 0

end Machine

/-- The live locals of a frame, outermost and oldest first. -/
def Frame.captures (frame : Frame) : List (Text × Value) :=
  frame.scopes.reverse.flatMap fun scope =>
    scope.locals.reverse.filterMap fun (name, slot) =>
      if slot.state = .live then some (name, slot.value) else none

def captureLoan (machine : Machine) (frame : Frame) (span : Span) (name : Text) : CaptureLoan :=
  { name, task := machine.task, serial := frame.serial,
    generation := machine.generationOf (frame.serial, name), span }

/-- Build a closure. -/
def evalClosure (params : List Text) (body : Syntax.Expr) (span : Span) : M Value := do
  let machine ← M.get
  match machine.frames.getLast? with
  | none => pure (.closure params body [] [] [] none)
  | some frame => do
    let captures := frame.captures
    let loans := ((usedNames params body).filter fun name =>
      captures.any fun captured => captured.1 = name).map (captureLoan machine frame span)
    M.modify fun machine =>
      { machine with
        capturedPlaces := loans.map (fun loan => (loan.serial, loan.name)) ++
          machine.capturedPlaces }
    pure (.closure params body captures loans [] none)

/-! ## Calling a closure -/

/-- A loan whose place was written since the capture ends the call. -/
def checkLoan (loan : CaptureLoan) (span : Span) : M Unit := do
  let machine ← M.get
  if loan.task ≠ machine.task then pure ()
  else match entryOf (· = (loan.serial, loan.name)) machine.captureGens with
    | none => pure ()
    | some (current, writtenAt) =>
      if current ≠ loan.generation then M.trap .exclusivity span (some writtenAt) else pure ()

def checkLoans (span : Span) : List CaptureLoan → M Unit
  | [] => pure ()
  | loan :: rest => do
    checkLoan loan span
    checkLoans span rest

/-- The frame a closure's body runs in: the captures first, the parameters after them. -/
def closureFrame (machine : Machine) (params : List Text) (captures : List (Text × Value))
    (args : List Value) : Frame :=
  let bound := captures ++ params.zip args
  { module := (machine.frames.getLast?.map Frame.module).getD []
    serial := machine.nextFrameSerial
    scopes := [{ locals := (bound.map fun (name, value) => (name, Slot.live value)).reverse }]
    row := (machine.frames.getLast?.map Frame.row).getD [] }

/-- Enter a closure's body: the loans are checked, the captures and the arguments are bound, and the
captures it was lent with are held. -/
def enterClosure (params : List Text) (captures : List (Text × Value)) (loans : List CaptureLoan)
    (claimed : List (Text × Span)) (args : List Value) (span : Span) : M Unit := do
  if params.length ≠ args.length then M.unsupported
  else do
    checkLoans span loans
    M.modify fun machine =>
      { machine with
        frames := machine.frames ++ [closureFrame machine params captures args]
        nextFrameSerial := machine.nextFrameSerial + 1
        access := claimed.foldl (fun access (name, claim) => access.push
          { path := Path.local_ machine.frames.length name, access := .exclusive, span := claim,
            why := .call }) machine.access }

end WolfInterp.Eval
