import WolfInterp.Eval.Slots

/-!
# Index reads

`xs[i]` and `xs[i][j]` on a stored container. The container steps out of its slot for the length of
the first pick, after its index was evaluated; the read it stands for copies the container before
any index runs.
-/

namespace WolfInterp.Eval

/-! ## The pick -/

/-- A spelled position of a 1-origin scope lowers by one. -/
def originShift (position : Int) (span : Span) : Except Signal Int :=
  if position ≤ -2 ^ 63 then .error (.trap { kind := .overflow, span }) else .ok (position - 1)

def liveElement (slot : Slot Value) (span : Span) : Except Signal Value :=
  match slot.state with
  | .live => .ok slot.value
  | .moved at_ => .error (.trap { kind := .useAfterMove, span, secondary := some at_ })

def indexItems (items : List (Slot Value)) (position : Int) (origin : Nat) (span : Span) :
    Except Signal Value := do
  let effective ← if origin = 1 then originShift position span else .ok position
  match itemAt items effective with
  | some slot => liveElement slot span
  | none => .error (.trap { kind := .bounds, span })

/-- One element of a container in hand. -/
def indexValue (target index : Value) (origin : Nat) (span : Span) : Except Signal Value :=
  match target, index with
  | .list items _ _ _, .int position _ => indexItems items position origin span
  | .tuple items, .int position _ => indexItems items position origin span
  | .map pairs _, key =>
    match pairs.find? fun entry => valueEq entry.1 key with
    | some (_, slot) => liveElement slot span
    | none => .ok noneRow
  | _, _ => .error .unsupported

/-- The step an index read of a container denotes. One it cannot name is the unknown index. -/
def elementStep (container index : Value) (origin : Nat) : Proj :=
  match container, index with
  | .map _ _, key => (MapKey.of key).elim .unknownIndex .key
  | .list _ _ _ _, .int position _ | .tuple _, .int position _ =>
    if origin ≠ 1 then .index position
    else if position = -2 ^ 127 then .unknownIndex
    else .index (position - 1)
  | _, _ => .unknownIndex

/-- One bracket of a chain: its operand, the origin of its scope and its span. -/
structure Bracket where
  index : M Value
  origin : Nat
  span : Span

/-- The element of a container in hand, and the step to it. -/
def Bracket.pick (bracket : Bracket) (container at_ : Value) : Except Signal (Proj × Value) := do
  let element ← indexValue container at_ bracket.origin bracket.span
  pure (elementStep container at_ bracket.origin, element)

/-! ## The reads -/

/-- Where a chain of brackets stands: the container's place and span, whether the element is read
whole, and how a pool's slot and raw memory, which no value in hand holds, are read. -/
structure IndexSite where
  path : Path
  baseSpan : Span
  whole : Bool
  elsewhere : Value → Value → Span → M Value

namespace IndexSite

variable (site : IndexSite)

/-- A read of a part while only parts are claimed leaves the claims to the element's own path. -/
def below (machine : Machine) : Bool := machine.access.conflictsOnlyBelow site.path .shared

/-- What is checked of the container before an index runs. -/
def claim (below : Bool) : M Unit :=
  if below then readClaimChecked site.path site.baseSpan else readClaim site.path site.baseSpan

/-- One bracket on the value in hand. -/
def level (bracket : Bracket) (outer at_ : Value) : M Value :=
  match outer with
  | .poolRef _ => site.elsewhere outer at_ bracket.span
  | _ => M.ofExcept (indexValue outer at_ bracket.origin bracket.span)

/-- The brackets past the first of a read under a claim: the full path and its element. -/
def readLevels : List Bracket → Path × Value → M (Path × Value)
  | [], picked => pure picked
  | bracket :: rest, (path, outer) => do
    let at_ ← bracket.index
    let element ← site.level bracket outer at_
    readLevels rest (path.project (elementStep outer at_ bracket.origin), element)

def readWhole (span : Span) (element : Value) : M Value := do
  if site.whole then checkWhole element span
  pure element

/-- The brackets past the first of any other read. Brackets on a function apply it to types. -/
def readChain (span : Span) : List Bracket → Value → M Value
  | [], element => site.readWhole span element
  | bracket :: rest, target =>
    match target with
    | .fn _ | .builtin _ => readChain span rest target
    | .raw _ => do
      let at_ ← bracket.index
      let element ← site.elsewhere target at_ bracket.span
      if rest.isEmpty then pure element else readChain span rest element
    | _ => do
      let at_ ← bracket.index
      let element ← site.level bracket target at_
      readChain span rest element

/-- The end of an index read, once the first bracket has picked. -/
def finish (below : Bool) (first : Bracket) (rest : List Bracket) (picked : Proj × Value) :
    M Value := do
  let span := (rest.getLastD first).span
  if below then
    let (path, element) ← site.readLevels rest (site.path.project picked.1, picked.2)
    let machine ← M.get
    if (machine.access.conflict path .shared).isSome then
      checkAccess site.path .shared site.baseSpan
    site.readWhole span element
  else
    site.readChain span rest picked.2

end IndexSite

/-- One bracket on the container lent from its slot. -/
def lentPick (path : Path) (bracket : Bracket) (at_ : Value) : M (Proj × Value) := do
  let machine ← M.get
  let step := (machine.slotAt path).elim .unknownIndex fun slot =>
    elementStep slot.value at_ bracket.origin
  let container ← lendPath path
  let element := indexValue container at_ bracket.origin bracket.span
  restoreLent path container
  let element ← M.ofExcept element
  pure (step, element)

/-- The index read of a lent container. -/
def indexRead (site : IndexSite) (first : Bracket) (rest : List Bracket) : M Value := do
  let below := site.below (← M.get)
  site.claim below
  let at_ ← first.index
  let picked ← lentPick site.path first at_
  site.finish below first rest picked

section Lends

variable {machine : Machine} {path : Path}

end Lends

end WolfInterp.Eval
