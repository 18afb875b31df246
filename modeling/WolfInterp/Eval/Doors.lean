import WolfInterp.Eval.Machine

/-!
# Reads, moves and writes of places

The doors every place access goes through. A read and a move check exclusivity, the slot's state
and the homes on the way; a write checks the parameter mode, exclusivity and the homes above it.
-/

namespace WolfInterp.Eval

open WolfInterp.Lex (Text)

/-! ## Moved parts -/

mutual

/-- The first slot below a value that was moved out, depth first: its steps and its move site. -/
def movedPart : Value → Option (List Proj × Span)
  | .tuple items => movedItem 0 items
  | .list items _ _ _ => movedItem 0 items
  | .struct _ fields _ => movedField fields
  | .map pairs _ => movedEntry pairs
  | _ => none

def movedSlot (step : Proj) : Slot Value → Option (List Proj × Span)
  | ⟨.moved at_, _⟩ => some ([step], at_)
  | ⟨.live, value⟩ => (movedPart value).map fun (steps, at_) => (step :: steps, at_)

def movedItem (position : Nat) : List (Slot Value) → Option (List Proj × Span)
  | [] => none
  | slot :: rest =>
    match movedSlot (.index position) slot with
    | some found => some found
    | none => movedItem (position + 1) rest

def movedField : List (Text × Slot Value) → Option (List Proj × Span)
  | [] => none
  | (name, slot) :: rest =>
    match movedSlot (.field name) slot with
    | some found => some found
    | none => movedField rest

def movedEntry : List (Value × Slot Value) → Option (List Proj × Span)
  | [] => none
  | (stored, slot) :: rest =>
    let found := match MapKey.of stored with
      | some key => movedSlot (.key key) slot
      | none => none
    match found with
    | some found => some found
    | none => movedEntry rest

end

/-! ## Homes -/

/-- The homes of the containers a walk touches; the last one is the target's own, when asked. -/
def homesAlong (includeTarget : Bool) : Slot Value → List Proj → List RegionId
  | slot, [] => if includeTarget then slot.value.home.toList else []
  | slot, step :: rest =>
    slot.value.home.toList ++
      match slots.child slot step with
      | none => []
      | some next => homesAlong includeTarget next rest

namespace Machine

variable (machine : Machine)

def homesOf (path : Path) (includeTarget : Bool) : List RegionId :=
  match machine.baseSlot path with
  | none => []
  | some slot => homesAlong includeTarget slot path.projections

def regionState (id : RegionId) : Option RegionState := machine.store.state id

/-- The first region a write would reach into whose state refuses it, a freed one first. -/
def writeRefusal (path : Path) : Option (RegionId × RegionState) :=
  if !machine.store.teeth then none
  else
    let homes := machine.homesOf path false
    match homes.find? fun id => machine.regionState id = some .freed with
    | some id => some (id, .freed)
    | none =>
      (homes.find? fun id => machine.regionState id = some .frozen).map fun id => (id, .frozen)

/-- The first freed region a read reaches into. -/
def freedRegionOnRead (path : Path) : Option RegionId :=
  if !machine.store.teeth then none
  else (machine.homesOf path true).find? fun id => machine.regionState id = some .freed

/-- The innermost scope that binds the name is the parameters' own. -/
def bindsParam (name : Text) : List Scope → Bool
  | [] => false
  | scope :: rest =>
    match entryOf (· = name) scope.locals with
    | some _ => rest.isEmpty
    | none => bindsParam name rest

/-- The read-mode parameter a path writes through. -/
def readParamWrite (path : Path) : Option Span := do
  let frame ← machine.frames[← path.frame]?
  if bindsParam path.base frame.scopes then entryOf (· = path.base) frame.readParams else none

/-- The write generation of a captured place advances. -/
def bumpGeneration (key : Nat × Text) (span : Span) :
    List ((Nat × Text) × (Nat × Span)) → List ((Nat × Text) × (Nat × Span))
  | [] => [(key, 1, span)]
  | (other, generation, last) :: rest =>
    if other = key then (key, generation + 1, span) :: rest
    else (other, generation, last) :: bumpGeneration key span rest

def noteCapturedWrite (path : Path) (span : Span) : Machine :=
  match (do machine.frames[← path.frame]?) with
  | none => machine
  | some frame =>
    let key := (frame.serial, path.base)
    if key ∈ machine.capturedPlaces then
      { machine with captureGens := bumpGeneration key span machine.captureGens }
    else machine

def notePartMoved (path : Path) : Machine :=
  if path.projections.isEmpty then machine else { machine with partsMoved := true }

/-- A map grows at the key of the path's last step. -/
def insertMapKey (path : Path) (stored : Option Value) : Option Machine :=
  match path.projections.getLast? with
  | some (.key key) =>
    match machine.slotAt path.parent with
    | some ⟨_, .map pairs home⟩ =>
      let grown := pairs ++ [(stored.getD key.toValue, Slot.live Value.unit)]
      some (machine.changeSlot path.parent fun slot => { slot with value := .map grown home })
    | _ => none
  | _ => none

end Machine

/-! ## Faults -/

def regionFault {α : Type} (span : Span) (secondary : Option Span) : M α :=
  M.trap .regionFault span secondary

/-- A place reaches into a region that was freed wholesale. -/
def regionFreedFault {α : Type} (id : RegionId) (span : Span) : M α := do
  let machine ← M.get
  regionFault span ((machine.store.region id).map Region.span)

/-- The home consult of a container's own mutating methods. -/
def checkHomeWrite (home : Option RegionId) (span : Span) : M Unit := do
  let machine ← M.get
  match home with
  | none => pure ()
  | some id =>
    if !machine.store.teeth then pure ()
    else match machine.regionState id with
      | some .freed => regionFreedFault id span
      | some .frozen => regionFault span none
      | _ => pure ()

/-! ## Checks -/

/-- A new access against everything held. -/
def checkAccessAs (path : Path) (access : Access) (reach : Reach) (span : Span) : M Unit := do
  let machine ← M.get
  match machine.access.conflictAs path access reach with
  | some held => M.trap .exclusivity span (some held.span)
  | none => pure ()

def checkAccess (path : Path) (access : Access) (span : Span) : M Unit :=
  checkAccessAs path access .access span

/-- One access of a place against the provenance forest. -/
def accessPlace (path : Path) (kind : AccessKind) (span : Span) : M Unit := do
  let machine ← M.get
  match machine.prov.accessPlace (machine.placeKey path) kind span with
  | none => M.signal .panic
  | some (answer, prov) =>
    M.modify fun machine => { machine with prov }
    match answer with
    | .ok () => pure ()
    | .error finding => M.signal (.ub finding)

/-- A value that holds a moved part is not read whole. -/
def movedPartTrap (found : Option (List Proj × Span)) (span : Span) : M Unit :=
  match found with
  | none => pure ()
  | some (_, movedAt) => M.trap .useAfterMove span (some movedAt)

def checkWhole (value : Value) (span : Span) : M Unit := do
  let machine ← M.get
  if machine.partsMoved then movedPartTrap (movedPart value) span else pure ()

/-! ## Reads -/

/-- A read after its exclusivity check. -/
def readClaimChecked (path : Path) (span : Span) : M Unit := do
  let machine ← M.get
  match machine.resolve path with
  | none => M.unsupported
  | some (_, none) =>
    match machine.freedRegionOnRead path with
    | some freed => regionFreedFault freed span
    | none => accessPlace path .read span
  | some (_, some (movedAt, _)) => M.trap .useAfterMove span (some movedAt)

/-- Everything a read does, without the copy. -/
def readClaim (path : Path) (span : Span) : M Unit := do
  checkAccess path .shared span
  readClaimChecked path span

/-- The copy a read ends with. -/
def copyOf (path : Path) : M Value := do
  let machine ← M.get
  match machine.slotAt path with
  | some slot => pure slot.value
  | none => M.unsupported

def readPath (path : Path) (span : Span) : M Value := do
  readClaim path span
  copyOf path

def readWhole (path : Path) (span : Span) : M Value := do
  let value ← readPath path span
  checkWhole value span
  pure value

/-! ## Moves and writes -/

/-- Move out of a path. -/
def movePathBy (path : Path) (span : Span) : M Value := do
  checkAccess path .exclusive span
  let machine ← M.get
  match machine.resolve path with
  | none => M.unsupported
  | some (_, some (movedAt, _)) => M.trap .useAfterMove span (some movedAt)
  | some (slot, none) =>
    match machine.freedRegionOnRead path with
    | some freed => regionFreedFault freed span
    | none => do
      checkWhole slot.value span
      M.modify fun machine =>
        ((machine.changeSlot path fun slot => (slot.takeValue span).2).notePartMoved
          path).noteCapturedWrite path span
      pure slot.value

/-- Write through a path; a map grows on assignment to an absent key. -/
def writePathWithKey (path : Path) (value : Value) (key : Option Value) (span : Span) :
    M Unit := do
  let machine ← M.get
  match machine.readParamWrite path with
  | some paramSpan => M.trap .exclusivity span (some paramSpan)
  | none => do
    checkAccess path .exclusive span
    match machine.writeRefusal path with
    | some (freed, .freed) => regionFreedFault freed span
    | some (_, _) => regionFault span none
    | none => do
      match machine.slotAt path with
      | some _ => pure ()
      | none =>
        match machine.insertMapKey path key with
        | some grown => M.modify fun _ => grown
        | none => M.unsupported
      let machine ← M.get
      match machine.slotAt path with
      | none => M.unsupported
      | some _ => do
        M.modify fun machine =>
          (machine.changeSlot path fun _ => Slot.live value).noteCapturedWrite path span
        accessPlace path .write span

def writePath (path : Path) (value : Value) (span : Span) : M Unit :=
  writePathWithKey path value none span

/-! ## Lends -/

/-- Take a lent value out of its slot and leave a placeholder. -/
def lendPath (path : Path) : M Value := do
  let machine ← M.get
  match machine.slotAt path with
  | some slot => do
    M.modify fun machine => machine.changeSlot path fun slot => { slot with value := .unit }
    pure slot.value
  | none => pure .unit

/-- End a lend that did not change the value. -/
def restoreLent (path : Path) (value : Value) : M Unit :=
  M.modify fun machine => machine.changeSlot path fun slot => { slot with value }

/-- A write through the path would fault before it stores. -/
def Machine.writebackWouldTrap (machine : Machine) (path : Path) : Bool :=
  (machine.readParamWrite path).isSome || (machine.access.conflict path .exclusive).isSome ||
    (machine.writeRefusal path).isSome

end WolfInterp.Eval
