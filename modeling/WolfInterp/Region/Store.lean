import WolfInterp.Lib.ParentChain
import WolfInterp.Lib.Worklist
import WolfInterp.Region.Ledger

/-!
# The region store

The region table, the pools and the `shared` heap, with every operation of the store. Values are
a parameter: the store only keeps them, and resets a slot to the unit value, which is the
inhabitant `default`.
-/

namespace WolfInterp

/-- A source range. -/
structure Span where
  start : Nat
  stop : Nat
  deriving DecidableEq

abbrev RegionId := Nat
abbrev PoolId := Nat
abbrev CellId := Nat

/-- The region-state lattice. -/
inductive RegionState where
  | opened
  | suspended
  | frozen
  | freed
  deriving DecidableEq

/-- Per-region allocation strategy. -/
inductive Strategy where
  | arena
  | rc
  | pool (elem : String)
  deriving DecidableEq

/-- Where a transferred region currently lives. -/
inductive TaskClaim where
  | inChannel
  | task (id : Nat)
  deriving DecidableEq

/-- One region in the forest. -/
structure Region where
  id : RegionId
  name : Option String
  state : RegionState
  strategy : Strategy
  parent : Option RegionId
  generation : Nat
  allocations : Nat
  bytes : Nat
  cap : Option Nat
  capSpan : Option Span
  depth : Nat
  claim : Option TaskClaim
  span : Span
  deriving DecidableEq

/-- The depth of one more opening: the counter has 32 bits. -/
def Region.deeper (region : Region) : Nat := (region.depth + 1) % 4294967296

/-- A charge that would take a region's ledger past its budget. -/
structure CapBreach where
  region : RegionId
  cap : Nat
  charged : Nat
  bytes : Nat
  deriving DecidableEq

/-- The spelling used in fault messages. -/
def Region.label (region : Region) : String :=
  match region.name with
  | some name => s!"`{name}` (region #{region.id})"
  | none => s!"region #{region.id}"

/-- A pool slot's life stage. -/
inductive SlotLife where
  | reserved
  | live
  | free
  deriving DecidableEq

/-- One slot of a pool. -/
structure PoolSlot (Value : Type) where
  generation : UInt32
  life : SlotLife
  value : Value

/-- What a wholesale free does to a pool slot. -/
def PoolSlot.kill {Value : Type} [Inhabited Value] (slot : PoolSlot Value) : PoolSlot Value :=
  { generation := slot.generation + 1, life := .free, value := default }

/-- A pool, anchored to the region that was current when it was built. -/
structure Pool (Value : Type) where
  id : PoolId
  region : RegionId
  elem : String
  slots : List (PoolSlot Value)

/-- A `shared` cell with its naive reference counts. -/
structure Cell (Value : Type) where
  strong : UInt32
  weak : UInt32
  value : Value
  edges : List CellId
  dead : Bool
  span : Span

/-- A reference granule found inside a value. -/
inductive Ref where
  | region (id : RegionId)
  | pool (id : PoolId)
  | handle (id : PoolId)
  | shared (id : CellId)
  | weak (id : CellId)
  deriving DecidableEq

/-- Why a region could not be opened. -/
inductive EnterError where
  | state (reason : String)
  | notDisjoint (reason : String)
  deriving DecidableEq

/-- Why a store of a reference is or is not legal. -/
inductive Edge where
  | intra
  | iso (child : RegionId)
  | imm
  | tier2
  | illegal (reason : String)
  deriving DecidableEq

/-- The region table, the pools, the `shared` heap and the stack of open regions, innermost
last. `teeth` is set by the first free or freeze. -/
structure Store (Value : Type) where
  regions : List Region := []
  pools : List (Pool Value) := []
  cells : List (Cell Value) := []
  openStack : List RegionId := []
  teeth : Bool := false

namespace Store

variable {Value : Type}

/-! ## Reading the store -/

/-- The program region. -/
def root : RegionId := 0

def region (store : Store Value) (id : RegionId) : Option Region := store.regions[id]?

def state (store : Store Value) (id : RegionId) : Option RegionState :=
  (store.region id).map Region.state

def parent (store : Store Value) (id : RegionId) : Option RegionId :=
  (store.region id).bind Region.parent

def label (store : Store Value) (id : RegionId) : String :=
  (store.region id).elim s!"region #{id}" Region.label

/-- The current region, where allocations land. -/
def current (store : Store Value) : RegionId := store.openStack.getLast?.getD root

/-- Is `ancestor` an ancestor of, or equal to, `id`? The walk gives up after one step more than
there are regions. -/
def isAncestor (store : Store Value) (ancestor id : RegionId) : Bool :=
  ParentChain.climb store.parent ancestor (store.regions.length + 1) id

/-- The regions whose owning edge comes from `owner`, in table order. -/
def children (store : Store Value) (owner : RegionId) : List RegionId :=
  (store.regions.filter fun region => region.parent = some owner).map Region.id

/-- A region and every region it owns, transitively. -/
def descendants (store : Store Value) (id : RegionId) : List RegionId :=
  Worklist.closure store.children (store.regions.length + 1) id

/-! ## Regions -/

/-- Append a suspended region with no parent. -/
def create (store : Store Value) (name : Option String) (strategy : Strategy)
    (cap : Option (Nat × Span)) (span : Span) : RegionId × Store Value :=
  let id := store.regions.length
  (id, { store with
    regions := store.regions ++
      [{ id, name, state := .suspended, strategy, parent := none, generation := 0,
         allocations := 0, bytes := 0, cap := cap.map Prod.fst, capSpan := cap.map Prod.snd,
         depth := 0, claim := none, span }] })

/-- A store with the program region created and open. -/
def new : Store Value :=
  let (root, store) := create {} (some "program") .arena none ⟨0, 0⟩
  { store with
    openStack := store.openStack ++ [root]
    regions :=
      store.regions.modify root fun region => { region with state := .opened, depth := 1 } }

/-- Claim a region subtree for a task or a channel. -/
def claim (store : Store Value) (id : RegionId) (claim : Option TaskClaim) : Store Value :=
  { store with
    regions := (store.descendants id).foldl
      (fun regions target => regions.modify target fun region => { region with claim })
      store.regions }

/-- Open a region for a task that is not the running one. -/
def forceOpen (store : Store Value) (id : RegionId) : Store Value :=
  { store with
    regions := store.regions.modify id fun region =>
      { region with state := .opened, depth := region.deeper } }

/-- The context switch: swap the whole open stack. -/
def swapOpen (store : Store Value) (stack : List RegionId) : List RegionId × Store Value :=
  (store.openStack, { store with openStack := stack })

/-- The one cap compare: the new total, or the breach. -/
def admits (region : Region) (bytes : Nat) : Except CapBreach Nat :=
  let total := Ledger.saturatingAdd region.bytes bytes
  match region.cap with
  | some cap =>
    if cap < total then .error { region := region.id, cap, charged := region.bytes, bytes }
    else .ok total
  | none => .ok total

/-- Charge an allocation to a region: the allocation counter and the ledger both move. -/
def chargeInto (store : Store Value) (id : RegionId) (bytes : Nat) :
    Except CapBreach (Store Value) :=
  match store.region id with
  | none => .ok store
  | some region => do
    let total ← admits region bytes
    return { store with
      regions := store.regions.modify id fun region =>
        { region with allocations := region.allocations + 1, bytes := total } }

/-- Charge an allocation to the current region. -/
def charge (store : Store Value) (bytes : Nat) : Except CapBreach (RegionId × Store Value) := do
  let id := store.current
  let store ← store.chargeInto id bytes
  return (id, store)

/-- Charge a container's growth to its birth region. The allocation counter stays. -/
def chargeGrowth (store : Store Value) (id : RegionId) (bytes : Nat) :
    Except CapBreach (Store Value) :=
  if bytes = 0 then .ok store
  else match store.region id with
    | none => .ok store
    | some region => do
      let total ← admits region bytes
      return { store with
        regions := store.regions.modify id fun region => { region with bytes := total } }

/-- The open region that keeps `id` from opening: one of the two owns the other. -/
def notDisjointFrom (store : Store Value) (id : RegionId) : Option RegionId :=
  store.openStack.find? fun other => store.isAncestor other id || store.isAncestor id other

/-- Open a region, or say why it cannot be opened. A region that is already open skips the
disjointness check. -/
def enter (store : Store Value) (id : RegionId) : Except EnterError (Store Value) :=
  match store.region id with
  | none => .error (.state s!"region #{id} does not exist")
  | some region =>
    let opened : Store Value := { store with
      regions := store.regions.modify id fun region =>
        { region with state := .opened, depth := region.deeper }
      openStack := store.openStack ++ [id] }
    match region.state with
    | .freed =>
      let label := store.label id
      .error (.state s!"{label} was freed wholesale and cannot be opened again")
    | .frozen =>
      let label := store.label id
      .error (.state (s!"{label} is frozen: `imm` data is readable from anywhere and " ++
        "writable from nowhere, so there is no window to open"))
    | .opened | .suspended =>
      if region.depth = 0 then
        match store.notDisjointFrom id with
        | some other =>
          let label := store.label id
          let otherLabel := store.label other
          .error (.notDisjoint (s!"{label} is not disjoint from the already-open " ++
            s!"{otherLabel}: one owns the other, and an owner's open window reaches its " ++
            "child's data. `[mem.region.multiopen]` discharges disjointness with " ++
            "distinctness of affine values, which does not imply it across an `iso` edge"))
        | none => .ok opened
      else .ok opened

/-- Remove the last occurrence of an entry. -/
def removeLast (id : RegionId) (stack : List RegionId) : List RegionId :=
  (stack.reverse.erase id).reverse

/-- Close the innermost opening of a region. -/
def leave (store : Store Value) (id : RegionId) : Store Value :=
  { store with
    openStack := removeLast id store.openStack
    regions := store.regions.modify id fun region =>
      let depth := region.depth - 1
      { region with
        depth
        state := if depth = 0 ∧ region.state = .opened then .suspended else region.state } }

/-- Update in place every listed region that `touches` accepts, and report the ids updated. -/
def sweep (touches : Region → Bool) (update : Region → Region) :
    List RegionId → List Region → List Region × List RegionId
  | [], regions => (regions, [])
  | target :: targets, regions =>
    match regions[target]? with
    | none => sweep touches update targets regions
    | some region =>
      if touches region then
        let (swept, hit) := sweep touches update targets (regions.modify target update)
        (swept, target :: hit)
      else sweep touches update targets regions

/-- `free` skips the regions that are freed or frozen already. -/
def freeTouches (region : Region) : Bool := region.state ≠ .freed ∧ region.state ≠ .frozen

/-- What `free` does to one region. -/
def freeRegion (region : Region) : Region :=
  { region with state := .freed, generation := region.generation + 1, depth := 0 }

/-- Free a region and every region it owns, with the pools that live there. -/
def free [Inhabited Value] (store : Store Value) (id : RegionId) : List RegionId × Store Value :=
  let (regions, freed) := sweep freeTouches freeRegion (store.descendants id) store.regions
  (freed, { store with
    teeth := true
    regions
    openStack := store.openStack.filter fun entry => entry ∉ freed
    pools := store.pools.map fun pool =>
      if pool.region ∈ freed then { pool with slots := pool.slots.map PoolSlot.kill } else pool })

/-- `freeze` skips the regions that are frozen already. -/
def freezeTouches (region : Region) : Bool := region.state ≠ .frozen

/-- What `freeze` does to one region. -/
def freezeRegion (region : Region) : Region := { region with state := .frozen, claim := none }

/-- The open region of a family, the reason a freeze is refused. -/
def openMember (store : Store Value) (family : List RegionId) : Option RegionId :=
  family.find? fun target => (store.region target).any fun region => decide (0 < region.depth)

/-- Promote a region and everything it owns to `imm`. The flag moves even when the freeze is
refused. -/
def freeze (store : Store Value) (id : RegionId) :
    Except String (List RegionId) × Store Value :=
  let bitten := { store with teeth := true }
  let label := store.label id
  if store.state id = some .freed then (.error s!"{label} was freed wholesale", bitten)
  else match store.openMember (store.descendants id) with
    | some opened =>
      let openLabel := store.label opened
      if opened = id then
        (.error (s!"{label} is open here; a region is frozen or transferred as a closed " ++
          "subtree"), bitten)
      else
        (.error (s!"{label} owns the open {openLabel}; the forest transfers as closed " ++
          "subtrees only"), bitten)
    | none =>
      let (regions, frozen) :=
        sweep freezeTouches freezeRegion (store.descendants id) store.regions
      (.ok frozen, { bitten with regions })

/-! ## The edge table -/

/-- Classify a store of a reference into data owned by `into`; `none` is a stack destination. -/
def classifyEdge (store : Store Value) (into : Option RegionId) (reference : Ref) : Edge :=
  let known : RegionId → Edge := fun target =>
    if store.state target = some .frozen then .imm
    else match into with
      | none => .intra
      | some source =>
        if source = target then .intra
        else match reference with
          | .region child =>
            match store.parent child with
            | none => .iso child
            | some owner =>
              if owner = source then .iso child
              else
                let label := store.label child
                let ownerLabel := store.label owner
                .illegal (s!"{label} already has an owning edge from {ownerLabel}; " ++
                  "a region has at most one owner")
          | _ =>
            let sourceLabel := store.label source
            let targetLabel := store.label target
            .illegal (s!"a reference from {sourceLabel} into {targetLabel} is neither " ++
              "intra-region, nor an owning `iso` edge, nor into frozen data")
  match reference with
  | .shared _ | .weak _ => .tier2
  | .region id => known id
  | .pool id | .handle id =>
    match store.pools[id]? with
    | some pool => known pool.region
    | none => .illegal s!"pool #{id} does not exist"

/-- Record an owning edge. -/
def adopt (store : Store Value) (parent child : RegionId) : Store Value :=
  { store with
    regions := store.regions.modify child fun region => { region with parent := some parent } }

/-- Walk the chain above `region` from `current`; `none` is the source's indexing panic. -/
def walkForest (store : Store Value) (region : Region) :
    Nat → RegionId → Option (Except String Unit)
  | fuel, current =>
    let label := region.label
    if current = region.id then
      some (.error s!"{label} is its own ancestor: the region graph is not a forest")
    else match fuel with
      | 0 => some (.error s!"the parent chain above {label} does not terminate")
      | fuel + 1 =>
        match store.region current with
        | none => none
        | some above =>
          match above.parent with
          | none => some (.ok ())
          | some parent => walkForest store region fuel parent

/-- The forest assertion for one region. -/
def assertRegion (store : Store Value) (region : Region) : Option (Except String Unit) :=
  match region.parent with
  | none => some (.ok ())
  | some parent =>
    let label := region.label
    if store.regions.length ≤ parent then
      some (.error s!"{label} names a parent #{parent} that does not exist")
    else walkForest store region store.regions.length parent

/-- The forest invariant, re-walked region by region; the first failure answers. -/
def assertForest (store : Store Value) : Option (Except String Unit) :=
  (store.regions.map store.assertRegion).find? (fun verdict => verdict ≠ some (.ok ()))
    |>.getD (some (.ok ()))

end Store

end WolfInterp
