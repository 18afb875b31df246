import WolfInterp.Region.Store

/-!
# Pools, handles and `shared` cells

The granules the store gives an identity to besides regions: generational pool slots, and cells
with naive reference counts.
-/

namespace WolfInterp.Store

variable {Value : Type}

/-! ## Pools and handles -/

/-- Build a pool in the current region, against that region's budget. -/
def newPool (store : Store Value) (elem : String) : Except CapBreach (PoolId × Store Value) := do
  let (region, store) ← store.charge (Ledger.containerBytes 0)
  let id := store.pools.length
  return (id, { store with pools := store.pools ++ [{ id, region, elem, slots := [] }] })

/-- Reserve a slot of one pool: the first free one, else a new one. -/
def Pool.reserve [Inhabited Value] (pool : Pool Value) : (Nat × UInt32) × Pool Value :=
  match pool.slots.findIdx? (fun slot => slot.life = .free) with
  | some index =>
    let generation := (pool.slots[index]?).elim 0 PoolSlot.generation
    ((index, generation), { pool with
      slots := pool.slots.modify index fun slot =>
        { slot with life := .reserved, value := default } })
  | none =>
    ((pool.slots.length, 0), { pool with
      slots := pool.slots ++ [{ generation := 0, life := .reserved, value := default }] })

/-- A handle to uninitialized storage: slot index and generation. -/
def reserve [Inhabited Value] (store : Store Value) (id : PoolId) :
    Option ((Nat × UInt32) × Store Value) :=
  (store.pools[id]?).map fun pool =>
    let (handle, pool) := Pool.reserve pool
    (handle, { store with pools := store.pools.set id pool })

/-- The slot a handle names, when the handle is not stale. -/
def slot (store : Store Value) (id : PoolId) (index : Nat) (generation : UInt32) :
    Option (PoolSlot Value) :=
  (store.pools[id]?).bind fun pool => (pool.slots[index]?).filter fun slot =>
    slot.generation = generation ∧ slot.life ≠ .free

/-- Update the slot a handle names, when the handle is not stale. -/
def updateSlot (store : Store Value) (id : PoolId) (index : Nat) (generation : UInt32)
    (update : PoolSlot Value → PoolSlot Value) : Bool × Store Value :=
  match store.slot id index generation with
  | none => (false, store)
  | some _ =>
    (true, { store with
      pools := store.pools.modify id fun pool =>
        { pool with slots := pool.slots.modify index update } })

/-- Fill a reserved slot. -/
def initSlot (store : Store Value) (id : PoolId) (index : Nat) (generation : UInt32)
    (value : Value) : Bool × Store Value :=
  store.updateSlot id index generation fun slot => { slot with life := .live, value }

/-- Free a slot and bump its generation. -/
def removeSlot [Inhabited Value] (store : Store Value) (id : PoolId) (index : Nat)
    (generation : UInt32) : Bool × Store Value :=
  store.updateSlot id index generation PoolSlot.kill

/-! ## `shared` cells -/

def cell (store : Store Value) (id : CellId) : Option (Cell Value) := store.cells[id]?

/-- Append a cell with one strong owner. -/
def newCell (store : Store Value) (value : Value) (span : Span) : CellId × Store Value :=
  (store.cells.length, { store with
    cells := store.cells ++
      [{ strong := 1, weak := 0, value, edges := [], dead := false, span }] })

/-- Update a cell in place. -/
def updateCell (store : Store Value) (id : CellId) (update : Cell Value → Cell Value) :
    Store Value :=
  { store with cells := store.cells.modify id update }

/-- One more strong owner. -/
def retain (store : Store Value) (id : CellId) : Bool × Store Value :=
  match store.cell id with
  | some cell =>
    if cell.dead then (false, store)
    else (true, store.updateCell id fun cell => { cell with strong := cell.strong + 1 })
  | none => (false, store)

/-- A count with one taken off, or zero. -/
def oneLess (count : UInt32) : UInt32 := if count = 0 then 0 else count - 1

/-- What a release does to a cell: the payload drops when the last strong owner goes. -/
def Cell.release [Inhabited Value] (cell : Cell Value) : Cell Value :=
  let strong := oneLess cell.strong
  if strong = 0 ∧ cell.dead = false then
    { cell with strong, dead := true, value := default, edges := [] }
  else { cell with strong }

/-- A strong owner goes away; answers whether this release was the last. -/
def release [Inhabited Value] (store : Store Value) (id : CellId) : Bool × Store Value :=
  match store.cell id with
  | none => (false, store)
  | some cell => (oneLess cell.strong = 0 ∧ cell.dead = false, store.updateCell id Cell.release)

/-- A weak edge is taken; it keeps nothing alive. -/
def downgrade (store : Store Value) (id : CellId) : Bool × Store Value :=
  match store.cell id with
  | some _ => (true, store.updateCell id fun cell => { cell with weak := cell.weak + 1 })
  | none => (false, store)

/-- A weak edge goes away. -/
def dropWeak (store : Store Value) (id : CellId) : Store Value :=
  store.updateCell id fun cell => { cell with weak := oneLess cell.weak }

/-- A strong owner again, while one remains. -/
def upgrade (store : Store Value) (id : CellId) : Bool × Store Value :=
  match store.cell id with
  | some cell =>
    if cell.dead = false ∧ 0 < cell.strong then
      (true, store.updateCell id fun cell => { cell with strong := cell.strong + 1 })
    else (false, store)
  | none => (false, store)

/-- The strong edges out of a cell. -/
def strongEdges (store : Store Value) (id : CellId) : List CellId :=
  (store.cell id).elim [] Cell.edges

/-- Would a strong edge close a strong cycle? `none` is a worklist that has not ended after as many
rounds as there are edges, and two more. -/
def wouldCycle (store : Store Value) (source target : CellId) : Option Bool :=
  if source = target then some true
  else
    Worklist.seek store.strongEdges source
      ((store.cells.flatMap Cell.edges).length + 2) 0 [target]

/-- Record a strong edge between cells, once. -/
def addStrongEdge (store : Store Value) (source target : CellId) : Store Value :=
  store.updateCell source fun cell =>
    if target ∈ cell.edges then cell else { cell with edges := cell.edges ++ [target] }

end WolfInterp.Store
