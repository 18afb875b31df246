import WolfInterp.Region.Step

/-!
# `shared` cells

The strong edges between cells are added one at a time, each after `wouldCycle` has found no path
back. Beside the store stand the payloads the cells were made with and those that were dropped. As
long as no 32-bit count wraps, a cell is dead exactly when its strong count is zero.
-/

namespace WolfInterp

/-- The store with the payload each cell was made with and the payloads dropped so far. -/
structure Shelf (Value : Type) where
  store : Store Value
  made : List Value := []
  dropped : List (CellId × Value) := []

namespace Store

variable {Value : Type}

/-! ## What an operation does to the cells -/

def Cell.retain (cell : Cell Value) : Cell Value :=
  if cell.dead then cell else { cell with strong := cell.strong + 1 }

def Cell.upgrade (cell : Cell Value) : Cell Value :=
  if cell.dead = false ∧ 0 < cell.strong then { cell with strong := cell.strong + 1 } else cell

def Cell.addEdge (target : CellId) (cell : Cell Value) : Cell Value :=
  if target ∈ cell.edges then cell else { cell with edges := cell.edges ++ [target] }

/-- The cell that an operation updates, and how. -/
def cellUpdate [Inhabited Value] : StoreOp Value → Option (CellId × (Cell Value → Cell Value))
  | .retain id => some (id, Cell.retain)
  | .release id => some (id, Cell.release)
  | .downgrade id => some (id, fun cell => { cell with weak := cell.weak + 1 })
  | .dropWeak id => some (id, fun cell => { cell with weak := oneLess cell.weak })
  | .upgrade id => some (id, Cell.upgrade)
  | .addStrongEdge source target => some (source, Cell.addEdge target)
  | _ => none

/-- The payload a new cell is made with. -/
def makes : StoreOp Value → List Value
  | .newCell value _ => [value]
  | _ => []

/-- The payload that an operation drops. -/
def drops [Inhabited Value] (store : Store Value) : StoreOp Value → List (CellId × Value)
  | .release id => match store.cell id with
      | some cell => if (store.release id).1 then [(id, cell.value)] else []
      | none => []
  | _ => []

section Updates

variable {cells : List (Cell Value)} {id : CellId}

theorem modify_of_none (absent : cells[id]? = none) (update : Cell Value → Cell Value) :
    cells.modify id update = cells := by
  refine List.ext_getElem? fun index => ?_
  rw [List.getElem?_modify]
  by_cases same : id = index
  · rw [← same, absent]
    rfl
  · simp [same]

theorem modify_congr {cell : Cell Value} (found : cells[id]? = some cell)
    {first second : Cell Value → Cell Value} (same : first cell = second cell) :
    cells.modify id first = cells.modify id second := by
  refine List.ext_getElem? fun index => ?_
  rw [List.getElem?_modify, List.getElem?_modify]
  by_cases here : id = index
  · rw [← here, found]
    simp [same]
  · simp [here]

theorem modify_of_same {cell : Cell Value} (found : cells[id]? = some cell)
    {update : Cell Value → Cell Value} (same : update cell = cell) : cells.modify id update = cells
    := by
  have held : cells.modify id update = cells.modify id fun cell => cell := modify_congr found same
  exact held.trans (List.modify_id id cells)

variable [Inhabited Value]

/-- An operation appends a cell, updates one, or leaves the cells alone. -/
theorem cells_apply (store : Store Value) (op : StoreOp Value) :
    (store.apply op).cells = match op with
      | .newCell value span => store.cells ++
          [{ strong := 1, weak := 0, value, edges := [], dead := false, span }]
      | op => (cellUpdate op).elim store.cells fun change =>
        store.cells.modify change.1 change.2 := by
  have still : ∀ {next : Store Value}, next.granules = store.granules →
      next.cells = store.cells := fun same => congrArg Prod.snd same
  cases op with
  | region op =>
    cases op with
    | enter id => exact still (granules_orKeep fun next => granules_enter)
    | freeze id => exact still (granules_freeze store id)
    | _ => rfl
  | charge bytes => exact still (granules_apply_charge store bytes)
  | chargeInto id bytes =>
    exact still (granules_orKeep fun _ into => (raised_chargeInto into).granules)
  | chargeGrowth id bytes =>
    exact still (granules_orKeep fun _ into => (raised_chargeGrowth into).granules)
  | newPool elem =>
    cases answer : store.newPool elem with
    | error breach =>
      rw [apply, answer]
      rfl
    | ok pair =>
      obtain ⟨id, later⟩ := pair
      rw [apply, answer]
      obtain ⟨⟨region, after⟩, charged, ends⟩ := Fallible.bind_eq_ok.mp answer
      cases ends
      have same : after.cells = store.cells := still (granules_charge charged)
      exact same
  | reserve id =>
    rw [apply, reserve]
    cases store.pools[id]? with
    | none => rfl
    | some pool => rfl
  | initSlot id index generation value =>
    rw [apply, initSlot, updateSlot]
    split <;> rfl
  | removeSlot id index generation =>
    rw [apply, removeSlot, updateSlot]
    split <;> rfl
  | retain id =>
    rw [apply, retain, cell]
    cases found : store.cells[id]? with
    | none => exact (modify_of_none found _).symm
    | some cell =>
      dsimp only [cellUpdate, Option.elim]
      cases dead : cell.dead with
      | true => exact (modify_of_same found (by simp [Cell.retain, dead])).symm
      | false => exact modify_congr found (by simp [Cell.retain, dead])
  | release id =>
    rw [apply, release, cell]
    cases found : store.cells[id]? with
    | none => exact (modify_of_none found _).symm
    | some cell => rfl
  | downgrade id =>
    rw [apply, downgrade, cell]
    cases found : store.cells[id]? with
    | none => exact (modify_of_none found _).symm
    | some cell => rfl
  | upgrade id =>
    rw [apply, upgrade, cell]
    cases found : store.cells[id]? with
    | none => exact (modify_of_none found _).symm
    | some cell =>
      dsimp only [cellUpdate, Option.elim]
      by_cases may : cell.dead = false ∧ 0 < cell.strong
      · rw [if_pos may]
        exact modify_congr found (by simp [Cell.upgrade, may])
      · rw [if_neg may]
        exact (modify_of_same found (by simp [Cell.upgrade, may])).symm
  | _ => rfl

theorem cells_of_update (store : Store Value) {op : StoreOp Value}
    {update : Cell Value → Cell Value} (updates : cellUpdate op = some (id, update)) :
    (store.apply op).cells = store.cells.modify id update := by
  rw [cells_apply]
  cases op with
  | newCell value span => cases updates
  | _ =>
    dsimp only
    rw [updates]
    rfl

theorem cells_of_still (store : Store Value) {op : StoreOp Value} (still : cellUpdate op = none)
    (old : ∀ value span, op ≠ .newCell value span) : (store.apply op).cells = store.cells := by
  rw [cells_apply]
  cases op with
  | newCell value span => exact absurd rfl (old value span)
  | _ =>
    dsimp only
    rw [still]
    rfl

end Updates

/-! ## The search for a cycle -/

/-- The strong edge of one cell to another. -/
def Strong (store : Store Value) : CellId → CellId → Prop := Worklist.Edge store.strongEdges

/-- The search ends on every graph and tells whether the target reaches the source. -/
theorem wouldCycle_spec (store : Store Value) (source target : CellId) :
    ∃ answer, store.wouldCycle source target = some answer ∧
      (answer = true ↔ Relation.ReflTransGen store.Strong target source) := by
  rw [wouldCycle]
  by_cases same : source = target
  · rw [if_pos same, same]
    exact ⟨true, rfl, iff_of_true rfl .refl⟩
  · rw [if_neg same]
    have covered : ∀ source target, target ∈ store.strongEdges source →
        target ∈ store.cells.flatMap Cell.edges := by
      intro source target edge
      rw [strongEdges, cell] at edge
      cases found : store.cells[source]? with
      | none => simp [found] at edge
      | some cell =>
        rw [found] at edge
        exact List.mem_flatMap.mpr ⟨cell, List.mem_of_getElem? found, edge⟩
    obtain ⟨found, sought, reaches⟩ :=
      Worklist.seek_eq_some_iff source target covered (Nat.lt_succ_self _)
    refine ⟨found, sought, reaches.trans ?_⟩
    rw [Relation.reflTransGen_iff_eq_or_transGen]
    exact (or_iff_right same).symm

/-! ## The counts, the edges and the payloads -/

/-- A cell is dead when its strong count is zero, and only then. -/
def Cell.Counted (cell : Cell Value) : Prop := cell.dead = true ↔ cell.strong = 0

/-- The count that an operation adds one to does not wrap. -/
def NoWrap (store : Store Value) : StoreOp Value → Prop
  | .retain id | .upgrade id => ∀ cell, store.cell id = some cell → cell.dead = false →
      cell.strong + 1 ≠ 0
  | _ => True

section Steps

variable [Inhabited Value] {store : Store Value}

section

variable {op : StoreOp Value} {id : CellId} {update : Cell Value → Cell Value}
  (updates : cellUpdate op = some (id, update))
include updates

/-- The update of a cell keeps its count right, unless the count wraps. -/
theorem counted_update {cell : Cell Value} (found : store.cell id = some cell)
    (counted : Cell.Counted cell) :
    Cell.Counted (update cell) ↔ store.NoWrap op := by
  have live : cell.dead = false ↔ cell.strong ≠ 0 := by
    rw [Ne, ← show cell.dead = true ↔ cell.strong = 0 from counted, Bool.not_eq_true]
  cases op with
  | retain id =>
    cases updates
    cases dead : cell.dead with
    | true => simpa [Cell.retain, NoWrap, found, dead] using counted
    | false => simp [Cell.retain, Cell.Counted, NoWrap, found, dead]
  | upgrade id =>
    cases updates
    cases dead : cell.dead with
    | true => simpa [Cell.upgrade, NoWrap, found, dead] using counted
    | false =>
      have some_ : 0 < cell.strong := UInt32.pos_iff_ne_zero.mpr (live.mp dead)
      simp [Cell.upgrade, Cell.Counted, NoWrap, found, dead, some_]
  | release id =>
    cases updates
    refine iff_of_true ?_ trivial
    rw [Cell.release]
    by_cases last : oneLess cell.strong = 0
    · cases cell.dead with
      | true | false => simp [Cell.Counted, last]
    · have alive : cell.dead = false := by
        rw [live]
        rintro none_
        rw [none_] at last
        exact last rfl
      simp [Cell.Counted, last, alive]
  | downgrade id | dropWeak id =>
    cases updates
    exact iff_of_true counted trivial
  | addStrongEdge source target =>
    cases updates
    refine iff_of_true ?_ trivial
    rw [Cell.addEdge]
    split <;> exact counted
  | _ => cases updates

/-- Every strong edge after an update was there before, but the one that is added. -/
theorem strong_update {next : Store Value} (cells : next.cells = store.cells.modify id update)
    {left right : CellId} (edge : next.Strong left right) :
    store.Strong left right ∨ op = .addStrongEdge left right := by
  change right ∈ (next.cells[left]?).elim [] Cell.edges at edge
  rw [cells, List.getElem?_modify] at edge
  cases found : store.cells[left]? with
  | none =>
    rw [found] at edge
    cases edge
  | some cell =>
    have old : right ∈ cell.edges → store.Strong left right := by
      intro member
      change right ∈ (store.cells[left]?).elim [] Cell.edges
      rw [found]
      exact member
    rw [found] at edge
    by_cases same : id = left
    · subst same
      simp only [Option.map_eq_map, Option.map_some, if_true, Option.elim_some] at edge
      cases op with
      | retain id | upgrade id =>
        cases updates
        simp only [Cell.retain, Cell.upgrade] at edge
        refine .inl (old ?_)
        split at edge <;> exact edge
      | release id =>
        cases updates
        simp only [Cell.release] at edge
        refine .inl (old ?_)
        split at edge
        · cases edge
        · exact edge
      | downgrade id | dropWeak id =>
        cases updates
        exact .inl (old edge)
      | addStrongEdge source target =>
        cases updates
        rw [Cell.addEdge] at edge
        split at edge
        · exact .inl (old edge)
        · rcases List.mem_append.mp edge with member | added
          · exact .inl (old member)
          · rw [List.mem_singleton.mp added]
            exact .inr rfl
      | _ => cases updates
    · simp only [Option.map_eq_map, Option.map_some, same, if_false, Option.elim_some] at edge
      exact .inl (old edge)

end

/-- An operation adds no edge but the one it records. -/
theorem strong_apply {op : StoreOp Value} {left right : CellId}
    (edge : (store.apply op).Strong left right) :
    store.Strong left right ∨ op = .addStrongEdge left right := by
  cases updates : cellUpdate op with
  | some change => exact strong_update updates (cells_of_update store updates) edge
  | none =>
    refine .inl ?_
    change right ∈ ((store.apply op).cells[left]?).elim [] Cell.edges at edge
    by_cases makes : ∃ value span, op = .newCell value span
    · obtain ⟨value, span, rfl⟩ := makes
      rw [cells_apply, List.getElem?_append] at edge
      split at edge
      · exact edge
      · rw [List.getElem?_singleton] at edge
        split at edge
        · cases edge
        · cases edge
    · rw [cells_of_still store updates fun value span same => makes ⟨value, span, same⟩] at edge
      exact edge

end Steps

end Store

namespace Shelf

variable {Value : Type}

open Store

/-- The shelf of a fresh store. -/
def start : Shelf Value := { store := Store.new }

/-- One operation of the store; an edge is added only when the search has found no cycle. -/
def step [Inhabited Value] (shelf : Shelf Value) (op : StoreOp Value) : Option (Shelf Value) :=
  let next : Shelf Value :=
    { store := shelf.store.apply op
      made := shelf.made ++ makes op
      dropped := shelf.dropped ++ shelf.store.drops op }
  match op with
  | .addStrongEdge source target =>
    if shelf.store.wouldCycle source target = some false then some next else none
  | _ => some next

/-- What each payload has come to: a live cell holds the one it was made with, a dead cell's was
dropped, once. -/
structure Payloads [Inhabited Value] (shelf : Shelf Value) : Prop where
  count : shelf.made.length = shelf.store.cells.length
  live : ∀ (id : CellId) cell value, shelf.store.cells[id]? = some cell →
    shelf.made[id]? = some value → cell.dead = false → cell.value = value
  dead : ∀ (id : CellId) cell value, shelf.store.cells[id]? = some cell →
    shelf.made[id]? = some value → cell.dead = true →
      cell.value = default ∧ (id, value) ∈ shelf.dropped
  gone : ∀ drop ∈ shelf.dropped, ∃ cell, shelf.store.cells[drop.1]? = some cell ∧ cell.dead = true
  once : (shelf.dropped.map Prod.fst).Nodup

/-- The strong edges are acyclic and the search is exact, a cell is dead when its strong count is
zero and only then, nothing retains or upgrades a dead cell, and each payload is dropped once, with
the last strong owner. -/
structure Sound [Inhabited Value] (shelf : Shelf Value) : Prop where
  acyclic : ∀ id, ¬ Relation.TransGen shelf.store.Strong id id
  search : ∀ source target, ∃ answer, shelf.store.wouldCycle source target = some answer ∧
    (answer = true ↔ Relation.ReflTransGen shelf.store.Strong target source)
  counts : ∀ cell ∈ shelf.store.cells, Cell.Counted cell
  barred : ∀ id cell, shelf.store.cell id = some cell → cell.dead = true →
    shelf.store.retain id = (false, shelf.store) ∧ shelf.store.upgrade id = (false, shelf.store)
  payloads : shelf.Payloads

theorem barred (store : Store Value) {id : CellId} {cell : Cell Value}
    (found : store.cell id = some cell) (dead : cell.dead = true) :
    store.retain id = (false, store) ∧ store.upgrade id = (false, store) := by
  constructor
  · simp [retain, found, dead]
  · simp [upgrade, found, dead]

section Steps

variable [Inhabited Value] {shelf next : Shelf Value} {op : StoreOp Value}

theorem step_spec (stepped : step shelf op = some next) :
    next.store = shelf.store.apply op ∧ next.made = shelf.made ++ makes op ∧
      next.dropped = shelf.dropped ++ shelf.store.drops op ∧
      ∀ source target, op = .addStrongEdge source target →
        shelf.store.wouldCycle source target = some false := by
  unfold step at stepped
  dsimp only at stepped
  split at stepped
  · split at stepped
    · next source target clear =>
        cases stepped
        refine ⟨rfl, rfl, rfl, ?_⟩
        rintro _ _ ⟨⟩
        exact clear
    · cases stepped
  · next other =>
      cases stepped
      exact ⟨rfl, rfl, rfl, fun source target same => absurd same (other source target)⟩

theorem acyclic_step (acyclic : ∀ id, ¬ Relation.TransGen shelf.store.Strong id id)
    (stepped : step shelf op = some next) (id : CellId) :
    ¬ Relation.TransGen next.store.Strong id id := by
  obtain ⟨store, _, _, clear⟩ := step_spec stepped
  rw [store]
  by_cases adds : ∃ source target, op = .addStrongEdge source target
  · obtain ⟨source, target, rfl⟩ := adds
    have apart : ¬ Relation.ReflTransGen shelf.store.Strong target source := by
      obtain ⟨answer, sought, reaches⟩ := wouldCycle_spec shelf.store source target
      rw [clear source target rfl] at sought
      cases sought
      exact fun path => Bool.false_ne_true (reaches.mpr path)
    refine Worklist.acyclic_of_added acyclic apart ?_ id
    intro left right edge
    rcases strong_apply edge with old | ⟨⟨⟩⟩
    · exact .inl old
    · exact .inr ⟨rfl, rfl⟩
  · intro cycle
    have kept : ∀ left right, (shelf.store.apply op).Strong left right →
        shelf.store.Strong left right := by
      intro left right edge
      rcases strong_apply edge with old | added
      · exact old
      · exact absurd ⟨left, right, added⟩ adds
    exact acyclic id (Relation.TransGen.mono kept id id cycle)

/-- The counts stay right exactly when no count wraps. -/
theorem counts_step (counts : ∀ cell ∈ shelf.store.cells, Cell.Counted cell)
    (stepped : step shelf op = some next) :
    (∀ cell ∈ next.store.cells, Cell.Counted cell) ↔ shelf.store.NoWrap op := by
  obtain ⟨store, _⟩ := step_spec stepped
  rw [store]
  cases updates : cellUpdate op with
  | some change =>
    obtain ⟨id, update⟩ := change
    rw [cells_of_update _ updates]
    cases found : shelf.store.cells[id]? with
    | none =>
      rw [modify_of_none found]
      refine iff_of_true counts ?_
      cases op with
      | retain id | upgrade id =>
        cases updates
        exact fun cell there => by simp [Store.cell, found] at there
      | _ => trivial
    | some cell =>
      rw [← counted_update updates found (counts cell (List.mem_of_getElem? found))]
      constructor
      · intro all
        refine all _ (List.mem_of_getElem? (i := id) ?_)
        rw [List.getElem?_modify_eq, found]
        rfl
      · intro mine other member
        obtain ⟨index, there⟩ := List.mem_iff_getElem?.mp member
        rw [List.getElem?_modify] at there
        obtain ⟨old, before, rfl⟩ := Option.map_eq_some_iff.mp there
        split
        · next same =>
            subst same
            obtain rfl := Option.eq_some_unique before found
            exact mine
        · exact counts old (List.mem_of_getElem? before)
  | none =>
    by_cases makes : ∃ value span, op = .newCell value span
    · obtain ⟨value, span, rfl⟩ := makes
      refine iff_of_true ?_ trivial
      intro cell member
      rw [cells_apply] at member
      rcases List.mem_append.mp member with old | fresh
      · exact counts cell old
      · obtain rfl := List.mem_singleton.mp fresh
        simp [Cell.Counted]
    · rw [cells_of_still _ updates fun value span same => makes ⟨value, span, same⟩]
      refine iff_of_true counts ?_
      cases op with
      | retain id => cases updates
      | upgrade id => cases updates
      | _ => trivial

section

variable {id : CellId} (payloads : shelf.Payloads)
include payloads

/-- An update that keeps the payload and the life of its cell keeps the account of the payloads. -/
theorem Payloads.update {update : Cell Value → Cell Value}
    (cells : next.store.cells = shelf.store.cells.modify id update) (made : next.made = shelf.made)
    (dropped : next.dropped = shelf.dropped)
    (keeps : ∀ cell, shelf.store.cells[id]? = some cell →
      (update cell).dead = cell.dead ∧ (update cell).value = cell.value) : next.Payloads := by
  have origin : ∀ (index : CellId) cell, next.store.cells[index]? = some cell →
      ∃ old, shelf.store.cells[index]? = some old ∧ cell.dead = old.dead ∧
        cell.value = old.value := by
    intro index cell found
    rw [cells, List.getElem?_modify] at found
    obtain ⟨old, before, rfl⟩ := Option.map_eq_some_iff.mp found
    refine ⟨old, before, ?_⟩
    split
    · next same =>
        subst same
        exact keeps old before
    · exact ⟨rfl, rfl⟩
  constructor
  · rw [made, cells, List.length_modify]
    exact payloads.count
  · intro index cell value found given alive
    obtain ⟨old, before, dead, same⟩ := origin index cell found
    rw [made] at given
    exact same.trans (payloads.live index old value before given (dead.symm.trans alive))
  · intro index cell value found given beyond
    obtain ⟨old, before, dead, same⟩ := origin index cell found
    rw [made] at given
    rw [dropped, same]
    exact payloads.dead index old value before given (dead.symm.trans beyond)
  · intro drop member
    rw [dropped] at member
    obtain ⟨old, before, dead⟩ := payloads.gone drop member
    rw [cells, List.getElem?_modify, before]
    refine ⟨_, rfl, ?_⟩
    split
    · next same =>
        subst same
        exact (keeps old before).1.trans dead
    · exact dead
  · rw [dropped]
    exact payloads.once

/-- The last release of a cell drops its payload. -/
theorem Payloads.release {cell : Cell Value} (found : shelf.store.cells[id]? = some cell)
    (alive : cell.dead = false) (last : oneLess cell.strong = 0)
    (cells : next.store.cells = shelf.store.cells.modify id Cell.release)
    (made : next.made = shelf.made) (dropped : next.dropped = shelf.dropped ++ [(id, cell.value)]) :
    next.Payloads := by
  have released : Cell.release cell = { cell with
      strong := oneLess cell.strong, dead := true, value := default, edges := [] } := by
    simp [Cell.release, last, alive]
  have origin : ∀ (index : CellId) later, next.store.cells[index]? = some later →
      index = id ∧ later = Cell.release cell ∨
        index ≠ id ∧ shelf.store.cells[index]? = some later := by
    intro index later there
    rw [cells, List.getElem?_modify] at there
    obtain ⟨old, before, rfl⟩ := Option.map_eq_some_iff.mp there
    by_cases same : id = index
    · subst same
      obtain rfl := Option.eq_some_unique before found
      exact .inl ⟨rfl, by simp⟩
    · exact .inr ⟨Ne.symm same, by simpa [same] using before⟩
  have absent : id ∉ shelf.dropped.map Prod.fst := by
    intro already
    obtain ⟨drop, member, same⟩ := List.mem_map.mp already
    obtain ⟨old, before, dead⟩ := payloads.gone drop member
    rw [same, found] at before
    cases before
    exact Bool.false_ne_true (alive.symm.trans dead)
  constructor
  · rw [made, cells, List.length_modify]
    exact payloads.count
  · intro index later value there given living
    rw [made] at given
    rcases origin index later there with ⟨_, rfl⟩ | ⟨_, before⟩
    · rw [released] at living
      cases living
    · exact payloads.live index later value before given living
  · intro index later value there given beyond
    rw [made] at given
    rw [dropped, List.mem_append]
    rcases origin index later there with ⟨rfl, rfl⟩ | ⟨_, before⟩
    · refine ⟨by rw [released], .inr ?_⟩
      rw [payloads.live index cell value found given alive]
      exact List.mem_singleton.mpr rfl
    · obtain ⟨empty, member⟩ := payloads.dead index later value before given beyond
      exact ⟨empty, .inl member⟩
  · intro drop member
    rw [dropped] at member
    rw [cells, List.getElem?_modify]
    rcases List.mem_append.mp member with old | fresh
    · obtain ⟨other, before, dead⟩ := payloads.gone drop old
      have differs : id ≠ drop.1 := fun same => absent (same ▸ List.mem_map_of_mem old)
      exact ⟨other, by simpa [differs] using before, dead⟩
    · obtain rfl := List.mem_singleton.mp fresh
      rw [found]
      exact ⟨Cell.release cell, by simp, by rw [released]⟩
  · rw [dropped, List.map_append, List.nodup_append_comm]
    exact List.nodup_cons.mpr ⟨absent, payloads.once⟩

theorem Payloads.newCell {value : Value} {span : Span}
    (cells : next.store.cells = shelf.store.cells ++
      [{ strong := 1, weak := 0, value, edges := [], dead := false, span }])
      (made : next.made = shelf.made ++ [value])
    (dropped : next.dropped = shelf.dropped) :
    next.Payloads := by
  have origin : ∀ (index : CellId) cell other, next.store.cells[index]? = some cell →
      next.made[index]? = some other →
        shelf.store.cells[index]? = some cell ∧ shelf.made[index]? = some other ∨
          cell.dead = false ∧ cell.value = other := by
    intro index cell other found given
    rw [cells, List.getElem?_append] at found
    rw [made, List.getElem?_append, payloads.count] at given
    split at found
    · next inside =>
        rw [if_pos inside] at given
        exact .inl ⟨found, given⟩
    · next outside =>
        rw [if_neg outside, List.getElem?_singleton] at given
        rw [List.getElem?_singleton] at found
        split at found
        · cases found
          rw [if_pos (by assumption)] at given
          exact .inr ⟨rfl, Option.some.inj given⟩
        · cases found
  constructor
  · rw [made, cells, List.length_append, List.length_append, payloads.count]
    rfl
  · intro index cell other found given alive
    rcases origin index cell other found given with ⟨before, old⟩ | ⟨_, same⟩
    · exact payloads.live index cell other before old alive
    · exact same
  · intro index cell other found given dead
    rw [dropped]
    rcases origin index cell other found given with ⟨before, old⟩ | ⟨alive, _⟩
    · exact payloads.dead index cell other before old dead
    · exact absurd (alive.symm.trans dead) Bool.false_ne_true
  · intro drop member
    rw [dropped] at member
    obtain ⟨cell, before, dead⟩ := payloads.gone drop member
    refine ⟨cell, ?_, dead⟩
    rw [cells, List.getElem?_append_left (List.getElem?_eq_some_iff.mp before).1]
    exact before
  · rw [dropped]
    exact payloads.once

/-- Every step keeps the account of the payloads. -/
theorem payloads_step (stepped : step shelf op = some next) :
    next.Payloads := by
  obtain ⟨store, made, dropped, _⟩ := step_spec stepped
  cases updates : cellUpdate op with
  | some change =>
    obtain ⟨id, update⟩ := change
    have cells := cells_of_update shelf.store updates
    rw [← store] at cells
    have none_ : makes op = [] := by
      cases op with
      | newCell value span => cases updates
      | _ => rfl
    rw [none_, List.append_nil] at made
    cases op with
    | release id =>
      cases updates
      cases found : shelf.store.cells[id]? with
      | none =>
        refine payloads.update cells made ?_ fun cell there => ?_
        · rw [dropped]
          simp [drops, Store.cell, found]
        · rw [found] at there
          cases there
      | some cell =>
        by_cases last : oneLess cell.strong = 0 ∧ cell.dead = false
        · refine payloads.release found last.2 last.1 cells made ?_
          rw [dropped]
          simp [drops, Store.cell, Store.release, found, last]
        · refine payloads.update cells made ?_ fun other there => ?_
          · rw [dropped]
            simp only [drops, Store.cell, Store.release, found, last, decide_false,
              Bool.false_eq_true, if_false, List.append_nil]
          · obtain rfl := Option.eq_some_unique found there
            simp only [Cell.release, if_neg last]
            exact ⟨trivial, trivial⟩
    | retain id | upgrade id | addStrongEdge source target =>
      cases updates
      refine payloads.update cells made (by rw [dropped]; exact List.append_nil _) ?_
      intro cell _
      simp only [Cell.retain, Cell.upgrade, Cell.addEdge]
      split <;> exact ⟨rfl, rfl⟩
    | downgrade id | dropWeak id =>
      cases updates
      exact payloads.update cells made (by rw [dropped]; exact List.append_nil _)
        fun cell _ => ⟨rfl, rfl⟩
    | _ => cases updates
  | none =>
    have silent : shelf.store.drops op = [] := by
      cases op with
      | release id => cases updates
      | _ => rfl
    rw [silent, List.append_nil] at dropped
    by_cases fresh : ∃ value span, op = .newCell value span
    · obtain ⟨value, span, rfl⟩ := fresh
      have cells := cells_apply shelf.store (.newCell value span)
      rw [← store] at cells
      exact payloads.newCell cells made dropped
    · have old : ∀ value span, op ≠ .newCell value span :=
        fun value span same => fresh ⟨value, span, same⟩
      have none_ : makes op = [] := by
        cases op with
        | newCell value span => exact absurd rfl (old value span)
        | _ => rfl
      rw [none_, List.append_nil] at made
      have same := cells_of_still shelf.store updates old
      rw [← store] at same
      have kept : next.store.cells = shelf.store.cells.modify 0 fun cell => cell :=
        same.trans (List.modify_id 0 _).symm
      exact payloads.update kept made dropped fun cell _ => ⟨rfl, rfl⟩

end

/-! ## Runs -/

theorem sound_start : Sound (start : Shelf Value) where
  acyclic id cycle := by
    obtain ⟨middle, edge, _⟩ := Relation.TransGen.head'_iff.mp cycle
    cases edge
  search := wouldCycle_spec Store.new
  counts cell member := by cases member
  barred id cell found := by cases found
  payloads := by
    refine ⟨rfl, ?_, ?_, ?_, List.nodup_nil⟩
    · nofun
    · nofun
    · nofun

/-- A step keeps the shelf sound exactly when no count wraps. -/
theorem sound_step (sound : shelf.Sound) (stepped : step shelf op = some next) :
    next.Sound ↔ shelf.store.NoWrap op := by
  rw [← counts_step sound.counts stepped]
  exact ⟨Sound.counts, fun counts =>
    { acyclic := acyclic_step sound.acyclic stepped
      search := wouldCycle_spec next.store
      counts
      barred := fun _ _ => barred next.store
      payloads := payloads_step sound.payloads stepped }⟩

/-- Every state of a run is sound exactly when no operation of the run wraps a count. -/
theorem cells_sound_iff (ops : List (StoreOp Value)) :
    Execution.Always step Sound (start : Shelf Value) ops ↔
      Execution.Guarded step (fun shelf op => shelf.store.NoWrap op) start ops :=
  Execution.always_iff_guarded sound_start fun _ _ _ sound stepped => sound_step sound stepped

end Steps

/-- A cell, and `count` more strong owners of it. -/
def retains (count : Nat) : List (StoreOp Unit) :=
  .newCell () ⟨0, 0⟩ :: List.replicate count (.retain 0)

/-- After that the cell lives, with `count + 1` owners modulo the width. -/
theorem exec_retains (count : Nat) :
    ∃ shelf, Execution.exec step start (retains count) = some shelf ∧ shelf.store.cells =
      [{ strong := UInt32.ofNat (count + 1), weak := 0, value := (), edges := [], dead := false,
         span := ⟨0, 0⟩ }] := by
  induction count with
  | zero => exact ⟨_, rfl, rfl⟩
  | succ count induction =>
    obtain ⟨shelf, run, cells⟩ := induction
    have longer : retains (count + 1) = retains count ++ [.retain 0] := by
      rw [retains, List.replicate_succ']
      rfl
    refine ⟨_, longer ▸ Execution.exec_snoc_eq_some.mpr ⟨shelf, run, rfl⟩, ?_⟩
    change (shelf.store.apply (.retain 0)).cells = _
    have updates : cellUpdate (.retain 0 : StoreOp Unit) = some (0, Cell.retain) := rfl
    rw [cells_of_update shelf.store updates, cells]
    simp [Cell.retain, UInt32.ofNat_add]

/-- With 2^32 owners the count is zero and the cell lives. -/
theorem cells_not_sound :
    ¬ ∀ ops : List (StoreOp Unit), Execution.Always step Sound (start : Shelf Unit) ops := by
  intro claimed
  obtain ⟨shelf, run, cells⟩ := exec_retains 4294967295
  have sound := claimed (retains 4294967295) (retains 4294967295) [] shelf
    (List.append_nil _).symm run
  have counted := sound.counts _ (by rw [cells]; exact List.mem_singleton.mpr rfl)
  exact Bool.false_ne_true (counted.mpr (by decide))

end Shelf

end WolfInterp
