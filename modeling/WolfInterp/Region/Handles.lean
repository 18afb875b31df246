import Mathlib.Data.List.Range
import WolfInterp.Region.Step

/-!
# Pool handles

A handle names a slot by its pool, its index and the slot's 32-bit generation. The machine of the
store is run with two lists beside it: the handles `reserve` has returned, and those of them that
were neither removed nor freed with their region. As long as no generation wraps, no handle is
returned twice, and a handle resolves exactly while it is in the second list.
-/

namespace WolfInterp

/-- A handle to a pool slot. -/
structure Handle where
  pool : PoolId
  index : Nat
  generation : UInt32
  deriving DecidableEq

/-- The store with the handles it has returned and the handles in force. -/
structure Handles (Value : Type) where
  store : Store Value
  issued : List Handle
  live : List Handle

namespace Store

variable {Value : Type}

/-- The slot stored at an index of a pool, stale or not. -/
def stored (store : Store Value) (pool : PoolId) (index : Nat) : Option (PoolSlot Value) :=
  (store.pools[pool]?).bind fun pool => pool.slots[index]?

/-- The slot `slot` finds for a handle. -/
def resolve (store : Store Value) (handle : Handle) : Option (PoolSlot Value) :=
  store.slot handle.pool handle.index handle.generation

/-- The pool of a handle lives in one of the regions. -/
def Anchored (store : Store Value) (regions : List RegionId) (handle : Handle) : Prop :=
  ∃ pool, store.pools[handle.pool]? = some pool ∧ pool.region ∈ regions

instance (store : Store Value) (regions : List RegionId) (handle : Handle) :
    Decidable (store.Anchored regions handle) :=
  match found : store.pools[handle.pool]? with
  | none => isFalse (by simp [Anchored, found])
  | some pool => decidable_of_iff (pool.region ∈ regions) (by simp [Anchored, found])

/-! ## What an operation does to the stored slots -/

theorem resolve_eq (store : Store Value) (handle : Handle) :
    store.resolve handle = (store.stored handle.pool handle.index).filter fun slot =>
      slot.generation = handle.generation ∧ slot.life ≠ .free := by
  rw [resolve, slot, stored]
  cases store.pools[handle.pool]? <;> rfl

theorem isSome_resolve (store : Store Value) (handle : Handle) :
    (store.resolve handle).isSome ↔ ∃ slot, store.stored handle.pool handle.index = some slot ∧
      slot.generation = handle.generation ∧ slot.life ≠ .free := by
  rw [resolve_eq]
  cases store.stored handle.pool handle.index with
  | none => simp
  | some slot => simp [Option.filter]

theorem stored_of_pools {store next : Store Value} (same : next.pools = store.pools) :
    next.stored = store.stored := by
  funext pool index
  rw [stored, stored, same]

/-- A new pool is empty and moves no slot. -/
theorem stored_newPool {store next : Store Value} {elem : String} {id : PoolId}
    (built : store.newPool elem = .ok (id, next)) : next.stored = store.stored := by
  obtain ⟨⟨region, later⟩, answer, ends⟩ := Fallible.bind_eq_ok.mp built
  cases ends
  have same : later.pools = store.pools := congrArg Prod.fst (granules_charge answer)
  funext pool index
  rw [stored, stored, same, List.getElem?_append]
  split
  · rfl
  · next outside =>
      rw [List.getElem?_eq_none (Nat.le_of_not_lt outside), List.getElem?_singleton]
      split <;> simp

/-- A reserve takes a free slot or appends one, and moves no other. -/
theorem stored_reserve [Inhabited Value] {store next : Store Value} {id index : Nat}
    {generation : UInt32} (reserved : store.reserve id = some ((index, generation), next)) :
    next.stored id index = some { generation, life := .reserved, value := default } ∧
      (∀ slot, store.stored id index = some slot →
        slot.generation = generation ∧ slot.life = .free) ∧
      ∀ pool place, ¬ (pool = id ∧ place = index) →
        next.stored pool place = store.stored pool place := by
  rw [reserve, Option.map_eq_some_iff] at reserved
  obtain ⟨pool, found, taken⟩ := reserved
  obtain ⟨within, _⟩ := List.getElem?_eq_some_iff.mp found
  have elsewhere : ∀ (later : Pool Value) (other : Nat), other ≠ id →
      ({ store with pools := store.pools.set id later } : Store Value).stored other =
        store.stored other := by
    intro later other apart
    funext place
    rw [stored, stored, List.getElem?_set_ne (Ne.symm apart)]
  have here : ∀ (later : Pool Value) (place : Nat),
      ({ store with pools := store.pools.set id later } : Store Value).stored id place =
        later.slots[place]? := by
    intro later place
    rw [stored, List.getElem?_set_self within]
    rfl
  have before : ∀ place, store.stored id place = pool.slots[place]? := by
    intro place
    rw [stored, found]
    rfl
  rw [Pool.reserve] at taken
  cases free : pool.slots.findIdx? (fun slot => slot.life = .free) with
  | none =>
    simp only [free, Prod.mk.injEq] at taken
    obtain ⟨⟨rfl, rfl⟩, rfl⟩ := taken
    refine ⟨?_, ?_, ?_⟩
    · rw [here, List.getElem?_append_right (Nat.le_refl _), Nat.sub_self]
      rfl
    · intro slot present
      rw [before, List.getElem?_eq_none (Nat.le_refl _)] at present
      contradiction
    · intro other place apart
      by_cases same : other = id
      · subst same
        have off : place ≠ pool.slots.length := fun equal => apart ⟨rfl, equal⟩
        rw [here, before, List.getElem?_append]
        split
        · rfl
        · next outside =>
            rw [List.getElem?_eq_none (Nat.le_of_not_lt outside), List.getElem?_eq_none]
            simp only [List.length_singleton]
            omega
      · rw [elsewhere _ other same]
  | some first =>
    obtain ⟨bound, isFree, _⟩ := List.findIdx?_eq_some_iff_getElem.mp free
    have slotAt : pool.slots[first]? = some pool.slots[first] := List.getElem?_eq_getElem bound
    simp only [free, slotAt, Option.elim_some, Prod.mk.injEq] at taken
    obtain ⟨⟨rfl, rfl⟩, rfl⟩ := taken
    refine ⟨?_, ?_, ?_⟩
    · rw [here, List.getElem?_modify_eq, slotAt]
      rfl
    · intro slot present
      rw [before, slotAt, Option.some.injEq] at present
      subst present
      exact ⟨rfl, by simpa using isFree⟩
    · intro other place apart
      by_cases same : other = id
      · subst same
        have off : first ≠ place := fun equal => apart ⟨rfl, equal.symm⟩
        rw [here, before, List.getElem?_modify_ne _ _ off]
      · rw [elsewhere _ other same]

/-- An update through a handle that resolves touches the slot it names. -/
theorem stored_updateSlot (store : Store Value) (id index : Nat) (generation : UInt32)
    (update : PoolSlot Value → PoolSlot Value) (pool place : Nat) :
    (store.updateSlot id index generation update).2.stored pool place =
      (store.stored pool place).map fun slot =>
        if (store.slot id index generation).isSome ∧ pool = id ∧ place = index then update slot
        else slot := by
  rw [updateSlot]
  cases found : store.slot id index generation with
  | none => simp
  | some slot =>
    rw [stored, stored, List.getElem?_modify]
    cases store.pools[pool]? with
    | none => rfl
    | some entry =>
      by_cases same : id = pool
      · subst same
        simp only [Option.map_eq_map, Option.map_some, Option.bind_some, if_true,
          Option.isSome_some, true_and, List.getElem?_modify, eq_comm]
      · simp [same, Ne.symm same]

/-- A wholesale free kills the slots of the pools that lived in the freed regions. -/
theorem stored_free [Inhabited Value] (store : Store Value) (id : RegionId) (pool place : Nat) :
    (store.free id).2.stored pool place = (store.stored pool place).map fun slot =>
        if ∃ found, store.pools[pool]? = some found ∧ found.region ∈ (store.free id).1 then
          slot.kill else slot := by
  rw [stored, stored]
  simp only [free, List.getElem?_map]
  cases found : store.pools[pool]? with
  | none => rfl
  | some entry =>
    simp only [Option.map_some, Option.bind_some, Option.some.injEq, exists_eq_left']
    split
    · rw [List.getElem?_map]
    · rw [Option.map_id']

end Store

namespace Handles

open Store

variable {Value : Type}

/-- Before the first operation. -/
def start : Handles Value := { store := Store.new, issued := [], live := [] }

/-- Perform one operation. A reserve puts the handle it returns into both lists; a removal takes
its handle out of force, and a wholesale free the handles of the pools that lived there. -/
def perform [Inhabited Value] (world : Handles Value) (op : StoreOp Value) : Handles Value :=
  let store := world.store.apply op
  match op with
  | .reserve id =>
    match world.store.reserve id with
    | some ((index, generation), _) =>
      let handle := { pool := id, index, generation }
      { store, issued := world.issued ++ [handle], live := handle :: world.live }
    | none => { world with store }
  | .removeSlot id index generation =>
    { world with store, live := world.live.filter (· ≠ ⟨id, index, generation⟩) }
  | .region (.free id) =>
    let freed := (world.store.free id).1
    { world with
      store
      live := world.live.filter fun handle => ¬ world.store.Anchored freed handle }
  | _ => { world with store }

/-- The machine. -/
def step [Inhabited Value] (world : Handles Value) (op : StoreOp Value) : Option (Handles Value) :=
  some (world.perform op)

/-- Handles are exact: none was returned twice, the ones in force are those that resolve, and a
stale one neither fills nor removes a slot. -/
structure Exact [Inhabited Value] (world : Handles Value) : Prop where
  once : world.issued.Nodup
  resolves : ∀ handle, (world.store.resolve handle).isSome ↔ handle ∈ world.live
  init : ∀ handle value, handle ∉ world.live →
    world.store.initSlot handle.pool handle.index handle.generation value = (false, world.store)
  remove : ∀ handle, handle ∉ world.live →
    world.store.removeSlot handle.pool handle.index handle.generation = (false, world.store)

/-- The last generation a slot can have. -/
def lastGeneration : UInt32 := 4294967295

/-- The operation bumps no generation past the last one. -/
def NoWrap (world : Handles Value) : StoreOp Value → Prop
  | .removeSlot id index generation =>
    (world.store.slot id index generation).isSome → generation ≠ lastGeneration
  | .region (.free id) =>
    ∀ pool ∈ world.store.pools, pool.region ∈ world.store.descendants id →
      (world.store.region pool.region).any freeTouches →
      ∀ slot ∈ pool.slots, slot.generation ≠ lastGeneration
  | _ => True

instance (world : Handles Value) (op : StoreOp Value) : Decidable (world.NoWrap op) := by
  unfold NoWrap
  split <;> infer_instance

/-! ## The invariant -/

/-- Every handle returned was returned once, and its generation is at most the slot's, below it
when the slot is free; the handles in force are those that resolve. -/
structure Kept (world : Handles Value) : Prop where
  once : world.issued.Nodup
  spent : ∀ handle ∈ world.issued, ∃ slot,
    world.store.stored handle.pool handle.index = some slot ∧
      (handle.generation < slot.generation ∨
        handle.generation = slot.generation ∧ slot.life ≠ .free)
  resolves : ∀ handle, (world.store.resolve handle).isSome ↔ handle ∈ world.live

variable {world : Handles Value}

/-- An update through a stale handle is refused and changes nothing. -/
theorem updateSlot_stale {store : Store Value} {handle : Handle}
    (update : PoolSlot Value → PoolSlot Value) (stale : ¬ (store.resolve handle).isSome) :
    store.updateSlot handle.pool handle.index handle.generation update = (false, store) := by
  have missing : store.slot handle.pool handle.index handle.generation = none :=
    Option.not_isSome_iff_eq_none.mp stale
  rw [updateSlot, missing]

theorem Kept.exact [Inhabited Value] (kept : world.Kept) : world.Exact where
  once := kept.once
  resolves := kept.resolves
  init handle _ stale := updateSlot_stale _ fun found => stale ((kept.resolves handle).mp found)
  remove handle stale := updateSlot_stale _ fun found => stale ((kept.resolves handle).mp found)

/-- An operation that moves no slot keeps the invariant. -/
theorem Kept.of_stored (kept : world.Kept) {store : Store Value}
    (same : store.stored = world.store.stored) : Kept { world with store } where
  once := kept.once
  spent handle issued := by
    rw [same]
    exact kept.spent handle issued
  resolves handle := by
    rw [← kept.resolves, isSome_resolve, isSome_resolve, same]

theorem lt_succ_of_ne_last {generation : UInt32} (room : generation ≠ lastGeneration) :
    generation < generation + 1 := by
  have below : generation.toNat ≠ 4294967295 := by
    intro equal
    exact room (UInt32.toNat_inj.mp equal)
  rw [UInt32.lt_iff_toNat_lt, UInt32.toNat_add]
  have bound := generation.toNat_lt
  simp only [UInt32.toNat_one]
  omega

/-- Killing slots, none of them at the last generation, takes out of force the handles that named
them. -/
theorem Kept.kill [Inhabited Value] (kept : world.Kept) {store : Store Value} {live : List Handle}
    (doomed : PoolId → Nat → Prop) [∀ pool index, Decidable (doomed pool index)]
    (room : ∀ pool index slot, doomed pool index →
      world.store.stored pool index = some slot → slot.generation ≠ lastGeneration)
    (killed : ∀ pool index, store.stored pool index =
      (world.store.stored pool index).map fun slot =>
        if doomed pool index then slot.kill else slot) (remain : ∀ handle, handle ∈ live ↔
      handle ∈ world.live ∧ ¬ doomed handle.pool handle.index) :
    Kept { world with store, live } where
  once := kept.once
  spent handle issued := by
    obtain ⟨slot, found, rank⟩ := kept.spent handle issued
    rw [killed, found]
    refine ⟨_, rfl, ?_⟩
    split
    · next dies =>
        have bumped := lt_succ_of_ne_last (room _ _ slot dies found)
        apply Or.inl
        rcases rank with below | ⟨equal, _⟩
        · exact UInt32.lt_trans below bumped
        · rw [equal]
          exact bumped
    · exact rank
  resolves handle := by
    rw [remain, ← kept.resolves, isSome_resolve, isSome_resolve, killed]
    by_cases dies : doomed handle.pool handle.index
    · simp [dies, PoolSlot.kill]
    · simp [dies]

/-- A reserve returns a handle that was never returned and puts it in force. -/
theorem Kept.reserve [Inhabited Value] (kept : world.Kept) {next : Store Value} {id index : Nat}
    {generation : UInt32} (reserved : world.store.reserve id = some ((index, generation), next)) :
    Kept { store := next
           issued := world.issued ++ [⟨id, index, generation⟩]
           live := ⟨id, index, generation⟩ :: world.live } := by
  obtain ⟨taken, wasFree, others⟩ := stored_reserve reserved
  constructor
  · rw [List.nodup_append_comm, List.singleton_append, List.nodup_cons]
    refine ⟨fun issued => ?_, kept.once⟩
    obtain ⟨slot, found, rank⟩ := kept.spent _ issued
    obtain ⟨rfl, free⟩ := wasFree slot found
    rcases rank with below | ⟨_, inUse⟩
    · exact UInt32.lt_irrefl _ below
    · exact inUse free
  · intro handle issued
    rcases List.mem_append.mp issued with earlier | fresh
    · obtain ⟨slot, found, rank⟩ := kept.spent handle earlier
      by_cases same : handle.pool = id ∧ handle.index = index
      · rw [same.1, same.2] at found ⊢
        obtain ⟨rfl, free⟩ := wasFree slot found
        refine ⟨_, taken, .inl ?_⟩
        rcases rank with below | ⟨_, inUse⟩
        · exact below
        · exact absurd free inUse
      · exact ⟨slot, (others _ _ same).trans found, rank⟩
    · rw [List.mem_singleton] at fresh
      subst fresh
      exact ⟨_, taken, .inr ⟨rfl, by simp⟩⟩
  · intro handle
    rw [List.mem_cons, ← kept.resolves, isSome_resolve, isSome_resolve]
    by_cases same : handle.pool = id ∧ handle.index = index
    · obtain ⟨pool, place, generation'⟩ := handle
      obtain ⟨rfl, rfl⟩ := same
      have stale : ∀ slot, world.store.stored pool place = some slot → slot.life = .free :=
        fun slot found => (wasFree slot found).2
      simp only [taken]
      constructor
      · rintro ⟨slot, new, rfl, _⟩
        cases new
        exact .inl rfl
      · rintro (equal | ⟨slot, found, _, inUse⟩)
        · cases equal
          exact ⟨_, rfl, rfl, by simp⟩
        · exact absurd (stale slot found) inUse
    · rw [others _ _ same]
      refine ⟨.inr, ?_⟩
      rintro (equal | found)
      · subst equal
        exact absurd ⟨rfl, rfl⟩ same
      · exact found

section

variable [Inhabited Value] (kept : world.Kept)
include kept

/-- A wholesale free that bumps no generation past the last one keeps the invariant. -/
theorem Kept.free {id : RegionId} (room : world.NoWrap (.region (.free id))) :
    Kept (world.perform (.region (.free id))) := by
  apply kept.kill fun pool _ =>
    ∃ found, world.store.pools[pool]? = some found ∧ found.region ∈ (world.store.free id).1
  · rintro pool index slot ⟨found, entry, freed⟩ present
    rw [stored, entry] at present
    obtain ⟨inside, touched⟩ := (Store.mem_freed _).mp freed
    exact room found (List.mem_of_getElem? entry) (Store.mem_descendants.mpr inside) touched slot
      (List.mem_of_getElem? present)
  · exact stored_free world.store id
  · intro handle
    simp [Anchored]

/-- A removal through a handle that is not of the last generation keeps the invariant. -/
theorem Kept.removeSlot {id index : Nat} {generation : UInt32}
    (room : world.NoWrap (.removeSlot id index generation)) :
    Kept (world.perform (.removeSlot id index generation)) := by
  apply kept.kill fun pool place =>
    (world.store.slot id index generation).isSome ∧ pool = id ∧ place = index
  · rintro _ _ slot ⟨found, rfl, rfl⟩ present
    obtain ⟨slot', present', same, _⟩ := (isSome_resolve _ ⟨_, _, generation⟩).mp found
    obtain rfl := Option.eq_some_unique present present'
    rw [same]
    exact room found
  · exact stored_updateSlot world.store id index generation PoolSlot.kill
  · intro handle
    rw [List.mem_filter, ← kept.resolves]
    refine and_congr_right fun found => ?_
    simp only [ne_eq, decide_not, Bool.not_eq_true', decide_eq_false_iff_not]
    refine not_congr ⟨?_, ?_⟩
    · rintro rfl
      exact ⟨found, rfl, rfl⟩
    · rintro ⟨named, samePool, sameIndex⟩
      obtain ⟨slot, present, same, _⟩ := (isSome_resolve _ _).mp found
      obtain ⟨slot', present', same', _⟩ :=
        (isSome_resolve _ ⟨id, index, generation⟩).mp named
      rw [samePool, sameIndex] at present
      obtain rfl := Option.eq_some_unique present present'
      obtain ⟨_, _, _⟩ := handle
      simp_all

/-- Filling a slot keeps the invariant. -/
theorem Kept.initSlot (id index : Nat) (generation : UInt32) (value : Value) :
    Kept (world.perform (.initSlot id index generation value)) := by
  have filled := stored_updateSlot world.store id index generation
    fun slot => { slot with life := .live, value }
  -- The slot filled was in use, and stays so under the same generation.
  have inUse : ∀ pool place slot, world.store.stored pool place = some slot →
      (world.store.slot id index generation).isSome ∧ pool = id ∧ place = index →
      slot.life ≠ .free := by
    rintro _ _ slot present ⟨found, rfl, rfl⟩
    obtain ⟨slot', present', _, used⟩ := (isSome_resolve _ ⟨_, _, generation⟩).mp found
    obtain rfl := Option.eq_some_unique present present'
    exact used
  constructor
  · exact kept.once
  · intro handle issued
    obtain ⟨slot, present, rank⟩ := kept.spent handle issued
    refine ⟨_, (filled _ _).trans (congrArg _ present), ?_⟩
    dsimp only
    split
    · exact rank.imp_right fun both => ⟨both.1, by simp⟩
    · exact rank
  · intro handle
    refine Iff.trans ?_ (kept.resolves handle)
    rw [isSome_resolve, isSome_resolve]
    change (∃ slot, (world.store.updateSlot _ _ _ _).2.stored _ _ = some slot ∧ _) ↔ _
    rw [filled]
    cases present : world.store.stored handle.pool handle.index with
    | none => simp
    | some slot =>
      have used := inUse _ _ slot present
      simp only [Option.map_some, Option.some.injEq, exists_eq_left']
      split
      · next hit => simp [used hit]
      · rfl

/-- Every operation that bumps no generation past the last one keeps the invariant. -/
theorem Kept.perform {op : StoreOp Value} (room : world.NoWrap op) : Kept (world.perform op) := by
  have quiet : ∀ {store : Store Value}, store.pools = world.store.pools →
      Kept { world with store } := fun same => kept.of_stored (stored_of_pools same)
  have still : ∀ {store : Store Value}, store.granules = world.store.granules →
      Kept { world with store } := fun same => quiet (congrArg Prod.fst same)
  cases op with
  | region op =>
    cases op with
    | free id => exact kept.free room
    | create name strategy cap span | adopt parent child | leave id | claim id claim =>
      exact quiet rfl
    | enter id => exact still (granules_orKeep fun next => granules_enter)
    | freeze id => exact still (granules_freeze world.store id)
  | forceOpen id => exact quiet rfl
  | swapOpen stack => exact quiet rfl
  | charge bytes => exact still (granules_apply_charge world.store bytes)
  | chargeInto id bytes =>
    exact still (granules_orKeep fun _ into => (raised_chargeInto into).granules)
  | chargeGrowth id bytes =>
    exact still (granules_orKeep fun _ into => (raised_chargeGrowth into).granules)
  | newPool elem =>
    apply kept.of_stored
    cases answer : world.store.newPool elem with
    | error breach =>
      rw [apply, answer]
      rfl
    | ok pair =>
      obtain ⟨id, later⟩ := pair
      rw [apply, answer]
      exact stored_newPool answer
  | reserve id =>
    cases answer : world.store.reserve id with
    | none => simpa [Handles.perform, Store.apply, answer] using kept
    | some pair =>
      obtain ⟨⟨index, generation⟩, next⟩ := pair
      simpa [Handles.perform, Store.apply, answer] using kept.reserve answer
  | initSlot id index generation value => exact kept.initSlot id index generation value
  | removeSlot id index generation => exact kept.removeSlot room
  | newCell value span => exact quiet rfl
  | retain id =>
    apply quiet
    rw [apply, retain]
    repeat' split
    all_goals rfl
  | release id =>
    apply quiet
    rw [apply, release]
    split <;> rfl
  | downgrade id =>
    apply quiet
    rw [apply, downgrade]
    split <;> rfl
  | dropWeak id => exact quiet rfl
  | upgrade id =>
    apply quiet
    rw [apply, upgrade]
    repeat' split
    all_goals rfl
  | addStrongEdge source target => exact quiet rfl

end

/-! ## Runs -/

theorem kept_start : Kept (start : Handles Value) where
  once := List.nodup_nil
  spent handle issued := absurd issued List.not_mem_nil
  resolves handle := by
    rw [isSome_resolve]
    simp [stored, start, Store.new, Store.create]

/-- In a run that bumps no generation past the last one, handles are exact in every state. -/
theorem handles_exact [Inhabited Value] {ops : List (StoreOp Value)}
    (guarded : Execution.Guarded step NoWrap start ops) :
    Execution.Always step Exact start ops := by
  have kept : Execution.Always step Kept start ops := by
    apply Execution.always_of_guarded Kept NoWrap kept_start _ guarded
    intro world op next kept room performed
    rw [← Option.some.inj performed]
    exact kept.perform room
  intro front rest world split run
  exact (kept front rest world split run).exact

theorem handles_exact_reused : Execution.Always step Exact (start : Handles Unit)
    [.newPool "Node", .reserve 0, .removeSlot 0 0 0, .reserve 0, .region (.free 0)] :=
  handles_exact (by decide)

/-- Reserve and remove the one slot of a fresh pool `count` times. -/
def cycles : Nat → List (StoreOp Value)
  | 0 => [.newPool "Node"]
  | count + 1 => cycles count ++ [.reserve 0, .removeSlot 0 0 (UInt32.ofNat count)]

/-- After `count` cycles the slot is free at generation `count`, modulo the width. -/
theorem exec_cycles [Inhabited Value] (count : Nat) :
    ∃ world : Handles Value, Execution.exec step start (cycles count) = some world ∧
      (∃ region slots, world.store.pools = [⟨0, region, "Node", slots⟩] ∧
        (slots = [] ∧ count = 0 ∨ slots = [⟨UInt32.ofNat count, .free, default⟩])) ∧
      world.issued = (List.range count).map fun turn => ⟨0, 0, UInt32.ofNat turn⟩ := by
  induction count with
  | zero => exact ⟨_, rfl, ⟨_, _, rfl, .inl ⟨rfl, rfl⟩⟩, rfl⟩
  | succ count induction =>
    obtain ⟨world, run, ⟨region, slots, pools, shape⟩, issued⟩ := induction
    have reserved : ∃ next, world.store.reserve 0 = some ((0, UInt32.ofNat count), next) ∧
        next.pools = [⟨0, region, "Node", [⟨UInt32.ofNat count, .reserved, default⟩]⟩] := by
      obtain ⟨rfl, rfl⟩ | rfl := shape
      · simp [Store.reserve, pools, Pool.reserve]
      · simp [Store.reserve, pools, Pool.reserve]
    obtain ⟨next, taken, nextPools⟩ := reserved
    rw [cycles, Execution.exec_append, run, Option.bind_some]
    refine ⟨_, rfl, ⟨region, _, ?_, .inr rfl⟩, ?_⟩
    · simp only [perform, Store.apply, taken, Option.elim_some]
      have found : next.slot 0 0 (UInt32.ofNat count) =
          some ⟨UInt32.ofNat count, .reserved, default⟩ := by
        simp [slot, nextPools, Option.filter]
      rw [Store.removeSlot, updateSlot, found]
      simp [nextPools, PoolSlot.kill, UInt32.ofNat_add]
    · simp only [perform, taken]
      rw [issued, List.range_succ, List.map_append, List.map_singleton]

/-- The generation of a slot reserved and removed 2^32 times is zero again, and so is the handle
the next reserve returns. -/
theorem handles_not_exact :
    ¬ ∀ ops : List (StoreOp Unit), Execution.Always step Exact start ops := by
  intro always
  have run : ∃ world : Handles Unit, _ := exec_cycles 4294967296
  obtain ⟨world, run, ⟨region, slots, pools, shape⟩, issued⟩ := run
  obtain ⟨rfl, impossible⟩ | rfl := shape
  · exact absurd impossible (by omega)
  · have exact := always (cycles 4294967296 ++ [.reserve 0]) _ [] _ (List.append_nil _).symm
      (Execution.exec_snoc_eq_some.mpr ⟨world, run, rfl⟩)
    obtain ⟨next, reserved⟩ : ∃ next,
        world.store.reserve 0 = some ((0, UInt32.ofNat 4294967296), next) := by
      rw [Store.reserve, pools]
      exact ⟨_, rfl⟩
    have once := exact.once
    simp only [perform, reserved] at once
    have first : (⟨0, 0, 0⟩ : Handle) ∈ world.issued := by
      rw [issued]
      exact List.mem_map.mpr ⟨0, List.mem_range.mpr (by omega), rfl⟩
    exact List.disjoint_of_nodup_append once first (List.mem_singleton.mpr rfl)

end Handles

end WolfInterp
