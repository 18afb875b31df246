import WolfInterp.Eval.Spills

/-!
# Materialized copies

The copy that leaves a region is rebuilt from its leaves: every text, list, map and struct of it is
allocated anew in one destination, which pays for each, and a part that cannot be rebuilt is a
fault. The copy of a `copy region` block is made in the region that the block was entered from,
while the block's own region is still live.
-/

namespace WolfInterp.Eval

open WolfInterp.Lex (Text)

/-! ## Parts -/

namespace Value

/-- The values right inside a value, keys before what they are mapped to. -/
def parts : Value → List Value
  | tuple items => items.map Slot.value
  | struct _ fields _ => fields.map fun entry => entry.2.value
  | list items _ _ _ => items.map Slot.value
  | map pairs _ => pairs.flatMap fun entry => [entry.1, entry.2.value]
  | error _ payload _ _ => payload
  | _ => []

theorem sizeOf_slot {slot : Slot Value} {items : List (Slot Value)} (among : slot ∈ items) :
    sizeOf slot.value < sizeOf items := by
  have inside := List.sizeOf_lt_of_mem among
  have below : sizeOf slot.value < sizeOf slot := by
    obtain ⟨state, value⟩ := slot
    rw [Slot.mk.sizeOf_spec]
    dsimp only
    omega
  omega

theorem sizeOf_part {value part : Value} (among : part ∈ value.parts) :
    sizeOf part < sizeOf value := by
  cases value with
  | tuple items =>
    obtain ⟨slot, inside, rfl⟩ := List.mem_map.mp among
    have below := sizeOf_slot inside
    rw [tuple.sizeOf_spec]
    omega
  | list items capacity elem home =>
    obtain ⟨slot, inside, rfl⟩ := List.mem_map.mp among
    have below := sizeOf_slot inside
    rw [list.sizeOf_spec]
    omega
  | struct name fields home =>
    obtain ⟨entry, inside, rfl⟩ := List.mem_map.mp among
    have below := List.sizeOf_lt_of_mem inside
    obtain ⟨field, state, part⟩ := entry
    rw [struct.sizeOf_spec]
    simp only [Prod.mk.sizeOf_spec, Slot.mk.sizeOf_spec] at below ⊢
    omega
  | map pairs home =>
    obtain ⟨entry, inside, isPart⟩ := List.mem_flatMap.mp among
    have below := List.sizeOf_lt_of_mem inside
    obtain ⟨key, state, part⟩ := entry
    rw [map.sizeOf_spec]
    simp only [Prod.mk.sizeOf_spec, Slot.mk.sizeOf_spec, List.mem_cons, List.not_mem_nil,
      or_false] at below isPart
    rcases isPart with rfl | rfl
    · omega
    · omega
  | error tag payload enumVariant row =>
    have below := List.sizeOf_lt_of_mem (show part ∈ payload from among)
    rw [error.sizeOf_spec]
    omega
  | _ => cases among

/-- What holds of a value when it holds of its parts holds of every value. -/
theorem induction_on_parts {motive : Value → Prop}
    (step : ∀ value : Value, (∀ part ∈ value.parts, motive part) → motive value) (value : Value) :
    motive value := by
  induction size : sizeOf value using Nat.strong_induction_on generalizing value with
  | _ size induction =>
    refine step value fun part among => induction (sizeOf part) ?_ part rfl
    rw [← size]
    exact sizeOf_part among

end Value

/-- A part of a value at any depth, the value itself included. -/
def PartOf (part value : Value) : Prop :=
  Relation.ReflTransGen (fun inner outer : Value => inner ∈ outer.parts) part value

theorem partOf_iff {part value : Value} :
    PartOf part value ↔ part = value ∨ ∃ inner ∈ value.parts, PartOf part inner := by
  rw [PartOf, Relation.ReflTransGen.cases_tail_iff, eq_comm]
  exact or_congr Iff.rfl ⟨fun ⟨inner, inside, among⟩ => ⟨inner, among, inside⟩,
    fun ⟨inner, among, inside⟩ => ⟨inner, inside, among⟩⟩

mutual

/-- `scalar_only`: the value reaches no storage. -/
def scalarOnly : Value → Bool
  | .unit | .bool _ | .int _ _ | .float _ | .char _ | .byte _ => true
  | .tuple items => scalarItems items
  | .struct _ fields _ => scalarFields fields
  | .error _ payload enumVariant _ => enumVariant && scalarPayload payload
  | _ => false

def scalarItems : List (Slot Value) → Bool
  | [] => true
  | ⟨_, value⟩ :: rest => scalarOnly value && scalarItems rest

/-- `fields_scalar_only`. -/
def scalarFields : List (Text × Slot Value) → Bool
  | [] => true
  | (_, ⟨_, value⟩) :: rest => scalarOnly value && scalarFields rest

def scalarPayload : List Value → Bool
  | [] => true
  | value :: rest => scalarOnly value && scalarPayload rest

end

/-! ## The copy -/

/-- Allocate in a named region. -/
def allocateInto (into : RegionId) (span : Span) (bytes : Nat) : M RegionId := do
  checkHomeWrite (some into) span
  let machine ← M.get
  match machine.store.chargeInto into bytes with
  | .ok store =>
    M.modify fun machine => { machine with store }
    pure into
  | .error breach => capBreach breach span

mutual

/-- The copy of a value with its storage allocated in one region. -/
def materialize (into : RegionId) (span : Span) : Value → M Value
  | .str text _ => do
    let _ ← allocateInto into span (Ledger.containerBytes (Lex.bytes text))
    pure (.str text (some into))
  | .list items _ elem _ => do
    let copied ← materializeItems into span items
    let home ← allocateInto into span (Ledger.containerBytes copied.length)
    pure (.list copied (Ledger.slotCapacity copied.length) elem (some home))
  | .struct name fields _ => do
    let copied ← materializeFields into span fields
    let home ← allocateInto into span (Ledger.allocBytes copied.length)
    pure (.struct name copied (if scalarFields copied then none else some home))
  | .tuple items => do
    let copied ← materializeItems into span items
    pure (.tuple copied)
  | .map pairs _ => do
    let copied ← materializePairs into span pairs
    let _ ← allocateInto into span (Ledger.containerBytes copied.length)
    pure (.map copied (some into))
  | .error tag payload enumVariant row => do
    let copied ← materializePayload into span payload
    pure (.error tag copied enumVariant row)
  | .unit => pure .unit
  | .bool value => pure (.bool value)
  | .int value ty => pure (.int value ty)
  | .float bits => pure (.float bits)
  | .char value => pure (.char value)
  | .byte value => pure (.byte value)
  | .range start stop elem => pure (.range start stop elem)
  | .handle pool index generation => pure (.handle pool index generation)
  | .duration ticks => pure (.duration ticks)
  | .fn _ | .closure _ _ _ _ _ _ | .module _ | .builtin _ | .region _ _ | .poolRef _ | .shared _
  | .weak _ | .raw _ | .scope _ | .chan _ | .mutexRef _ | .proc _ => regionFault span none

def materializeItems (into : RegionId) (span : Span) :
    List (Slot Value) → M (List (Slot Value))
  | [] => pure []
  | ⟨state, value⟩ :: rest => do
    let copy ← materialize into span value
    let copied ← materializeItems into span rest
    pure (⟨state, copy⟩ :: copied)

def materializeFields (into : RegionId) (span : Span) :
    List (Text × Slot Value) → M (List (Text × Slot Value))
  | [] => pure []
  | (field, ⟨state, value⟩) :: rest => do
    let copy ← materialize into span value
    let copied ← materializeFields into span rest
    pure ((field, ⟨state, copy⟩) :: copied)

def materializePairs (into : RegionId) (span : Span) :
    List (Value × Slot Value) → M (List (Value × Slot Value))
  | [] => pure []
  | (key, ⟨state, value⟩) :: rest => do
    let key ← materialize into span key
    let copy ← materialize into span value
    let copied ← materializePairs into span rest
    pure ((key, ⟨state, copy⟩) :: copied)

def materializePayload (into : RegionId) (span : Span) : List Value → M (List Value)
  | [] => pure []
  | value :: rest => do
    let copy ← materialize into span value
    let copied ← materializePayload into span rest
    pure (copy :: copied)

end

/-- The copy `copy region` hands out is made in the current region. -/
def copyOut (value : Value) (span : Span) : M Value := do
  let machine ← M.get
  materialize machine.store.current span value

/-- The value that leaves a block: its own, or the one that a `return` carries. -/
def leaving : Except Signal Value → Option Value
  | .ok value => some value
  | .error (.return_ value) => some value
  | .error _ => none

/-- The block's own value is copied out; what leaves another way is not. -/
def copyResult (result : Except Signal Value) (span : Span) : M (Except Signal Value) :=
  match result with
  | .ok value => M.attempt (copyOut value span)
  | .error signal => pure (.error signal)

/-- Free a block's region, and refuse a value that lies in what was freed. -/
def freeBlock (block : RegionId) (result : Except Signal Value) (span : Span) : M Value := do
  let machine ← M.get
  let (freed, store) := machine.store.free block
  M.modify fun machine => { machine with store }
  match (leaving result).bind Value.home with
  | some home => if home ∈ freed then regionFreedFault home span else M.ofExcept result
  | none => M.ofExcept result

/-- The end of a `copy region` block that has run to a result. -/
def closeCopyRegion (block : RegionId) (result : Except Signal Value) (span : Span) : M Value := do
  M.modify fun machine => { machine with store := machine.store.leave block }
  let result ← copyResult result span
  freeBlock block result span

/-! ## What the copy is and what it costs -/

mutual

/-- A value with its storage in one region. -/
def rehomed (into : RegionId) : Value → Value
  | .str text _ => .str text (some into)
  | .list items _ elem _ =>
    .list (rehomedItems into items) (Ledger.slotCapacity items.length) elem (some into)
  | .struct name fields _ =>
    .struct name (rehomedFields into fields)
      (if scalarFields (rehomedFields into fields) then none else some into)
  | .tuple items => .tuple (rehomedItems into items)
  | .map pairs _ => .map (rehomedPairs into pairs) (some into)
  | .error tag payload enumVariant row => .error tag (rehomedPayload into payload) enumVariant row
  | value => value

def rehomedItems (into : RegionId) : List (Slot Value) → List (Slot Value)
  | [] => []
  | ⟨state, value⟩ :: rest => ⟨state, rehomed into value⟩ :: rehomedItems into rest

def rehomedFields (into : RegionId) : List (Text × Slot Value) → List (Text × Slot Value)
  | [] => []
  | (field, ⟨state, value⟩) :: rest =>
    (field, ⟨state, rehomed into value⟩) :: rehomedFields into rest

def rehomedPairs (into : RegionId) : List (Value × Slot Value) → List (Value × Slot Value)
  | [] => []
  | (key, ⟨state, value⟩) :: rest =>
    (rehomed into key, ⟨state, rehomed into value⟩) :: rehomedPairs into rest

def rehomedPayload (into : RegionId) : List Value → List Value
  | [] => []
  | value :: rest => rehomed into value :: rehomedPayload into rest

end

section Shapes

variable (into : RegionId)

theorem rehomedItems_eq (items : List (Slot Value)) :
    rehomedItems into items = items.map fun slot => ⟨slot.state, rehomed into slot.value⟩ := by
  induction items with
  | nil => rfl
  | cons slot rest induction => rw [rehomedItems, induction, List.map_cons]

theorem rehomedFields_eq (fields : List (Text × Slot Value)) : rehomedFields into fields =
      fields.map fun entry => (entry.1, ⟨entry.2.state, rehomed into entry.2.value⟩) := by
  induction fields with
  | nil => rfl
  | cons entry rest induction => rw [rehomedFields, induction, List.map_cons]

theorem rehomedPairs_eq (pairs : List (Value × Slot Value)) :
    rehomedPairs into pairs = pairs.map fun entry =>
      (rehomed into entry.1, ⟨entry.2.state, rehomed into entry.2.value⟩) := by
  induction pairs with
  | nil => rfl
  | cons entry rest induction => rw [rehomedPairs, induction, List.map_cons]

theorem rehomedPayload_eq (payload : List Value) :
    rehomedPayload into payload = payload.map (rehomed into) := by
  induction payload with
  | nil => rfl
  | cons value rest induction => rw [rehomedPayload, induction, List.map_cons]

/-- The parts of a copy are the copies of the parts. -/
theorem parts_rehomed (value : Value) :
    (rehomed into value).parts = value.parts.map (rehomed into) := by
  cases value with
  | tuple items | list items => simp [rehomed, Value.parts, rehomedItems_eq]
  | struct name fields home => simp [rehomed, Value.parts, rehomedFields_eq]
  | map pairs home =>
    simp [rehomed, Value.parts, rehomedPairs_eq, List.flatMap_map, List.map_flatMap]
  | error tag payload enumVariant row => simp [rehomed, Value.parts, rehomedPayload_eq]
  | _ => rfl

end Shapes

/-- A value that holds storage of its own: a text, a list, a map, or a struct with storage in it. -/
def Value.stores : Value → Bool
  | str _ _ | list _ _ _ _ | map _ _ => true
  | struct _ fields _ => !scalarFields fields
  | _ => false

/-- Every part of a copy that holds storage is homed in the one region, and no other part is. -/
theorem home_rehomed (into : RegionId) (value : Value) : ∀ part, PartOf part (rehomed into value) →
    part.home = if part.stores then some into else none := by
  induction value using Value.induction_on_parts with
  | step value induction =>
    intro part inside
    rcases partOf_iff.mp inside with rfl | ⟨inner, among, inside⟩
    · cases value with
      | struct name fields home =>
        rw [rehomed, Value.home, Value.stores]
        cases scalarFields (rehomedFields into fields) <;> rfl
      | _ => rfl
    · rw [parts_rehomed] at among
      obtain ⟨before, member, rfl⟩ := List.mem_map.mp among
      exact induction before member part inside

mutual

/-- A value without the homes and the capacities of its storage. -/
def homeless : Value → Value
  | .str text _ => .str text none
  | .list items _ elem _ => .list (homelessItems items) 0 elem none
  | .struct name fields _ => .struct name (homelessFields fields) none
  | .tuple items => .tuple (homelessItems items)
  | .map pairs _ => .map (homelessPairs pairs) none
  | .error tag payload enumVariant row => .error tag (homelessPayload payload) enumVariant row
  | value => value

def homelessItems : List (Slot Value) → List (Slot Value)
  | [] => []
  | ⟨state, value⟩ :: rest => ⟨state, homeless value⟩ :: homelessItems rest

def homelessFields : List (Text × Slot Value) → List (Text × Slot Value)
  | [] => []
  | (field, ⟨state, value⟩) :: rest => (field, ⟨state, homeless value⟩) :: homelessFields rest

def homelessPairs : List (Value × Slot Value) → List (Value × Slot Value)
  | [] => []
  | (key, ⟨state, value⟩) :: rest =>
    (homeless key, ⟨state, homeless value⟩) :: homelessPairs rest

def homelessPayload : List Value → List Value
  | [] => []
  | value :: rest => homeless value :: homelessPayload rest

end

mutual

/-- A copy is its value but for homes and capacities, slot states included. -/
theorem homeless_rehomed (into : RegionId) :
    ∀ value : Value, homeless (rehomed into value) = homeless value
  | .tuple items => by rw [rehomed, homeless, homeless, homelessItems_rehomed into items]
  | .list items _ _ _ => by rw [rehomed, homeless, homeless, homelessItems_rehomed into items]
  | .struct _ fields _ => by rw [rehomed, homeless, homeless, homelessFields_rehomed into fields]
  | .map pairs _ => by rw [rehomed, homeless, homeless, homelessPairs_rehomed into pairs]
  | .error _ payload _ _ => by
    rw [rehomed, homeless, homeless, homelessPayload_rehomed into payload]
  | .str _ _ | .unit | .bool _ | .int _ _ | .float _ | .char _ | .byte _ | .range _ _ _ => rfl
  | .fn _ | .closure _ _ _ _ _ _ | .module _ | .builtin _ | .region _ _ | .poolRef _ => rfl
  | .handle _ _ _ | .shared _ | .weak _ | .raw _ | .scope _ | .chan _ | .mutexRef _ => rfl
  | .proc _ | .duration _ => rfl

theorem homelessItems_rehomed (into : RegionId) : ∀ items : List (Slot Value),
    homelessItems (rehomedItems into items) = homelessItems items
  | [] => rfl
  | ⟨_, value⟩ :: rest => by
    rw [rehomedItems, homelessItems, homelessItems, homeless_rehomed into value,
      homelessItems_rehomed into rest]

theorem homelessFields_rehomed (into : RegionId) : ∀ fields : List (Text × Slot Value),
    homelessFields (rehomedFields into fields) = homelessFields fields
  | [] => rfl
  | (_, ⟨_, value⟩) :: rest => by
    rw [rehomedFields, homelessFields, homelessFields, homeless_rehomed into value,
      homelessFields_rehomed into rest]

theorem homelessPairs_rehomed (into : RegionId) : ∀ pairs : List (Value × Slot Value),
    homelessPairs (rehomedPairs into pairs) = homelessPairs pairs
  | [] => rfl
  | (key, ⟨_, value⟩) :: rest => by
    rw [rehomedPairs, homelessPairs, homelessPairs, homeless_rehomed into key,
      homeless_rehomed into value, homelessPairs_rehomed into rest]

theorem homelessPayload_rehomed (into : RegionId) : ∀ payload : List Value,
    homelessPayload (rehomedPayload into payload) = homelessPayload payload
  | [] => rfl
  | value :: rest => by
    rw [rehomedPayload, homelessPayload, homelessPayload, homeless_rehomed into value,
      homelessPayload_rehomed into rest]

end

/-- What the storage right at a value costs. -/
def ownCost : Value → List Nat
  | .str text _ => [Ledger.containerBytes (Lex.bytes text)]
  | .list items _ _ _ => [Ledger.containerBytes items.length]
  | .map pairs _ => [Ledger.containerBytes pairs.length]
  | .struct _ fields _ => [Ledger.allocBytes fields.length]
  | _ => []

mutual

/-- What the storage of a value costs, part by part. -/
def costs : Value → List Nat
  | .str text home => ownCost (.str text home)
  | .list items capacity elem home => costsItems items ++ ownCost (.list items capacity elem home)
  | .struct name fields home => costsFields fields ++ ownCost (.struct name fields home)
  | .tuple items => costsItems items
  | .map pairs home => costsPairs pairs ++ ownCost (.map pairs home)
  | .error _ payload _ _ => costsPayload payload
  | _ => []

def costsItems : List (Slot Value) → List Nat
  | [] => []
  | ⟨_, value⟩ :: rest => costs value ++ costsItems rest

def costsFields : List (Text × Slot Value) → List Nat
  | [] => []
  | (_, ⟨_, value⟩) :: rest => costs value ++ costsFields rest

def costsPairs : List (Value × Slot Value) → List Nat
  | [] => []
  | (key, ⟨_, value⟩) :: rest => costs key ++ (costs value ++ costsPairs rest)

def costsPayload : List Value → List Nat
  | [] => []
  | value :: rest => costs value ++ costsPayload rest

end

/-- A value that names something no copy is independent of. -/
def Value.bound : Value → Bool
  | fn _ | closure _ _ _ _ _ _ | module _ | builtin _ | region _ _ | poolRef _ | shared _ | weak _
  | raw _ | scope _ | chan _ | mutexRef _ | proc _ => true
  | _ => false

/-- Every part has a copy of its own. -/
def Copyable (value : Value) : Prop := ∀ part, PartOf part value → part.bound = false

theorem copyable_iff {value : Value} :
    Copyable value ↔ value.bound = false ∧ ∀ part ∈ value.parts, Copyable part := by
  constructor
  · intro copyable
    refine ⟨copyable value .refl, fun part among inner inside => copyable inner ?_⟩
    exact partOf_iff.mpr (.inr ⟨part, among, inside⟩)
  · rintro ⟨own, inner⟩ part inside
    rcases partOf_iff.mp inside with rfl | ⟨first, among, inside⟩
    · exact own
    · exact inner first among part inside

/-! ## Charges -/

section Charges

variable (into : RegionId)

/-- The region takes the charges one after the other. -/
def Paid : List Nat → Store Value → Store Value → Prop
  | [], store, after => after = store
  | cost :: rest, store, after =>
    HomeOpen store (some into) ∧
      ∃ next, store.chargeInto into cost = .ok next ∧ Paid rest next after

/-- The region refuses one of the charges. -/
def Unpaid : List Nat → Store Value → Prop
  | [], _ => False
  | cost :: rest, store =>
    ¬ HomeOpen store (some into) ∨ (∃ breach, store.chargeInto into cost = .error breach) ∨
      ∃ next, store.chargeInto into cost = .ok next ∧ Unpaid rest next

variable {into}

variable {front : List Nat}

theorem paid_append {back : List Nat} {store after : Store Value} :
    Paid into (front ++ back) store after ↔
      ∃ middle, Paid into front store middle ∧ Paid into back middle after := by
  induction front generalizing store with
  | nil =>
    constructor
    · exact fun paid => ⟨store, rfl, paid⟩
    · rintro ⟨_, rfl, paid⟩
      exact paid
  | cons cost front induction =>
    rw [List.cons_append, Paid]
    constructor
    · rintro ⟨open_, next, charged, paid⟩
      obtain ⟨middle, first, second⟩ := induction.mp paid
      exact ⟨middle, ⟨open_, next, charged, first⟩, second⟩
    · rintro ⟨middle, ⟨open_, next, charged, first⟩, second⟩
      exact ⟨open_, next, charged, induction.mpr ⟨middle, first, second⟩⟩

theorem unpaid_append_left (back : List Nat) {store : Store Value}
    (unpaid : Unpaid into front store) : Unpaid into (front ++ back) store := by
  induction front generalizing store with
  | nil => exact unpaid.elim
  | cons cost front induction =>
    rcases unpaid with shut | breach | ⟨next, charged, unpaid⟩
    · exact .inl shut
    · exact .inr (.inl breach)
    · exact .inr (.inr ⟨next, charged, induction unpaid⟩)

theorem unpaid_append_right {back : List Nat} {store middle : Store Value}
    (paid : Paid into front store middle) (unpaid : Unpaid into back middle) :
    Unpaid into (front ++ back) store := by
  induction front generalizing store with
  | nil =>
    obtain rfl : middle = store := paid
    exact unpaid
  | cons cost front induction =>
    obtain ⟨-, next, charged, paid⟩ := paid
    exact .inr (.inr ⟨next, charged, induction paid⟩)

end Charges

/-! ## Commands that copy -/

/-- The command makes the copy and the region pays for it, or it traps since the value has no copy
or the region refuses to pay. -/
def Rebuilds {α : Type} (into : RegionId) (command : M α) (costs : List Nat) (copyable : Prop)
    (copy : α) : Prop :=
  ∀ machine,
    (∃ store, command machine = (.ok copy, { machine with store }) ∧ copyable ∧
        Paid into costs machine.store store) ∨
      ∃ trap store, command machine = (.error (.trap trap), { machine with store }) ∧
        (¬ copyable ∨ Unpaid into costs machine.store)

section Rebuilds

variable {α β : Type} {into : RegionId} {span : Span}

theorem rebuilds_pure (value : α) : Rebuilds into (pure value) [] True value :=
  fun machine => .inl ⟨machine.store, rfl, trivial, rfl⟩

variable {command : M α} {copyable : Prop} {value : α}

theorem Rebuilds.bind {next : α → M β} {first second : List Nat} {copyable' : Prop} {result : β}
    (made : Rebuilds into command first copyable value)
    (later : Rebuilds into (next value) second copyable' result) :
    Rebuilds into (command >>= next) (first ++ second) (copyable ∧ copyable') result := by
  intro machine
  rcases made machine with ⟨middle, ran, own, paid⟩ | ⟨trap, middle, ran, why⟩
  · rcases later { machine with store := middle } with ⟨store, ran', own', paid'⟩ |
      ⟨trap, store, ran', why⟩
    · refine .inl ⟨store, ?_, ⟨own, own'⟩, paid_append.mpr ⟨middle, paid, paid'⟩⟩
      rw [M.bind_run, ran]
      exact ran'
    · refine .inr ⟨trap, store, ?_, ?_⟩
      · rw [M.bind_run, ran]
        exact ran'
      · exact why.imp (fun not both => not both.2) (unpaid_append_right paid)
  · refine .inr ⟨trap, middle, ?_, ?_⟩
    · rw [M.bind_run, ran]
    · exact why.imp (fun not both => not both.1) (unpaid_append_left second)

section

variable {costs : List Nat} (made : Rebuilds into command costs copyable value)
include made

/-- The last step of a copy puts the parts together. -/
theorem Rebuilds.map (shape : α → β) :
    Rebuilds into (command >>= fun value => pure (shape value)) costs copyable (shape value) := by
  have both : Rebuilds into (command >>= fun value => pure (shape value)) (costs ++ [])
      (copyable ∧ True) (shape value) := made.bind (rebuilds_pure (shape value))
  rwa [List.append_nil, and_true] at both

theorem Rebuilds.congr {costs' : List Nat} {copyable' : Prop} (same : costs = costs')
    (iff : copyable ↔ copyable') : Rebuilds into command costs' copyable' value := by
  rw [← same, ← propext iff]
  exact made

theorem Rebuilds.recast {value' : α} (same : value' = value) :
    Rebuilds into command costs copyable value' := same ▸ made

end

theorem rebuilds_allocateInto (bytes : Nat) :
    Rebuilds into (allocateInto into span bytes) [bytes] True into := by
  intro machine
  rw [allocateInto, M.bind_run]
  rcases checkHomeWrite_cases (some into) span machine with ⟨open_, passed⟩ | ⟨shut, trap, stopped⟩
  · rw [passed]
    simp only [M.bind_run, M.get_run]
    cases charged : machine.store.chargeInto into bytes with
    | ok store => exact .inl ⟨store, rfl, trivial, open_, store, charged, rfl⟩
    | error breach =>
      exact .inr ⟨_, machine.store, rfl, .inr (.inr (.inl ⟨breach, charged⟩))⟩
  · rw [stopped]
    exact .inr ⟨trap, machine.store, rfl, .inr (.inl shut)⟩

/-- A container's parts are copied before its own storage is allocated. -/
theorem Rebuilds.allocated {costs : List Nat} (made : Rebuilds into command costs copyable value)
    (bytes : α → Nat) (shape : α → RegionId → β) :
    Rebuilds into (command >>= fun copied => allocateInto into span (bytes copied) >>= fun home =>
      pure (shape copied home)) (costs ++ [bytes value]) copyable (shape value into) := by
  have both : Rebuilds into (command >>= fun copied => allocateInto into span (bytes copied) >>=
      fun home => pure (shape copied home)) (costs ++ [bytes value]) (copyable ∧ True)
      (shape value into) :=
    made.bind ((rebuilds_allocateInto (bytes value)).map (shape value))
  rwa [and_true] at both

/-- The copy of one value, as `materialize` is to make it. -/
def Materializes (into : RegionId) (span : Span) (value : Value) : Prop :=
  Rebuilds into (materialize into span value) (costs value) (Copyable value) (rehomed into value)

theorem rebuilds_items {items : List (Slot Value)}
    (each : ∀ slot ∈ items, Materializes into span slot.value) :
    Rebuilds into (materializeItems into span items) (costsItems items)
      (∀ slot ∈ items, Copyable slot.value) (rehomedItems into items) := by
  induction items with
  | nil => exact (rebuilds_pure []).congr rfl (by simp)
  | cons slot rest induction =>
    obtain ⟨state, value⟩ := slot
    rw [List.forall_mem_cons] at each
    rw [materializeItems, costsItems, rehomedItems]
    refine (each.1.bind ((induction each.2).map fun copied =>
      ⟨state, rehomed into value⟩ :: copied)).congr rfl ?_
    rw [List.forall_mem_cons]

theorem rebuilds_fields {fields : List (Text × Slot Value)}
    (each : ∀ entry ∈ fields, Materializes into span entry.2.value) :
    Rebuilds into (materializeFields into span fields) (costsFields fields)
      (∀ entry ∈ fields, Copyable entry.2.value) (rehomedFields into fields) := by
  induction fields with
  | nil => exact (rebuilds_pure []).congr rfl (by simp)
  | cons entry rest induction =>
    obtain ⟨field, state, value⟩ := entry
    rw [List.forall_mem_cons] at each
    rw [materializeFields, costsFields, rehomedFields]
    refine (each.1.bind ((induction each.2).map fun copied =>
      (field, ⟨state, rehomed into value⟩) :: copied)).congr rfl ?_
    rw [List.forall_mem_cons]

theorem rebuilds_pairs {pairs : List (Value × Slot Value)} (each : ∀ entry ∈ pairs,
      Materializes into span entry.1 ∧ Materializes into span entry.2.value) :
    Rebuilds into (materializePairs into span pairs) (costsPairs pairs)
      (∀ entry ∈ pairs, Copyable entry.1 ∧ Copyable entry.2.value) (rehomedPairs into pairs) := by
  induction pairs with
  | nil => exact (rebuilds_pure []).congr rfl (by simp)
  | cons entry rest induction =>
    obtain ⟨key, state, value⟩ := entry
    rw [List.forall_mem_cons] at each
    rw [materializePairs, costsPairs, rehomedPairs]
    refine (each.1.1.bind (each.1.2.bind ((induction each.2).map fun copied =>
      (rehomed into key, ⟨state, rehomed into value⟩) :: copied))).congr rfl ?_
    rw [List.forall_mem_cons, and_assoc]

theorem rebuilds_payload {payload : List Value}
    (each : ∀ part ∈ payload, Materializes into span part) :
    Rebuilds into (materializePayload into span payload) (costsPayload payload)
      (∀ part ∈ payload, Copyable part) (rehomedPayload into payload) := by
  induction payload with
  | nil => exact (rebuilds_pure []).congr rfl (by simp)
  | cons value rest induction =>
    rw [List.forall_mem_cons] at each
    rw [materializePayload, costsPayload, rehomedPayload]
    refine (each.1.bind ((induction each.2).map fun copied =>
      rehomed into value :: copied)).congr rfl ?_
    rw [List.forall_mem_cons]

/-- A value that is a leaf and bound to nothing is its own copy and costs nothing. -/
theorem materializes_plain {value : Value} (runs : materialize into span value = pure value)
    (free : costs value = []) (own : value.bound = false) (leaf : value.parts = [])
    (same : rehomed into value = value) : Materializes into span value := by
  rw [Materializes, runs, free, same]
  refine (rebuilds_pure value).congr rfl (iff_of_true trivial ?_)
  exact copyable_iff.mpr ⟨own, by simp [leaf]⟩

/-- A value that names what no copy is independent of is a fault. -/
theorem materializes_bound {value : Value}
    (runs : materialize into span value = regionFault span none) (bound : value.bound = true) :
    Materializes into span value := by
  intro machine
  rw [runs]
  refine .inr ⟨_, machine.store, rfl, .inl fun copyable => ?_⟩
  rw [(copyable_iff.mp copyable).1] at bound
  cases bound

theorem materializes (into : RegionId) (span : Span) (value : Value) :
    Materializes into span value := by
  induction value using Value.induction_on_parts with
  | step value induction =>
    have inner : Copyable value ↔ value.bound = false ∧ ∀ part ∈ value.parts, Copyable part :=
      copyable_iff
    cases value with
    | str text home =>
      refine ((rebuilds_allocateInto (Ledger.containerBytes (Lex.bytes text))).map fun _ =>
        Value.str text (some into)).congr rfl (iff_of_true trivial ?_)
      exact inner.mpr ⟨rfl, nofun⟩
    | tuple items =>
      have each := rebuilds_items fun slot among =>
        induction slot.value (List.mem_map_of_mem among)
      refine (each.map Value.tuple).congr rfl ?_
      rw [inner]
      simp [Value.bound, Value.parts]
    | list items capacity elem home =>
      have each := rebuilds_items fun slot among =>
        induction slot.value (List.mem_map_of_mem among)
      refine (each.allocated (fun copied => Ledger.containerBytes copied.length)
        fun copied home => Value.list copied (Ledger.slotCapacity copied.length) elem
          (some home)).congr ?_ ?_ |>.recast ?_
      · rw [rehomedItems_eq, List.length_map, costs, ownCost]
      · rw [inner]
        simp [Value.bound, Value.parts]
      · rw [rehomed, rehomedItems_eq, List.length_map]
    | struct name fields home =>
      have each := rebuilds_fields fun entry among =>
        induction entry.2.value (List.mem_map_of_mem (f := fun entry => entry.2.value) among)
      refine (each.allocated (fun copied => Ledger.allocBytes copied.length)
        fun copied home => Value.struct name copied
          (if scalarFields copied then none else some home)).congr ?_ ?_
      · rw [rehomedFields_eq, List.length_map, costs, ownCost]
      · rw [inner, Value.parts, List.forall_mem_map]
        exact (and_iff_right rfl).symm
    | map pairs home =>
      have each := rebuilds_pairs fun entry among =>
        ⟨induction entry.1 (List.mem_flatMap.mpr ⟨entry, among, List.mem_cons_self⟩),
          induction entry.2.value (List.mem_flatMap.mpr ⟨entry, among, by simp⟩)⟩
      refine (each.allocated (fun copied => Ledger.containerBytes copied.length)
        fun copied _ => Value.map copied (some into)).congr ?_ ?_
      · rw [rehomedPairs_eq, List.length_map, costs, ownCost]
      · rw [inner, Value.parts, List.forall_mem_flatMap]
        simp [Value.bound]
    | error tag payload enumVariant row =>
      have each := rebuilds_payload fun part among => induction part among
      refine (each.map fun copied => Value.error tag copied enumVariant row).congr rfl ?_
      rw [inner]
      simp [Value.bound, Value.parts]
    | unit | bool | int | float | char | byte | range | handle | duration =>
      exact materializes_plain rfl rfl rfl rfl rfl
    | fn | closure | module | builtin | region | poolRef | shared | weak | raw | scope | chan
    | mutexRef | proc => exact materializes_bound rfl rfl

end Rebuilds

/-! ## What is charged -/

/-- The store with several charges on one region's ledger. -/
def spent (store : Store Value) (into : RegionId) (costs : List Nat) : Store Value :=
  { store with
    regions := store.regions.modify into fun region =>
      { region with
        allocations := region.allocations + costs.length
        bytes := Ledger.saturatingAdd region.bytes costs.sum } }

/-- The charges together would take the region past its cap. -/
def CapReached (region : Region) (costs : List Nat) : Prop :=
  ∃ cap, region.cap = some cap ∧ cap < Ledger.saturatingAdd region.bytes costs.sum

section Ledgers

variable {store : Store Value} {into : RegionId} {region : Region}

theorem saturatingAdd_add (bytes cost more : Nat) :
    Ledger.saturatingAdd (Ledger.saturatingAdd bytes cost) more =
      Ledger.saturatingAdd bytes (cost + more) := by
  unfold Ledger.saturatingAdd
  omega

/-- A single charge on a region that is there. -/
theorem chargeInto_cases (present : store.region into = some region) (cost : Nat) :
    (CapReached region [cost] ∧ ∃ breach, store.chargeInto into cost = .error breach) ∨
      store.chargeInto into cost = .ok (spent store into [cost]) := by
  rw [Store.chargeInto, present]
  rcases admits_cases region cost with ⟨cap, isCap, beyond, breach, refused⟩ | ⟨-, admitted⟩
  · dsimp only
    rw [refused]
    exact .inl ⟨⟨cap, isCap, by simpa using beyond⟩, breach, rfl⟩
  · dsimp only
    rw [admitted]
    refine .inr (congrArg Except.ok ?_)
    rw [spent, Store.mk.injEq]
    refine ⟨?_, rfl, rfl, rfl, rfl⟩
    apply List.ext_getElem?
    intro index
    rw [List.getElem?_modify, List.getElem?_modify]
    by_cases same : into = index
    · subst same
      have here : store.regions[into]? = some region := present
      simp [here]
    · simp [same]

theorem region_spent (present : store.region into = some region) (costs : List Nat) :
    (spent store into costs).region into = some { region with
      allocations := region.allocations + costs.length
      bytes := Ledger.saturatingAdd region.bytes costs.sum } := by
  rw [spent, Store.region_modify, present, Option.map_some, if_pos rfl]

theorem spent_cons (cost : Nat) (rest : List Nat) :
    spent (spent store into [cost]) into rest = spent store into (cost :: rest) := by
  rw [spent, spent, spent, Store.mk.injEq]
  refine ⟨?_, rfl, rfl, rfl, rfl⟩
  dsimp only
  rw [List.modify_modify_eq]
  congr 1
  funext region
  simp only [Function.comp_apply, saturatingAdd_add, List.sum_cons, List.sum_nil, Nat.add_zero,
    List.length_cons, List.length_nil, Region.mk.injEq, and_true, true_and]
  omega

theorem homeOpen_spent (costs : List Nat) :
    HomeOpen (spent store into costs) (some into) ↔ HomeOpen store (some into) := by
  have same : (spent store into costs).state into = store.state into := by
    rw [Store.state, Store.state, spent, Store.region_modify]
    cases store.region into with
    | none => rfl
    | some region => rw [Option.map_some, if_pos rfl]; rfl
  unfold HomeOpen
  constructor
  · rintro open_ teeth _ ⟨⟩
    rw [← same]
    exact open_ teeth into rfl
  · rintro open_ teeth _ ⟨⟩
    rw [same]
    exact open_ teeth into rfl

theorem Paid.spent {costs : List Nat} {after : Store Value} (paid : Paid into costs store after)
    (present : store.region into = some region) (word : region.bytes ≤ Ledger.maxWord) :
    after = spent store into costs := by
  induction costs generalizing store region with
  | nil =>
    rw [show after = store from paid, spent]
    have kept : store.regions.modify into (fun region =>
        { region with
          allocations := region.allocations + ([] : List Nat).length
          bytes := Ledger.saturatingAdd region.bytes ([] : List Nat).sum }) = store.regions := by
      apply List.ext_getElem?
      intro index
      rw [List.getElem?_modify]
      by_cases same : into = index
      · subst same
        have here : store.regions[into]? = some region := present
        simp [here, Ledger.saturatingAdd, word]
      · simp [same]
    rw [kept]
  | cons cost rest induction =>
    obtain ⟨-, next, charged, paid⟩ := paid
    rcases chargeInto_cases present cost with ⟨-, breach, refused⟩ | taken
    · rw [refused] at charged
      cases charged
    · rw [taken] at charged
      cases charged
      rw [induction paid (region_spent present [cost]) (Nat.min_le_right _ _), spent_cons]

theorem CapReached.mono {costs more : List Nat} (reached : CapReached region costs)
    (grows : costs.sum ≤ more.sum) : CapReached region more := by
  obtain ⟨cap, isCap, beyond⟩ := reached
  refine ⟨cap, isCap, beyond.trans_le ?_⟩
  unfold Ledger.saturatingAdd
  omega

theorem Unpaid.why {costs : List Nat} (unpaid : Unpaid into costs store)
    (present : store.region into = some region) :
    ¬ HomeOpen store (some into) ∨ CapReached region costs := by
  induction costs generalizing store region with
  | nil => exact unpaid.elim
  | cons cost rest induction =>
    rcases chargeInto_cases present cost with ⟨reached, -⟩ | taken
    · refine .inr (reached.mono ?_)
      rw [List.sum_singleton, List.sum_cons]
      exact Nat.le_add_right cost _
    · rcases unpaid with shut | ⟨breach, refused⟩ | ⟨next, charged, unpaid⟩
      · exact .inl shut
      · rw [taken] at refused
        cases refused
      · rw [taken] at charged
        cases charged
        rcases induction unpaid (region_spent present [cost]) with shut | ⟨cap, isCap, beyond⟩
        · exact .inl fun open_ => shut ((homeOpen_spent [cost]).mpr open_)
        · refine .inr ⟨cap, isCap, ?_⟩
          rw [List.sum_singleton, saturatingAdd_add, ← List.sum_cons] at beyond
          exact beyond

end Ledgers

/-- A copy of a value with its storage in one region. -/
structure IsCopy (into : RegionId) (value copy : Value) : Prop where
  same : homeless copy = homeless value
  homed : ∀ part, PartOf part copy → part.home = if part.stores then some into else none

theorem isCopy_rehomed (into : RegionId) (value : Value) : IsCopy into value (rehomed into value) :=
  ⟨homeless_rehomed into value, home_rehomed into value⟩

/-- The copy is made and paid for, or one of the reasons stops it. -/
def Made (reasons : Prop) (machine : Machine) (value : Value) (into : RegionId) (span : Span) :
    Prop :=
  (∃ copy, materialize into span value machine =
      (.ok copy, { machine with store := spent machine.store into (costs value) }) ∧
        IsCopy into value copy) ∨
    ∃ trap store, materialize into span value machine =
      (.error (.trap trap), { machine with store }) ∧ reasons

/-- A block hands out the result it has, or faults. -/
theorem result_of_freeBlock {machine after : Machine} {block : RegionId}
    {result : Except Signal Value} {span : Span} {copy : Value}
    (closed : freeBlock block result span machine = (.ok copy, after)) : result = .ok copy := by
  simp only [freeBlock, M.bind_run, M.modify_run, M.get_run] at closed
  cases home : (leaving result).bind Value.home with
  | none =>
    rw [home] at closed
    exact (Prod.mk.inj closed).1
  | some home' =>
    rw [home] at closed
    dsimp only at closed
    split at closed
    · cases (Prod.mk.inj closed).1
    · exact (Prod.mk.inj closed).1

/-- What `copy region` hands out is a copy in the region that was current after the block. -/
theorem isCopy_of_close {machine after : Machine} {block : RegionId} {result : Except Signal Value}
    {span : Span} {copy : Value}
    (closed : closeCopyRegion block result span machine = (.ok copy, after)) :
    ∃ value, IsCopy (machine.store.leave block).current value copy := by
  rw [closeCopyRegion, M.bind_run, M.modify_run] at closed
  dsimp only at closed
  cases result with
  | error signal => cases result_of_freeBlock closed
  | ok value =>
    rw [copyResult, M.bind_run, M.attempt_run] at closed
    have ended := result_of_freeBlock closed
    rcases materializes (machine.store.leave block).current span value
      { machine with store := machine.store.leave block } with
      ⟨store, ran, -, -⟩ | ⟨trap, store, ran, -⟩
    · have made := (congrArg Prod.fst ran).symm.trans ended
      cases made
      exact ⟨value, isCopy_rehomed _ value⟩
    · have failed := (congrArg Prod.fst ran).symm.trans ended
      cases failed

/-- The copy of a value has every text, list, map and struct with storage homed in the destination,
whose ledger takes the sum of their sizes, and nothing else changes; it fails since a part has no
copy of its own, the destination's cap would be passed, or the destination is freed or frozen. What
`copy region` hands out lies in no region freed with the block, where the region current after the
block is not owned by the block's. -/
theorem materialize_copies :
    (∀ machine value into span region, machine.store.region into = some region →
      region.bytes ≤ Ledger.maxWord → Made (¬ Copyable value ∨ CapReached region (costs value) ∨
          ¬ HomeOpen machine.store (some into)) machine value into span) ∧
      ∀ machine block result span copy after,
        closeCopyRegion block result span machine = (.ok copy, after) →
          ¬ (machine.store.leave block).InSubtree block (machine.store.leave block).current →
            ∀ part, PartOf part copy → ∀ home, part.home = some home →
              ¬ (machine.store.leave block).InSubtree block home := by
  constructor
  · intro machine value into span region present word
    rcases materializes into span value machine with ⟨store, ran, -, paid⟩ | ⟨trap, store, ran, why⟩
    · refine .inl ⟨rehomed into value, ?_, isCopy_rehomed into value⟩
      rw [ran, paid.spent present word]
    · refine .inr ⟨trap, store, ran, ?_⟩
      rcases why with bound | unpaid
      · exact .inl bound
      · exact .inr (unpaid.why present).symm
  · intro machine block result span copy after closed apart part inside home isHome
    obtain ⟨value, isCopy⟩ := isCopy_of_close closed
    have own := isCopy.homed part inside
    rw [isHome] at own
    split at own
    · cases own
      exact apart
    · cases own

/-- A store with a second region, and the same with that region frozen. -/
def outerStore : Store Value := (Store.new.create none .arena none ⟨0, 1⟩).2

def frozenStore : Store Value := (outerStore.freeze 1).2

/-- A list of a text leaves for the second region, and the block of that region hands a text out. -/
theorem materialize_copies_list : (∃ region, outerStore.region 1 = some region ∧
      Made (¬ Copyable (.list [Slot.live (.str "ab".toList none)] 4 none none) ∨
        CapReached region (costs (.list [Slot.live (.str "ab".toList none)] 4 none none)) ∨
          ¬ HomeOpen outerStore (some 1)) { store := outerStore }
        (.list [Slot.live (.str "ab".toList none)] 4 none none) 1 ⟨2, 3⟩) ∧
      ∀ part, PartOf part (.str "ab".toList (some 0)) → ∀ home, part.home = some home →
        ¬ (outerStore.leave 1).InSubtree 1 home := by
  refine ⟨⟨_, rfl, materialize_copies.1 _ _ _ _ _ rfl (by decide)⟩, ?_⟩
  have closed : (closeCopyRegion 1 (.ok (.str "ab".toList (some 1))) ⟨2, 3⟩
      { store := outerStore }).1 = .ok (.str "ab".toList (some 0)) := rfl
  exact materialize_copies.2 { store := outerStore } 1 _ ⟨2, 3⟩ _ _ (Prod.ext closed rfl)
    (by decide)

/-- A text is not copied into a frozen region, though it has a copy and the region no cap. -/
theorem not_materialize_copies : ¬ ∀ machine value into span region,
    machine.store.region into = some region → region.bytes ≤ Ledger.maxWord →
      Made (¬ Copyable value ∨ CapReached region (costs value)) machine value into span := by
  intro always
  have ran : (materialize 1 ⟨2, 3⟩ (.str "ab".toList none) { store := frozenStore }).1 =
      .error (.trap ⟨.regionFault, ⟨2, 3⟩, none⟩) := rfl
  rcases always { store := frozenStore } (.str "ab".toList none) 1 ⟨2, 3⟩ _ rfl (by decide) with
    ⟨copy, made, -⟩ | ⟨trap, store, -, bound | ⟨cap, isCap, -⟩⟩
  · rw [made] at ran
    cases ran
  · exact bound (copyable_iff.mpr ⟨rfl, nofun⟩)
  · cases isCap

end WolfInterp.Eval
