import WolfInterp.Lib.Execution
import WolfInterp.Lib.Fallible
import WolfInterp.Region.Granules

/-!
# The store as a machine

The operations as data, the step function, and what each operation does to the state, the parent
edge and the presence of a region. Every later result reads these lemmas and unfolds no operation.
-/

namespace WolfInterp

/-- The operations that write a region's state, owner or claim. -/
inductive RegionOp where
  | create (name : Option String) (strategy : Strategy) (cap : Option (Nat × Span)) (span : Span)
  | adopt (parent child : RegionId)
  | enter (id : RegionId)
  | leave (id : RegionId)
  | claim (id : RegionId) (claim : Option TaskClaim)
  | free (id : RegionId)
  | freeze (id : RegionId)

/-- Every operation of the store. -/
inductive StoreOp (Value : Type) where
  | region (op : RegionOp)
  | forceOpen (id : RegionId)
  | swapOpen (stack : List RegionId)
  | charge (bytes : Nat)
  | chargeInto (id : RegionId) (bytes : Nat)
  | chargeGrowth (id : RegionId) (bytes : Nat)
  | newPool (elem : String)
  | reserve (id : PoolId)
  | initSlot (id : PoolId) (index : Nat) (generation : UInt32) (value : Value)
  | removeSlot (id : PoolId) (index : Nat) (generation : UInt32)
  | newCell (value : Value) (span : Span)
  | retain (id : CellId)
  | release (id : CellId)
  | downgrade (id : CellId)
  | dropWeak (id : CellId)
  | upgrade (id : CellId)
  | addStrongEdge (source target : CellId)

namespace Store

open Fallible

variable {Value : Type}

/-- The store after an operation that may be refused: a refusal leaves it as it was. -/
def orKeep {Error : Type} (store : Store Value) : Except Error (Store Value) → Store Value
  | .ok next => next
  | .error _ => store

/-- Perform one lifecycle operation, dropping what it answers. -/
def applyRegion [Inhabited Value] (store : Store Value) : RegionOp → Store Value
  | .create name strategy cap span => (store.create name strategy cap span).2
  | .adopt parent child => store.adopt parent child
  | .enter id => store.orKeep (store.enter id)
  | .leave id => store.leave id
  | .claim id claim => store.claim id claim
  | .free id => (store.free id).2
  | .freeze id => (store.freeze id).2

/-- Perform one operation, dropping what it answers. -/
def apply [Inhabited Value] (store : Store Value) : StoreOp Value → Store Value
  | .region op => store.applyRegion op
  | .forceOpen id => store.forceOpen id
  | .swapOpen stack => (store.swapOpen stack).2
  | .charge bytes => store.orKeep ((store.charge bytes).map Prod.snd)
  | .chargeInto id bytes => store.orKeep (store.chargeInto id bytes)
  | .chargeGrowth id bytes => store.orKeep (store.chargeGrowth id bytes)
  | .newPool elem => store.orKeep ((store.newPool elem).map Prod.snd)
  | .reserve id => (store.reserve id).elim store Prod.snd
  | .initSlot id index generation value => (store.initSlot id index generation value).2
  | .removeSlot id index generation => (store.removeSlot id index generation).2
  | .newCell value span => (store.newCell value span).2
  | .retain id => (store.retain id).2
  | .release id => (store.release id).2
  | .downgrade id => (store.downgrade id).2
  | .dropWeak id => store.dropWeak id
  | .upgrade id => (store.upgrade id).2
  | .addStrongEdge source target => store.addStrongEdge source target

/-- The lifecycle machine. -/
def regionStep [Inhabited Value] (store : Store Value) (op : RegionOp) : Option (Store Value) :=
  some (store.applyRegion op)

/-- The whole machine. -/
def step [Inhabited Value] (store : Store Value) (op : StoreOp Value) : Option (Store Value) :=
  some (store.apply op)

/-! ## What the charges and the lifecycle leave alone -/

/-- The pools and the cells. -/
def granules (store : Store Value) : List (Pool Value) × List (Cell Value) :=
  (store.pools, store.cells)

theorem granules_orKeep {Error : Type} {store : Store Value} {answer : Except Error (Store Value)}
    (keeps : ∀ next, answer = .ok next → next.granules = store.granules) :
    (store.orKeep answer).granules = store.granules := by
  cases answer with
  | error _ => rfl
  | ok next => exact keeps next rfl

variable {next : Store Value} {id : RegionId} {bytes : Nat}

/-- Nothing is charged, or the ledger of one region is. -/
def Raised (store : Store Value) (id : RegionId) (next : Store Value) : Prop :=
  next = store ∨ ∃ update : Region → Region,
    (∀ region, ∃ allocations bytes, update region = { region with allocations, bytes }) ∧
      next = { store with regions := store.regions.modify id update }

theorem raised_chargeInto {store : Store Value} (charged : store.chargeInto id bytes = .ok next) :
    Raised store id next := by
  unfold chargeInto at charged
  split at charged
  · exact .inl (Except.ok.inj charged).symm
  · obtain ⟨total, -, charged⟩ := bind_eq_ok.mp charged
    exact .inr ⟨_, fun _ => ⟨_, _, rfl⟩, (Except.ok.inj charged).symm⟩

theorem raised_chargeGrowth {store : Store Value}
    (charged : store.chargeGrowth id bytes = .ok next) : Raised store id next := by
  unfold chargeGrowth at charged
  split at charged
  · exact .inl (Except.ok.inj charged).symm
  · split at charged
    · exact .inl (Except.ok.inj charged).symm
    · obtain ⟨total, -, charged⟩ := bind_eq_ok.mp charged
      exact .inr ⟨_, fun _ => ⟨_, _, rfl⟩, (Except.ok.inj charged).symm⟩

theorem Raised.granules {store : Store Value} (charged : Raised store id next) :
    next.granules = store.granules := by
  obtain rfl | ⟨_, _, rfl⟩ := charged <;> rfl

theorem granules_charge {store : Store Value} (charged : store.charge bytes = .ok (id, next)) :
    next.granules = store.granules := by
  obtain ⟨later, answer, same⟩ := bind_eq_ok.mp charged
  cases same
  exact (raised_chargeInto answer).granules

theorem granules_apply_charge [Inhabited Value] (store : Store Value) (bytes : Nat) :
    (store.apply (.charge bytes)).granules = store.granules := by
  refine granules_orKeep fun next charged => ?_
  cases answer : store.charge bytes with
  | error breach => simp [answer, Except.map] at charged
  | ok pair =>
    obtain ⟨id, later⟩ := pair
    simp only [answer, Except.map, Except.ok.injEq] at charged
    exact charged ▸ granules_charge answer

theorem granules_enter {store : Store Value} (entered : store.enter id = .ok next) :
    next.granules = store.granules := by
  rw [enter] at entered
  repeat' split at entered
  all_goals first
    | contradiction
    | exact (Except.ok.inj entered) ▸ rfl

theorem granules_freeze (store : Store Value) (id : RegionId) :
    (store.freeze id).2.granules = store.granules := by
  rw [freeze]
  repeat' split
  all_goals rfl

/-! ## Ownership -/

/-- `owner` owns `child` directly. -/
def Owns (store : Store Value) (owner child : RegionId) : Prop :=
  ∃ region ∈ store.regions, region.parent = some owner ∧ region.id = child

/-- `member` belongs to the subtree of `owner`, `owner` itself included. -/
def InSubtree (store : Store Value) : RegionId → RegionId → Prop :=
  Relation.ReflTransGen store.Owns

theorem mem_children {store : Store Value} {owner child : RegionId} :
    child ∈ store.children owner ↔ store.Owns owner child := by
  simp [children, Owns, and_assoc]

/-- The computed family of a region is its subtree. -/
theorem mem_descendants {store : Store Value} {owner member : RegionId} :
    member ∈ store.descendants owner ↔ store.InSubtree owner member := by
  have covered : ∀ source target, target ∈ store.children source →
      target ∈ store.regions.map Region.id := by
    intro source target edge
    obtain ⟨region, region_mem, _, id_eq⟩ := mem_children.mp edge
    exact List.mem_map.mpr ⟨region, region_mem, id_eq⟩
  rw [descendants, Worklist.mem_closure_iff covered (by simp)]
  have same : Worklist.Edge store.children = store.Owns := by
    funext source target
    exact propext mem_children
  rw [same, InSubtree]

instance (store : Store Value) (owner member : RegionId) :
    Decidable (store.InSubtree owner member) :=
  decidable_of_iff (member ∈ store.descendants owner) mem_descendants

/-! ## What the in-place updates do -/

theorem region_modify (store : Store Value) (id : RegionId) (update : Region → Region)
    (target : RegionId) :
    ({ store with regions := store.regions.modify id update }).region target =
      (store.region target).map fun region => if id = target then update region else region := by
  simp [region, List.getElem?_modify]

/-- A sweep updates exactly the listed regions that `touches` accepts. -/
theorem sweep_get {touches : Region → Bool} {update : Region → Region}
    (settles : ∀ region, touches (update region) = false) (targets : List RegionId)
    (regions : List Region) (id : RegionId) : (sweep touches update targets regions).1[id]? =
      (regions[id]?).map fun region =>
        if id ∈ targets ∧ touches region then update region else region := by
  induction targets generalizing regions with
  | nil => simp [sweep]
  | cons target targets induction =>
    cases entry : regions[target]? with
    | none =>
      have other : regions[id]? = none ∨ id ≠ target := by
        by_cases same : id = target
        · exact .inl (same ▸ entry)
        · exact .inr same
      simp only [sweep, entry, induction]
      rcases other with absent | differs
      · simp [absent]
      · simp [differs]
    | some region =>
      cases touched : touches region with
      | true =>
        simp only [sweep, entry, touched, if_true, induction, List.getElem?_modify]
        by_cases same : target = id
        · subst same
          simp [entry, touched, settles]
        · simp [same, Ne.symm same]
      | false =>
        simp only [sweep, entry, touched, Bool.false_eq_true, if_false, induction]
        by_cases same : target = id
        · subst same
          simp [entry, touched]
        · simp [Ne.symm same]

theorem sweep_idle {touches : Region → Bool} {update : Region → Region} {regions : List Region}
    (targets : List RegionId) (idle : ∀ id ∈ targets, (regions[id]?).any touches = false) :
    sweep touches update targets regions = (regions, []) := by
  induction targets with
  | nil => rfl
  | cons target targets induction =>
    rw [List.forall_mem_cons] at idle
    rw [sweep, induction idle.2]
    cases entry : regions[target]? with
    | none => rfl
    | some region =>
      rw [entry] at idle
      simpa using idle.1

/-- A sweep reports exactly the regions it updates. -/
theorem mem_sweep_hit {touches : Region → Bool} {update : Region → Region} (targets : List RegionId)
    (regions : List Region) (id : RegionId) : id ∈ (sweep touches update targets regions).2 ↔
      id ∈ targets ∧ ∃ region, regions[id]? = some region ∧ touches region = true := by
  induction targets generalizing regions with
  | nil => simp [sweep]
  | cons target targets induction =>
    cases entry : regions[target]? with
    | none =>
      simp only [sweep, entry, induction, List.mem_cons]
      constructor
      · rintro ⟨member, found⟩
        exact ⟨.inr member, found⟩
      · rintro ⟨rfl | member, found⟩
        · simp [entry] at found
        · exact ⟨member, found⟩
    | some region =>
      cases touched : touches region with
      | true =>
        simp only [sweep, entry, touched, if_true, List.mem_cons, induction,
          List.getElem?_modify]
        by_cases same : target = id
        · subst same
          simp [entry, touched]
        · simp [same, Ne.symm same]
      | false =>
        simp only [sweep, entry, touched, Bool.false_eq_true, if_false, induction,
          List.mem_cons]
        by_cases same : target = id
        · subst same
          simp [entry, touched]
        · simp [Ne.symm same]

/-! ## One lemma for each operation -/

section Lifecycle

variable (store : Store Value)

theorem region_create (name : Option String) (strategy : Strategy) (cap : Option (Nat × Span))
    (span : Span) (id : RegionId) :
    (store.create name strategy cap span).2.region id =
      if id = store.regions.length then
        some
          { id := store.regions.length, name, state := .suspended, strategy, parent := none,
            generation := 0, allocations := 0, bytes := 0, cap := cap.map Prod.fst,
            capSpan := cap.map Prod.snd, depth := 0, claim := none, span }
      else store.region id := by
  simp only [create, region, Worklist.getElem?_snoc]

theorem region_adopt (parent child id : RegionId) :
    (store.adopt parent child).region id =
      (store.region id).map fun region =>
        if child = id then { region with parent := some parent } else region :=
  region_modify store child _ id

theorem region_claim (owner : RegionId) (claim : Option TaskClaim) (id : RegionId) :
    (store.claim owner claim).region id =
      (store.region id).map fun region =>
        if id ∈ store.descendants owner then { region with claim } else region := by
  suffices sweepAll : ∀ (targets : List RegionId) (regions : List Region),
      (targets.foldl (fun regions target =>
        regions.modify target fun region => { region with claim }) regions)[id]? =
      (regions[id]?).map fun region => if id ∈ targets then { region with claim } else region by
    exact sweepAll (store.descendants owner) store.regions
  intro targets
  induction targets with
  | nil => simp
  | cons target targets induction =>
    intro regions
    rw [List.foldl_cons, induction, List.getElem?_modify]
    by_cases same : target = id
    · subst same
      cases regions[target]? with
      | none => rfl
      | some region => by_cases member : target ∈ targets <;> simp [member]
    · simp [same, Ne.symm same]

/-- An entered region was open or suspended, and only it changes. -/
theorem region_enter {id : RegionId} {next : Store Value} (entered : store.enter id = .ok next) :
    (store.state id = some .opened ∨ store.state id = some .suspended) ∧
      ∀ target, next.region target =
        (store.region target).map fun region =>
          if id = target then { region with state := .opened, depth := region.deeper }
          else region := by
  unfold enter at entered
  cases found : store.region id with
  | none => simp [found] at entered
  | some region =>
    have updated : ∀ target, ({ store with
          regions := store.regions.modify id fun region =>
            { region with state := .opened, depth := region.deeper }
          openStack := store.openStack ++ [id] } : Store Value).region target =
        (store.region target).map fun region =>
          if id = target then { region with state := .opened, depth := region.deeper }
          else region := region_modify store id _
    simp only [found] at entered
    cases region_state : region.state with
    | freed | frozen => simp [region_state] at entered
    | opened =>
      refine ⟨.inl (by simp [state, found, region_state]), ?_⟩
      simp only [region_state] at entered
      split at entered
      · split at entered
        · simp at entered
        · exact Except.ok.inj entered ▸ updated
      · exact Except.ok.inj entered ▸ updated
    | suspended =>
      refine ⟨.inr (by simp [state, found, region_state]), ?_⟩
      simp only [region_state] at entered
      split at entered
      · split at entered
        · simp at entered
        · exact Except.ok.inj entered ▸ updated
      · exact Except.ok.inj entered ▸ updated

theorem region_leave (id target : RegionId) :
    (store.leave id).region target =
      (store.region target).map fun region =>
        if id = target then
          { region with
            depth := region.depth - 1
            state := if region.depth - 1 = 0 ∧ region.state = .opened then .suspended
              else region.state }
        else region :=
  region_modify store id _ target

theorem region_free [Inhabited Value] (owner id : RegionId) : (store.free owner).2.region id =
      (store.region id).map fun region =>
        if store.InSubtree owner id ∧ freeTouches region then freeRegion region else region := by
  have swept := sweep_get (fun region => (by simp [freeTouches, freeRegion] :
    freeTouches (freeRegion region) = false)) (store.descendants owner) store.regions id
  simpa [free, region, mem_descendants] using swept

section Settled

variable {store} {touches : Region → Bool} {update : Region → Region} {next : Store Value}
  {owner : RegionId}
  (swept : ∀ id, next.region id = (store.region id).map fun region =>
    if store.InSubtree owner id ∧ touches region then update region else region)
  (stays : ∀ region, (update region).parent = region.parent ∧ (update region).id = region.id)
include swept stays

/-- A sweep of a subtree moves no region out of it or into it. -/
theorem inSubtree_of_swept {id : RegionId} (inside : next.InSubtree owner id) :
    store.InSubtree owner id := by
  refine Relation.ReflTransGen.mono ?_ owner id inside
  rintro above below ⟨region, among, parent, same⟩
  obtain ⟨at_, found⟩ := List.mem_iff_getElem?.mp among
  obtain ⟨was, there, rfl⟩ := Option.map_eq_some_iff.mp ((swept at_).symm.trans found)
  refine ⟨was, List.mem_of_getElem? there, ?_⟩
  split at parent <;> split at same <;> simp_all

/-- A second sweep of the subtree finds nothing to update. -/
theorem sweep_settled (settles : ∀ region, touches (update region) = false) :
    sweep touches update (next.descendants owner) next.regions = (next.regions, []) := by
  refine sweep_idle _ fun id among => ?_
  have inside := inSubtree_of_swept swept stays (mem_descendants.mp among)
  rw [show next.regions[id]? = _ from swept id]
  cases store.region id with
  | none => rfl
  | some region =>
    rw [Option.map_some, Option.any_some]
    split
    · exact settles region
    · rename_i alive
      simpa [inside] using alive

end Settled

/-- Exactly the touched regions of a subtree are reported and updated. -/
def Marked (owner : RegionId) (touches : Region → Bool) (update : Region → Region)
    (regions : List Region) (hit : List RegionId) : Prop :=
  ∀ id, (id ∈ hit ↔ store.InSubtree owner id ∧ (store.region id).any touches) ∧
    regions[id]? = (store.region id).map fun region => if id ∈ hit then update region else region

theorem marked_sweep {touches : Region → Bool} {update : Region → Region}
    (settles : ∀ region, touches (update region) = false) (owner : RegionId) :
    store.Marked owner touches update
      (sweep touches update (store.descendants owner) store.regions).1
      (sweep touches update (store.descendants owner) store.regions).2 := by
  intro id
  have hit := @mem_sweep_hit touches update (store.descendants owner) store.regions id
  rw [mem_descendants, ← Option.any_eq_true] at hit
  refine ⟨hit, ?_⟩
  rw [sweep_get settles, region]
  cases found : store.regions[id]? <;> simp [hit, found, mem_descendants]

/-- A free reports exactly the live regions of the subtree. -/
theorem mem_freed [Inhabited Value] {owner id : RegionId} : id ∈ (store.free owner).1 ↔
      store.InSubtree owner id ∧ (store.region id).any freeTouches :=
  (store.marked_sweep (fun _ => by simp [freeTouches, freeRegion]) owner id).1

/-- A free marks and reports exactly the live regions of the subtree, and a second one finds
none. -/
theorem free_once [Inhabited Value] (owner : RegionId) :
    store.Marked owner freeTouches freeRegion (store.free owner).2.regions (store.free owner).1 ∧
      (store.free owner).2.free owner = ([], (store.free owner).2) := by
  have settles (region : Region) : freeTouches (freeRegion region) = false := by
    simp [freeTouches, freeRegion]
  refine ⟨store.marked_sweep settles owner, ?_⟩
  rw [free, sweep_settled (region_free store owner) (fun _ => ⟨rfl, rfl⟩) settles]
  simp [free]

/-- A freeze is refused on a freed region, and on a family with an open member. -/
def FreezeRefused (owner : RegionId) : Prop :=
  store.state owner = some .freed ∨
    ∃ member region, store.InSubtree owner member ∧ store.region member = some region ∧
      0 < region.depth

theorem openMember_isSome_iff (owner : RegionId) :
    (store.openMember (store.descendants owner)).isSome ↔
      ∃ member region, store.InSubtree owner member ∧ store.region member = some region ∧
        0 < region.depth := by
  simp [openMember, mem_descendants, Option.any_eq_true]

theorem freeze_refused {owner : RegionId} (refused : store.FreezeRefused owner) :
    ∃ why, store.freeze owner = (.error why, { store with teeth := true }) := by
  unfold freeze
  by_cases freed : store.state owner = some .freed
  · exact ⟨_, if_pos freed⟩
  · have openSome := (store.openMember_isSome_iff owner).mpr (refused.resolve_left freed)
    obtain ⟨opened, opened_eq⟩ := Option.isSome_iff_exists.mp openSome
    simp only [freed, if_false, opened_eq]
    split <;> exact ⟨_, rfl⟩

theorem region_freeze_of_refused {owner : RegionId} (refused : store.FreezeRefused owner)
    (id : RegionId) : (store.freeze owner).2.region id = store.region id := by
  obtain ⟨why, stopped⟩ := store.freeze_refused refused
  rw [stopped]
  rfl

theorem freeze_accepted {owner : RegionId} (accepted : ¬ store.FreezeRefused owner) :
    store.freeze owner =
      let (regions, frozen) :=
        sweep freezeTouches freezeRegion (store.descendants owner) store.regions
      (.ok frozen, { store with teeth := true, regions }) := by
  obtain ⟨alive, closed⟩ := not_or.mp accepted
  have noneOpen : store.openMember (store.descendants owner) = none := by
    rw [← Option.not_isSome_iff_eq_none, openMember_isSome_iff]
    exact closed
  simp [freeze, alive, noneOpen]

theorem region_freeze {owner : RegionId} (accepted : ¬ store.FreezeRefused owner) (id : RegionId) :
    (store.freeze owner).2.region id = (store.region id).map fun region =>
        if store.InSubtree owner id ∧ freezeTouches region then freezeRegion region
        else region := by
  have swept := sweep_get (fun region => (by simp [freezeTouches, freezeRegion] :
    freezeTouches (freezeRegion region) = false)) (store.descendants owner) store.regions id
  simpa [store.freeze_accepted accepted, region, mem_descendants] using swept

/-- A freeze is refused and changes no region, or it marks and reports exactly the regions of the
subtree that are not frozen, and a second one finds none. -/
theorem freeze_whole (owner : RegionId) :
    (store.FreezeRefused owner →
      ∃ why, store.freeze owner = (.error why, { store with teeth := true })) ∧
    (¬ store.FreezeRefused owner →
      ∃ frozen, (store.freeze owner).1 = .ok frozen ∧
        store.Marked owner freezeTouches freezeRegion (store.freeze owner).2.regions frozen ∧
        (store.freeze owner).2.freeze owner = (.ok [], (store.freeze owner).2)) := by
  refine ⟨store.freeze_refused, fun accepted => ?_⟩
  have settles (region : Region) : freezeTouches (freezeRegion region) = false := by
    simp [freezeTouches, freezeRegion]
  have swept := fun id => store.region_freeze accepted id
  have stays (region : Region) :
      (freezeRegion region).parent = region.parent ∧ (freezeRegion region).id = region.id :=
        ⟨rfl, rfl⟩
  have again : ¬ (store.freeze owner).2.FreezeRefused owner := by
    rintro (freed | ⟨member, region, inside, there, deep⟩)
    · rw [state, swept, Option.map_map, Option.map_eq_some_iff] at freed
      obtain ⟨was, -, freed⟩ := freed
      by_cases live : freezeTouches was = true
      · simp [live, InSubtree, freezeRegion, Relation.ReflTransGen.refl] at freed
      · simp_all [freezeTouches]
    · obtain ⟨was, before, rfl⟩ := Option.map_eq_some_iff.mp ((swept member).symm.trans there)
      refine accepted (.inr ⟨member, was, inSubtree_of_swept swept stays inside, before, ?_⟩)
      split at deep <;> exact deep
  rw [freeze_accepted _ again, sweep_settled swept stays settles, store.freeze_accepted accepted]
  exact ⟨_, rfl, store.marked_sweep settles owner, rfl⟩

end Lifecycle

end Store

end WolfInterp
