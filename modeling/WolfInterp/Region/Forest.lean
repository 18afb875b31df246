import WolfInterp.Region.Step

/-!
# The region forest

The owning edges form a forest as long as no region is adopted by one of its own descendants. The
edge table does not look that far: it only asks whether the child already has an owner, so a root
region may be adopted below itself. The store stays a forest exactly in the runs whose adoptions
name an owner that exists and is not owned by the child.
-/

namespace WolfInterp.Store

open Execution Fallible Relation

variable {Value : Type}

/-- Every region is stored at its own id. -/
def Indexed (store : Store Value) : Prop :=
  ∀ id region, store.region id = some region → region.id = id

/-- Every owner is a region of the store. -/
def OwnersExist (store : Store Value) : Prop :=
  ∀ child owner, store.parent child = some owner → owner < store.regions.length

/-- The forest property: one owner at most, no region its own ancestor, and an assertion that
answers without a complaint and without a panic. -/
structure ForestHolds (store : Store Value) : Prop where
  oneOwner : ∀ child first second, store.Owns first child → store.Owns second child → first = second
  noCycle : ∀ id, ¬ TransGen store.Owns id id
  asserted : store.assertForest = some (.ok ())

/-! ## What the assertion asserts -/

theorem region_isSome_iff (store : Store Value) (id : RegionId) :
    (store.region id).isSome ↔ id < store.regions.length := by
  simp [region]

variable {store next : Store Value} {id : RegionId} {bytes : Nat}

theorem lt_of_parent {child owner : RegionId} (edge : store.parent child = some owner) :
    child < store.regions.length := by
  obtain ⟨region, found, _⟩ := Option.bind_eq_some_iff.mp edge
  exact (store.region_isSome_iff child).mp (by simp [found])

/-- Over an indexed store the owning edges are the parent fields. -/
theorem owns_iff_parent (indexed : store.Indexed) {owner child : RegionId} :
    store.Owns owner child ↔ store.parent child = some owner := by
  constructor
  · rintro ⟨region, region_mem, owner_eq, rfl⟩
    obtain ⟨index, bound, rfl⟩ := List.mem_iff_getElem.mp region_mem
    have found : store.region index = some store.regions[index] := by simp [region, bound]
    rw [indexed index _ found]
    simp [parent, found, owner_eq]
  · intro edge
    obtain ⟨region, found, owner_eq⟩ := Option.bind_eq_some_iff.mp edge
    exact ⟨region, List.mem_of_getElem? found, owner_eq, indexed child region found⟩

theorem owns_eq_parent (indexed : store.Indexed) : store.Owns = ParentChain.Owns store.parent := by
  funext owner child
  exact propext (owns_iff_parent indexed)

theorem assertForest_iff_forall (store : Store Value) : store.assertForest = some (.ok ()) ↔
      ∀ region ∈ store.regions, store.assertRegion region = some (.ok ()) := by
  unfold assertForest
  constructor
  · intro asserted region region_mem
    by_contra refused
    have failing : ((store.regions.map store.assertRegion).find?
        fun verdict => verdict ≠ some (.ok ())).isSome := by
      rw [List.find?_isSome]
      exact ⟨_, List.mem_map_of_mem region_mem, by simpa using refused⟩
    obtain ⟨verdict, found⟩ := Option.isSome_iff_exists.mp failing
    rw [found] at asserted
    have broken := List.find?_some found
    simp only [Option.getD_some] at asserted
    simp [asserted] at broken
  · intro all
    have none : (store.regions.map store.assertRegion).find?
        (fun verdict => verdict ≠ some (.ok ())) = none := by
      rw [List.find?_eq_none]
      intro verdict verdict_mem
      obtain ⟨region, region_mem, rfl⟩ := List.mem_map.mp verdict_mem
      simp [all region region_mem]
    rw [none, Option.getD_none]

/-- A walk that answers well has climbed to a root. -/
theorem exists_root_of_walk {region : Region} {fuel current : Nat}
    (walked : store.walkForest region fuel current = some (.ok ())) :
    ∃ top, ParentChain.Ancestor store.parent top current ∧ store.parent top = none := by
  induction fuel generalizing current with
  | zero => by_cases here : current = region.id <;> simp [walkForest, here] at walked
  | succ fuel induction =>
    by_cases here : current = region.id
    · simp [walkForest, here] at walked
    · cases found : store.region current with
      | none => simp [walkForest, here, found] at walked
      | some above =>
        cases owner : above.parent with
        | none => exact ⟨current, ReflTransGen.refl, by simp [parent, found, owner]⟩
        | some next =>
          simp only [walkForest, here, if_false, found, owner] at walked
          obtain ⟨top, chain, isTop⟩ := induction walked
          have edge : store.parent current = some next := by simp [parent, found, owner]
          exact ⟨top, ReflTransGen.tail chain edge, isTop⟩

/-- A walk answers well when its chain is short, stays in the table and avoids its region. -/
theorem walk_of_short {region : Region} {fuel current : Nat}
    (short : ParentChain.up store.parent fuel current = none)
    (clear : ∀ above, ParentChain.Ancestor store.parent above current →
      above ≠ region.id ∧ above < store.regions.length) :
    store.walkForest region fuel current = some (.ok ()) := by
  induction fuel generalizing current with
  | zero => simp [ParentChain.up] at short
  | succ fuel induction =>
    obtain ⟨here, bound⟩ := clear current ReflTransGen.refl
    obtain ⟨above, found⟩ :=
      Option.isSome_iff_exists.mp ((store.region_isSome_iff current).mpr bound)
    cases owner : above.parent with
    | none => simp [walkForest, here, found, owner]
    | some next =>
      have edge : store.parent current = some next := by simp [parent, found, owner]
      simp only [walkForest, here, if_false, found, owner]
      refine induction (by simpa [ParentChain.up, edge] using short) fun higher chain => ?_
      exact clear higher (ReflTransGen.tail chain edge)

/-- The assertion is exact: it answers well iff every owner exists and no region owns itself. -/
theorem assertForest_iff (indexed : store.Indexed) : store.assertForest = some (.ok ()) ↔
      store.OwnersExist ∧ ParentChain.Acyclic store.parent := by
  rw [assertForest_iff_forall]
  constructor
  · intro asserted
    have answered : ∀ child owner, store.parent child = some owner →
        owner < store.regions.length ∧
          ∃ top, ParentChain.Ancestor store.parent top owner ∧ store.parent top = none := by
      intro child owner edge
      obtain ⟨region, found, owner_eq⟩ := Option.bind_eq_some_iff.mp edge
      have ok := asserted region (List.mem_of_getElem? found)
      simp only [assertRegion, owner_eq] at ok
      split at ok
      · simp at ok
      · rename_i inTable
        exact ⟨Nat.lt_of_not_le inTable, exists_root_of_walk ok⟩
    refine ⟨fun child owner edge => (answered child owner edge).1, fun id cycle => ?_⟩
    obtain ⟨owner, edge, loop⟩ := ParentChain.transGen_iff_parent.mp cycle
    obtain ⟨_, top, chain, isTop⟩ := answered id owner edge
    have topCycle := ParentChain.cycle_of_ancestor cycle (ReflTransGen.tail chain edge)
    obtain ⟨above, above_eq, _⟩ := ParentChain.transGen_iff_parent.mp topCycle
    simp [isTop] at above_eq
  · rintro ⟨exist, acyclic⟩ region region_mem
    obtain ⟨index, bound, rfl⟩ := List.mem_iff_getElem.mp region_mem
    have found : store.region index = some store.regions[index] := by simp [Store.region, bound]
    have id_eq := indexed index _ found
    cases owner : store.regions[index].parent with
    | none => simp [assertRegion, owner]
    | some next =>
      have edge : store.parent index = some next := by simp [parent, found, owner]
      have inTable : ∀ {above}, ParentChain.Ancestor store.parent above index →
          above < store.regions.length := by
        intro above chain
        induction chain using ReflTransGen.head_induction_on with
        | refl => exact bound
        | head step _ _ => exact exist _ _ step
      simp only [assertRegion, owner, Nat.not_le.mpr (exist index next edge), if_false]
      refine walk_of_short ?_ fun above chain => ⟨?_, inTable (ReflTransGen.tail chain edge)⟩
      · have covered : ∀ node, (store.parent node).isSome →
            node ∈ List.range store.regions.length := by
          intro node hasParent
          obtain ⟨above, above_eq⟩ := Option.isSome_iff_exists.mp hasParent
          exact List.mem_range.mpr (lt_of_parent above_eq)
        have climbed := ParentChain.up_eq_none acyclic covered
          (by simp : _ < store.regions.length + 1) index
        simpa [ParentChain.up, edge] using climbed
      · rw [id_eq]
        rintro rfl
        exact acyclic above (ParentChain.transGen_iff_parent.mpr ⟨next, edge, chain⟩)

/-- Over an indexed store the forest property is the one fact about owners and the one about
cycles. -/
theorem forestHolds_iff (indexed : store.Indexed) :
    store.ForestHolds ↔ store.OwnersExist ∧ ParentChain.Acyclic store.parent := by
  constructor
  · exact fun holds => (assertForest_iff indexed).mp holds.asserted
  · rintro ⟨exist, acyclic⟩
    have asserted := (assertForest_iff indexed).mpr ⟨exist, acyclic⟩
    refine ⟨fun child first second left right => ?_, ?_, asserted⟩
    · rw [owns_eq_parent indexed] at left right
      exact ParentChain.owns_unique left right
    · rw [owns_eq_parent indexed]
      exact acyclic

/-! ## What an operation does to the owning edges -/

/-- The ids and the owners of the table, in table order. -/
def skeleton (store : Store Value) : List (RegionId × Option RegionId) :=
  store.regions.map fun region => (region.id, region.parent)

theorem skeleton_get (store : Store Value) (id : RegionId) :
    store.skeleton[id]? = (store.region id).map fun region => (region.id, region.parent) := by
  simp [skeleton, region]

/-- Two stores agree on their skeletons when the second updates the first in place and keeps ids
and owners. -/
theorem skeleton_of_map {before after : Store Value} {update : RegionId → Region → Region}
    (updated : ∀ id, after.region id = (before.region id).map (update id)) (keeps : ∀ id region,
      (update id region).id = region.id ∧ (update id region).parent = region.parent) :
    after.skeleton = before.skeleton := by
  refine List.ext_getElem? fun id => ?_
  rw [skeleton_get, skeleton_get, updated, Option.map_map]
  refine congrArg (Option.map · (before.region id)) ?_
  funext region
  obtain ⟨id_eq, parent_eq⟩ := keeps id region
  simp [id_eq, parent_eq]

theorem skeleton_modify (store : Store Value) (id : RegionId) {update : Region → Region}
    (keeps : ∀ region, (update region).id = region.id ∧ (update region).parent = region.parent) :
    ({ store with regions := store.regions.modify id update }).skeleton = store.skeleton := by
  refine skeleton_of_map (region_modify store id update) fun target region => ?_
  split
  · exact keeps region
  · exact ⟨rfl, rfl⟩

theorem skeleton_raised (charged : Raised store id next) : next.skeleton = store.skeleton := by
  obtain rfl | ⟨update, ledger, rfl⟩ := charged
  · rfl
  · refine skeleton_modify store id fun region => ?_
    obtain ⟨_, _, same⟩ := ledger region
    rw [same]
    exact ⟨rfl, rfl⟩

theorem skeleton_charge (charged : store.charge bytes = .ok (id, next)) :
    next.skeleton = store.skeleton := by
  obtain ⟨later, into, same⟩ := bind_eq_ok.mp charged
  cases same
  exact skeleton_raised (raised_chargeInto into)

theorem skeleton_newPool {id : PoolId} {elem : String}
    (built : store.newPool elem = .ok (id, next)) :
    next.skeleton = store.skeleton := by
  obtain ⟨⟨region, later⟩, charged, same⟩ := bind_eq_ok.mp built
  cases same
  exact (skeleton_charge charged : later.skeleton = store.skeleton)

/-- A refusal keeps the skeleton, so an operation keeps it when every success does. -/
theorem skeleton_orKeep {Error : Type} {answer : Except Error (Store Value)}
    (keeps : ∀ next, answer = .ok next → next.skeleton = store.skeleton) :
    (store.orKeep answer).skeleton = store.skeleton := by
  cases answer with
  | error => rfl
  | ok next => exact keeps next rfl

theorem skeleton_enter (store : Store Value) (id : RegionId) :
    (store.orKeep (store.enter id)).skeleton = store.skeleton := by
  refine skeleton_orKeep fun next entered => ?_
  refine skeleton_of_map (region_enter store entered).2 fun target region => ?_
  split <;> exact ⟨rfl, rfl⟩

theorem skeleton_freeze (store : Store Value) (owner : RegionId) :
    (store.freeze owner).2.skeleton = store.skeleton := by
  by_cases refused : store.FreezeRefused owner
  · refine List.ext_getElem? fun id => ?_
    rw [skeleton_get, skeleton_get, region_freeze_of_refused store refused]
  · refine skeleton_of_map (region_freeze store refused) fun id region => ?_
    split <;> exact ⟨rfl, rfl⟩

theorem skeleton_adopt (store : Store Value) (owner child : RegionId) :
    (store.adopt owner child).skeleton =
      store.skeleton.modify child fun entry => (entry.1, some owner) := by
  refine List.ext_getElem? fun id => ?_
  rw [skeleton_get, region_adopt, List.getElem?_modify, skeleton_get]
  cases store.region id with
  | none => rfl
  | some region => by_cases same : child = id <;> simp [same]

section Whole

variable [Inhabited Value]

/-- Only a creation and an adoption write the skeleton. -/
theorem skeleton_apply (store : Store Value) (op : StoreOp Value)
    (notCreate : ∀ name strategy cap span, op ≠ .region (.create name strategy cap span))
    (notAdopt : ∀ owner child, op ≠ .region (.adopt owner child)) :
    (store.apply op).skeleton = store.skeleton := by
  cases op with
  | region op =>
    cases op with
    | create name strategy cap span => exact absurd rfl (notCreate name strategy cap span)
    | adopt owner child => exact absurd rfl (notAdopt owner child)
    | enter id => exact skeleton_enter store id
    | leave id =>
      refine skeleton_of_map (region_leave store id) fun target region => ?_
      split <;> exact ⟨rfl, rfl⟩
    | claim id claim =>
      refine skeleton_of_map (region_claim store id claim) fun target region => ?_
      split <;> exact ⟨rfl, rfl⟩
    | free id =>
      refine skeleton_of_map (region_free store id) fun target region => ?_
      split <;> exact ⟨rfl, rfl⟩
    | freeze id => exact skeleton_freeze store id
  | forceOpen id => exact skeleton_modify store id fun _ => ⟨rfl, rfl⟩
  | swapOpen stack => rfl
  | charge bytes =>
    refine skeleton_orKeep fun next charged => ?_
    cases answer : store.charge bytes with
    | error breach => simp [answer, Except.map] at charged
    | ok pair =>
      obtain ⟨id, later⟩ := pair
      simp only [answer, Except.map, Except.ok.injEq] at charged
      exact charged ▸ skeleton_charge answer
  | chargeInto id bytes =>
    exact skeleton_orKeep fun _ into => skeleton_raised (raised_chargeInto into)
  | chargeGrowth id bytes =>
    exact skeleton_orKeep fun _ into => skeleton_raised (raised_chargeGrowth into)
  | newPool elem =>
    refine skeleton_orKeep fun next built => ?_
    cases answer : store.newPool elem with
    | error breach => simp [answer, Except.map] at built
    | ok pair =>
      obtain ⟨id, later⟩ := pair
      simp only [answer, Except.map, Except.ok.injEq] at built
      exact built ▸ skeleton_newPool answer
  | reserve id =>
    simp only [apply, reserve]
    cases store.pools[id]? <;> rfl
  | initSlot id index generation value =>
    simp only [apply, initSlot, updateSlot]
    cases store.slot id index generation <;> rfl
  | removeSlot id index generation =>
    simp only [apply, removeSlot, updateSlot]
    cases store.slot id index generation <;> rfl
  | newCell value span => rfl
  | retain id =>
    simp only [apply, retain]
    cases store.cell id with
    | none => rfl
    | some cell => dsimp only; split <;> rfl
  | release id =>
    simp only [apply, release]
    cases store.cell id <;> rfl
  | downgrade id =>
    simp only [apply, downgrade]
    cases store.cell id <;> rfl
  | dropWeak id => rfl
  | upgrade id =>
    simp only [apply, upgrade]
    cases store.cell id with
    | none => rfl
    | some cell => dsimp only; split <;> rfl
  | addStrongEdge source target => rfl

end Whole

/-! ## The runs that keep the forest -/

/-- An adoption of a region of the store names an owner that exists and that the region does not
own. -/
def AdoptApart (store : Store Value) : StoreOp Value → Prop
  | .region (.adopt owner child) =>
    child < store.regions.length →
      owner < store.regions.length ∧ store.isAncestor child owner = false
  | _ => True

theorem parent_eq_skeleton (store : Store Value) (id : RegionId) :
    store.parent id = (store.skeleton[id]?).bind Prod.snd := by
  rw [skeleton_get, parent]
  cases store.region id <;> rfl

theorem length_skeleton (store : Store Value) : store.skeleton.length = store.regions.length := by
  simp [skeleton]

theorem indexed_iff_skeleton (store : Store Value) : store.Indexed ↔
      ∀ (id : RegionId) (entry : RegionId × Option RegionId),
        store.skeleton[id]? = some entry → entry.1 = id := by
  constructor
  · intro indexed id entry found
    obtain ⟨region, region_found, rfl⟩ := Option.map_eq_some_iff.mp (store.skeleton_get id ▸ found)
    exact indexed id region region_found
  · intro all id region found
    exact all id (region.id, region.parent) (by simp [skeleton_get, found])

/-- Stores with one skeleton agree on the forest property. -/
theorem forest_congr {before after : Store Value} (same : after.skeleton = before.skeleton) :
    (after.Indexed ↔ before.Indexed) ∧ after.parent = before.parent ∧
      (after.OwnersExist ↔ before.OwnersExist) := by
  have parents : after.parent = before.parent := by
    funext id
    rw [parent_eq_skeleton, parent_eq_skeleton, same]
  have lengths : after.regions.length = before.regions.length := by
    rw [← length_skeleton, ← length_skeleton, same]
  refine ⟨?_, parents, ?_⟩
  · rw [indexed_iff_skeleton, indexed_iff_skeleton, same]
  · rw [OwnersExist, OwnersExist, parents, lengths]

/-- A creation appends a root. -/
theorem parent_create (store : Store Value) (name : Option String) (strategy : Strategy)
    (cap : Option (Nat × Span)) (span : Span) :
    (store.create name strategy cap span).2.parent = store.parent := by
  funext id
  rw [parent, region_create]
  split
  · rename_i fresh
    have absent : store.region id = none := by
      rw [← Option.not_isSome_iff_eq_none, region_isSome_iff, fresh]
      exact Nat.lt_irrefl _
    simp [parent, absent]
  · rfl

/-- An adoption hangs an existing child below its owner. -/
theorem parent_adopt (store : Store Value) {owner child : RegionId}
    (present : child < store.regions.length) :
    (store.adopt owner child).parent = ParentChain.attach store.parent child owner := by
  funext id
  rw [parent, region_adopt, ParentChain.attach]
  by_cases same : id = child
  · obtain ⟨region, found⟩ :=
      Option.isSome_iff_exists.mp ((store.region_isSome_iff child).mpr present)
    simp [same, found]
  · rw [if_neg same, parent]
    cases store.region id with
    | none => rfl
    | some region => simp [Ne.symm same]

theorem isAncestor_iff (store : Store Value) (ancestor id : RegionId) :
    store.isAncestor ancestor id = true ↔ ParentChain.Ancestor store.parent ancestor id := by
  have covered : ∀ node, (store.parent node).isSome → node ∈ List.range store.regions.length := by
    intro node hasParent
    obtain ⟨owner, edge⟩ := Option.isSome_iff_exists.mp hasParent
    exact List.mem_range.mpr (lt_of_parent edge)
  exact ParentChain.climb_iff covered (by simp)

theorem indexed_new : (new : Store Value).Indexed := by
  rw [indexed_iff_skeleton]
  intro id entry found
  have entry_mem : entry ∈ (new : Store Value).skeleton := List.mem_of_getElem? found
  have bound := (List.getElem?_eq_some_iff.mp found).1
  obtain rfl : entry = (0, none) := List.mem_singleton.mp entry_mem
  exact (Nat.lt_one_iff.mp bound).symm

theorem forestHolds_new : (new : Store Value).ForestHolds := by
  have noParent : ∀ id, (new : Store Value).parent id = none := by
    intro id
    rw [parent_eq_skeleton]
    cases id <;> rfl
  refine (forestHolds_iff indexed_new).mpr ⟨fun child owner edge => ?_, fun id cycle => ?_⟩
  · simp [noParent] at edge
  · obtain ⟨owner, edge, _⟩ := ParentChain.transGen_iff_parent.mp cycle
    simp [noParent] at edge

section Runs

variable [Inhabited Value] {store : Store Value}

/-- Every operation keeps the table indexed by region id. -/
theorem indexed_apply (indexed : store.Indexed) (op : StoreOp Value) :
    (store.apply op).Indexed := by
  by_cases create : ∃ name strategy cap span, op = .region (.create name strategy cap span)
  · obtain ⟨name, strategy, cap, span, rfl⟩ := create
    intro id region found
    change (store.create name strategy cap span).2.region id = some region at found
    rw [region_create] at found
    split at found
    · rename_i fresh
      exact Option.some.inj found ▸ fresh.symm
    · exact indexed id region found
  · by_cases adopt : ∃ owner child, op = .region (.adopt owner child)
    · obtain ⟨owner, child, rfl⟩ := adopt
      intro id region found
      change (store.adopt owner child).region id = some region at found
      rw [region_adopt] at found
      obtain ⟨old, old_found, rfl⟩ := Option.map_eq_some_iff.mp found
      split <;> exact indexed id old old_found
    · have same :=
        skeleton_apply store op (fun name strategy cap span eq => create ⟨_, _, _, _, eq⟩)
        (fun owner child eq => adopt ⟨_, _, eq⟩)
      exact (forest_congr same).1.mpr indexed

/-- One adoption keeps the forest exactly when the child does not own its new owner. -/
theorem forest_adopt_iff (indexed : store.Indexed) (holds : store.ForestHolds)
    (owner child : RegionId) : (store.adopt owner child).ForestHolds ↔
      AdoptApart store (.region (.adopt owner child)) := by
  obtain ⟨exist, acyclic⟩ := (forestHolds_iff indexed).mp holds
  have nextIndexed : (store.adopt owner child).Indexed :=
    indexed_apply indexed (.region (.adopt owner child))
  rw [forestHolds_iff nextIndexed]
  by_cases present : child < store.regions.length
  · have lengths : (store.adopt owner child).regions.length = store.regions.length := by
      simp [adopt]
    have owners : (store.adopt owner child).OwnersExist ↔ owner < store.regions.length := by
      simp only [OwnersExist, parent_adopt store present, lengths, ParentChain.attach]
      constructor
      · exact fun all => all child owner (by simp)
      · intro bound node above edge
        split at edge
        · exact Option.some.inj edge ▸ bound
        · exact exist node above edge
    rw [owners, parent_adopt store present, ParentChain.acyclic_attach_iff acyclic,
      ← isAncestor_iff]
    simp [AdoptApart, present]
  · have same : (store.adopt owner child).skeleton = store.skeleton := by
      rw [skeleton_adopt]
      refine List.modify_eq_self ?_
      rw [length_skeleton]
      exact Nat.le_of_not_lt present
    obtain ⟨_, parents, owners⟩ := forest_congr same
    rw [owners, parents]
    exact iff_of_true ⟨exist, acyclic⟩ fun inTable => absurd inTable present

/-- One operation keeps the forest exactly when it is no adoption below the adopted region. -/
theorem forest_apply_iff (indexed : store.Indexed) (holds : store.ForestHolds)
    (op : StoreOp Value) :
    (store.apply op).ForestHolds ↔ AdoptApart store op := by
  have nextIndexed := indexed_apply indexed op
  have old := (forestHolds_iff indexed).mp holds
  by_cases create : ∃ name strategy cap span, op = .region (.create name strategy cap span)
  · obtain ⟨name, strategy, cap, span, rfl⟩ := create
    refine iff_of_true ((forestHolds_iff nextIndexed).mpr ?_) trivial
    change (store.create name strategy cap span).2.OwnersExist ∧
      ParentChain.Acyclic (store.create name strategy cap span).2.parent
    rw [OwnersExist, parent_create]
    refine ⟨fun child owner edge => ?_, old.2⟩
    have bound := old.1 child owner edge
    simpa [Store.create] using Nat.lt_succ_of_lt bound
  · by_cases adopt : ∃ owner child, op = .region (.adopt owner child)
    · obtain ⟨owner, child, rfl⟩ := adopt
      exact forest_adopt_iff indexed holds owner child
    · have same :=
        skeleton_apply store op (fun name strategy cap span eq => create ⟨_, _, _, _, eq⟩)
        (fun owner child eq => adopt ⟨_, _, eq⟩)
      obtain ⟨_, parents, owners⟩ := forest_congr same
      refine iff_of_true ((forestHolds_iff nextIndexed).mpr ?_) ?_
      · rw [owners, parents]
        exact old
      · unfold AdoptApart
        split
        · exact absurd ⟨_, _, rfl⟩ adopt
        · trivial

/-- The store is a forest throughout a run exactly when the run adopts no region below itself. -/
theorem forest_always_iff (ops : List (StoreOp Value)) :
    Always step ForestHolds (new : Store Value) ops ↔
      Guarded step AdoptApart (new : Store Value) ops := by
  have both : Always step (fun store : Store Value => store.Indexed ∧ store.ForestHolds) new ops ↔
      Guarded step AdoptApart (new : Store Value) ops := by
    refine always_iff_guarded ⟨indexed_new, forestHolds_new⟩ fun store op next holds performed => ?_
    obtain rfl : store.apply op = next := Option.some.inj performed
    rw [← forest_apply_iff holds.1 holds.2 op]
    exact and_iff_right (indexed_apply holds.1 op)
  rw [← both]
  constructor
  · intro always front rest store split run
    refine ⟨?_, always front rest store split run⟩
    refine inv_of_exec Indexed indexed_new (fun before op after indexed performed => ?_) run
    exact Option.some.inj performed ▸ indexed_apply indexed op
  · exact fun always front rest store split run => (always front rest store split run).2

end Runs

/-- Every adoption was classified as an owning edge. -/
def AdoptClassified (store : Store Value) : StoreOp Value → Prop
  | .region (.adopt owner child) =>
    store.classifyEdge (some owner) (.region child) = .iso child
  | _ => True

instance (store : Store Value) : ∀ op, Decidable (AdoptClassified store op)
  | .region (.adopt owner child) =>
    inferInstanceAs (Decidable (store.classifyEdge (some owner) (.region child) = .iso child))
  | .region (.create ..) | .region (.enter _) | .region (.leave _) | .region (.claim ..)
  | .region (.free _) | .region (.freeze _) | .forceOpen _ | .swapOpen _ | .charge _
  | .chargeInto .. | .chargeGrowth .. | .newPool _ | .reserve _ | .initSlot .. | .removeSlot ..
  | .newCell .. | .retain _ | .release _ | .downgrade _ | .dropWeak _ | .upgrade _
  | .addStrongEdge .. => isTrue trivial

/-- Two roots, each adopted by the other. -/
def adoptInTurn : List (StoreOp Unit) :=
  [.region (.create none .arena none ⟨0, 1⟩), .region (.create none .arena none ⟨2, 3⟩),
    .region (.adopt 1 2), .region (.adopt 2 1)]

/-- The edge table accepts both adoptions, and the two regions own each other. -/
theorem forest_broken_by_root_adoption : ¬ ∀ ops : List (StoreOp Unit),
      Guarded step AdoptClassified (new : Store Unit) ops →
        Always step ForestHolds (new : Store Unit) ops := by
  intro forest
  have classified : Guarded step AdoptClassified (new : Store Unit) adoptInTurn := by decide
  have broken := forest adoptInTurn classified adoptInTurn [] _ (by simp) rfl
  exact absurd broken.asserted (by decide)

end WolfInterp.Store
