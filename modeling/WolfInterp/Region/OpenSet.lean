import WolfInterp.Region.Forest

/-!
# The open set

One task's open stack, against what the regions record: a region's depth counts its entries in the
stack, it is open exactly when it has one, and the open regions are pairwise unrelated. Adoption is
the one operation that relates regions without looking at the stack.
-/

namespace WolfInterp.Store

open ParentChain

variable {Value : Type}

/-- No open region is an ancestor of another one. -/
def Antichain (store : Store Value) : Prop :=
  ∀ above ∈ store.openStack, ∀ below ∈ store.openStack,
    Ancestor store.parent above below → above = below

/-- The depths and the states agree with the stack. -/
structure Tallied (store : Store Value) : Prop where
  depth : ∀ id region, store.region id = some region → region.depth = store.openStack.count id
  opened : ∀ id, store.state id = some .opened ↔ id ∈ store.openStack

/-- The open set is sound: an antichain of open regions, counted by their depths. -/
structure OpenSound (store : Store Value) : Prop extends store.Tallied where
  antichain : store.Antichain
  lively : ∀ id ∈ store.openStack, store.state id ≠ some .frozen ∧ store.state id ≠ some .freed

/-- An adoption relates no two open regions, and an opening does not overflow its counter. -/
def KeepsApart (store : Store Value) : RegionOp → Prop
  | .adopt owner child =>
    child < store.regions.length →
      ∀ above ∈ store.openStack, ∀ below ∈ store.openStack,
        store.isAncestor above owner → store.isAncestor child below → above = below
  | .enter id => ∀ region ∈ store.region id, region.deeper = region.depth + 1
  | _ => True

variable {store : Store Value} {id : RegionId} {region : Region}

theorem openSound_iff : store.OpenSound ↔ store.Tallied ∧ store.Antichain := by
  refine ⟨fun sound => ⟨sound.toTallied, sound.antichain⟩, fun both => ⟨both.1, both.2, ?_⟩⟩
  intro id member
  rw [(both.1.opened id).mpr member]
  simp

/-! ## The tally -/

/-- A region with entries in the stack is there. -/
theorem Tallied.present (tallied : store.Tallied) (member : id ∈ store.openStack) :
    ∃ region, store.region id = some region := by
  have opened := (tallied.opened id).mpr member
  obtain ⟨region, found, _⟩ := Option.map_eq_some_iff.mp opened
  exact ⟨region, found⟩

theorem Tallied.mem_iff (tallied : store.Tallied) (found : store.region id = some region) :
    id ∈ store.openStack ↔ 0 < region.depth := by
  rw [tallied.depth id region found, List.count_pos_iff]

/-- The state of a region of a tallied store follows its depth. -/
theorem Tallied.state_iff (tallied : store.Tallied) (found : store.region id = some region) :
    region.state = .opened ↔ 0 < region.depth := by
  rw [← tallied.mem_iff found, ← tallied.opened id, state, found]
  simp

/-- In-place updates keep the tally when each region's depth counts its new entries and its state
follows its depth. -/
theorem tallied_of_map {before after : Store Value} {update : RegionId → Region → Region}
    (updated : ∀ id, after.region id = (before.region id).map (update id))
    (present : ∀ id ∈ after.openStack, ∃ region, before.region id = some region)
    (depth : ∀ id region, before.region id = some region →
      (update id region).depth = after.openStack.count id)
    (opened : ∀ id region, before.region id = some region →
      ((update id region).state = .opened ↔ 0 < (update id region).depth)) : after.Tallied where
  depth id region found := by
    obtain ⟨old, oldFound, rfl⟩ := Option.map_eq_some_iff.mp ((updated id).symm.trans found)
    exact depth id old oldFound
  opened id := by
    rw [state, updated id]
    cases found : before.region id with
    | none =>
      refine iff_of_false (by simp) fun member => ?_
      obtain ⟨region, there⟩ := present id member
      rw [found] at there
      contradiction
    | some region =>
      simp only [Option.map_some, Option.some.injEq]
      rw [opened id region found, depth id region found, List.count_pos_iff]

/-- An update that keeps the stack, every depth and every state keeps the tally. -/
theorem Tallied.of_same {before after : Store Value} {update : RegionId → Region → Region}
    (tallied : before.Tallied)
    (updated : ∀ id, after.region id = (before.region id).map (update id))
    (stack : after.openStack = before.openStack)
    (keeps : ∀ id region, before.region id = some region →
      (update id region).depth = region.depth ∧
        ((update id region).state = .opened ↔ region.state = .opened)) : after.Tallied := by
  apply tallied_of_map updated
  · intro id member
    rw [stack] at member
    exact tallied.present member
  · intro id region found
    rw [(keeps id region found).1, stack]
    exact tallied.depth id region found
  · intro id region found
    rw [(keeps id region found).1, (keeps id region found).2]
    exact tallied.state_iff found

/-! ## One operation -/

/-- An opening pushes the region, and a first opening found it apart from the open set. -/
theorem enter_opens {next : Store Value} (entered : store.enter id = .ok next) :
    ∃ region, store.region id = some region ∧ next.openStack = store.openStack ++ [id] ∧
      (region.depth = 0 → store.notDisjointFrom id = none) := by
  rw [enter] at entered
  cases found : store.region id with
  | none => simp [found] at entered
  | some region =>
    refine ⟨region, rfl, ?_⟩
    simp only [found] at entered
    cases region_state : region.state with
    | freed | frozen => simp [region_state] at entered
    | opened | suspended =>
      simp only [region_state] at entered
      by_cases first : region.depth = 0
      · cases apart : store.notDisjointFrom id with
        | some other => simp [first, apart] at entered
        | none =>
          simp only [first, if_true, apart, Except.ok.injEq] at entered
          exact ⟨entered ▸ rfl, fun _ => rfl⟩
      · simp only [first, if_false, Except.ok.injEq] at entered
        exact ⟨entered ▸ rfl, fun none => absurd none first⟩

/-- A region that is open already opens again. -/
theorem enter_of_open (found : store.region id = some region) (opened : region.state = .opened)
    (deep : region.depth ≠ 0) : ∃ next, store.enter id = .ok next := by
  rw [enter, found]
  simp only [opened, deep, if_false]
  exact ⟨_, rfl⟩

theorem notDisjointFrom_eq_none : store.notDisjointFrom id = none ↔ ∀ other ∈ store.openStack,
      ¬ Ancestor store.parent other id ∧ ¬ Ancestor store.parent id other := by
  simp [notDisjointFrom, ← isAncestor_iff]

/-- Every operation but an adoption leaves the forest as it is. -/
theorem parent_applyRegion [Inhabited Value] (store : Store Value) (op : RegionOp)
    (notAdopt : ∀ owner child, op ≠ .adopt owner child) :
    (store.applyRegion op).parent = store.parent := by
  by_cases create : ∃ name strategy cap span, op = .create name strategy cap span
  · obtain ⟨name, strategy, cap, span, rfl⟩ := create
    exact parent_create store name strategy cap span
  · have same : (store.apply (.region op)).skeleton = store.skeleton := by
      apply skeleton_apply
      · rintro name strategy cap span equal
        exact create ⟨name, strategy, cap, span, StoreOp.region.inj equal⟩
      · rintro owner child equal
        exact notAdopt owner child (StoreOp.region.inj equal)
    exact (forest_congr same).2.1

/-- A stack with no new entry over the same forest is still an antichain. -/
theorem Antichain.of_subset {before after : Store Value} (antichain : before.Antichain)
    (parents : after.parent = before.parent)
    (fewer : ∀ id ∈ after.openStack, id ∈ before.openStack) : after.Antichain := by
  intro above aboveMem below belowMem chain
  rw [parents] at chain
  exact antichain above (fewer above aboveMem) below (fewer below belowMem) chain

theorem mem_removeLast {target : RegionId} {stack : List RegionId}
    (member : target ∈ removeLast id stack) : target ∈ stack := by
  rw [removeLast, List.mem_reverse] at member
  exact List.mem_reverse.mp (List.mem_of_mem_erase member)

theorem count_removeLast (id target : RegionId) (stack : List RegionId) :
    (removeLast id stack).count target =
      if id = target then stack.count target - 1 else stack.count target := by
  rw [removeLast, List.count_reverse, List.count_erase, List.count_reverse]
  by_cases same : id = target
  · simp [same]
  · simp [same]

/-- Closing an opening keeps the tally. -/
theorem Tallied.leave (tallied : store.Tallied) (id : RegionId) : (store.leave id).Tallied := by
  apply tallied_of_map (region_leave store id)
  · intro target member
    exact tallied.present (mem_removeLast member)
  · intro target region found
    change _ = (removeLast id store.openStack).count target
    rw [count_removeLast, ← tallied.depth target region found]
    split <;> rfl
  · intro target region found
    have follows := tallied.state_iff found
    split
    · dsimp only
      split
      · next both => simp [both.1]
      · next apart =>
          rw [not_and_or] at apart
          rw [follows]
          rcases apart with deep | closed
          · omega
          · rw [follows] at closed
            omega
    · exact follows

/-- Freeing regions takes their entries out of the stack. -/
theorem Tallied.free [Inhabited Value] (tallied : store.Tallied) (owner : RegionId) :
    (store.free owner).2.Tallied := by
  have freed : ∀ id region, store.region id = some region →
      (id ∈ (store.free owner).1 ↔ store.InSubtree owner id ∧ freeTouches region) := by
    intro id region found
    rw [mem_freed, found, Option.any_some]
  have stack : (store.free owner).2.openStack =
      store.openStack.filter fun entry => entry ∉ (store.free owner).1 := rfl
  apply tallied_of_map (region_free store owner)
  · intro id member
    rw [stack] at member
    exact tallied.present (List.mem_filter.mp member).1
  · intro id region found
    rw [stack]
    split
    · next swept =>
        rw [List.count_eq_zero_of_not_mem]
        · rfl
        · intro member
          have kept := (List.mem_filter.mp member).2
          simp [(freed id region found).mpr swept] at kept
    · next spared =>
        rw [List.count_filter, tallied.depth id region found]
        simpa using mt (freed id region found).mp spared
  · intro id region found
    split
    · simp [freeRegion]
    · exact tallied.state_iff found

theorem openStack_freeze (store : Store Value) (owner : RegionId) :
    (store.freeze owner).2.openStack = store.openStack := by
  rw [Store.freeze]
  repeat' split
  all_goals rfl

/-- A freeze that is not refused finds the whole family closed. -/
theorem Tallied.freeze (tallied : store.Tallied) (owner : RegionId) :
    (store.freeze owner).2.Tallied := by
  by_cases refused : store.FreezeRefused owner
  · have same : ∀ id, (store.freeze owner).2.region id =
        (store.region id).map fun region => region :=
      fun id => by simp [region_freeze_of_refused store refused id]
    exact tallied.of_same same (openStack_freeze store owner) fun id region _ => ⟨rfl, Iff.rfl⟩
  · apply tallied.of_same (region_freeze store refused) (openStack_freeze store owner)
    intro id region found
    split
    · next swept =>
        refine ⟨rfl, iff_of_false (by simp [freezeRegion]) ?_⟩
        rw [tallied.state_iff found]
        exact fun deep => refused (.inr ⟨id, region, swept.1, found, deep⟩)
    · exact ⟨rfl, Iff.rfl⟩

theorem Tallied.create (tallied : store.Tallied) (name : Option String) (strategy : Strategy)
    (cap : Option (Nat × Span)) (span : Span) :
    (store.create name strategy cap span).2.Tallied := by
  have absent : store.regions.length ∉ store.openStack := by
    intro member
    obtain ⟨region, found⟩ := tallied.present member
    exact Nat.lt_irrefl _ (List.getElem?_eq_some_iff.mp found).1
  constructor
  · intro id region found
    change region.depth = store.openStack.count id
    rw [region_create] at found
    split at found
    · next fresh =>
        rw [← Option.some.inj found, fresh, List.count_eq_zero_of_not_mem absent]
    · exact tallied.depth id region found
  · intro id
    change _ ↔ id ∈ store.openStack
    rw [state, region_create]
    split
    · next fresh => simp [fresh, absent]
    · exact tallied.opened id

/-- An opening keeps the tally exactly when it does not overflow the region's counter. -/
theorem tallied_enter_iff {next : Store Value} (tallied : store.Tallied)
    (found : store.region id = some region) (entered : store.enter id = .ok next) :
    next.Tallied ↔ region.deeper = region.depth + 1 := by
  obtain ⟨_, updated⟩ := region_enter store entered
  obtain ⟨_, _, stack, _⟩ := enter_opens entered
  have counted : ∀ target, next.openStack.count target =
      if id = target then store.openStack.count target + 1 else store.openStack.count target := by
    intro target
    rw [stack, List.count_append, List.count_singleton]
    by_cases same : id = target
    · simp [same]
    · simp [same]
  constructor
  · intro after
    have deep := after.depth id _ ((updated id).trans (congrArg _ found))
    rw [counted, if_pos rfl, ← tallied.depth id region found] at deep
    simpa using deep
  · intro room
    have grown : ∀ old, store.region id = some old → old.deeper = old.depth + 1 := by
      intro old oldFound
      obtain rfl := Option.eq_some_unique found oldFound
      exact room
    apply tallied_of_map updated
    · intro target member
      rw [stack, List.mem_append, List.mem_singleton] at member
      rcases member with earlier | rfl
      · exact tallied.present earlier
      · exact ⟨region, found⟩
    · intro target old oldFound
      rw [counted, ← tallied.depth target old oldFound]
      split
      · next same => exact grown old (same ▸ oldFound)
      · rfl
    · intro target old oldFound
      split
      · next same =>
          subst same
          rw [grown old oldFound]
          simp
      · exact tallied.state_iff oldFound

/-- A region that opens beside an antichain either has an entry already or is unrelated to it. -/
theorem Antichain.enter {next : Store Value} (antichain : store.Antichain) (tallied : store.Tallied)
    (entered : store.enter id = .ok next) (parents : next.parent = store.parent) : next.Antichain
    := by
  obtain ⟨region, found, stack, first⟩ := enter_opens entered
  by_cases fresh : region.depth = 0
  · have apart := notDisjointFrom_eq_none.mp (first fresh)
    intro above aboveMem below belowMem chain
    rw [stack, List.mem_append, List.mem_singleton] at aboveMem belowMem
    rw [parents] at chain
    rcases aboveMem with aboveOld | rfl
    · rcases belowMem with belowOld | rfl
      · exact antichain above aboveOld below belowOld chain
      · exact absurd chain (apart above aboveOld).1
    · rcases belowMem with belowOld | rfl
      · exact absurd chain (apart below belowOld).2
      · rfl
  · apply antichain.of_subset parents
    intro other member
    rw [stack, List.mem_append, List.mem_singleton] at member
    rcases member with earlier | rfl
    · exact earlier
    · exact (tallied.mem_iff found).mpr (Nat.pos_of_ne_zero fresh)

/-- An adoption keeps the antichain exactly when no open region above the owner and open region
below the child are two. -/
theorem antichain_adopt_iff (antichain : store.Antichain) (owner child : RegionId) :
    (store.adopt owner child).Antichain ↔ store.KeepsApart (.adopt owner child) := by
  by_cases present : child < store.regions.length
  · have parents : (store.adopt owner child).parent = attach store.parent child owner :=
      store.parent_adopt present
    have stack : (store.adopt owner child).openStack = store.openStack := rfl
    simp only [Antichain, KeepsApart, parents, stack, present, true_implies, isAncestor_iff]
    constructor
    · intro after above aboveMem below belowMem upper lower
      have down : Ancestor (attach store.parent child owner) child below := attach_ancestor lower
      have across : Ancestor (attach store.parent child owner) above owner ∨
          Ancestor store.parent above child := attach_ancestor_or upper
      rcases across with up | beyond
      · have edge : ParentChain.Owns (attach store.parent child owner) owner child := by
          simp [ParentChain.Owns, attach]
        exact after above aboveMem below belowMem ((up.tail edge).trans down)
      · exact antichain above aboveMem below belowMem (beyond.trans lower)
    · intro apart above aboveMem below belowMem chain
      rcases ancestor_or_of_attach chain with old | ⟨upper, lower⟩
      · exact antichain above aboveMem below belowMem old
      · exact apart above aboveMem below belowMem upper lower
  · have parents : (store.adopt owner child).parent = store.parent := by
      funext id
      rw [parent, region_adopt, parent]
      cases found : store.region id with
      | none => rfl
      | some region =>
        have bound : id < store.regions.length := (List.getElem?_eq_some_iff.mp found).1
        have differs : child ≠ id := fun same => present (same ▸ bound)
        simp [differs]
    refine iff_of_true (antichain.of_subset parents fun id member => member) ?_
    exact fun there => absurd there present

/-! ## Runs -/

/-- One operation keeps the open set sound exactly when it relates no two open regions and
overflows no counter. -/
theorem openSound_apply_iff [Inhabited Value] (sound : store.OpenSound) (op : RegionOp) :
    (store.applyRegion op).OpenSound ↔ store.KeepsApart op := by
  have tallied := sound.toTallied
  rw [openSound_iff]
  cases op with
  | create name strategy cap span =>
    refine iff_of_true ⟨tallied.create name strategy cap span, ?_⟩ trivial
    exact sound.antichain.of_subset (parent_create store name strategy cap span) fun _ => id
  | adopt owner child =>
    rw [← antichain_adopt_iff sound.antichain]
    refine and_iff_right (tallied.of_same (store.region_adopt owner child) rfl ?_)
    intro id region _
    split <;> exact ⟨rfl, Iff.rfl⟩
  | enter id =>
    cases entered : store.enter id with
    | ok next =>
      obtain ⟨region, found, _⟩ := enter_opens entered
      have same : store.applyRegion (.enter id) = next := by
        rw [applyRegion, entered]
        rfl
      have parents : next.parent = store.parent :=
        same ▸ parent_applyRegion store (.enter id) (by simp)
      rw [same, tallied_enter_iff tallied found entered,
        and_iff_left (sound.antichain.enter tallied entered parents)]
      simp [KeepsApart, found]
    | error refusal =>
      have same : store.applyRegion (.enter id) = store := by
        rw [applyRegion, entered]
        rfl
      rw [same]
      refine iff_of_true ⟨tallied, sound.antichain⟩ fun region found => ?_
      have closed : region.depth = 0 := by
        by_contra deep
        obtain ⟨next, opened⟩ := enter_of_open found
          ((tallied.state_iff found).mpr (Nat.pos_of_ne_zero deep)) deep
        rw [entered] at opened
        contradiction
      simp [Region.deeper, closed]
  | leave id =>
    refine iff_of_true ⟨tallied.leave id, ?_⟩ trivial
    exact sound.antichain.of_subset (parent_applyRegion store (.leave id) (by simp))
      fun _ => mem_removeLast
  | claim id claim =>
    refine iff_of_true ⟨tallied.of_same (store.region_claim id claim) rfl ?_, ?_⟩ trivial
    · intro target region _
      split <;> exact ⟨rfl, Iff.rfl⟩
    · exact sound.antichain.of_subset (parent_applyRegion store (.claim id claim) (by simp))
        fun _ member => member
  | free id =>
    refine iff_of_true ⟨tallied.free id, ?_⟩ trivial
    exact sound.antichain.of_subset (parent_applyRegion store (.free id) (by simp))
      fun _ member => (List.mem_filter.mp member).1
  | freeze id =>
    refine iff_of_true ⟨tallied.freeze id, ?_⟩ trivial
    apply sound.antichain.of_subset (parent_applyRegion store (.freeze id) (by simp))
    intro target member
    exact openStack_freeze store id ▸ member

theorem openSound_new : (new : Store Value).OpenSound := by
  rw [openSound_iff]
  have parents : ∀ id, (new : Store Value).parent id = none := by
    rintro (_ | id) <;> rfl
  refine ⟨⟨?_, ?_⟩, ?_⟩
  · rintro (_ | id) region found
    · rw [← Option.some.inj found]
      rfl
    · cases found
  · rintro (_ | id)
    · exact iff_of_true rfl (by simp [new, create])
    · refine iff_of_false (by simp [state, region, new, create]) (by simp [new, create])
  · intro above aboveMem below belowMem _
    simp only [new, create, List.nil_append, List.mem_singleton] at aboveMem belowMem
    rw [aboveMem, belowMem]

/-- A run keeps the open set sound in every state exactly when no adoption of it relates two open
regions and no opening overflows its counter. -/
theorem openSet_always_iff [Inhabited Value] (ops : List RegionOp) :
    Execution.Always regionStep OpenSound (new : Store Value) ops ↔
      Execution.Guarded regionStep KeepsApart (new : Store Value) ops := by
  apply Execution.always_iff_guarded openSound_new
  intro store op next sound performed
  rw [← Option.some.inj performed]
  exact openSound_apply_iff sound op

/-- A region opens inside the program region, and then the program region adopts it. -/
theorem openSet_not_always : ¬ Execution.Always regionStep OpenSound (new : Store Unit)
      [.create none .arena none ⟨0, 1⟩, .enter 1, .adopt 0 1] := by
  intro always
  have sound := always _ [] _ (List.append_nil _).symm rfl
  have related : (0 : RegionId) = 1 := by
    apply sound.antichain 0 (by decide) 1 (by decide)
    exact Relation.ReflTransGen.single rfl
  contradiction

end WolfInterp.Store
