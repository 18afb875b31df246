import WolfInterp.Region.Step

/-!
# The region-state lattice

Only open and suspended may alternate. Every operation but a freeze keeps freed regions freed and
frozen regions frozen. A freeze promotes its whole family, the freed members included, so a run
respects the lattice exactly when no accepted freeze meets a freed region in its subtree.
-/

namespace WolfInterp.Store

open Execution

variable {Value : Type}

/-- Freed regions stay freed and frozen regions stay frozen. -/
def OneWay (before after : Store Value) : Prop :=
  ∀ id, (before.state id = some .freed → after.state id = some .freed) ∧
    (before.state id = some .frozen → after.state id = some .frozen)

instance : IsPreorder (Store Value) OneWay where
  refl _ _ := ⟨id, id⟩
  trans _ _ _ first second id :=
    ⟨fun freed => (second id).1 ((first id).1 freed),
      fun frozen => (second id).2 ((first id).2 frozen)⟩

/-- A freeze that is carried out meets no freed region in the subtree it promotes. -/
def FreezeSparesFreed (store : Store Value) : RegionOp → Prop
  | .freeze owner =>
    store.FreezeRefused owner ∨
      ∀ member, store.InSubtree owner member → store.state member ≠ some .freed
  | _ => True

/-- A store whose regions keep their final states respects the lattice. -/
theorem oneWay_of_region {before after : Store Value}
    (kept : ∀ id region, before.region id = some region →
      region.state = .freed ∨ region.state = .frozen →
        ∃ later, after.region id = some later ∧ later.state = region.state) :
    OneWay before after := by
  intro id
  constructor <;> intro final
  · obtain ⟨region, found, state_eq⟩ := Option.map_eq_some_iff.mp final
    obtain ⟨later, laterFound, later_eq⟩ := kept id region found (.inl state_eq)
    simp [state, laterFound, later_eq, state_eq]
  · obtain ⟨region, found, state_eq⟩ := Option.map_eq_some_iff.mp final
    obtain ⟨later, laterFound, later_eq⟩ := kept id region found (.inr state_eq)
    simp [state, laterFound, later_eq, state_eq]

/-- An update in place respects the lattice when it leaves final states alone. -/
theorem oneWay_of_map {before after : Store Value} {update : RegionId → Region → Region}
    (updated : ∀ id, after.region id = (before.region id).map (update id))
    (keeps : ∀ id region, before.region id = some region →
      region.state = .freed ∨ region.state = .frozen → (update id region).state = region.state) :
    OneWay before after := by
  refine oneWay_of_region fun id region found final => ?_
  exact ⟨update id region, by simp [updated, found], keeps id region found final⟩

theorem oneWay_create (store : Store Value) (name : Option String) (strategy : Strategy)
    (cap : Option (Nat × Span)) (span : Span) :
    OneWay store (store.create name strategy cap span).2 := by
  refine oneWay_of_region fun id region found _ => ⟨region, ?_, rfl⟩
  have present : id < store.regions.length := (List.getElem?_eq_some_iff.mp found).1
  rw [region_create, if_neg (Nat.ne_of_lt present), found]

theorem oneWay_enter (store : Store Value) (id : RegionId) :
    OneWay store (store.orKeep (store.enter id)) := by
  cases entered : store.enter id with
  | error => exact refl store
  | ok next =>
    obtain ⟨was, updated⟩ := region_enter store entered
    refine oneWay_of_map updated fun target region found final => ?_
    split
    · rename_i same
      subst same
      simp only [state, found, Option.map_some, Option.some.injEq] at was
      rcases was with opened | suspended
      · simp [opened] at final
      · simp [suspended] at final
    · rfl

theorem oneWay_leave (store : Store Value) (id : RegionId) : OneWay store (store.leave id) := by
  refine oneWay_of_map (region_leave store id) fun target region _ final => ?_
  split
  · rcases final with freed | frozen
    · simp [freed]
    · simp [frozen]
  · rfl

/-- One freeze respects the lattice exactly when it spares every freed region. -/
theorem oneWay_freeze_iff (store : Store Value) (owner : RegionId) :
    OneWay store (store.freeze owner).2 ↔ FreezeSparesFreed store (.freeze owner) := by
  by_cases refused : store.FreezeRefused owner
  · refine iff_of_true ?_ (.inl refused)
    exact oneWay_of_region fun id region found _ =>
      ⟨region, (region_freeze_of_refused store refused id).trans found, rfl⟩
  · have updated := region_freeze store refused
    constructor
    · refine fun oneWay => .inr fun member owned freed => ?_
      have kept := (oneWay member).1 freed
      obtain ⟨region, found, region_freed⟩ := Option.map_eq_some_iff.mp freed
      simp [state, updated, found, owned, freezeTouches, freezeRegion, region_freed] at kept
    · intro spares
      have alive := spares.resolve_left refused
      refine oneWay_of_map updated fun id region found final => ?_
      split
      · rename_i swept
        rcases final with freed | frozen
        · exact absurd (by simp [state, found, freed]) (alive id swept.1)
        · simp [freezeTouches, frozen] at swept
      · rfl

variable [Inhabited Value]

theorem oneWay_free (store : Store Value) (owner : RegionId) :
    OneWay store (store.free owner).2 := by
  refine oneWay_of_map (region_free store owner) fun id region _ final => ?_
  split
  · rename_i swept
    rcases final with freed | frozen
    · simp [freeTouches, freed] at swept
    · simp [freeTouches, frozen] at swept
  · rfl

/-- One operation respects the lattice exactly when it is no freeze over a freed region. -/
theorem oneWay_apply_iff (store : Store Value) (op : RegionOp) :
    OneWay store (store.applyRegion op) ↔ FreezeSparesFreed store op := by
  cases op with
  | create name strategy cap span =>
    exact iff_of_true (oneWay_create store name strategy cap span) trivial
  | adopt parent child =>
    refine iff_of_true (oneWay_of_map (region_adopt store parent child) ?_) trivial
    intro id region _ _
    split <;> rfl
  | enter id => exact iff_of_true (oneWay_enter store id) trivial
  | leave id => exact iff_of_true (oneWay_leave store id) trivial
  | claim owner claim =>
    refine iff_of_true (oneWay_of_map (region_claim store owner claim) ?_) trivial
    intro id region _ _
    split <;> rfl
  | free owner => exact iff_of_true (oneWay_free store owner) trivial
  | freeze owner => exact oneWay_freeze_iff store owner

/-- A run of lifecycle operations from the fresh store respects the lattice exactly when none of
its freezes is carried out over a subtree with a freed region. -/
theorem lattice_oneWay_iff (ops : List RegionOp) :
    Evolves regionStep OneWay (new : Store Value) ops ↔
      Guarded regionStep FreezeSparesFreed (new : Store Value) ops := by
  refine evolves_iff_guarded fun store op next performed => ?_
  obtain rfl : store.applyRegion op = next := Option.some.inj performed
  exact oneWay_apply_iff store op

/-- Two regions, the second owned by the first and freed before the first is frozen. -/
def freezeOverFreed : List RegionOp :=
  [.create none .arena none ⟨0, 1⟩, .create none .arena none ⟨2, 3⟩, .adopt 1 2, .free 2, .freeze 1]

/-- Freezing the owner turns its freed child frozen. -/
theorem lattice_broken_by_freeze :
    ¬ ∀ ops : List RegionOp, Evolves regionStep OneWay (new : Store Unit) ops := by
  intro oneWay
  have kept := oneWay freezeOverFreed (freezeOverFreed.take 4) (freezeOverFreed.drop 4) [] _ _
    rfl rfl rfl 2
  exact absurd (kept.1 (by decide)) (by decide)

end WolfInterp.Store
