import WolfInterp.Region.Lattice

/-!
# Dead regions

A frozen or freed region takes no more writes. It stays one or the other, and the store's flag is
set before there is any.
-/

namespace WolfInterp.Store

variable {Value : Type}

/-- The region is frozen or freed. -/
def Dead (store : Store Value) (id : RegionId) : Prop :=
  store.state id = some .freed ∨ store.state id = some .frozen

instance (store : Store Value) (id : RegionId) : Decidable (store.Dead id) := by
  unfold Dead
  infer_instance

/-- Dead regions stay dead, and the flag is set when one dies and never reset. -/
structure Ages (before after : Store Value) : Prop where
  dead : ∀ id, before.Dead id → after.Dead id
  teeth : before.teeth = true → after.teeth = true
  bitten : ∀ id, after.Dead id → before.Dead id ∨ after.teeth = true

theorem Ages.refl (store : Store Value) : Ages store store :=
  ⟨fun _ dead => dead, fun teeth => teeth, fun _ dead => .inl dead⟩

variable {before after : Store Value}

/-- A step that moves no state. -/
theorem ages_of_state (states : ∀ id, after.state id = before.state id)
    (teeth : after.teeth = before.teeth) : Ages before after := by
  have same : ∀ id, after.Dead id ↔ before.Dead id := fun id => by rw [Dead, Dead, states]
  exact ⟨fun id => (same id).mpr, fun was => teeth.trans was, fun id now => .inl ((same id).mp now)⟩

/-- An update in place that keeps the state of every region. -/
theorem ages_of_map {update : RegionId → Region → Region}
    (updated : ∀ id, after.region id = (before.region id).map (update id))
    (keeps : ∀ id region, (update id region).state = region.state)
    (teeth : after.teeth = before.teeth) : Ages before after := by
  refine ages_of_state (fun id => ?_) teeth
  rw [state, state, updated, Option.map_map]
  exact congrArg (Option.map · (before.region id)) (funext (keeps id))

/-- A step that sets the flag and keeps dead regions dead. -/
theorem ages_of_bite (dead : ∀ id, before.Dead id → after.Dead id) (teeth : after.teeth = true) :
    Ages before after :=
  ⟨dead, fun _ => teeth, fun _ _ => .inr teeth⟩

theorem OneWay.dead (oneWay : OneWay before after) (id : RegionId) (was : before.Dead id) :
    after.Dead id :=
  was.imp (oneWay id).1 (oneWay id).2

theorem ages_create (store : Store Value) (name : Option String) (strategy : Strategy)
    (cap : Option (Nat × Span)) (span : Span) :
    Ages store (store.create name strategy cap span).2 := by
  refine ⟨(oneWay_create store name strategy cap span).dead, fun was => was, fun id now => ?_⟩
  refine .inl ?_
  simp only [Dead, state, region_create] at now ⊢
  split at now
  · simp at now
  · exact now

theorem ages_enter (store : Store Value) (id : RegionId) :
    Ages store (store.orKeep (store.enter id)) := by
  cases entered : store.enter id with
  | error => exact Ages.refl store
  | ok next =>
    have oneWay := oneWay_enter store id
    rw [entered] at oneWay
    have flag : next.teeth = store.teeth := by
      unfold enter at entered
      repeat' split at entered
      all_goals first
        | (cases entered; rfl)
        | cases entered
    refine ⟨oneWay.dead, fun was => flag.trans was, fun target now => .inl ?_⟩
    have updated := (region_enter store entered).2 target
    change next.Dead target at now
    simp only [Dead, state, updated, Option.map_map] at now ⊢
    cases found : store.region target with
    | none => simp [found] at now
    | some region =>
      by_cases same : id = target
      · simp [found, same] at now
      · simpa [found, same] using now

theorem ages_leave (store : Store Value) (id : RegionId) : Ages store (store.leave id) := by
  refine ⟨(oneWay_leave store id).dead, fun was => was, fun target now => .inl ?_⟩
  simp only [Dead, state, region_leave, Option.map_map] at now ⊢
  cases found : store.region target with
  | none => simp [found] at now
  | some region =>
    simp only [found, Option.map_some, Function.comp_apply, Option.some.injEq] at now ⊢
    split at now
    · split at now
      · simp at now
      · exact now
    · exact now

theorem ages_freeze (store : Store Value) (owner : RegionId) :
    Ages store (store.freeze owner).2 := by
  have flag : (store.freeze owner).2.teeth = true := by
    unfold freeze
    split
    · rfl
    · split
      · split <;> rfl
      · rfl
  refine ages_of_bite (fun id was => ?_) flag
  by_cases refused : store.FreezeRefused owner
  · simpa [Dead, state, region_freeze_of_refused store refused] using was
  · simp only [Dead, state, region_freeze store refused, Option.map_map] at was ⊢
    cases found : store.region id with
    | none => simp [found] at was
    | some region =>
      simp only [found, Option.map_some, Function.comp_apply, Option.some.injEq] at was ⊢
      split
      · exact .inr rfl
      · exact was

/-- Growth is charged to a ledger; no region's state moves. -/
theorem states_chargeGrowth {store next : Store Value} {id : RegionId} {bytes : Nat}
    (charged : store.chargeGrowth id bytes = .ok next) :
    (∀ target, next.state target = store.state target) ∧ next.teeth = store.teeth := by
  obtain rfl | ⟨update, ledger, rfl⟩ := raised_chargeGrowth charged
  · exact ⟨fun _ => rfl, rfl⟩
  · refine ⟨fun target => ?_, rfl⟩
    rw [state, state, region_modify, Option.map_map]
    refine congrArg (Option.map · (store.region target)) (funext fun region => ?_)
    obtain ⟨_, _, same⟩ := ledger region
    rw [Function.comp_apply]
    split
    · rw [same]
    · rfl

/-- A region opened for another task is a fresh one. -/
theorem ages_openFresh (store : Store Value) (name : Option String) (span : Span) :
    let created := store.create name .arena none span
    Ages store (created.2.forceOpen created.1) := by
  have sized : (store.create name .arena none span).2.regions.length =
      store.regions.length + 1 := by
    simp [create]
  have state_eq : ∀ id, id ≠ store.regions.length →
      ((store.create name .arena none span).2.forceOpen store.regions.length).state id =
        store.state id := by
    intro id differ
    simp only [state, forceOpen, region_modify, region_create, if_neg differ, Option.map_map]
    refine congrArg (Option.map · (store.region id)) (funext fun region => ?_)
    simp [Ne.symm differ]
  have fresh : store.state store.regions.length = none := by simp [state, region]
  have opened : ((store.create name .arena none span).2.forceOpen store.regions.length).state
      store.regions.length = some .opened := by
    simp [state, forceOpen, region_modify, region_create]
  refine ⟨fun id was => ?_, fun was => was, fun id now => .inl ?_⟩
  · have differ : id ≠ store.regions.length := by
      rintro rfl
      simp [Dead, fresh] at was
    exact was.imp (state_eq id differ).trans (state_eq id differ).trans
  · by_cases same : id = store.regions.length
    · subst same
      change _ ∨ _ at now
      rw [show ((store.create name .arena none span).2.forceOpen
        (store.create name .arena none span).1) = ((store.create name .arena none
          span).2.forceOpen store.regions.length) from rfl, opened] at now
      simp at now
    · exact now.imp (state_eq id same).symm.trans (state_eq id same).symm.trans

variable [Inhabited Value]

theorem ages_applyRegion (store : Store Value) (op : RegionOp) :
    Ages store (store.applyRegion op) := by
  cases op with
  | create name strategy cap span => exact ages_create store name strategy cap span
  | adopt parent child =>
    refine ages_of_map (region_adopt store parent child) (fun id region => ?_) rfl
    split <;> rfl
  | enter id => exact ages_enter store id
  | leave id => exact ages_leave store id
  | claim owner claim =>
    refine ages_of_map (region_claim store owner claim) (fun id region => ?_) rfl
    split <;> rfl
  | free owner => exact ages_of_bite (oneWay_free store owner).dead rfl
  | freeze owner => exact ages_freeze store owner

end WolfInterp.Store
