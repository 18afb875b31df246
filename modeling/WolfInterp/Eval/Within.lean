import WolfInterp.Eval.Bare
import WolfInterp.Eval.Frozen

/-!
# How far a door reaches

A door changes what lies at or below its path: the containers above keep their homes, and a place
that is neither above nor below keeps its slot.
-/

namespace WolfInterp.Eval

open WolfInterp.Lex (Text)

/-! ## Places above a place -/

namespace Path

/-- A place is another one, or lies above it. -/
def Above (path other : Path) : Prop :=
  path.SameBase other ∧ path.projections <+: other.projections

theorem SameBase.symm {path other : Path} (same : path.SameBase other) : other.SameBase path :=
  ⟨same.1.symm, same.2.symm⟩

theorem SameBase.trans {first second third : Path} (one : first.SameBase second)
    (two : second.SameBase third) : first.SameBase third :=
  ⟨one.1.trans two.1, one.2.trans two.2⟩

theorem Above.trans {first second third : Path} (one : first.Above second)
    (two : second.Above third) : first.Above third :=
  ⟨one.1.trans two.1, one.2.trans two.2⟩

theorem above_project (path : Path) (step : Proj) : path.Above (path.project step) :=
  ⟨⟨rfl, rfl⟩, List.prefix_append ..⟩

end Path

namespace Machine

variable {machine : Machine} {path other : Path}

/-- The home of the container a path denotes. -/
def homeAt (machine : Machine) (path : Path) : Option RegionId :=
  (machine.slotAt path).bind fun slot => slot.value.home

variable {id : RegionId} {slot : Slot Value}

theorem mem_homesOf_self (home : machine.homeAt path = some id) :
    id ∈ machine.homesOf path true := by
  obtain ⟨slot, found, same⟩ := Option.bind_eq_some_iff.mp home
  exact mem_homesOf_true.mpr (.inr ⟨slot, found, same⟩)

/-- A container lies above every place strictly below it. -/
theorem mem_homesOf_of_above (home : machine.homeAt path = some id) (above : path.Above other)
    (below : ¬ other.Above path) : id ∈ machine.homesOf other false := by
  obtain ⟨same, rest, extends_⟩ := above
  obtain ⟨base, present, walked⟩ := Option.bind_eq_some_iff.mp
    (Option.bind_eq_some_iff.mp home).choose_spec.1
  have member := mem_homesOf_self home
  rw [homesOf, present] at member
  rw [homesOf, ← baseSlot_of_sameBase same, present]
  cases rest with
  | nil =>
    rw [List.append_nil] at extends_
    exact absurd ⟨same.symm, extends_ ▸ List.prefix_rfl⟩ below
  | cons step rest =>
    change id ∈ homesAlong false base other.projections
    rw [← extends_, show path.projections ++ step :: rest =
      (path.projections ++ [step]) ++ rest by simp]
    exact homesAlong_prefix (homesAlong_snoc.mpr member)

theorem homesAlong_home {path : List Proj} (member : id ∈ homesAlong true slot path) :
    ∃ front, front <+: path ∧ (slots.walk slot front).bind (fun slot => slot.value.home) =
      some id := by
  induction path generalizing slot with
  | nil => exact ⟨[], List.prefix_rfl, by simpa [homesAlong] using member⟩
  | cons step path induction =>
    rw [homesAlong, List.mem_append] at member
    rcases member with own | later
    · exact ⟨[], List.nil_prefix, by simpa using own⟩
    · cases found : slots.child slot step with
      | none => simp [found] at later
      | some next =>
        rw [found] at later
        obtain ⟨front, within, home⟩ := induction later
        refine ⟨step :: front, List.cons_prefix_cons.mpr ⟨rfl, within⟩, ?_⟩
        rw [Lens.walk_cons, found]
        exact home

/-- The homes a walk touches are those of the containers at or above its place. -/
theorem mem_homesOf_iff : id ∈ machine.homesOf path true ↔
      ∃ above : Path, above.Above path ∧ machine.homeAt above = some id := by
  constructor
  · intro member
    rw [homesOf] at member
    cases present : machine.baseSlot path with
    | none => simp [present] at member
    | some base =>
      rw [present] at member
      obtain ⟨front, within, home⟩ := homesAlong_home member
      refine ⟨{ path with projections := front }, ⟨⟨rfl, rfl⟩, within⟩, ?_⟩
      have start : machine.baseSlot { path with projections := front } = some base := present
      rw [homeAt, slotAt, start]
      exact home
  · rintro ⟨above, over_, home⟩
    by_cases below : path.Above above
    · have same : machine.homesOf path true = machine.homesOf above true := by
        rw [homesOf, homesOf, baseSlot_of_sameBase over_.1.symm,
          List.IsPrefix.eq_of_length over_.2 (le_antisymm over_.2.length_le below.2.length_le)]
      rw [same]
      exact mem_homesOf_self home
    · exact mem_homesOf_true.mpr (.inl (mem_homesOf_of_above home over_ below))

theorem homeAt_eq_bareAt (machine : Machine) (path : Path) :
    machine.homeAt path = (machine.bareAt path).bind fun slot => slot.value.home := by
  rw [homeAt, bareAt]
  cases machine.slotAt path with
  | none => rfl
  | some slot => simp [bareSlot_eq, Slot.live, home_bare]

theorem SameContent.homeAt {before after : Machine} (same : SameContent before after)
    (path : Path) : after.homeAt path = before.homeAt path := by
  rw [homeAt_eq_bareAt, homeAt_eq_bareAt, same]

/-! ## Changes within a place -/

/-- A step that changes nothing but what lies at or below a place, and ledgers. -/
structure Within (path : Path) (before after : Machine) : Prop where
  states : SameStates before.store after.store
  apart : ∀ {other slot}, ¬ path.Above other → ¬ other.Above path →
    before.slotAt other = some slot → after.slotAt other = some slot
  home : ∀ {other id}, ¬ path.Above other → before.homeAt other = some id →
    after.homeAt other = some id

theorem Within.refl (path : Path) (machine : Machine) : Within path machine machine :=
  ⟨⟨fun _ => rfl, rfl⟩, fun _ _ found => found, fun _ found => found⟩

theorem Within.trans {first second third : Machine} (one : Within path first second)
    (two : Within path second third) : Within path first third where
  states := ⟨fun id => (two.states.1 id).trans (one.states.1 id),
    two.states.2.trans one.states.2⟩
  apart away below found := two.apart away below (one.apart away below found)
  home away found := two.home away (one.home away found)

/-- What lies within a place lies within the places above it. -/
theorem Within.mono {before after : Machine} (above : path.Above other)
    (within : Within other before after) : Within path before after where
  states := within.states
  apart {target slot} away below found := by
    apply within.apart (fun over_ => away (above.trans over_)) _ found
    intro over_
    rcases List.prefix_or_prefix_of_prefix over_.2 above.2 with before | after
    · exact below ⟨over_.1.trans above.1.symm, before⟩
    · exact away ⟨above.1.trans over_.1.symm, after⟩
  home away found := within.home (fun over_ => away (above.trans over_)) found

section

variable {before after : Machine} (frames : after.frames = before.frames)
  (globals : after.globals = before.globals)
include frames globals

theorem slotAt_of_frames (path : Path) :
    after.slotAt path = before.slotAt path := by
  rw [slotAt, slotAt, baseSlot, baseSlot, frames, globals]

/-- A step that moves no binding. -/
theorem within_of_frames (states : SameStates before.store after.store) :
    Within path before after where
  states := states
  apart _ _ found := (slotAt_of_frames frames globals _).trans found
  home _ found := by
    rw [homeAt, slotAt_of_frames frames globals]
    exact found

theorem sameContent_of_frames : SameContent before after :=
  fun path => by rw [bareAt, bareAt, slotAt_of_frames frames globals]

end

theorem home_change {step : Proj} {path : List Proj} (update : Slot Value → Slot Value) :
    (slots.change update slot (step :: path)).value.home = slot.value.home := by
  cases found : slots.child slot step with
  | none => rw [Lens.change_of_walk_none (by rw [Lens.walk_cons, found]; rfl)]
  | some next =>
    rw [Lens.change_of_child found]
    exact Value.home_graft slot.value step _

theorem within_changeSlot (update : Slot Value → Slot Value) :
    Within path machine (machine.changeSlot path update) where
  states := by rw [store_changeSlot]; exact ⟨fun _ => rfl, rfl⟩
  apart {other slot} away below found := by
    by_cases same : path.SameBase other
    · rcases Lens.prefix_or_parts path.projections other.projections with before | after | parts
      · exact absurd ⟨same, before⟩ away
      · exact absurd ⟨same.symm, after⟩ below
      · rw [slotAt_changeSlot_parts same parts]
        exact found
    · rw [slotAt_changeSlot_ne same]
      exact found
  home {other id} away found := by
    by_cases same : path.SameBase other
    · rcases Lens.prefix_or_parts path.projections other.projections with before | after | parts
      · exact absurd ⟨same, before⟩ away
      · obtain ⟨rest, extends_⟩ := after
        rw [homeAt, slotAt_changeSlot_above same extends_.symm, Option.bind_map]
        cases rest with
        | nil =>
          rw [List.append_nil] at extends_
          exact absurd ⟨same, extends_ ▸ List.prefix_rfl⟩ away
        | cons step rest =>
          simp only [Function.comp_def, home_change]
          exact found
      · rw [homeAt, slotAt_changeSlot_parts same parts]
        exact found
    · rw [homeAt, slotAt_changeSlot_ne same]
      exact found

/-- What is found below a map is found below the map grown. -/
theorem walk_grown {state : SlotState} {pairs : List (Value × Slot Value)} {home : Option RegionId}
    {entry : Value × Slot Value} {step : Proj} {path : List Proj}
    (found : slots.walk ⟨state, .map pairs home⟩ (step :: path) = some slot) :
    slots.walk ⟨state, .map (pairs ++ [entry]) home⟩ (step :: path) = some slot := by
  rw [Lens.walk_cons] at found ⊢
  obtain ⟨next, child, rest⟩ := Option.bind_eq_some_iff.mp found
  have grown : slots.child ⟨state, .map (pairs ++ [entry]) home⟩ step = some next := by
    cases step with
    | key key => exact entryOf_append child [entry]
    | _ => cases child
  rw [grown]
  exact rest

section

variable {grown : Machine} {stored : Option Value}
  (inserted : machine.insertMapKey path stored = some grown)
include inserted

theorem insertMapKey_eq_some :
    path.parent.Above path ∧ ∃ state pairs entry home,
      machine.slotAt path.parent = some ⟨state, .map pairs home⟩ ∧
      grown = machine.changeSlot path.parent fun slot =>
        { slot with value := .map (pairs ++ [entry]) home } := by
  unfold insertMapKey at inserted
  split at inserted
  · split at inserted
    · rename_i state pairs home found
      cases inserted
      exact ⟨⟨⟨rfl, rfl⟩, List.dropLast_prefix _⟩, state, pairs, _, home, found, rfl⟩
    · cases inserted
  · cases inserted

/-- A map that grows at a path's last step keeps its home and the entries it has. -/
theorem within_insertMapKey : Within path machine grown := by
  obtain ⟨above, state, pairs, entry, home, found, rfl⟩ := insertMapKey_eq_some inserted
  have within : Within path.parent machine (machine.changeSlot path.parent fun slot =>
      { slot with value := .map (pairs ++ [entry]) home }) := within_changeSlot _
  have below {other : Path} {slot : Slot Value} (under : path.parent.Above other)
      (strict : ¬ other.Above path.parent) (present : machine.slotAt other = some slot) :
      (machine.changeSlot path.parent fun slot =>
        { slot with value := .map (pairs ++ [entry]) home }).slotAt other = some slot := by
    obtain ⟨same, rest, extends_⟩ := under
    rw [slotAt_changeSlot_below same extends_.symm, found]
    cases rest with
    | nil =>
      rw [List.append_nil] at extends_
      exact absurd ⟨same.symm, extends_ ▸ List.prefix_rfl⟩ strict
    | cons step rest =>
      apply walk_grown
      rw [slotAt, ← baseSlot_of_sameBase same, ← extends_] at present
      rw [slotAt] at found
      obtain ⟨base, based, walked⟩ := Option.bind_eq_some_iff.mp found
      rw [based, Option.bind_some, Lens.walk_append, walked] at present
      exact present
  refine ⟨within.states, fun {other slot} away under present => ?_, fun {other id} away present =>
    ?_⟩
  · by_cases inside : path.parent.Above other
    · exact below inside (fun over_ => under (over_.trans above)) present
    · exact within.apart inside (fun over_ => under (over_.trans above)) present
  · by_cases inside : path.parent.Above other
    · by_cases strict : other.Above path.parent
      · have named : ∀ machine : Machine, machine.slotAt other = machine.slotAt path.parent := by
          intro machine
          rw [slotAt, slotAt, baseSlot_of_sameBase strict.1,
            strict.2.eq_of_length (le_antisymm strict.2.length_le inside.2.length_le)]
        rw [homeAt, named, slotAt_changeSlot, found]
        rw [homeAt, named, found] at present
        exact present
      · obtain ⟨slot, held, home⟩ := Option.bind_eq_some_iff.mp present
        rw [homeAt, below inside strict held]
        exact home
    · exact within.home inside present

end

end Machine

/-! ## The doors -/

section Doors

variable {machine : Machine} {path : Path} {span : Span}

/-- Only checks and notes: no binding and no region moved. -/
def Notes (before after : Machine) : Prop :=
  after.frames = before.frames ∧ after.globals = before.globals ∧ after.store = before.store

theorem Notes.within {before after : Machine} (notes : Notes before after) :
    Machine.Within path before after :=
  Machine.within_of_frames notes.1 notes.2.1 (notes.2.2 ▸ ⟨fun _ => rfl, rfl⟩)

theorem Notes.sameContent {before after : Machine} (notes : Notes before after) :
    Machine.SameContent before after :=
  Machine.sameContent_of_frames notes.1 notes.2.1

theorem notes_noteCapturedWrite (machine : Machine) (path : Path) (span : Span) :
    Notes machine (machine.noteCapturedWrite path span) := by
  unfold Machine.noteCapturedWrite
  split
  · exact ⟨rfl, rfl, rfl⟩
  · dsimp only
    split
    · exact ⟨rfl, rfl, rfl⟩
    · exact ⟨rfl, rfl, rfl⟩

theorem notes_notePartMoved (machine : Machine) (path : Path) :
    Notes machine (machine.notePartMoved path) := by
  unfold Machine.notePartMoved
  split
  · exact ⟨rfl, rfl, rfl⟩
  · exact ⟨rfl, rfl, rfl⟩

theorem accessPlace_keeps (path : Path) (kind : AccessKind) (span : Span) (machine : Machine) :
    ∃ prov, (accessPlace path kind span machine).2 = { machine with prov } := by
  obtain ⟨_, prov, run, -⟩ := accessPlace_run path kind span machine
  exact ⟨prov, by rw [run]⟩

theorem notes_accessPlace (path : Path) (kind : AccessKind) (span : Span) (machine : Machine) :
    Notes machine (accessPlace path kind span machine).2 := by
  obtain ⟨prov, kept⟩ := accessPlace_keeps path kind span machine
  rw [kept]
  exact ⟨rfl, rfl, rfl⟩

theorem write_within (path : Path) (value : Value) (key : Option Value) (span : Span)
    (machine : Machine) :
    Machine.Within path machine (writePathWithKey path value key span machine).2 := by
  cases predicted : machine.writebackWouldTrap path with
  | true =>
    obtain ⟨_, run, -⟩ := write_trapped predicted value key span
    rw [run]
    exact .refl path machine
  | false =>
    rcases write_checked predicted value key span with
      ⟨-, -, run⟩ | ⟨ready, grows, run⟩ <;> rw [run]
    · exact .refl path machine
    have grown : Machine.Within path machine ready := by
      rcases grows with ⟨-, rfl⟩ | ⟨-, inserted⟩
      · exact .refl path ready
      · exact Machine.within_insertMapKey inserted
    rw [Machine.storeAt]
    split
    · exact grown
    · exact ((grown.trans (Machine.within_changeSlot _)).trans
        (notes_noteCapturedWrite _ path span).within).trans
        (notes_accessPlace path .write span _).within

variable {which : Mutator} {args : List Value}

/-- Mutating a receiver in hand moves ledgers at most. -/
theorem mutate_run {receiver : Value} (fits : Door.fits which receiver) (bitten : machine.Bitten)
    (args : List Value) (span : Span) :
    ∃ result after store, mutate which receiver args span machine =
      (.ok (result, after), { machine with store }) ∧ SameStates machine.store store := by
  rcases mutate_asks fits bitten args span with
    ⟨-, result, -, ran⟩ | ⟨-, result, after, store, ran, same, -⟩
  · exact ⟨result, receiver, machine.store, ran, fun _ => rfl, rfl⟩
  · exact ⟨result, after, store, ran, same⟩

theorem bitten_lent (bitten : machine.Bitten) (path : Path) : (Door.lent machine path).Bitten := by
  rw [Machine.Bitten, store_changeSlot]
  exact bitten

theorem method_within (bitten : machine.Bitten)
    (applied : (Door.method path which args span).applies machine = true) :
    Machine.Within path machine ((Door.method path which args span).run machine).2 := by
  obtain ⟨slot, found, fits⟩ := (Option.any_eq_true _ _).mp applied
  cases would : machine.writebackWouldTrap path with
  | true =>
    obtain ⟨result, after, store, ran, same⟩ :=
      mutate_run fits bitten args span
    have charged : Machine.Within path machine { machine with store } :=
      Machine.within_of_frames rfl rfl same
    rw [Door.method_run_copied found would ran]
    cases result with
    | error signal => exact charged
    | ok value =>
      dsimp only
      split
      · exact charged
      · exact charged.trans (write_within path after none span _)
  | false =>
    obtain ⟨result, after, store, ran, same⟩ :=
      mutate_run fits (bitten_lent bitten path) args span
    have charged : Machine.Within path machine { Door.lent machine path with store } :=
      (Machine.within_changeSlot fun slot => { slot with value := .unit }).trans
        (Machine.within_of_frames rfl rfl same)
    have restored := charged.trans
      (Machine.within_changeSlot fun slot => { slot with value := after })
    rw [Door.method_run_lent found would ran]
    cases result with
    | error signal => exact restored
    | ok value =>
      dsimp only
      split
      · exact charged.trans (write_within path after none span _)
      · exact restored

theorem viewSet_within (path : Path) (before after : Value) (span : Span) (names : List Text)
    (machine : Machine) :
    Machine.Within path machine (writeViewSet path before after span names machine).2 :=
  writeViewSet_keeps (.refl path) (fun first => first.trans)
    (fun name value machine =>
      (write_within (path.project (.field name)) value none span machine).mono
      (Path.above_project path (.field name))) names machine

/-- Marking a receiver moved changes its state and no content. -/
theorem markMoved_run (site : MethodSite) (sited : site.path = some path)
    (written : Except Signal Unit) (selfMoved : Option Span) (machine : Machine) :
    ∃ next, markMoved site (.ok .unit) written selfMoved machine = (.ok (), next) ∧
      Machine.Within path machine next ∧ Machine.SameContent machine next := by
  have same : ∃ next, (pure () : M Unit) machine = (.ok (), next) ∧
      Machine.Within path machine next ∧ Machine.SameContent machine next :=
    ⟨machine, rfl, .refl path machine, fun _ => rfl⟩
  unfold markMoved
  rw [sited]
  cases selfMoved with
  | none => exact same
  | some at_ =>
    dsimp only
    split
    · let marked := machine.changeSlot path fun slot => { slot with state := .moved at_ }
      have notes := notes_notePartMoved marked path
      refine ⟨marked.notePartMoved path, rfl, ?_, ?_⟩
      · exact (Machine.within_changeSlot _).trans notes.within
      · apply Machine.SameContent.trans _ notes.sameContent
        apply Machine.sameContent_changeSlot
        intro slot
        rw [bareSlot_eq, bareSlot_eq]
    · exact same

theorem receiver_run {moded : Bool} {viewSet : List Text} {before after : Value}
    {result : Except Signal Unit} {next : Machine}
    (written : writeReceiver (Door.receiverSite path moded viewSet before span) none before
      (.ok .unit) after machine = (result, next)) (selfMoved : Option Span) :
    ∃ last, (Door.receiver path moded viewSet before after selfMoved span).run machine =
        (result, last) ∧ Machine.Within path next last ∧ Machine.SameContent next last := by
  have sited : (Door.receiverSite path moded viewSet before span).path = some path := rfl
  obtain ⟨last, marked, within, same⟩ := markMoved_run _ sited result selfMoved next
  refine ⟨last, ?_, within, same⟩
  simp only [Door.run, M.bind_run, M.attempt_run]
  rw [written]
  simp only [marked, M.ofExcept_run]

theorem receiver_within (moded : Bool) (viewSet : List Text) (before after : Value)
    (selfMoved : Option Span) : Machine.Within path machine
      ((Door.receiver path moded viewSet before after selfMoved span).run machine).2 := by
  have written : Machine.Within path machine (writeReceiver
      (Door.receiverSite path moded viewSet before span) none before
        (.ok .unit) after machine).2 := by
    cases changed : after.same before with
    | true =>
      rw [Door.receiver_keep changed]
      exact .refl path machine
    | false =>
      rw [Door.receiver_write changed]
      split
      · exact write_within path after none span machine
      · exact viewSet_within path before after span viewSet machine
  obtain ⟨last, run, within, -⟩ := receiver_run (Prod.eta _).symm selfMoved
  rw [run]
  exact written.trans within

theorem argument_within (path : Path) (value : Value) (moved : Option Span) (machine : Machine) :
    Machine.Within path machine (writeBack path value moved machine).2 := by
  let stored := machine.changeSlot path fun _ => { state := moved.elim .live .moved, value }
  have changed : Machine.Within path machine stored := Machine.within_changeSlot _
  cases moved with
  | none => exact changed
  | some at_ => exact changed.trans (notes_notePartMoved stored path).within

/-- A door changes what lies at or below its path. -/
theorem door_within (door : Door) (bitten : machine.Bitten)
    (applied : door.applies machine = true) :
    Machine.Within door.path machine (door.run machine).2 := by
  cases door with
  | assign path value key span => exact write_within path value key span machine
  | method => exact method_within bitten applied
  | receiver path moded viewSet before after selfMoved span =>
    exact receiver_within moded viewSet before after selfMoved
  | argument path value moved => exact argument_within path value moved machine

/-! ## Doors that dead storage stops -/

/-- The doors that reach dead storage and never ask: a `mut` argument's write-back, and the methods
of a map whose own home alone is dead. -/
def Door.Bypasses (machine : Machine) : Door → Prop
  | .argument _ _ _ => True
  | .method path which _ _ =>
    (which = .mapClear ∨ which = .mapRemove) ∧
      ¬ ∃ id ∈ machine.homesOf path false, machine.store.Dead id
  | _ => False

/-- The list methods refuse a dead home, and that is the only way past the homes above. -/
theorem homeRefuses_of_reaches {slot : Slot Value} (found : machine.slotAt path = some slot)
    (fits : Door.fits which slot.value)
    (reached : ∃ id ∈ machine.homesOf path true, machine.store.Dead id)
    (clear : ¬ ∃ id ∈ machine.homesOf path false, machine.store.Dead id)
    (asks : ¬ (Door.method path which args span).Bypasses machine) :
    homeRefuses machine slot.value := by
  obtain ⟨id, member, dead⟩ := reached
  rcases Machine.mem_homesOf_true.mp member with above | ⟨held, present, home⟩
  · exact absurd ⟨id, above, dead⟩ clear
  · obtain rfl : slot = held := Option.eq_some_unique found present
    obtain ⟨state, value⟩ := slot
    change Door.fits which value = true at fits
    change value.home = some id at home
    revert fits home
    fun_cases Door.fits which value with
    | case6 => exact absurd ⟨.inl rfl, clear⟩ asks
    | case7 => exact absurd ⟨.inr rfl, clear⟩ asks
    | case8 => rintro ⟨⟩
    | _ =>
      rintro - rfl
      exact dead

theorem method_sameContent (bitten : machine.Bitten)
    (reaches : (Door.method path which args span).Reaches machine)
    (asks : ¬ (Door.method path which args span).Bypasses machine) :
    Machine.SameContent machine ((Door.method path which args span).run machine).2 := by
  obtain ⟨applied, reached⟩ := reaches
  obtain ⟨slot, found, fits⟩ := (Option.any_eq_true _ _).mp applied
  have kept (next : Machine) (frames : next.frames = machine.frames)
      (globals : next.globals = machine.globals) : Machine.SameContent machine next :=
    Machine.sameContent_of_frames frames globals
  by_cases above : ∃ id ∈ machine.homesOf path false, machine.store.Dead id
  · have would := Machine.writebackWouldTrap_of_refusal
      ((Machine.writeRefusal_isSome_iff bitten).mpr above)
    obtain ⟨result, after, store, ran, same⟩ :=
      mutate_run fits bitten args span
    rw [Door.method_run_copied found would ran]
    cases result with
    | error signal => exact kept _ rfl rfl
    | ok value =>
      dsimp only
      split
      · exact kept _ rfl rfl
      · obtain ⟨signal, stopped, -⟩ := write_of_refusal
          ((refusal_of_sameStates bitten same).mpr above) after none span
        rw [writePath, stopped]
        exact kept _ rfl rfl
  · have refuses := homeRefuses_of_reaches found fits reached above asks
    cases would : machine.writebackWouldTrap path with
    | true =>
      rcases mutate_asks fits bitten args span with
        ⟨-, result, fault, ran⟩ | ⟨willing, -⟩
      · rw [Door.method_run_copied found would ran]
        cases result with
        | ok value => cases fault
        | error signal => exact kept _ rfl rfl
      · exact absurd refuses willing
    | false =>
      have lentRefuses : homeRefuses (Door.lent machine path) slot.value := by
        unfold homeRefuses at refuses ⊢
        rw [store_changeSlot]
        exact refuses
      rcases mutate_asks fits (bitten_lent bitten path) args span with
        ⟨-, result, fault, ran⟩ | ⟨willing, -⟩
      · rw [Door.method_run_lent found would ran]
        cases result with
        | ok value => cases fault
        | error signal =>
          have restored : (Door.lent machine path).changeSlot path (fun held =>
              { held with value := slot.value }) = machine := by
            rw [Machine.changeSlot_changeSlot]
            exact Machine.changeSlot_of_fixed found rfl
          exact kept _ (congrArg Machine.frames restored) (congrArg Machine.globals restored)
      · exact absurd lentRefuses willing

theorem receiver_sameContent {moded : Bool} {viewSet : List Text} {before after : Value}
    {selfMoved : Option Span} (bitten : machine.Bitten)
    (reaches : (Door.receiver path moded viewSet before after selfMoved span).Reaches machine) :
    Machine.SameContent machine
      ((Door.receiver path moded viewSet before after selfMoved span).run machine).2 := by
  have reached : ∃ id ∈ machine.homesOf path (!viewSet.isEmpty), machine.store.Dead id := reaches.2
  have stays : ∃ result, writeReceiver (Door.receiverSite path moded viewSet before span) none
      before (.ok .unit) after machine = (result, machine) := by
    cases changed : after.same before with
    | true => exact ⟨.ok (), by rw [Door.receiver_keep changed]; rfl⟩
    | false =>
      rw [Door.receiver_write changed]
      by_cases whole : viewSet = []
      · subst whole
        have refusal := (Machine.writeRefusal_isSome_iff bitten).mpr reached
        obtain ⟨signal, stopped, -⟩ := write_of_refusal refusal after none span
        exact ⟨.error signal, by rw [if_pos rfl]; exact stopped⟩
      · have nonempty : (!viewSet.isEmpty) = true := by simp [whole]
        rw [nonempty] at reached
        have run := Door.writeViewSet_run bitten reached before after span viewSet
        rw [if_neg whole]
        cases first : changedField before after viewSet with
        | none =>
          rw [first] at run
          exact ⟨.ok (), run⟩
        | some name =>
          rw [first] at run
          obtain ⟨signal, stopped, -⟩ := run
          exact ⟨.error signal, stopped⟩
  obtain ⟨result, written⟩ := stays
  obtain ⟨last, run, -, same⟩ := receiver_run written selfMoved
  rw [run]
  exact same

/-- A door that reaches dead storage and does not bypass the check changes no content. -/
theorem door_sameContent (door : Door) (bitten : machine.Bitten) (reaches : door.Reaches machine)
    (asks : ¬ door.Bypasses machine) : Machine.SameContent machine (door.run machine).2 := by
  cases door with
  | assign path value key span =>
    have refusal := (Machine.writeRefusal_isSome_iff bitten).mpr reaches.2
    obtain ⟨signal, run, -⟩ := write_of_refusal refusal value key span
    rw [Door.run, run]
    exact fun _ => rfl
  | method => exact method_sameContent bitten reaches asks
  | receiver => exact receiver_sameContent bitten reaches
  | argument => exact absurd trivial asks

end Doors

end WolfInterp.Eval
