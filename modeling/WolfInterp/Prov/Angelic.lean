import WolfInterp.Prov.Shelter

/-!
# Wildcards over whole runs

A wildcard access goes through the first exposed tag that permits it. A run that resolves its
wildcards so is compared with a run that an oracle has resolved: as long as no other permitting tag
would leave a byte of the tree with more permission, the machine's permissions stay above the
oracle's, and whatever is defined below is defined above.
-/

namespace WolfInterp

open Execution

/-- One access of a sequence. -/
structure MemAccess where
  ptr : RawPtr
  len : Nat
  kind : AccessKind
  span : Span

/-- The same access through a tag. -/
def MemAccess.through (access : MemAccess) (tag : TagId) : MemAccess :=
  { access with ptr := { access.ptr with prov := .tag tag } }

/-- How much a permission still allows. -/
def Perm.rank : Perm → Nat
  | .disabled => 0
  | .frozen => 1
  | .active => 2
  | .reserved => 3

namespace Provenance

/-- The machine after a defined access. -/
def proceed (prov : Provenance) (access : MemAccess) : Option Provenance :=
  match prov.access access.ptr access.len access.kind access.span with
  | some (.ok (), next) => some next
  | _ => none

/-- An access with an exposed tag of its allocation in the place of the wildcard. -/
def Resolves (prov : Provenance) (access resolved : MemAccess) : Prop :=
  match access.ptr.prov with
  | .tag _ => resolved = access
  | .wildcard => ∃ index entry tag, access.ptr.alloc = some index ∧
      prov.allocs[index]? = some entry ∧ tag ∈ entry.exposed ∧ resolved = access.through tag

/-- An access to an allocation that has not been freed. -/
def PointsLive (prov : Provenance) (access : MemAccess) : Prop :=
  ∃ index entry, access.ptr.alloc = some index ∧ prov.allocs[index]? = some entry ∧
    entry.live = true

/-- A machine reached by operations that retag and expose minted tags. -/
def Reached (prov : Provenance) : Prop :=
  ∃ ops, Guarded step NamesMinted new ops ∧ exec step new ops = some prov

/-- A wildcard access that goes through: the bytes it meets, the exposed tag that is taken and all
that could be. -/
structure Guess where
  index : AllocId
  lo : Nat
  hi : Nat
  taken : TagId
  permitting : List TagId

/-- What a wildcard access takes. -/
def guess (prov : Provenance) (access : MemAccess) : Option Guess :=
  match access.ptr.prov, prov.gate access.ptr access.len with
  | .wildcard, .opened index entry lo hi =>
    let permitting := entry.exposed.filter (prov.permits index access.kind lo hi)
    permitting.head?.map fun taken => ⟨index, lo, hi, taken, permitting⟩
  | _, _ => none

/-- No other permitting tag would leave a byte of the tree with more permission than the one that
is taken: a tag above another and not above the one taken would be spared by it in a write, and in
a read where it is active. -/
def FirstAsGood (prov : Provenance) (access : MemAccess) : Prop :=
  ∀ guess ∈ prov.guess access, ∀ other ∈ guess.permitting, ∀ node ∈ prov.treeTags guess.index,
    prov.childOf node other = true → prov.childOf node guess.taken = false →
      ∀ off ∈ bytes guess.lo guess.hi,
        access.kind = .read ∧ prov.permAt node off ≠ some .active

instance (prov : Provenance) (access : MemAccess) : Decidable (prov.FirstAsGood access) :=
  inferInstanceAs (Decidable (∀ guess ∈ prov.guess access, ∀ other ∈ guess.permitting,
    ∀ node ∈ prov.treeTags guess.index, prov.childOf node other = true →
      prov.childOf node guess.taken = false → ∀ off ∈ bytes guess.lo guess.hi,
        access.kind = .read ∧ prov.permAt node off ≠ some .active))

/-! ## The order of permissions -/

theorem rank_moved_mono {low high : Perm} (below : low.rank ≤ high.rank) (child : Bool)
    (kind : AccessKind) : (moved low child kind).rank ≤ (moved high child kind).rank := by
  cases low <;> cases high <;> cases child <;> cases kind <;>
    simp_all [Perm.rank, moved]

/-- A permission fares no worse through `other` than through `through`. -/
theorem rank_moved_le {high : Perm} {through other : Bool} {kind : AccessKind}
    (harmless : through = true → other = false → kind = .read ∧ high ≠ .active) :
    (moved high through kind).rank ≤ (moved high other kind).rank := by
  cases through <;> cases other <;> cases kind <;> cases high <;>
    simp_all [Perm.rank, moved]

/-- An access that a permission allows is allowed by every higher one, when protectors are not
disabled. -/
theorem transition_mono {low high : Perm} (below : low.rank ≤ high.rank)
    {child guarded : Bool} {kind : AccessKind} (enabled : guarded = true → low ≠ .disabled)
    {answer : Option Perm} (passed : transition low child kind guarded = .ok answer) :
    ∃ other, transition high child kind guarded = .ok other := by
  cases low <;> cases high <;> cases child <;> cases kind <;> cases guarded <;>
    simp_all [Perm.rank, transition]

/-! ## A machine above another -/

/-- Machines that differ in permissions only, where the second allows no less. -/
structure Below (small large : Provenance) : Prop where
  arena : large.arena = small.arena
  rest : { large with tags := [] } = { small with tags := [] }
  perms : ∀ id off,
    Option.Rel (fun low high : Perm => low.rank ≤ high.rank) (small.permAt id off)
      (large.permAt id off)

section Below

variable {small large : Provenance}

theorem below_refl (prov : Provenance) : prov.Below prov := by
  refine ⟨rfl, rfl, fun id off => ?_⟩
  cases prov.permAt id off with
  | none => exact .none
  | some perm => exact .some (Nat.le_refl _)

section

variable (below : small.Below large)
include below

/-- A byte has a permission in both machines or in neither. -/
theorem Below.perm_cases (id : TagId) (off : Nat) :
    small.permAt id off = none ∧ large.permAt id off = none ∨
      ∃ low high, small.permAt id off = some low ∧ large.permAt id off = some high ∧
        low.rank ≤ high.rank := by
  have related := below.perms id off
  generalize small.permAt id off = first at related ⊢
  generalize large.permAt id off = second at related ⊢
  cases related with
  | none => exact .inl ⟨rfl, rfl⟩
  | some rank_le => exact .inr ⟨_, _, rfl, rfl, rank_le⟩

theorem Below.allocs : large.allocs = small.allocs := by
  have same := congrArg Provenance.allocs below.rest
  exact same

theorem Below.wellFormed (wellFormed : small.WellFormed) : large.WellFormed := by
  refine wellFormed.congr (frames_of_arena below.arena) ?_
  rw [grove, grove, below.allocs]

theorem Below.treeTags_eq : large.treeTags = small.treeTags := by
  funext index
  rw [treeTags, treeTags, below.allocs]

theorem Below.childOf_eq : large.childOf = small.childOf := by
  obtain ⟨parents, _, _, length_eq⟩ := arena_congr below.arena
  funext node through
  rw [childOf, childOf, parents, length_eq]

theorem Below.gate_eq (ptr : RawPtr) (len : Nat) : large.gate ptr len = small.gate ptr len := by
  have dead := congrArg Provenance.regionDead below.rest
  dsimp only at dead
  simp only [gate, below.allocs, dead]

/-- What a tag permits below it permits above. -/
theorem Below.permits (sheltered : small.Sheltered) {index : AllocId} (alive : small.Alive index)
    {kind : AccessKind} {lo hi : Nat} {through : TagId}
    (permitted : small.permits index kind lo hi through = true) :
    large.permits index kind lo hi through = true := by
  rw [Provenance.permits, Option.isNone_iff_eq_none, firstBreach, List.findSome?_eq_none_iff,
    below.treeTags_eq]
  intro node member
  rw [List.findSome?_eq_none_iff]
  intro off inside
  rw [breachAt]
  obtain ⟨_, protected_eq, _, _⟩ := arena_congr below.arena
  rcases below.perm_cases node off with ⟨_, there⟩ | ⟨low, high, found, there, rank_le⟩
  · rw [there, Option.bind_none]
  · obtain ⟨answer, passed⟩ := transition_of_permits permitted member inside found
    have enabled : small.isProtected node = true → low ≠ .disabled := by
      rintro guarded rfl
      exact sheltered.unstricken index node off ⟨alive, member, guarded, found⟩
    obtain ⟨other, otherPassed⟩ := transition_mono rank_le enabled passed
    rw [there, Option.bind_some, below.childOf_eq, protected_eq, otherPassed]

/-- Moving both machines keeps the order when the upper one is moved through a tag as good. -/
theorem Below.moves {next other : Provenance} {index : AllocId} {kind : AccessKind}
    {offs : List Nat} {through taken : TagId}
    (smallMoves : small.Moves next index through kind offs)
    (largeMoves : large.Moves other index taken kind offs)
    (asGood : ∀ node ∈ large.treeTags index, large.childOf node through = true →
      large.childOf node taken = false → ∀ off ∈ offs,
        kind = .read ∧ large.permAt node off ≠ some .active) : next.Below other := by
  refine ⟨?_, ?_, ?_⟩
  · rw [largeMoves.arena, smallMoves.arena, below.arena]
  · rw [largeMoves.rest, smallMoves.rest, below.rest]
  · intro id off
    rw [smallMoves.perms, largeMoves.perms, below.treeTags_eq, below.childOf_eq]
    rw [below.treeTags_eq, below.childOf_eq] at asGood
    rcases below.perm_cases id off with ⟨found, there⟩ | ⟨low, high, found, there, rank_le⟩
    · rw [found, there]
      exact .none
    · rw [found, there]
      refine .some ?_
      dsimp only
      by_cases covered : id ∈ small.treeTags index ∧ off ∈ offs
      · rw [if_pos covered, if_pos covered]
        have switch : (moved high (small.childOf id through) kind).rank ≤
            (moved high (small.childOf id taken) kind).rank := by
          refine rank_moved_le fun above notAbove => ?_
          have spared := asGood id covered.1 above notAbove off covered.2
          exact ⟨spared.1, fun active => spared.2 (there.trans (congrArg some active))⟩
        exact (rank_moved_mono rank_le _ kind).trans switch
      · rw [if_neg covered, if_neg covered]
        exact rank_le

theorem Below.initialized (index : AllocId) (lo hi : Nat) (kind : AccessKind) :
    (small.initialized index lo hi kind).Below (large.initialized index lo hi kind) := by
  cases kind with
  | read => exact below
  | write =>
    refine ⟨below.arena, ?_, below.perms⟩
    have rest := below.rest
    simp only [Provenance.initialized, wrote]
    simp only [Provenance.mk.injEq] at rest ⊢
    simp only [rest, and_self]

end

end Below

/-! ## Defined accesses -/

section Proceed

variable {prov next : Provenance} {access : MemAccess}

theorem answered_of_proceed (done : prov.proceed access = some next) :
    prov.access access.ptr access.len access.kind access.span = some (.ok (), next) := by
  unfold proceed at done
  split at done
  · rename_i answered
    rw [answered, Option.some.inj done]
  · simp at done

variable {index : AllocId} {entry : Alloc} {other : MemAccess}

theorem choose_tag {lo hi : Nat} {kind : AccessKind} {tag : TagId}
    (permitted : prov.permits index kind lo hi tag = true) :
    prov.choose index entry (.tag tag) lo hi kind = some (.ok tag) := by
  rw [permits, Option.isNone_iff_eq_none] at permitted
  rw [choose, breachRow, permitted]
  rfl

section

variable (wellFormed : prov.WellFormed)
include wellFormed

/-- An access that opens its gate, has a tag to go through and meets no fresh byte is defined. -/
theorem proceed_of_choose (points : prov.PointsInto access.ptr) {lo hi : Nat} {through : TagId}
    (opened : prov.gate access.ptr access.len = .opened index entry lo hi)
    (choice : prov.choose index entry access.ptr.prov lo hi access.kind = some (.ok through))
    (written : readsFresh entry lo hi access.kind = false) :
    ∃ middle, prov.proceed access = some (middle.initialized index lo hi access.kind) ∧
      prov.Moves middle index through access.kind (bytes lo hi) := by
  have spec := access_spec wellFormed points access.len access.kind access.span
  simp only [outcome, opened, choice, written, Bool.false_eq_true, if_false] at spec
  obtain ⟨middle, answered, moves⟩ := spec
  exact ⟨middle, by rw [proceed, answered], moves⟩

/-- What a defined access through a tag has met. -/
theorem proceed_tag {tag : TagId} (pointer : access.ptr.prov = .tag tag)
    (done : prov.proceed access = some next) :
    ∃ index entry lo hi middle, prov.gate access.ptr access.len = .opened index entry lo hi ∧
      tag < prov.tags.length ∧ prov.permits index access.kind lo hi tag = true ∧
      readsFresh entry lo hi access.kind = false ∧
      prov.Moves middle index tag access.kind (bytes lo hi) ∧
      next = middle.initialized index lo hi access.kind := by
  have answered := answered_of_proceed done
  cases effect_of_access wellFormed answered with
  | passed passes =>
    rename_i index entry lo hi through middle
    have named := passes.named
    rw [pointer] at named
    obtain rfl : through = tag := List.mem_singleton.mp named
    refine ⟨index, entry, lo, hi, middle, passes.opened, passes.real, passes.permitted, ?_,
      passes.moves, rfl⟩
    have points : prov.PointsInto access.ptr := by
      intro _ _ _ _
      rw [pointer]
      exact passes.real
    have spec := access_spec wellFormed points access.len access.kind access.span
    simp only [outcome, passes.opened, pointer, choose_tag passes.permitted, answered] at spec
    cases fresh : readsFresh entry lo hi access.kind with
    | false => rfl
    | true =>
      simp only [fresh, if_true] at spec
      obtain ⟨finding, after, same, _⟩ := spec
      simp at same

section

variable (done : prov.proceed access = some next)
include done

/-- A defined access keeps which allocations are live and what they expose. -/
theorem standing_of_proceed (found : prov.allocs[index]? = some entry) :
    ∃ later, next.allocs[index]? = some later ∧ later.live = entry.live ∧
      later.exposed = entry.exposed := by
  cases effect_of_access wellFormed (answered_of_proceed done) with
  | passed passes =>
    rename_i target opened lo hi through middle
    have allocs_eq := passes.moves.allocs
    cases access.kind with
    | read => exact ⟨entry, by rw [← found, ← allocs_eq]; rfl, rfl, rfl⟩
    | write =>
      simp only [initialized, wrote, List.getElem?_modify, allocs_eq, found]
      by_cases same : target = index
      · simp [same]
      · simp [same]

theorem PointsLive.proceed (live : prov.PointsLive other) :
    next.PointsLive other := by
  obtain ⟨index, entry, target, found, isLive⟩ := live
  obtain ⟨later, later_found, live_eq, _⟩ := standing_of_proceed wellFormed done found
  exact ⟨index, later, target, later_found, live_eq.trans isLive⟩

theorem Resolves.proceed {resolved : MemAccess} (resolves : prov.Resolves other resolved) :
    next.Resolves other resolved := by
  unfold Resolves at resolves ⊢
  cases pointer : other.ptr.prov with
  | tag tag =>
    simp only [pointer] at resolves ⊢
    exact resolves
  | wildcard =>
    simp only [pointer] at resolves ⊢
    obtain ⟨index, entry, tag, target, found, exposed, same⟩ := resolves
    obtain ⟨later, later_found, _, exposed_eq⟩ := standing_of_proceed wellFormed done found
    exact ⟨index, later, tag, target, later_found, exposed_eq ▸ exposed, same⟩

end

end

/-- A resolved access goes through a tag, with the target of the access it resolves. -/
theorem Resolves.shape {resolved : MemAccess} (resolves : prov.Resolves other resolved) :
    ∃ tag, resolved = other.through tag ∧ (other.ptr.prov = .tag tag ∨
      other.ptr.prov = .wildcard ∧ ∃ index entry, other.ptr.alloc = some index ∧
        prov.allocs[index]? = some entry ∧ tag ∈ entry.exposed) := by
  unfold Resolves at resolves
  cases pointer : other.ptr.prov with
  | tag tag =>
    simp only [pointer] at resolves
    refine ⟨tag, ?_, .inl rfl⟩
    rw [resolves, MemAccess.through, ← pointer]
  | wildcard =>
    simp only [pointer] at resolves
    obtain ⟨index, entry, tag, target, found, exposed, same⟩ := resolves
    exact ⟨tag, same, .inr ⟨rfl, index, entry, target, found, exposed⟩⟩

end Proceed

section Run

variable {small large next : Provenance}

theorem gate_through (prov : Provenance) (access : MemAccess) (tag : TagId) :
    prov.gate (access.through tag).ptr (access.through tag).len =
      prov.gate access.ptr access.len := rfl

/-- Where the oracle's access is defined the machine's is, and the machine stays above the oracle
when the tag it takes is as good as the others. -/
theorem Below.proceed (below : small.Below large) (sheltered : small.Sheltered)
    {access resolved : MemAccess} (live : small.PointsLive access)
    (resolves : small.Resolves access resolved) (done : small.proceed resolved = some next) :
    ∃ other, large.proceed access = some other ∧ (large.FirstAsGood access → next.Below other) := by
  obtain ⟨tag, rfl, pointers⟩ := resolves.shape
  obtain ⟨index, entry, lo, hi, middle, opened, real, permitted, written, moves, rfl⟩ :=
    proceed_tag sheltered.wellFormed rfl done
  rw [gate_through] at opened
  have opened_large : large.gate access.ptr access.len = .opened index entry lo hi := by
    rw [below.gate_eq, opened]
  obtain ⟨target, found, _, owners⟩ := of_opened opened
  have isLive : entry.live = true := by
    obtain ⟨place, other, place_eq, other_found, live_eq⟩ := live
    obtain rfl : index = place := Option.eq_some_unique target place_eq
    rw [Option.eq_some_unique found other_found]
    exact live_eq
  have alive : small.Alive index := ⟨entry, found, isLive, owners⟩
  have permits_large : ∀ other, small.permits index access.kind lo hi other = true →
      large.permits index access.kind lo hi other = true :=
    fun other => below.permits sheltered alive
  obtain ⟨_, _, _, length_eq⟩ := arena_congr below.arena
  have wellFormed := below.wellFormed sheltered.wellFormed
  rcases pointers with pointer | ⟨pointer, place, holder, place_eq, holder_found, exposed⟩
  · have points : large.PointsInto access.ptr := by
      intro _ _ _ _
      rw [pointer, Reaches, length_eq]
      exact real
    obtain ⟨other, done_large, moves_large⟩ := proceed_of_choose wellFormed points opened_large
      (by rw [pointer]; exact choose_tag (permits_large tag permitted)) written
    refine ⟨_, done_large, fun _ => ?_⟩
    refine (below.moves moves moves_large ?_).initialized index lo hi access.kind
    intro node _ above notAbove
    exact absurd (above.symm.trans notAbove) (by simp)
  · obtain rfl : index = place := Option.eq_some_unique target place_eq
    obtain rfl : entry = holder := Option.eq_some_unique found holder_found
    have points : large.PointsInto access.ptr := by
      intro other_index other other_target other_found
      rw [pointer, Reaches, length_eq]
      rw [below.allocs] at other_found
      exact sheltered.exposed other_index other other_found
    cases search : entry.exposed.find? (large.permits index access.kind lo hi) with
    | none =>
      have refused := List.find?_eq_none.mp search tag exposed
      exact absurd (permits_large tag permitted) refused
    | some taken =>
      have choice : large.choose index entry access.ptr.prov lo hi access.kind =
          some (.ok taken) := by
        simp [pointer, choose, isLive, search]
      obtain ⟨other, done_large, moves_large⟩ :=
        proceed_of_choose wellFormed points opened_large choice written
      refine ⟨_, done_large, fun asGood => ?_⟩
      refine (below.moves moves moves_large ?_).initialized index lo hi access.kind
      have guessed : large.guess access = some ⟨index, lo, hi, taken,
          entry.exposed.filter (large.permits index access.kind lo hi)⟩ := by
        rw [guess, pointer, opened_large]
        simp only [List.head?_filter, search, Option.map_some]
      have inList : tag ∈ entry.exposed.filter (large.permits index access.kind lo hi) :=
        List.mem_filter.mpr ⟨exposed, permits_large tag permitted⟩
      exact fun node member => asGood _ guessed tag inList node member

/-- The machine follows the oracle through a whole sequence. -/
theorem Below.run {accesses resolved : List MemAccess} (below : small.Below large)
    (sheltered : small.Sheltered) (live : ∀ access ∈ accesses, small.PointsLive access)
    (assigned : List.Forall₂ small.Resolves accesses resolved)
    (defined : (exec Provenance.proceed small resolved).isSome)
    (asGood : Guarded Provenance.proceed FirstAsGood large accesses) :
    (exec Provenance.proceed large accesses).isSome := by
  induction accesses generalizing small large resolved with
  | nil => rfl
  | cons access accesses induction =>
    cases assigned with
    | cons resolves rest =>
      rename_i head tail
      rw [exec_cons] at defined
      cases done : Provenance.proceed small head with
      | none => simp [done] at defined
      | some next =>
        rw [done, Option.bind_some] at defined
        obtain ⟨other, done_large, follows⟩ :=
          below.proceed sheltered (live access List.mem_cons_self) resolves done
        have good := asGood [] access accesses large other rfl rfl done_large
        have wellFormed := sheltered.wellFormed
        rw [exec_cons, done_large, Option.bind_some]
        refine induction (follows good) (sheltered.access (answered_of_proceed done)) ?_ ?_
          defined (asGood.tail done_large)
        · intro later member
          exact (live later (List.mem_cons_of_mem access member)).proceed wellFormed done
        · refine rest.imp fun later assignedLater resolvesLater => ?_
          exact resolvesLater.proceed wellFormed done

theorem Reached.sheltered {prov : Provenance} (reached : prov.Reached) : prov.Sheltered := by
  obtain ⟨ops, minted, run⟩ := reached
  refine inv_of_guarded Sheltered NamesMinted sheltered_new ?_ minted run
  intro state op next holds named performed
  obtain ⟨⟨answer, after⟩, done, same⟩ := Option.map_eq_some_iff.mp performed
  exact same ▸ sheltered_perform holds named done

end Run

/-- If some assignment of exposed tags to the wildcards defines every access of a sequence, the
machine reports nothing on it, as long as each wildcard access takes a tag as good as the others
it could take. -/
theorem wildcards_angelic {prov : Provenance} (reached : prov.Reached)
    {accesses resolved : List MemAccess} (live : ∀ access ∈ accesses, prov.PointsLive access)
    (assigned : List.Forall₂ prov.Resolves accesses resolved)
    (defined : (exec proceed prov resolved).isSome)
    (asGood : Guarded proceed FirstAsGood prov accesses) : (exec proceed prov accesses).isSome :=
  (below_refl prov).run reached.sheltered live assigned defined asGood

/-- A host allocation with an exposed child. -/
def exposedChild : List ProvOp :=
  [.hostAlloc 1 0 ⟨0, 1⟩, .retag 0 0 .mutable false "child" ⟨2, 3⟩,
    .expose { alloc := some 0, offset := 0, prov := .tag 1, elem := 1 }]

def withExposedChild : Provenance := (exec step new exposedChild).getD new

theorem reached_withExposedChild : withExposedChild.Reached := ⟨exposedChild, by decide, rfl⟩

/-- An access to its byte. -/
def touch (pointer : Prov) (kind : AccessKind) : MemAccess :=
  ⟨{ alloc := some 0, offset := 0, prov := pointer, elem := 1 }, 1, kind, ⟨4, 5⟩⟩

theorem live_touch (pointer : Prov) (kind : AccessKind) :
    withExposedChild.PointsLive (touch pointer kind) :=
  ⟨0, _, rfl, rfl, rfl⟩

/-- The machine takes the root for the wildcard and disables the child, through which the next
write goes. -/
theorem wildcard_takes_root :
    ¬ ∀ (prov : Provenance) (accesses resolved : List MemAccess), prov.Reached →
      (∀ access ∈ accesses, prov.PointsLive access) →
      List.Forall₂ prov.Resolves accesses resolved → (exec proceed prov resolved).isSome →
        (exec proceed prov accesses).isSome := by
  intro claim
  have refused := claim withExposedChild [touch .wildcard .write, touch (.tag 1) .write]
    [touch (.tag 1) .write, touch (.tag 1) .write] reached_withExposedChild
    (by simp [live_touch])
    (.cons ⟨0, _, 1, rfl, rfl, by decide, rfl⟩ (.cons rfl .nil)) (by decide)
  exact absurd refused (by decide)

/-- A wildcard read spares the child, whichever tag it takes. -/
theorem wildcard_reads_first : (exec proceed withExposedChild
      [touch (.tag 0) .write, touch .wildcard .read, touch (.tag 0) .write]).isSome :=
  wildcards_angelic reached_withExposedChild
    (by simp [live_touch])
    (.cons rfl (.cons ⟨0, _, 0, rfl, rfl, by decide, rfl⟩ (.cons rfl .nil))) (by decide) (by decide)

end Provenance

end WolfInterp
