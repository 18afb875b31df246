import Mathlib.Data.List.Find
import WolfInterp.Prov.Pins

/-!
# Pruning is invisible

A machine that prunes is compared with one that does not. The pruned trees lack tags that are not
protected and have no descendant left in the tree, so every access that goes through a tag of the
pruned tree is foreign to them: it breaks nothing there and the two machines answer alike. This
carries through every run that names only tags still in their trees. A tag that was dropped while
a caller still held it, for a place to restore or for a raw pointer, escapes that condition.
-/

namespace WolfInterp

/-- An allocation without its tree. -/
def Alloc.bare (alloc : Alloc) : Alloc := { alloc with tags := [] }

theorem Alloc.fields_of_bare {first second : Alloc} (same : first.bare = second.bare) :
    first.size = second.size ∧ first.init = second.init ∧ first.live = second.live ∧
      first.owner = second.owner ∧ first.exposed = second.exposed := by
  simp only [Alloc.bare, Alloc.mk.injEq] at same
  obtain ⟨_, size_eq, init_eq, live_eq, _, owner_eq, _, _, exposed_eq, _⟩ := same
  exact ⟨size_eq, init_eq, live_eq, owner_eq, exposed_eq⟩

namespace Provenance

open Execution ParentChain Relation

/-- The first machine is the second with tags missing from its trees. -/
structure Hides (small large : Provenance) : Prop where
  arena : small.arena = large.arena
  allocs : small.allocs.map Alloc.bare = large.allocs.map Alloc.bare
  places : small.places = large.places
  dead : small.regionDead = large.regionDead
  trees : ∀ index, ∃ keep : TagId → Bool, small.treeTags index = (large.treeTags index).filter keep
  perms : ∀ index, ∀ tag ∈ small.treeTags index, ∀ off, small.permAt tag off = large.permAt tag off
  released : ∀ index, ∀ tag ∈ large.treeTags index, tag ∉ small.treeTags index →
    small.isProtected tag = false

section Compare

variable {small large : Provenance}

section

variable (hides : small.Hides large)
include hides

theorem Hides.subset (index : AllocId) : small.treeTags index ⊆ large.treeTags index := by
  obtain ⟨keep, trees⟩ := hides.trees index
  intro tag member
  rw [trees] at member
  exact (List.mem_filter.mp member).1

/-- A tag of some pruned tree is in a pruned tree exactly when it is in the whole one. -/
theorem Hides.mem_iff (wellFormed : small.WellFormed) (largeFormed : large.WellFormed)
    {target : AllocId} {tag : TagId} (member : tag ∈ small.treeTags target) (index : AllocId) :
    tag ∈ small.treeTags index ↔ tag ∈ large.treeTags index := by
  constructor
  · exact fun inTree => hides.subset index inTree
  · intro inTree
    have here := wellFormed.members target tag member
    have there := largeFormed.members index tag inTree
    rw [← (arena_congr hides.arena).2.2.1, here] at there
    exact Option.some.inj there ▸ member

theorem Hides.length_allocs : small.allocs.length = large.allocs.length := by
  have same := congrArg List.length hides.allocs
  simpa using same

/-- The two machines have the same allocations but for the trees. -/
theorem Hides.alloc_cases (index : AllocId) :
    (small.allocs[index]? = none ∧ large.allocs[index]? = none) ∨
      ∃ first second, small.allocs[index]? = some first ∧ large.allocs[index]? = some second ∧
        first.bare = second.bare := by
  have same : (small.allocs[index]?).map Alloc.bare = (large.allocs[index]?).map Alloc.bare := by
    rw [← List.getElem?_map, ← List.getElem?_map, hides.allocs]
  cases first_eq : small.allocs[index]? with
  | none =>
    rw [first_eq, Option.map_none, eq_comm, Option.map_eq_none_iff] at same
    exact .inl ⟨rfl, same⟩
  | some first =>
    rw [first_eq, Option.map_some, eq_comm, Option.map_eq_some_iff] at same
    obtain ⟨second, second_eq, bare_eq⟩ := same
    exact .inr ⟨first, second, rfl, second_eq, bare_eq.symm⟩

theorem Hides.childOf_eq : small.childOf = large.childOf := by
  obtain ⟨parents, _, _, lengths⟩ := arena_congr hides.arena
  funext node through
  rw [childOf, childOf, parents, lengths]

end

variable {index : AllocId} {through : TagId}

/-- A tag of the pruned tree breaks and moves alike in both machines. -/
theorem Hides.breachAt_eq (hides : small.Hides large) {node : TagId}
    (member : node ∈ small.treeTags index) (through : TagId) (kind : AccessKind) (off : Nat) :
    small.breachAt through kind node off = large.breachAt through kind node off := by
  rw [breachAt, breachAt, hides.perms index node member, hides.childOf_eq,
    (arena_congr hides.arena).2.1]

/-- An access through a tag of the pruned tree breaks nothing at a tag that was dropped. -/
theorem Hides.breachAt_dropped (hides : small.Hides large) (holds : small.Chained) {node : TagId}
    (kept : through ∈ small.treeTags index) (member : node ∈ large.treeTags index)
    (dropped : node ∉ small.treeTags index) (kind : AccessKind) (off : Nat) :
    large.breachAt through kind node off = none := by
  have foreign : large.childOf node through = false := by
    rw [← hides.childOf_eq, ← Bool.not_eq_true, childOf_iff]
    exact fun path => dropped (holds.closed.ancestor kept path)
  have unguarded : large.isProtected node = false := by
    rw [← (arena_congr hides.arena).2.1]
    exact hides.released index node member dropped
  rw [breachAt, foreign, unguarded]
  cases large.permAt node off with
  | none => rfl
  | some current => cases current <;> cases kind <;> rfl

theorem findSome?_filter_of_dropped {Entry Found : Type} {entries : List Entry}
    {keep : Entry → Bool} {find : Entry → Option Found}
    (quiet : ∀ entry ∈ entries, keep entry = false → find entry = none) :
    (entries.filter keep).findSome? find = entries.findSome? find := by
  induction entries with
  | nil => rfl
  | cons entry entries induction =>
    have rest := induction fun other member => quiet other (List.mem_cons_of_mem entry member)
    cases kept : keep entry with
    | true => rw [List.filter_cons_of_pos kept, List.findSome?_cons, List.findSome?_cons, rest]
    | false =>
      rw [List.filter_cons_of_neg (by simp [kept]), List.findSome?_cons,
        quiet entry List.mem_cons_self kept]
      exact rest

theorem findSome?_congr {Entry Found : Type} {entries : List Entry}
    {first second : Entry → Option Found} (same : ∀ entry ∈ entries, first entry = second entry) :
    entries.findSome? first = entries.findSome? second := by
  induction entries with
  | nil => rfl
  | cons entry entries induction =>
    rw [List.findSome?_cons, List.findSome?_cons, same entry List.mem_cons_self,
      induction fun other member => same other (List.mem_cons_of_mem entry member)]

section

variable (hides : small.Hides large) (holds : small.Chained) (kept : through ∈ small.treeTags index)
  (kind : AccessKind)
include hides holds kept kind

/-- An access through a tag of the pruned tree has the same first breach in both machines. -/
theorem Hides.firstBreach_eq (offs : List Nat) :
    small.firstBreach through kind offs (small.treeTags index) =
      large.firstBreach through kind offs (large.treeTags index) := by
  obtain ⟨keep, trees⟩ := hides.trees index
  have inSmall : small.firstBreach through kind offs (small.treeTags index) =
      large.firstBreach through kind offs (small.treeTags index) := by
    refine findSome?_congr fun node member => findSome?_congr fun off _ => ?_
    exact hides.breachAt_eq member through kind off
  rw [inSmall, trees]
  refine findSome?_filter_of_dropped fun node member dropped => ?_
  rw [List.findSome?_eq_none_iff]
  intro off _
  refine hides.breachAt_dropped holds kept member (fun inTree => ?_) kind off
  rw [trees] at inTree
  exact absurd (List.mem_filter.mp inTree).2 (by simp [dropped])

theorem Hides.permits_eq (lo hi : Nat) :
    small.permits index kind lo hi through = large.permits index kind lo hi through := by
  rw [permits, permits, hides.firstBreach_eq holds kept]

theorem Hides.breachRow_eq (lo hi : Nat) :
    small.breachRow index kind lo hi through = large.breachRow index kind lo hi through := by
  rw [breachRow, breachRow, hides.firstBreach_eq holds kept]

end

/-! ## One access -/

theorem Hides.choose_eq (hides : small.Hides large) (holds : small.Chained) {first second : Alloc}
    (bare_eq : first.bare = second.bare) {pointer : Prov}
    (kept : ∀ tag ∈ candidates pointer first, tag ∈ small.treeTags index) (lo hi : Nat)
    (kind : AccessKind) :
    small.choose index first pointer lo hi kind = large.choose index second pointer lo hi kind := by
  obtain ⟨size_eq, _, live_eq, _, exposed_eq⟩ := Alloc.fields_of_bare bare_eq
  cases pointer with
  | tag tag =>
    have here : tag ∈ small.treeTags index := kept tag (List.mem_singleton_self tag)
    rw [choose, choose, hides.breachRow_eq holds here]
  | wildcard =>
    have search : first.exposed.find? (small.permits index kind lo hi) =
        second.exposed.find? (large.permits index kind lo hi) := by
      rw [← exposed_eq]
      exact List.find?_congr fun tag member => hides.permits_eq holds (kept tag member) kind lo hi
    have head : first.exposed.head?.bind (small.breachRow index kind lo hi) =
        second.exposed.head?.bind (large.breachRow index kind lo hi) := by
      rw [← exposed_eq]
      cases exposed : first.exposed with
      | nil => rfl
      | cons tag rest =>
        have here : tag ∈ small.treeTags index := kept tag (by simp [candidates, exposed])
        exact hides.breachRow_eq holds here kind lo hi
    rw [choose, choose, search, head, live_eq, size_eq]

theorem Hides.gate_cases (hides : small.Hides large) (ptr : RawPtr) (len : Nat) :
    (∃ row printed, small.gate ptr len = .refused row printed ∧
      large.gate ptr len = .refused row printed) ∨
    ∃ index first second lo hi, small.gate ptr len = .opened index first lo hi ∧
      large.gate ptr len = .opened index second lo hi ∧ first.bare = second.bare := by
  rw [gate, gate, hides.dead]
  cases ptr.alloc with
  | none => exact .inl ⟨_, _, rfl, rfl⟩
  | some index =>
    obtain ⟨first_eq, second_eq⟩ | ⟨first, second, first_eq, second_eq, bare_eq⟩ :=
      hides.alloc_cases index
    · simp only [first_eq, second_eq]
      exact .inl ⟨_, _, rfl, rfl⟩
    · obtain ⟨size_eq, _, _, owner_eq, _⟩ := Alloc.fields_of_bare bare_eq
      simp only [first_eq, second_eq, size_eq, owner_eq]
      split
      · exact .inl ⟨_, _, rfl, rfl⟩
      · split
        · exact .inl ⟨_, _, rfl, rfl⟩
        · exact .inr ⟨_, _, _, _, _, rfl, rfl, bare_eq⟩

/-- An access that names a tag of the pruned tree ends alike in both machines, and goes through a
tag of the pruned tree. -/
theorem Hides.outcome_eq (hides : small.Hides large) (holds : small.Chained) (pins : small.Pins)
    {ptr : RawPtr} (names : small.NamesPointer ptr) (len : Nat) (kind : AccessKind) :
    small.outcome ptr len kind = large.outcome ptr len kind := by
  rw [outcome, outcome]
  obtain ⟨row, printed, first_eq, second_eq⟩ | ⟨index, first, second, lo, hi, first_eq, second_eq,
    bare_eq⟩ := hides.gate_cases ptr len
  · rw [first_eq, second_eq]
    cases printed with
    | none => rfl
    | some index =>
      obtain ⟨absent, otherAbsent⟩ | ⟨one, other, one_eq, other_eq, same⟩ :=
        hides.alloc_cases index
      · simp only [absent, otherAbsent]
      · have size_eq := (Alloc.fields_of_bare same).1
        simp only [one_eq, other_eq, Option.any_some, size_eq]
  · obtain ⟨target, found, _, _⟩ := of_opened first_eq
    have kept : ∀ tag ∈ candidates ptr.prov first, tag ∈ small.treeTags index := by
      intro tag member
      cases pointer : ptr.prov with
      | tag named =>
        rw [pointer] at member
        obtain rfl := List.mem_singleton.mp member
        simp only [NamesPointer, target, pointer] at names
        exact names (List.getElem?_eq_some_iff.mp found).1
      | wildcard =>
        rw [pointer] at member
        rw [treeTags_of_found found]
        exact pins.exposed index first found tag member
    have init_eq := (Alloc.fields_of_bare bare_eq).2.1
    have fresh_eq : readsFresh first lo hi kind = readsFresh second lo hi kind := by
      rw [readsFresh, readsFresh, init_eq]
    rw [first_eq, second_eq]
    simp only [hides.choose_eq holds bare_eq kept, fresh_eq]

end Compare

/-! ## The relation under every operation -/

section Preserve

variable {small large small' large' : Provenance}

/-- The relation looks at no queue and no assertion. -/
theorem Hides.keep (hides : small.Hides large) (smallTags : small'.tags = small.tags)
    (smallAllocs : small'.allocs = small.allocs) (largeTags : large'.tags = large.tags)
    (largeAllocs : large'.allocs = large.allocs) (places : small'.places = large'.places)
    (dead : small'.regionDead = large'.regionDead) : small'.Hides large' := by
  have smallTrees : small'.treeTags = small.treeTags := by
    funext index
    rw [treeTags, treeTags, smallAllocs]
  have largeTrees : large'.treeTags = large.treeTags := by
    funext index
    rw [treeTags, treeTags, largeAllocs]
  have smallArena : small'.arena = small.arena := by
    rw [Provenance.arena, Provenance.arena, smallTags]
  refine ⟨?_, ?_, places, dead, ?_, ?_, ?_⟩
  · rw [smallArena, Provenance.arena, Provenance.arena, largeTags]
    exact hides.arena
  · rw [smallAllocs, largeAllocs]
    exact hides.allocs
  · rw [smallTrees, largeTrees]
    exact hides.trees
  · rw [smallTrees, permAt_of_tags smallTags, permAt_of_tags largeTags]
    exact hides.perms
  · rw [smallTrees, largeTrees, (arena_congr smallArena).2.1]
    exact hides.released

theorem bare_modify_allocs (allocs : List Alloc) (index : AllocId) {update : Alloc → Alloc}
    (respects : ∀ alloc, (update alloc).bare = update alloc.bare) :
    (allocs.modify index update).map Alloc.bare = (allocs.map Alloc.bare).modify index update := by
  refine List.ext_getElem? fun target => ?_
  rw [List.getElem?_map, List.getElem?_modify, List.getElem?_modify, List.getElem?_map]
  cases allocs[target]? with
  | none => rfl
  | some alloc => by_cases same : index = target <;> simp [same, respects]

section

variable (hides : small.Hides large)
include hides

/-- An update in place of the same allocation that looks at no tree. -/
theorem Hides.modify (index : AllocId) (update : Alloc → Alloc)
    (plots : ∀ alloc, (update alloc).plot = alloc.plot)
    (respects : ∀ alloc, (update alloc).bare = update alloc.bare) :
    ({ small with allocs := small.allocs.modify index update } : Provenance).Hides
      { large with allocs := large.allocs.modify index update } := by
  have smallTrees := treeTags_modify small index update plots
  have largeTrees := treeTags_modify large index update plots
  refine ⟨hides.arena, ?_, hides.places, hides.dead, ?_, ?_, ?_⟩
  · rw [bare_modify_allocs _ _ respects, bare_modify_allocs _ _ respects, hides.allocs]
  · rw [smallTrees, largeTrees]
    exact hides.trees
  · rw [smallTrees]
    exact hides.perms
  · rw [smallTrees, largeTrees]
    exact hides.released

/-- Changing whole trees that are the same trees in both machines. -/
theorem Hides.setTree (update : Perm → Perm) (settles : ∀ perm, update (update perm) = update perm)
    {targets others : List TagId}
    (agree : ∀ index, ∀ tag ∈ small.treeTags index, tag ∈ targets ↔ tag ∈ others) :
    ({ small with tags := Provenance.setTree update targets small.tags } : Provenance).Hides
      { large with tags := Provenance.setTree update others large.tags } := by
  have arenas : ∀ (prov : Provenance) (targets : List TagId),
      ({ prov with tags := Provenance.setTree update targets prov.tags } : Provenance).arena =
        prov.arena := fun prov targets => bare_setTree update targets prov.tags
  refine ⟨?_, hides.allocs, hides.places, hides.dead, hides.trees, ?_, ?_⟩
  · rw [arenas, arenas]
    exact hides.arena
  · intro index tag member off
    rw [permAt_setTree _ settles, permAt_setTree _ settles, hides.perms index tag member]
    simp only [agree index tag member]
  · intro index tag member dropped
    rw [(arena_congr (arenas small targets)).2.1]
    exact hides.released index tag member dropped

/-- The same access, through a tag of the pruned tree, moves both machines alike. -/
theorem Hides.moves (wellFormed : small.WellFormed) (largeFormed : large.WellFormed)
    {index : AllocId} {through : TagId} {kind : AccessKind} {offs : List Nat}
    (first : small.Moves small' index through kind offs)
    (second : large.Moves large' index through kind offs) : small'.Hides large' := by
  have smallTrees := first.sameForest.treeTags_eq
  have largeTrees := second.sameForest.treeTags_eq
  have places_eq : ∀ {before after : Provenance}, before.Moves after index through kind offs →
      after.places = before.places ∧ after.regionDead = before.regionDead := by
    intro before after moves
    exact ⟨by have same := congrArg Provenance.places moves.rest; exact same,
      by have same := congrArg Provenance.regionDead moves.rest; exact same⟩
  refine ⟨?_, ?_, ?_, ?_, ?_, ?_, ?_⟩
  · rw [first.arena, second.arena]
    exact hides.arena
  · rw [first.allocs, second.allocs]
    exact hides.allocs
  · rw [(places_eq first).1, (places_eq second).1]
    exact hides.places
  · rw [(places_eq first).2, (places_eq second).2]
    exact hides.dead
  · rw [smallTrees, largeTrees]
    exact hides.trees
  · intro target tag member off
    rw [smallTrees] at member
    rw [first.perms, second.perms, hides.perms target tag member, hides.childOf_eq]
    simp only [hides.mem_iff wellFormed largeFormed member index]
  · intro target tag member dropped
    rw [smallTrees] at dropped
    rw [largeTrees] at member
    rw [(arena_congr first.arena).2.1]
    exact hides.released target tag member dropped

theorem Hides.initialized (index : AllocId) (lo hi : Nat) (kind : AccessKind) :
    (small.initialized index lo hi kind).Hides (large.initialized index lo hi kind) := by
  cases kind with
  | read => exact hides
  | write => exact hides.modify index _ (fun _ => rfl) fun _ => rfl

section

variable (wellFormed : small.WellFormed) (largeFormed : large.WellFormed)
include wellFormed largeFormed

theorem Hides.hostFree (ptr : RawPtr) : (small.hostFree ptr).2.Hides (large.hostFree ptr).2 := by
  unfold Provenance.hostFree
  cases ptr.alloc with
  | none => exact hides
  | some index =>
    obtain ⟨first_eq, second_eq⟩ | ⟨first, second, first_eq, second_eq, bare_eq⟩ :=
      hides.alloc_cases index
    · simp only [first_eq, second_eq]
      exact hides
    · have live_eq := (Alloc.fields_of_bare bare_eq).2.2.1
      have origin_eq : first.origin = second.origin := by
        simp only [Alloc.bare, Alloc.mk.injEq] at bare_eq
        exact bare_eq.2.2.2.2.1
      simp only [first_eq, second_eq, live_eq, origin_eq]
      split
      · exact hides
      · have agree : ∀ target, ∀ tag ∈ small.treeTags target,
            tag ∈ first.tags ↔ tag ∈ second.tags := by
          intro target tag member
          rw [← treeTags_of_found first_eq, ← treeTags_of_found second_eq]
          exact hides.mem_iff wellFormed largeFormed member index
        exact (hides.setTree (fun _ => .disabled) (fun _ => rfl) agree).modify index
          (fun alloc => { alloc with live := false }) (fun _ => rfl) fun _ => rfl

theorem Hides.mem_ownedTags_iff (regions : List RegionId) {target : AllocId} {tag : TagId}
    (member : tag ∈ small.treeTags target) :
    tag ∈ small.ownedTags regions ↔ tag ∈ large.ownedTags regions := by
  rw [mem_ownedTags, mem_ownedTags]
  have pair : ∀ index : AllocId, ∀ first second : Alloc, small.allocs[index]? = some first →
      large.allocs[index]? = some second →
        first.owner = second.owner ∧ (tag ∈ first.tags ↔ tag ∈ second.tags) := by
    intro index first second first_eq second_eq
    obtain ⟨absent, _⟩ | ⟨one, other, one_eq, other_eq, bare_eq⟩ := hides.alloc_cases index
    · simp [absent] at first_eq
    · obtain rfl := Option.eq_some_unique first_eq one_eq
      obtain rfl := Option.eq_some_unique second_eq other_eq
      refine ⟨(Alloc.fields_of_bare bare_eq).2.2.2.1, ?_⟩
      rw [← treeTags_of_found first_eq, ← treeTags_of_found second_eq]
      exact hides.mem_iff wellFormed largeFormed member index
  constructor
  · rintro ⟨index, first, first_eq, owned, inTree⟩
    obtain ⟨absent, _⟩ | ⟨_, second, _, second_eq, _⟩ := hides.alloc_cases index
    · simp [absent] at first_eq
    · obtain ⟨owner_eq, tags_iff⟩ := pair index first second first_eq second_eq
      exact ⟨index, second, second_eq, owner_eq ▸ owned, tags_iff.mp inTree⟩
  · rintro ⟨index, second, second_eq, owned, inTree⟩
    obtain ⟨_, absent⟩ | ⟨first, _, first_eq, _, _⟩ := hides.alloc_cases index
    · simp [absent] at second_eq
    · obtain ⟨owner_eq, tags_iff⟩ := pair index first second first_eq second_eq
      exact ⟨index, first, first_eq, owner_eq.symm ▸ owned, tags_iff.mpr inTree⟩

theorem Hides.regionFreed (regions : List RegionId) :
    (small.regionFreed regions).Hides (large.regionFreed regions) := by
  have swept := hides.setTree (fun _ => .disabled) (fun _ => rfl) fun _ _ member =>
    hides.mem_ownedTags_iff wellFormed largeFormed regions member
  refine swept.keep rfl rfl rfl rfl hides.places ?_
  rw [Provenance.regionFreed, Provenance.regionFreed, hides.dead]

theorem Hides.regionFrozen (regions : List RegionId) :
    (small.regionFrozen regions).Hides (large.regionFrozen regions) :=
  hides.setTree freezePerm freezePerm_freezePerm fun _ _ member =>
    hides.mem_ownedTags_iff wellFormed largeFormed regions member

end

theorem Hides.rebindPlace (key : String) (alloc : AllocId) (tag : TagId) :
    (small.rebindPlace key alloc tag).2.Hides (large.rebindPlace key alloc tag).2 := by
  refine hides.keep (tags_markDisplaced _ _) (allocs_markDisplaced _ _) (tags_markDisplaced _ _)
    (allocs_markDisplaced _ _) ?_ ?_
  · refine (places_markDisplaced _ _).trans (Eq.trans ?_ (places_markDisplaced _ _).symm)
    exact congrArg (fun places : Places => places.insert key (alloc, tag)) hides.places
  · unfold Provenance.rebindPlace
    cases small.place key <;> cases large.place key <;> exact hides.dead

theorem Hides.restorePlace (key : String) (previous : Option (AllocId × TagId)) :
    (small.restorePlace key previous).Hides (large.restorePlace key previous) := by
  refine hides.keep (tags_markDisplaced _ _) (allocs_markDisplaced _ _) (tags_markDisplaced _ _)
    (allocs_markDisplaced _ _) ?_ ?_
  · refine (places_markDisplaced _ _).trans (Eq.trans ?_ (places_markDisplaced _ _).symm)
    cases previous with
    | none => exact congrArg (fun places : Places => places.erase key) hides.places
    | some entry => exact congrArg (fun places : Places => places.insert key entry) hides.places
  · unfold Provenance.restorePlace
    cases small.place key <;> cases large.place key <;> exact hides.dead

theorem Hides.expose (ptr : RawPtr) : (small.expose ptr).Hides (large.expose ptr) := by
  unfold Provenance.expose
  split
  · refine hides.modify _ _ (fun alloc => ?_) fun alloc => ?_
    · split <;> rfl
    · rename_i index tag _ _
      by_cases shown : tag ∈ alloc.exposed <;> simp [Alloc.bare, shown]
  · exact hides

theorem Hides.initRange (ptr : RawPtr) (len : Nat) :
    (small.initRange ptr len).Hides (large.initRange ptr len) := by
  unfold Provenance.initRange
  split
  · exact hides
  · exact hides.modify _ _ (fun _ => rfl) fun _ => rfl

theorem Hides.unprotect (tag : TagId) : (small.unprotect tag).Hides (large.unprotect tag) := by
  have arenas : (small.unprotect tag).arena = (large.unprotect tag).arena := by
    have entries : ∀ prov : Provenance, (prov.unprotect tag).arena =
        prov.arena.modify tag fun entry => { entry with isProtected := false } := by
      intro prov
      refine List.ext_getElem? fun id => ?_
      rw [List.getElem?_modify, arena_get, arena_get]
      unfold Provenance.unprotect
      cases found : prov.tags[tag]? with
      | none =>
        by_cases same : tag = id
        · simp [← same, found]
        · cases prov.tags[id]? <;> simp [same]
      | some entry =>
        dsimp only
        split
        · rename_i unguarded
          by_cases same : tag = id
          · rw [← same, found]
            simp [Tag.bare, ← unguarded]
          · cases prov.tags[id]? <;> simp [same]
        · change ((prov.tags.modify tag _)[id]?).map Tag.bare = _
          rw [List.getElem?_modify]
          cases prov.tags[id]? with
          | none => rfl
          | some other => by_cases same : tag = id <;> simp [same, Tag.bare]
    rw [entries, entries, hides.arena]
  have fields : ∀ prov : Provenance, (prov.unprotect tag).allocs = prov.allocs ∧
      (prov.unprotect tag).places = prov.places ∧
      (prov.unprotect tag).regionDead = prov.regionDead := by
    intro prov
    unfold Provenance.unprotect
    cases prov.tags[tag]? with
    | none => exact ⟨rfl, rfl, rfl⟩
    | some entry =>
      dsimp only
      split <;> exact ⟨rfl, rfl, rfl⟩
  have guards : ∀ id, (small.unprotect tag).isProtected id = true →
      small.isProtected id = true := by
    intro id
    rw [isProtected, isProtected]
    unfold Provenance.unprotect
    cases small.tags[tag]? with
    | none => exact fun still => still
    | some entry =>
      dsimp only
      split
      · exact fun still => still
      · change ((small.tags.modify tag _)[id]?).elim false Tag.isProtected = true → _
        rw [List.getElem?_modify]
        cases small.tags[id]? with
        | none => exact fun still => still
        | some other => by_cases same : tag = id <;> simp [same]
  have smallTrees := (sameForest_unprotect small tag).treeTags_eq
  have largeTrees := (sameForest_unprotect large tag).treeTags_eq
  refine ⟨arenas, ?_, ?_, ?_, ?_, ?_, ?_⟩
  · rw [(fields small).1, (fields large).1]
    exact hides.allocs
  · rw [(fields small).2.1, (fields large).2.1]
    exact hides.places
  · rw [(fields small).2.2, (fields large).2.2]
    exact hides.dead
  · rw [smallTrees, largeTrees]
    exact hides.trees
  · rw [smallTrees, permAt_unprotect, permAt_unprotect]
    exact hides.perms
  · intro index id member dropped
    rw [largeTrees] at member
    rw [smallTrees] at dropped
    have free := hides.released index id member dropped
    rw [← Bool.not_eq_true] at free ⊢
    exact fun still => free (guards id still)

section

variable (wellFormed : small.WellFormed) (largeFormed : large.WellFormed)
include wellFormed largeFormed

/-- The two machines after the same tag was appended to both tables. -/
theorem Hides.snoc {fresh : Tag} (smallTags : small'.tags = small.tags ++ [fresh])
    (largeTags : large'.tags = large.tags ++ [fresh])
    (allocs : small'.allocs.map Alloc.bare = large'.allocs.map Alloc.bare)
    (places : small'.places = large'.places) (dead : small'.regionDead = large'.regionDead)
    {host : AllocId} (smallTrees : ∀ index, small'.treeTags index =
      if index = host then small.treeTags index ++ [small.tags.length] else small.treeTags index)
    (largeTrees : ∀ index, large'.treeTags index =
      if index = host then large.treeTags index ++ [small.tags.length] else large.treeTags index) :
    small'.Hides large' := by
  have lengths : small.tags.length = large.tags.length := (arena_congr hides.arena).2.2.2
  have oldSmall : ∀ {index tag}, tag ∈ small.treeTags index → tag ≠ small.tags.length :=
    fun member => Nat.ne_of_lt (lt_of_allocOf (wellFormed.members _ _ member))
  have oldLarge : ∀ {index tag}, tag ∈ large.treeTags index → tag ≠ small.tags.length :=
    fun member => lengths ▸ Nat.ne_of_lt (lt_of_allocOf (largeFormed.members _ _ member))
  refine ⟨?_, allocs, places, dead, fun index => ?_, fun index tag member off => ?_,
    fun index tag member dropped => ?_⟩
  · rw [Provenance.arena, Provenance.arena, smallTags, largeTags, List.map_append,
      List.map_append]
    exact congrArg (· ++ _) hides.arena
  · obtain ⟨keep, trees⟩ := hides.trees index
    rw [smallTrees, largeTrees]
    by_cases here : index = host
    · refine ⟨fun tag => tag = small.tags.length || keep tag, ?_⟩
      rw [if_pos here, if_pos here, trees, List.filter_append]
      congr 1
      · refine List.filter_congr fun tag member => ?_
        simp [oldLarge member]
      · simp
    · rw [if_neg here, if_neg here]
      exact ⟨keep, trees⟩
  · rw [permAt_snoc smallTags, permAt_snoc largeTags, lengths]
    split
    · rfl
    · rename_i old
      refine hides.perms index tag ?_ off
      rw [smallTrees] at member
      split at member
      · rcases List.mem_append.mp member with inTree | last
        · exact inTree
        · exact absurd (List.mem_singleton.mp last) (lengths ▸ old)
      · exact member
  · rw [largeTrees] at member
    rw [smallTrees] at dropped
    have oldMember : tag ∈ large.treeTags index := by
      split at member
      · rename_i here
        rcases List.mem_append.mp member with inTree | last
        · exact inTree
        · rw [if_pos here] at dropped
          exact absurd (List.mem_append_right _ last) dropped
      · exact member
    have oldDropped : tag ∉ small.treeTags index := by
      intro inTree
      refine dropped ?_
      split
      · exact List.mem_append_left _ inTree
      · exact inTree
    rw [isProtected, tags_snoc smallTags, if_neg (oldLarge oldMember)]
    exact hides.released index tag oldMember oldDropped

theorem Hides.newAlloc (size : Nat) (origin : Origin) (owner : Option RegionId) (label : String)
    (span : Span) (perm : Perm) : (small.newAlloc size origin owner label span perm).2.Hides
      (large.newAlloc size origin owner label span perm).2 := by
  have lengths : small.tags.length = large.tags.length := (arena_congr hides.arena).2.2.2
  have counts := hides.length_allocs
  have empty : ∀ prov : Provenance, prov.treeTags prov.allocs.length = [] := by
    intro prov
    rw [treeTags, List.getElem?_eq_none (Nat.le_refl _)]
    rfl
  have trees : ∀ (prov : Provenance) (index : AllocId),
      (prov.newAlloc size origin owner label span perm).2.treeTags index =
        if index = prov.allocs.length then prov.treeTags index ++ [prov.tags.length]
        else prov.treeTags index := by
    intro prov index
    rw [treeTags_newAlloc]
    split
    · rename_i same
      rw [same, empty, List.nil_append]
    · rfl
  refine hides.snoc wellFormed largeFormed rfl ?_ ?_ hides.places hides.dead (trees small) ?_
  · simp only [Provenance.newAlloc, lengths, counts]
  · simp only [Provenance.newAlloc, List.map_append, hides.allocs, lengths, counts]
  · intro index
    rw [trees, counts, lengths]

theorem Hides.hostAlloc (size : Nat) (owner : RegionId) (span : Span) :
    (small.hostAlloc size owner span).2.Hides (large.hostAlloc size owner span).2 := by
  have grown := hides.newAlloc wellFormed largeFormed size .hostC (some owner)
    s!"c.malloc({size})" span .active
  have exposed := grown.modify small.allocs.length
    (fun alloc => { alloc with exposed := alloc.exposed ++ [small.tags.length] })
    (fun _ => rfl) fun _ => rfl
  refine exposed.keep rfl rfl rfl ?_ hides.places hides.dead
  simp only [Provenance.hostAlloc, Provenance.newAlloc, hides.length_allocs,
    (arena_congr hides.arena).2.2.2]

end

theorem Hides.place_eq : small.place = large.place := by
  funext key
  rw [place, place, hides.places]

theorem Hides.placeAlloc (wellFormed : small.WellFormed) (largeFormed : large.WellFormed)
    (key : String) (owner : Option RegionId) (span : Span) :
    (small.placeAlloc key owner span).1 = (large.placeAlloc key owner span).1 ∧
      (small.placeAlloc key owner span).2.Hides (large.placeAlloc key owner span).2 := by
  have lengths : small.tags.length = large.tags.length := (arena_congr hides.arena).2.2.2
  have counts := hides.length_allocs
  unfold Provenance.placeAlloc
  rw [hides.place_eq]
  cases large.place key with
  | some found => exact ⟨rfl, hides⟩
  | none =>
    have grown := hides.newAlloc wellFormed largeFormed 1 .place owner s!"place `{key}`" span
      .active
    have filled := grown.modify small.allocs.length
      (fun alloc => { alloc with init := alloc.init.map fun _ => true })
      (fun _ => rfl) fun _ => rfl
    refine ⟨?_, filled.keep rfl rfl rfl ?_ ?_ hides.dead⟩
    · simp only [Provenance.newAlloc, lengths, counts]
    · simp only [Provenance.newAlloc, counts]
    · simp only [Provenance.newAlloc, lengths, counts, hides.places]

/-- A retag of the same parent mints the same child in both machines. -/
theorem Hides.retag (wellFormed : small.WellFormed) (largeFormed : large.WellFormed)
    {alloc : AllocId} {parent : TagId} (kept : parent ∈ small.treeTags alloc) (kind : RetagKind)
    (isProtected : Bool) (label : String) (span : Span) : ∃ child small' large',
      small.retag alloc parent kind isProtected label span = some (child, small') ∧
      large.retag alloc parent kind isProtected label span = some (child, large') ∧
      small'.Hides large' := by
  have lengths : small.tags.length = large.tags.length := (arena_congr hides.arena).2.2.2
  obtain ⟨_, absent⟩ | ⟨first, second, first_eq, second_eq, bare_eq⟩ := hides.alloc_cases alloc
  · have bound := lt_of_mem_treeTags kept
    rw [hides.length_allocs] at bound
    exact absurd absent (by simp [bound])
  · have size_eq := (Alloc.fields_of_bare bare_eq).1
    have trees : ∀ (prov : Provenance) (entry : Alloc), prov.allocs[alloc]? = some entry →
        ∀ (next : Provenance), next.allocs = prov.allocs.modify alloc (fun entry =>
          { entry with tags := entry.tags ++ [prov.tags.length] }) → ∀ index,
        next.treeTags index = if index = alloc then prov.treeTags index ++ [prov.tags.length]
          else prov.treeTags index := by
      intro prov entry found next next_eq index
      rw [treeTags, next_eq, List.getElem?_modify, treeTags]
      by_cases same : index = alloc
      · rw [same, found]
        simp
      · cases prov.allocs[index]? <;> simp [same, Ne.symm same]
    refine ⟨small.tags.length, _, _, by rw [Provenance.retag, first_eq]; rfl,
      by rw [Provenance.retag, second_eq, lengths]; rfl, ?_⟩
    refine hides.snoc wellFormed largeFormed rfl ?_ ?_ hides.places hides.dead
      (trees small first first_eq _ rfl) ?_
    · simp only [markDirty, lengths, size_eq]
    · refine List.ext_getElem? fun index => ?_
      simp only [markDirty, List.getElem?_map, List.getElem?_modify]
      obtain ⟨absent, otherAbsent⟩ | ⟨one, other, one_eq, other_eq, same⟩ :=
        hides.alloc_cases index
      · simp [absent, otherAbsent]
      · rw [one_eq, other_eq]
        simp only [Option.map_eq_map, Option.map_some, Option.some.injEq]
        split
        · exact same
        · exact same
    · intro index
      rw [trees large second second_eq _ rfl, lengths]

/-- A prune of the first machine alone. -/
theorem Hides.prune (pruned : small.prune = some small') : small'.Hides large := by
  obtain ⟨rest, length_eq, _, trimmed⟩ := prune_spec pruned
  have fields : small'.tags = small.tags ∧ small'.places = small.places ∧
      small'.regionDead = small.regionDead :=
    ⟨by have same := congrArg Provenance.tags rest; exact same,
      by have same := congrArg Provenance.places rest; exact same,
      by have same := congrArg Provenance.regionDead rest; exact same⟩
  have entries : ∀ index : AllocId, (small.allocs[index]? = none ∧ small'.allocs[index]? = none) ∨
      ∃ alloc tags, small.allocs[index]? = some alloc ∧
        small'.allocs[index]? = some { alloc with tags } ∧ small.Trims alloc tags := by
    intro index
    cases found : small.allocs[index]? with
    | none =>
      refine .inl ⟨rfl, ?_⟩
      rw [List.getElem?_eq_none_iff, length_eq]
      exact List.getElem?_eq_none_iff.mp found
    | some alloc =>
      obtain ⟨tags, next_found, trims⟩ := trimmed index alloc found
      exact .inr ⟨alloc, tags, rfl, next_found, trims⟩
  have arena_eq : small'.arena = small.arena := by
    rw [Provenance.arena, Provenance.arena, fields.1]
  refine ⟨arena_eq.trans hides.arena, ?_, fields.2.1.trans hides.places,
    fields.2.2.trans hides.dead, fun index => ?_, fun index tag member off => ?_,
    fun index tag member dropped => ?_⟩
  · rw [← hides.allocs]
    refine List.ext_getElem? fun index => ?_
    rw [List.getElem?_map, List.getElem?_map]
    obtain ⟨absent, gone⟩ | ⟨alloc, tags, found, next_found, _⟩ := entries index
    · rw [absent, gone]
    · rw [found, next_found]
      rfl
  · obtain ⟨keep, trees⟩ := hides.trees index
    obtain ⟨absent, gone⟩ | ⟨alloc, tags, found, next_found, trims⟩ := entries index
    · refine ⟨keep, ?_⟩
      rw [← trees, treeTags, gone, treeTags, absent]
    · obtain ⟨spare, tags_eq⟩ := trims.filtered
      refine ⟨fun tag => spare tag && keep tag, ?_⟩
      rw [← List.filter_filter, ← trees, treeTags_of_found found, treeTags_of_found next_found]
      exact tags_eq
  · rw [permAt_of_tags fields.1]
    refine hides.perms index tag ?_ off
    obtain ⟨absent, gone⟩ | ⟨alloc, tags, found, next_found, trims⟩ := entries index
    · rw [treeTags, gone] at member
      simp at member
    · obtain ⟨spare, tags_eq⟩ := trims.filtered
      rw [treeTags_of_found next_found] at member
      rw [treeTags_of_found found]
      change tag ∈ tags at member
      rw [tags_eq] at member
      exact (List.mem_filter.mp member).1
  · rw [(arena_congr arena_eq).2.1]
    by_cases inTree : tag ∈ small.treeTags index
    · obtain ⟨absent, _⟩ | ⟨alloc, tags, found, next_found, trims⟩ := entries index
      · rw [treeTags, absent] at inTree
        simp at inTree
      · rw [treeTags_of_found found] at inTree
        rw [treeTags_of_found next_found] at dropped
        rw [← Bool.not_eq_true]
        exact fun guarded => dropped (trims.anchored tag inTree (.inr (.inl guarded)))
    · exact hides.released index tag member inTree

end

end Preserve

/-! ## The two machines in step -/

/-- The row of a verdict. -/
def verdictRow : Except UbFinding Unit → Except UbRow Unit
  | .error finding => .error finding.row
  | .ok () => .ok ()

/-- What a run shows: the rows of its verdicts. -/
def shownRow : ProvAnswer → Option (Except UbRow Unit)
  | .verdict answer => some (verdictRow answer)
  | _ => none

/-- The verdicts of a run, one for each access and each assertion, as rows. -/
def verdicts (prov : Provenance) (ops : List ProvOp) : Option (List (Except UbRow Unit)) :=
  (transcript perform prov ops).map (List.filterMap shownRow)

/-- Is the operation a prune? -/
def isPrune : ProvOp → Bool
  | .prune => true
  | _ => false

/-- A machine that prunes beside one that does not. -/
structure Shadows (small large : Provenance) : Prop where
  chained : small.Chained
  pins : small.Pins
  formed : large.WellFormed
  hides : small.Hides large

section Step

variable {small large : Provenance} {op : ProvOp}

theorem NamesKept.retagKept (pins : small.Pins) (kept : small.NamesKept op) :
    small.RetagKept op := by
  cases op with
  | retag alloc parent kind isProtected label span => exact kept
  | retagPlace key kind isProtected span => exact fun found bound => pins.bound key found bound
  | _ => trivial

/-- A parent of the pruned tree is real in both machines. -/
theorem Hides.retagReal (hides : small.Hides large) (real : small.RetagReal op) :
    large.RetagReal op := by
  have allocs := (arena_congr hides.arena).2.2.1
  cases op with
  | retag alloc parent kind isProtected label span =>
    rw [RetagReal, ← allocs]
    exact real
  | retagPlace key kind isProtected span =>
    rw [RetagReal, ← allocs, ← hides.place_eq]
    exact real
  | _ => trivial

theorem Hides.report_cases (hides : small.Hides large) (wellFormed : small.WellFormed)
    (largeFormed : large.WellFormed) (index : AllocId) (row : UbRow) (span : Span)
    (first second : Option Span) (message : String) :
    (small.report index row span first message = none ∧
      large.report index row span second message = none) ∨
    ∃ finding other, small.report index row span first message = some finding ∧
      large.report index row span second message = some other ∧
      finding.row = row ∧ other.row = row := by
  obtain ⟨absent, otherAbsent⟩ | ⟨one, other, one_eq, other_eq, bare_eq⟩ := hides.alloc_cases index
  · refine .inr ⟨{ row, span, tagSpan := first, message, tree := [] },
      { row, span, tagSpan := second, message, tree := [] }, ?_, ?_, rfl, rfl⟩
    · rw [report, tree, absent]
      rfl
    · rw [report, tree, otherAbsent]
      rfl
  · have size_eq := (Alloc.fields_of_bare bare_eq).1
    obtain ⟨prints, silent⟩ := report_spec wellFormed one_eq row span first message
    obtain ⟨otherPrints, otherSilent⟩ := report_spec largeFormed other_eq row span second message
    by_cases positive : 0 < one.size
    · obtain ⟨finding, finding_eq, row_eq⟩ := prints positive
      obtain ⟨found, found_eq, found_row⟩ := otherPrints (size_eq ▸ positive)
      exact .inr ⟨finding, found, finding_eq, found_eq, row_eq, found_row⟩
    · exact .inl ⟨silent positive, otherSilent (size_eq ▸ positive)⟩

/-- Both machines refuse, or both answer the same row and stay related. -/
def InStep (first second : Option (Except UbFinding Unit × Provenance)) : Prop :=
  (first = none ∧ second = none) ∨ ∃ answer next other otherNext,
    first = some (answer, next) ∧ second = some (other, otherNext) ∧
      verdictRow answer = verdictRow other ∧ next.Hides otherNext

theorem Shadows.assumeNoalias (shadows : small.Shadows large) (ptrs : List RawPtr) (span : Span) :
    InStep (small.assumeNoalias ptrs span) (large.assumeNoalias ptrs span) := by
  obtain ⟨chained, _, formed, hides⟩ := shadows
  unfold Provenance.assumeNoalias
  dsimp only
  split
  · rename_i alloc lo hi otherLo otherHi _
    obtain ⟨first_eq, second_eq⟩ | ⟨finding, other, first_eq, second_eq, row_eq, other_eq⟩ :=
      hides.report_cases chained.wellFormed formed alloc .p5 span
        ((small.allocs[alloc]?).map Alloc.span) ((large.allocs[alloc]?).map Alloc.span) _
    · exact .inl ⟨by rw [first_eq]; rfl, by rw [second_eq]; rfl⟩
    · refine .inr ⟨_, _, _, _, by rw [first_eq]; rfl, by rw [second_eq]; rfl, ?_, hides⟩
      rw [verdictRow, verdictRow, row_eq, other_eq]
  · exact .inr ⟨_, _, _, _, rfl, rfl, rfl, hides.keep rfl rfl rfl rfl hides.places hides.dead⟩

theorem Shadows.access (shadows : small.Shadows large) {ptr : RawPtr}
    (names : small.NamesPointer ptr) (len : Nat) (kind : AccessKind) (span : Span) :
    InStep (small.access ptr len kind span) (large.access ptr len kind span) := by
  obtain ⟨chained, pins, formed, hides⟩ := shadows
  have smallPoints : small.PointsInto ptr := by
    intro index entry target found
    have inTree : ∀ tag ∈ small.treeTags index, tag < small.tags.length :=
      fun tag member => lt_of_allocOf (chained.wellFormed.members index tag member)
    cases pointer : ptr.prov with
    | tag tag =>
      simp only [NamesPointer, target, pointer] at names
      exact inTree tag (names (List.getElem?_eq_some_iff.mp found).1)
    | wildcard =>
      intro tag member
      refine inTree tag ?_
      rw [treeTags_of_found found]
      exact pins.exposed index entry found tag member
  have lengths : small.tags.length = large.tags.length := (arena_congr hides.arena).2.2.2
  have largePoints : large.PointsInto ptr := by
    intro index entry target found
    obtain ⟨_, absent⟩ | ⟨first, second, first_eq, second_eq, bare_eq⟩ := hides.alloc_cases index
    · simp [absent] at found
    · obtain rfl := Option.eq_some_unique found second_eq
      have reaches := smallPoints index first target first_eq
      have exposed_eq := (Alloc.fields_of_bare bare_eq).2.2.2.2
      cases pointer : ptr.prov with
      | tag tag =>
        rw [pointer] at reaches
        change tag < large.tags.length
        exact lengths ▸ reaches
      | wildcard =>
        rw [pointer] at reaches
        intro tag member
        exact lengths ▸ reaches tag (exposed_eq ▸ member)
  have first := access_spec chained.wellFormed smallPoints len kind span
  have second := access_spec formed largePoints len kind span
  rw [← hides.outcome_eq chained pins names len kind] at second
  cases ending : small.outcome ptr len kind with
  | panics =>
    rw [ending] at first second
    exact .inl ⟨first, second⟩
  | refused row =>
    rw [ending] at first second
    obtain ⟨finding, first_eq, row_eq⟩ := first
    obtain ⟨other, second_eq, other_eq⟩ := second
    refine .inr ⟨_, _, _, _, first_eq, second_eq, ?_, hides⟩
    rw [verdictRow, verdictRow, row_eq, other_eq]
  | unread index lo hi through =>
    rw [ending] at first second
    obtain ⟨finding, next, first_eq, row_eq, moves⟩ := first
    obtain ⟨other, otherNext, second_eq, other_eq, otherMoves⟩ := second
    refine .inr ⟨_, _, _, _, first_eq, second_eq, ?_,
      hides.moves chained.wellFormed formed moves otherMoves⟩
    rw [verdictRow, verdictRow, row_eq, other_eq]
  | passed index lo hi through =>
    rw [ending] at first second
    obtain ⟨next, first_eq, moves⟩ := first
    obtain ⟨otherNext, second_eq, otherMoves⟩ := second
    exact .inr ⟨_, _, _, _, first_eq, second_eq, rfl,
      (hides.moves chained.wellFormed formed moves otherMoves).initialized index lo hi kind⟩

theorem Shadows.accessPlace (shadows : small.Shadows large) (key : String) (kind : AccessKind)
    (span : Span) : InStep (small.accessPlace key kind span) (large.accessPlace key kind span) := by
  unfold Provenance.accessPlace
  rw [← shadows.hides.place_eq]
  cases bound : small.place key with
  | none => exact .inr ⟨_, _, _, _, rfl, rfl, rfl, shadows.hides⟩
  | some found =>
    obtain ⟨alloc, tag⟩ := found
    have names : small.NamesPointer
        { alloc := some alloc, offset := 0, prov := .tag tag, elem := 1 } :=
      fun _ => shadows.pins.bound key (alloc, tag) bound
    exact shadows.access names 1 kind span

/-- A retagged place answers the fresh child of what the place is bound to. -/
theorem perform_retagPlace {prov next : Provenance} {key : String} {kind : RetagKind}
    {isProtected : Bool} {span : Span} {child : TagId}
    (retagged : (prov.placeAlloc key none span).2.retag (prov.placeAlloc key none span).1.1
      (prov.placeAlloc key none span).1.2 kind isProtected s!"`{key}`" span = some (child, next)) :
    prov.perform (.retagPlace key kind isProtected span) =
      some (.child (prov.placeAlloc key none span).1.1 child, next) := by
  have place_eq : prov.retagPlace key kind isProtected span =
      some (((prov.placeAlloc key none span).1.1, child), next) := by
    simp only [Provenance.retagPlace, retagged, Option.map_some]
  rw [perform, place_eq]
  rfl

theorem InStep.lift {first second : Option (Except UbFinding Unit × Provenance)}
    (inStep : InStep first second) :
    ((first.map fun (answer, next) => (ProvAnswer.verdict answer, next)) = none ∧
      (second.map fun (answer, next) => (ProvAnswer.verdict answer, next)) = none) ∨
    ∃ answer next other otherNext,
      (first.map fun (answer, next) => (ProvAnswer.verdict answer, next)) = some (answer, next) ∧
      (second.map fun (answer, next) => (ProvAnswer.verdict answer, next)) =
        some (other, otherNext) ∧
      shownRow answer = shownRow other ∧ next.Hides otherNext := by
  obtain ⟨rfl, rfl⟩ | ⟨answer, next, other, otherNext, rfl, rfl, row_eq, hides⟩ := inStep
  · exact .inl ⟨rfl, rfl⟩
  · exact .inr ⟨_, _, _, _, rfl, rfl, congrArg some row_eq, hides⟩

/-- Related machines perform every operation but a prune alike. -/
theorem Shadows.inStep (shadows : small.Shadows large) (kept : small.NamesKept op)
    (notPrune : isPrune op = false) :
    (small.perform op = none ∧ large.perform op = none) ∨ ∃ answer next other otherNext,
      small.perform op = some (answer, next) ∧ large.perform op = some (other, otherNext) ∧
        shownRow answer = shownRow other ∧ next.Hides otherNext := by
  obtain ⟨chained, pins, formed, hides⟩ := id shadows
  have wellFormed := chained.wellFormed
  cases op with
  | hostAlloc size owner span =>
    exact .inr ⟨_, _, _, _, rfl, rfl, rfl, hides.hostAlloc wellFormed formed size owner span⟩
  | hostFree ptr =>
    exact .inr ⟨_, _, _, _, rfl, rfl, rfl, hides.hostFree wellFormed formed ptr⟩
  | bindPlace key alloc tag =>
    exact .inr ⟨_, _, _, _, rfl, rfl, rfl, hides.rebindPlace key alloc tag⟩
  | rebindPlace key alloc tag =>
    exact .inr ⟨_, _, _, _, rfl, rfl, rfl, hides.rebindPlace key alloc tag⟩
  | restorePlace key previous =>
    exact .inr ⟨_, _, _, _, rfl, rfl, rfl, hides.restorePlace key previous⟩
  | dropFrame task frame =>
    refine .inr ⟨_, _, _, _, rfl, rfl, rfl, hides.keep rfl rfl rfl rfl ?_ hides.dead⟩
    rw [Provenance.dropFrame, Provenance.dropFrame, hides.places]
  | prune => simp [isPrune] at notPrune
  | retag alloc parent kind isProtected label span =>
    obtain ⟨child, next, other, first_eq, second_eq, later⟩ :=
      hides.retag wellFormed formed kept kind isProtected label span
    exact .inr ⟨_, _, _, _, by rw [perform, first_eq]; rfl, by rw [perform, second_eq]; rfl, rfl,
      later⟩
  | retagPlace key kind isProtected span =>
    obtain ⟨found_eq, grown⟩ := hides.placeAlloc wellFormed formed key none span
    have planted := chained.placeAlloc key none span
    have inTree :
        (small.placeAlloc key none span).1.2 ∈ (small.placeAlloc key none span).2.treeTags _ :=
      placeAlloc_kept fun found bound => pins.bound key found bound
    obtain ⟨child, next, other, first_eq, second_eq, later⟩ :=
      grown.retag planted.wellFormed (formed.placeAlloc key none span) inTree kind isProtected
        s!"`{key}`" span
    rw [found_eq] at second_eq
    exact .inr ⟨_, _, _, _, perform_retagPlace first_eq, perform_retagPlace second_eq,
      by rw [found_eq], later⟩
  | unprotect tag => exact .inr ⟨_, _, _, _, rfl, rfl, rfl, hides.unprotect tag⟩
  | expose ptr => exact .inr ⟨_, _, _, _, rfl, rfl, rfl, hides.expose ptr⟩
  | regionFreed regions =>
    exact .inr ⟨_, _, _, _, rfl, rfl, rfl, hides.regionFreed wellFormed formed regions⟩
  | regionFrozen regions =>
    exact .inr ⟨_, _, _, _, rfl, rfl, rfl, hides.regionFrozen wellFormed formed regions⟩
  | initRange ptr len => exact .inr ⟨_, _, _, _, rfl, rfl, rfl, hides.initRange ptr len⟩
  | assumeNoalias ptrs span => exact (shadows.assumeNoalias ptrs span).lift
  | access ptr len kind span => exact (shadows.access kept len kind span).lift
  | accessPlace key kind span => exact (shadows.accessPlace key kind span).lift

end Step

/-- Pruning at any points changes no verdict of a run that names only tags still in their trees:
the run with its prunes and the run without them answer the same rows. -/
theorem verdicts_without_prunes {ops : List ProvOp} (kept : Attempted step NamesKept new ops) :
    verdicts new ops = verdicts new (ops.filter fun op => !isPrune op) := by
  refine transcript_filter Shadows NamesKept isPrune shownRow ?_ ?_
    ⟨chained_new, pins_new, wellFormed_new, ?_⟩ kept
  · intro small large op shadows holds pruning
    cases op with
    | prune =>
      obtain ⟨next, pruned⟩ := Option.isSome_iff_exists.mp (prune_isSome shadows.pins.queued)
      refine ⟨.done, next, by rw [perform, pruned]; rfl, rfl, ?_⟩
      exact ⟨shadows.chained.prune pruned, shadows.pins.prune pruned, shadows.formed,
        shadows.hides.prune pruned⟩
    | _ => simp [isPrune] at pruning
  · intro small large op shadows holds notPrune
    obtain refused | ⟨answer, next, other, otherNext, first_eq, second_eq, row_eq, hides⟩ :=
      shadows.inStep holds notPrune
    · exact .inl refused
    · have real := NamesKept.retagKept shadows.pins holds
      refine .inr ⟨answer, next, other, otherNext, first_eq, second_eq, row_eq, ?_⟩
      exact ⟨chained_perform shadows.chained real first_eq,
        pins_perform shadows.pins shadows.chained.wellFormed holds first_eq,
        wellFormed_perform shadows.formed
          (shadows.hides.retagReal (RetagKept.real shadows.chained.wellFormed real)) second_eq,
        hides⟩
  · refine ⟨rfl, rfl, rfl, rfl, fun index => ⟨fun _ => true, ?_⟩, fun _ _ _ _ => rfl, ?_⟩
    · rw [List.filter_true]
    · exact fun _ _ member dropped => absurd member dropped

/-- A shared borrow whose place is swapped away, a prune, the swap back and a write. -/
def pruneWhileSwapped : List ProvOp :=
  [.retagPlace "x" .shared false ⟨0, 1⟩, .bindPlace "p" 0 1, .rebindPlace "p" 0 0, .prune,
    .restorePlace "p" (some (0, 1)), .accessPlace "p" .write ⟨2, 3⟩]

/-- The prune drops the tag that the swap still holds, and hides the write through it. -/
theorem verdicts_changed_by_prune :
    ¬ ∀ ops : List ProvOp, verdicts new ops = verdicts new (ops.filter fun op => !isPrune op) := by
  intro same
  exact absurd (same pruneWhileSwapped) (by decide)

/-- The same borrow with the prune while its place still holds it. -/
def pruneWhileBound : List ProvOp :=
  [.retagPlace "x" .shared false ⟨0, 1⟩, .bindPlace "p" 0 1, .prune, .rebindPlace "p" 0 0,
    .restorePlace "p" (some (0, 1)), .accessPlace "p" .write ⟨2, 3⟩]

theorem verdicts_pruneWhileBound : verdicts new pruneWhileBound =
      verdicts new (pruneWhileBound.filter fun op => !isPrune op) :=
  verdicts_without_prunes (by decide)

/-- The parents of tags make a forest, what is bound or exposed is in its tree, and a prune does not
fail. -/
def Rooted (prov : Provenance) : Prop :=
  prov.WellFormed ∧ Acyclic prov.parent ∧ prov.Pins ∧ prov.prune.isSome

/-- Through any prunes, a run that names tags of the trees keeps what it still uses rooted. -/
theorem rooted_runs {ops : List ProvOp} (kept : Guarded step NamesKept new ops) :
    Always step Rooted new ops := by
  have preserved : ∀ state op next, state.WellFormed ∧ state.Pins → NamesKept state op →
      step state op = some next → next.WellFormed ∧ next.Pins := by
    rintro state op next ⟨wellFormed, pins⟩ named stepped
    obtain ⟨⟨answer, later⟩, performed, rfl⟩ := Option.map_eq_some_iff.mp stepped
    have real := (named.retagKept pins).real wellFormed
    exact ⟨wellFormed_perform wellFormed real performed,
      pins_perform pins wellFormed named performed⟩
  intro front rest state split run
  obtain ⟨wellFormed, pins⟩ := always_of_guarded (fun prov => WellFormed prov ∧ Pins prov) NamesKept
    ⟨wellFormed_new, pins_new⟩ preserved kept front rest state split run
  exact ⟨wellFormed, wellFormed.acyclic, pins, prune_isSome pins.queued⟩

theorem rooted_runs_exposed : Always step Rooted new retagUnderExposed := rooted_runs (by decide)

end Provenance

end WolfInterp
