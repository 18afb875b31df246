import WolfInterp.Prov.ActiveChain

/-!
# What holds a tag in its tree

A run that names only tags of the trees keeps every bound and every exposed tag in its tree, so
that a prune, which spares exactly those, the protected ones, the roots and their ancestors, never
takes away a tag that the machine itself still uses.
-/

namespace WolfInterp

/-- The tree of an allocation and the tags exposed in it. -/
def Alloc.roots (alloc : Alloc) : List TagId × List TagId := (alloc.tags, alloc.exposed)

namespace Provenance

/-- A raw pointer into an allocation names a tag of its tree. -/
def NamesPointer (prov : Provenance) (ptr : RawPtr) : Prop :=
  match ptr.alloc, ptr.prov with
  | some index, .tag tag => index < prov.allocs.length → tag ∈ prov.treeTags index
  | _, _ => True

/-- Every tag an operation names is still in the tree of the allocation it is named with. -/
def NamesKept (prov : Provenance) : ProvOp → Prop
  | .bindPlace _ alloc tag | .rebindPlace _ alloc tag => tag ∈ prov.treeTags alloc
  | .restorePlace _ previous => ∀ found ∈ previous, found.2 ∈ prov.treeTags found.1
  | .retag alloc parent _ _ _ _ => parent ∈ prov.treeTags alloc
  | .expose ptr => prov.NamesPointer ptr
  | .access ptr _ _ _ => prov.NamesPointer ptr
  | _ => True

instance (prov : Provenance) : ∀ ptr, Decidable (prov.NamesPointer ptr)
  | ⟨some index, _, .tag tag, _⟩ =>
    inferInstanceAs (Decidable (index < prov.allocs.length → tag ∈ prov.treeTags index))
  | ⟨none, _, _, _⟩ | ⟨some _, _, .wildcard, _⟩ => isTrue trivial

instance (prov : Provenance) : ∀ op, Decidable (prov.NamesKept op)
  | .bindPlace _ alloc tag | .rebindPlace _ alloc tag | .retag alloc tag _ _ _ _ =>
    inferInstanceAs (Decidable (tag ∈ prov.treeTags alloc))
  | .restorePlace _ previous =>
    inferInstanceAs (Decidable (∀ found ∈ previous, found.2 ∈ prov.treeTags found.1))
  | .expose ptr | .access ptr _ _ _ => inferInstanceAs (Decidable (prov.NamesPointer ptr))
  | .hostAlloc .. | .hostFree _ | .dropFrame .. | .prune | .retagPlace .. | .unprotect _
  | .regionFreed _ | .regionFrozen _ | .initRange .. | .assumeNoalias ..
  | .accessPlace .. => isTrue trivial

/-- Bound and exposed tags are in their trees, and the prune queue names allocations. -/
structure Pins (prov : Provenance) : Prop where
  bound : ∀ key found, prov.place key = some found → found.2 ∈ prov.treeTags found.1
  exposed : ∀ (index : AllocId) (entry : Alloc), prov.allocs[index]? = some entry →
    ∀ tag ∈ entry.exposed, tag ∈ entry.tags
  queued : ∀ index ∈ prov.dirty, index < prov.allocs.length

section Pins

variable {prov next : Provenance} {index alloc : AllocId} {key : String}

theorem lt_of_mem_treeTags {tag : TagId} (member : tag ∈ prov.treeTags index) :
    index < prov.allocs.length := by
  by_contra outside
  rw [treeTags, List.getElem?_eq_none (Nat.le_of_not_lt outside)] at member
  simp at member

theorem treeTags_of_found {entry : Alloc} (found : prov.allocs[index]? = some entry) :
    prov.treeTags index = entry.tags := by
  rw [treeTags, found, Option.elim_some]

theorem mem_pushDirty {dirty : List AllocId} (member : index ∈ pushDirty dirty alloc) :
    index ∈ dirty ∨ index = alloc := by
  rw [pushDirty] at member
  split at member
  · exact .inl member
  · exact (List.mem_append.mp member).imp_right List.mem_singleton.mp

theorem Pins.keep (pins : prov.Pins)
    (roots : next.allocs.map Alloc.roots = prov.allocs.map Alloc.roots)
    (places : next.places = prov.places) (dirty : next.dirty = prov.dirty) : next.Pins := by
  have entries : ∀ index : AllocId, (next.allocs[index]?).map Alloc.roots =
      (prov.allocs[index]?).map Alloc.roots := by
    intro index
    rw [← List.getElem?_map, ← List.getElem?_map, roots]
  have trees : next.treeTags = prov.treeTags := by
    funext index
    have here := entries index
    rw [treeTags, treeTags]
    cases old : prov.allocs[index]? with
    | none =>
      rw [old, Option.map_none, Option.map_eq_none_iff] at here
      rw [here]
    | some entry =>
      rw [old, Option.map_some, Option.map_eq_some_iff] at here
      obtain ⟨other, found, same⟩ := here
      rw [found]
      exact congrArg Prod.fst same
  have lengths : next.allocs.length = prov.allocs.length := by
    have same := congrArg List.length roots
    simpa using same
  refine ⟨fun key found bound => ?_, fun index entry found tag member => ?_, fun index member => ?_⟩
  · rw [place, places] at bound
    rw [trees]
    exact pins.bound key found bound
  · have here := entries index
    rw [found, Option.map_some, eq_comm, Option.map_eq_some_iff] at here
    obtain ⟨old, old_found, same⟩ := here
    obtain ⟨tags_eq, exposed_eq⟩ := Prod.mk.inj same
    rw [← tags_eq]
    exact pins.exposed index old old_found tag (exposed_eq ▸ member)
  · rw [dirty] at member
    rw [lengths]
    exact pins.queued index member

/-- An update in place of what no pin looks at. -/
theorem Pins.modify (pins : prov.Pins) (index : AllocId) (update : Alloc → Alloc)
    (keeps : ∀ alloc, (update alloc).roots = alloc.roots) :
    ({ prov with allocs := prov.allocs.modify index update } : Provenance).Pins :=
  pins.keep (map_modify index keeps) rfl rfl

theorem treeTags_modify (prov : Provenance) (index : AllocId) (update : Alloc → Alloc)
    (keeps : ∀ alloc, (update alloc).plot = alloc.plot) :
    ({ prov with allocs := prov.allocs.modify index update } : Provenance).treeTags =
      prov.treeTags :=
  SameForest.treeTags_eq ⟨rfl, map_modify index keeps⟩

theorem places_markDisplaced (prov : Provenance) (was : Option (AllocId × TagId)) :
    (prov.markDisplaced was).places = prov.places := by
  cases was <;> rfl

theorem allocs_markDisplaced (prov : Provenance) (was : Option (AllocId × TagId)) :
    (prov.markDisplaced was).allocs = prov.allocs := by
  cases was <;> rfl

/-- Rebinding places to tags of the trees keeps the pins. -/
theorem Pins.rebind (pins : prov.Pins) (allocs : next.allocs = prov.allocs)
    (places : ∀ key found, next.place key = some found →
      prov.place key = some found ∨ found.2 ∈ prov.treeTags found.1)
    (dirty : ∀ index ∈ next.dirty, index ∈ prov.dirty ∨
      ∃ key tag, prov.place key = some (index, tag)) : next.Pins := by
  have trees : next.treeTags = prov.treeTags := by
    funext index
    rw [treeTags, treeTags, allocs]
  refine ⟨fun key found bound => ?_, ?_, fun index member => ?_⟩
  · rw [trees]
    exact (places key found bound).elim (pins.bound key found) id
  · rw [allocs]
    exact pins.exposed
  · rw [allocs]
    obtain old | ⟨key, tag, bound⟩ := dirty index member
    · exact pins.queued index old
    · exact lt_of_mem_treeTags (pins.bound key (index, tag) bound)

theorem dirty_markDisplaced {places : Places}
    (member : index ∈ (({ prov with places } : Provenance).markDisplaced (prov.place key)).dirty) :
    index ∈ prov.dirty ∨ ∃ key tag, prov.place key = some (index, tag) := by
  cases bound : prov.place key with
  | none =>
    rw [bound] at member
    exact .inl member
  | some found =>
    obtain ⟨was, tag⟩ := found
    rw [bound] at member
    rcases mem_pushDirty member with old | rfl
    · exact .inl old
    · exact .inr ⟨key, tag, bound⟩

theorem Pins.rebindPlace (pins : prov.Pins) {tag : TagId} (kept : tag ∈ prov.treeTags alloc) :
    (prov.rebindPlace key alloc tag).2.Pins := by
  refine pins.rebind (allocs_markDisplaced _ _) (fun other found bound => ?_)
    fun index => dirty_markDisplaced
  · have table : (prov.rebindPlace key alloc tag).2.places = prov.places.insert key (alloc, tag) :=
      places_markDisplaced _ _
    rw [place, table] at bound
    by_cases same : other = key
    · subst same
      rw [AList.lookup_insert] at bound
      exact .inr (Option.some.inj bound ▸ kept)
    · rw [AList.lookup_insert_ne same] at bound
      exact .inl bound

theorem Pins.restorePlace (pins : prov.Pins) {previous : Option (AllocId × TagId)}
    (kept : ∀ found ∈ previous, found.2 ∈ prov.treeTags found.1) :
    (prov.restorePlace key previous).Pins := by
  refine pins.rebind (allocs_markDisplaced _ _) (fun other found bound => ?_)
    fun index => dirty_markDisplaced
  cases previous with
  | none =>
    have table : (prov.restorePlace key none).places = prov.places.erase key :=
      places_markDisplaced _ _
    rw [place, table] at bound
    by_cases same : other = key
    · subst same
      simp at bound
    · rw [AList.lookup_erase_ne same] at bound
      exact .inl bound
  | some entry =>
    have table : (prov.restorePlace key (some entry)).places = prov.places.insert key entry :=
      places_markDisplaced _ _
    rw [place, table] at bound
    by_cases same : other = key
    · subst same
      rw [AList.lookup_insert] at bound
      exact .inr (Option.some.inj bound ▸ kept entry rfl)
    · rw [AList.lookup_insert_ne same] at bound
      exact .inl bound

theorem place_of_entry {found : AllocId × TagId}
    (member : (⟨key, found⟩ : Sigma fun _ : String => AllocId × TagId) ∈ prov.places.entries) :
    prov.place key = some found :=
  AList.mem_lookup_iff.mpr member

section

variable (pins : prov.Pins)
include pins

theorem Pins.dropFrame (task frame : Nat) : (prov.dropFrame task frame).Pins := by
  refine pins.rebind rfl (fun key found bound => .inl ?_) fun index member => ?_
  · have member := AList.mem_lookup_iff.mp (Option.mem_def.mpr bound)
    exact place_of_entry (List.mem_filter.mp member).1
  · have grows : ∀ (entries : List (Sigma fun _ : String => AllocId × TagId))
      (dirty : List AllocId),
        index ∈ entries.foldl (fun dirty entry => pushDirty dirty entry.2.1) dirty →
          index ∈ dirty ∨ ∃ entry ∈ entries, entry.2.1 = index := by
      intro entries
      induction entries with
      | nil => exact fun dirty member => .inl member
      | cons entry entries induction =>
        intro dirty member
        obtain pushed | ⟨other, other_mem, same⟩ := induction _ member
        · obtain old | rfl := mem_pushDirty pushed
          · exact .inl old
          · exact .inr ⟨entry, List.mem_cons_self, rfl⟩
        · exact .inr ⟨other, List.mem_cons_of_mem entry other_mem, same⟩
    obtain old | ⟨⟨key, target, tag⟩, entry_mem, rfl⟩ := grows _ prov.dirty member
    · exact .inl old
    · exact .inr ⟨key, tag, place_of_entry (List.mem_filter.mp entry_mem).1⟩

/-- Growing a table of allocations keeps the pins when the new place and exposures are rooted. -/
theorem Pins.newAlloc (size : Nat) (origin : Origin) (owner : Option RegionId) (label : String)
    (span : Span) (perm : Perm) :
    (prov.newAlloc size origin owner label span perm).2.Pins := by
  have trees := prov.treeTags_newAlloc size origin owner label span perm
  have length_eq : (prov.newAlloc size origin owner label span perm).2.allocs.length =
      prov.allocs.length + 1 := by
    simp [Provenance.newAlloc]
  refine ⟨fun key found bound => ?_, fun index entry found tag member => ?_, fun index member => ?_⟩
  · have old := pins.bound key found bound
    rw [trees, if_neg (Nat.ne_of_lt (lt_of_mem_treeTags old))]
    exact old
  · rw [Provenance.newAlloc, Worklist.getElem?_snoc] at found
    split at found
    · cases found
      simp at member
    · exact pins.exposed index entry found tag member
  · rw [length_eq]
    exact Nat.lt_succ_of_lt (pins.queued index member)

theorem Pins.hostAlloc (size : Nat) (owner : RegionId) (span : Span) :
    (prov.hostAlloc size owner span).2.Pins := by
  have grown := pins.newAlloc size .hostC (some owner) s!"c.malloc({size})" span .active
  refine ⟨fun key found bound => ?_, fun index entry found tag member => ?_, fun index member => ?_⟩
  · have old := grown.bound key found bound
    have trees : (prov.hostAlloc size owner span).2.treeTags =
        (prov.newAlloc size .hostC (some owner) s!"c.malloc({size})" span .active).2.treeTags := by
      refine SameForest.treeTags_eq ⟨rfl, ?_⟩
      exact map_modify prov.allocs.length fun _ => rfl
    rw [trees]
    exact old
  · change ((prov.newAlloc size .hostC (some owner) s!"c.malloc({size})" span
      .active).2.allocs.modify prov.allocs.length _)[index]? = some entry at found
    rw [List.getElem?_modify] at found
    obtain ⟨old, old_found, rfl⟩ := Option.map_eq_some_iff.mp found
    by_cases fresh : prov.allocs.length = index
    · rw [if_pos fresh] at member ⊢
      rw [Provenance.newAlloc, Worklist.getElem?_snoc, if_pos fresh.symm] at old_found
      cases old_found
      simpa using member
    · rw [if_neg fresh] at member ⊢
      exact grown.exposed index old old_found tag member
  · have bound := grown.queued index member
    change index < ((prov.newAlloc size .hostC (some owner) s!"c.malloc({size})" span
      .active).2.allocs.modify prov.allocs.length _).length
    rw [List.length_modify]
    exact bound

theorem Pins.placeAlloc (key : String) (owner : Option RegionId) (span : Span) :
    (prov.placeAlloc key owner span).2.Pins := by
  unfold Provenance.placeAlloc
  cases prov.place key with
  | some found => exact pins
  | none =>
    have grown := pins.newAlloc 1 .place owner s!"place `{key}`" span .active
    have filled := grown.modify prov.allocs.length
      (fun alloc => { alloc with init := alloc.init.map fun _ => true }) fun _ => rfl
    refine filled.rebind rfl (fun other found bound => ?_) fun index member => .inl member
    by_cases same : other = key
    · subst same
      rw [place, AList.lookup_insert] at bound
      cases bound
      refine .inr ?_
      rw [treeTags_modify _ _ (fun alloc => { alloc with init := alloc.init.map fun _ => true })
        fun _ => rfl, treeTags_newAlloc]
      exact (if_pos rfl).symm ▸ List.mem_singleton_self _
    · rw [place, AList.lookup_insert_ne same] at bound
      exact .inl bound

theorem Pins.retag {parent : TagId} {kind : RetagKind} {isProtected : Bool} {label : String}
    {span : Span} {child : TagId}
    (minted : prov.retag alloc parent kind isProtected label span = some (child, next)) :
    next.Pins := by
  obtain ⟨entry, found, _, _, allocs_eq, dirty_eq, rest⟩ := retag_eq_some minted
  have places_eq : next.places = prov.places := by
    have tables := congrArg Provenance.places rest
    exact tables
  have entries : ∀ index : AllocId, next.allocs[index]? = (prov.allocs[index]?).map fun entry =>
      if alloc = index then { entry with tags := entry.tags ++ [prov.tags.length] } else entry := by
    intro index
    rw [allocs_eq, List.getElem?_modify]
    rfl
  have lengths : next.allocs.length = prov.allocs.length := by
    rw [allocs_eq, List.length_modify]
  refine ⟨fun key other bound => ?_, fun index other other_found tag member => ?_,
    fun index member => ?_⟩
  · rw [place, places_eq] at bound
    have old := pins.bound key other bound
    rw [treeTags, entries]
    cases there : prov.allocs[other.1]? with
    | none => simp [treeTags, there] at old
    | some known =>
      rw [treeTags_of_found there] at old
      rw [Option.map_some, Option.elim_some]
      split
      · exact List.mem_append_left _ old
      · exact old
  · rw [entries] at other_found
    obtain ⟨known, known_found, rfl⟩ := Option.map_eq_some_iff.mp other_found
    split at member
    · rename_i same
      rw [if_pos same]
      exact List.mem_append_left _ (pins.exposed index known known_found tag member)
    · rename_i differs
      rw [if_neg differs]
      exact pins.exposed index known known_found tag member
  · rw [dirty_eq] at member
    rw [lengths]
    obtain old | rfl := mem_pushDirty member
    · exact pins.queued index old
    · exact (List.getElem?_eq_some_iff.mp found).1

theorem Pins.prune (pruned : prov.prune = some next) : next.Pins := by
  obtain ⟨rest, length_eq, dirty_eq, trimmed⟩ := prune_spec pruned
  have places_eq : next.places = prov.places := by
    have tables := congrArg Provenance.places rest
    exact tables
  have trims : ∀ (index : AllocId) (entry : Alloc), next.allocs[index]? = some entry →
      ∃ old, prov.allocs[index]? = some old ∧ entry = { old with tags := entry.tags } ∧
        prov.Trims old entry.tags := by
    intro index entry found
    have bound : index < prov.allocs.length :=
      length_eq ▸ (List.getElem?_eq_some_iff.mp found).1
    obtain ⟨tags, next_found, trims⟩ := trimmed index _ (List.getElem?_eq_getElem bound)
    obtain rfl := Option.eq_some_unique found next_found
    exact ⟨_, List.getElem?_eq_getElem bound, rfl, trims⟩
  refine ⟨fun key found bound => ?_, fun index entry found tag member => ?_, fun index member => ?_⟩
  · rw [place, places_eq] at bound
    have old := pins.bound key found bound
    obtain ⟨entry, next_found⟩ : ∃ entry, next.allocs[found.1]? = some entry :=
      ⟨_, List.getElem?_eq_getElem (length_eq ▸ lt_of_mem_treeTags old)⟩
    obtain ⟨before, before_found, _, kept⟩ := trims found.1 entry next_found
    rw [treeTags_of_found before_found] at old
    rw [treeTags_of_found next_found]
    refine kept.anchored found.2 old (.inr (.inr (.inl ?_)))
    have entry_mem := AList.mem_lookup_iff.mp (Option.mem_def.mpr bound)
    exact List.mem_map.mpr ⟨_, entry_mem, rfl⟩
  · obtain ⟨before, before_found, entry_eq, kept⟩ := trims index entry found
    rw [entry_eq] at member
    have old := pins.exposed index before before_found tag member
    exact kept.anchored tag old (.inr (.inr (.inr member)))
  · rw [dirty_eq] at member
    simp at member

end

theorem roots_of_moves {through : TagId} {kind : AccessKind} {offs : List Nat}
    (moves : prov.Moves next index through kind offs) (pins : prov.Pins) : next.Pins := by
  have fields : next.places = prov.places ∧ next.dirty = prov.dirty :=
    ⟨by have same := congrArg Provenance.places moves.rest; exact same,
      by have same := congrArg Provenance.dirty moves.rest; exact same⟩
  exact pins.keep (by rw [moves.allocs]) fields.1 fields.2

theorem Pins.access (pins : prov.Pins) (wellFormed : prov.WellFormed) {ptr : RawPtr} {len : Nat}
    {kind : AccessKind} {span : Span} {answer : Except UbFinding Unit}
    (answered : prov.access ptr len kind span = some (answer, next)) : next.Pins := by
  cases effect_of_access wellFormed answered with
  | refused finding => exact pins
  | unread finding passes => exact roots_of_moves passes.moves pins
  | passed passes =>
    have moved := roots_of_moves passes.moves pins
    cases kind with
    | read => exact moved
    | write => exact moved.modify _ _ fun _ => rfl

theorem Pins.expose (pins : prov.Pins) {ptr : RawPtr} (names : prov.NamesPointer ptr) :
    (prov.expose ptr).Pins := by
  have same := sameForest_expose prov ptr
  revert same
  unfold Provenance.expose
  split
  · rename_i alloc tag target pointer
    intro same
    refine ⟨fun key found bound => ?_, fun index entry found other member => ?_,
      fun index member => ?_⟩
    · rw [same.treeTags_eq]
      exact pins.bound key found bound
    · rw [List.getElem?_modify] at found
      obtain ⟨old, old_found, rfl⟩ := Option.map_eq_some_iff.mp found
      have known := pins.exposed index old old_found
      by_cases here : alloc = index
      · simp only [if_pos here] at member ⊢
        split at member
        · rename_i shown
          rw [if_pos shown]
          exact known other member
        · rename_i hidden
          rw [if_neg hidden]
          rcases List.mem_append.mp member with before | last
          · exact known other before
          · obtain rfl := List.mem_singleton.mp last
            simp only [NamesPointer, target, pointer] at names
            have inTree := names (here ▸ (List.getElem?_eq_some_iff.mp old_found).1)
            rw [here, treeTags_of_found old_found] at inTree
            exact inTree
      · simp only [if_neg here] at member ⊢
        exact known other member
    · rw [List.length_modify]
      exact pins.queued index member
  · exact fun _ => pins

/-- Every operation that names tags of the trees keeps the pins. -/
theorem pins_perform (pins : prov.Pins) (wellFormed : prov.WellFormed) {op : ProvOp}
    (kept : prov.NamesKept op) {answer : ProvAnswer}
    (performed : prov.perform op = some (answer, next)) : next.Pins := by
  cases leaves_of_perform performed with
  | hostAlloc => exact pins.hostAlloc _ _ _
  | @hostFree ptr =>
    unfold Provenance.hostFree
    cases ptr.alloc with
    | none => exact pins
    | some index =>
      cases found : prov.allocs[index]? with
      | none =>
        simp only [found]
        exact pins
      | some entry =>
        simp only [found]
        split
        · exact pins
        · exact pins.keep (map_modify index fun _ => rfl) rfl rfl
  | bindPlace | rebindPlace => exact pins.rebindPlace kept
  | restorePlace => exact pins.restorePlace kept
  | dropFrame => exact pins.dropFrame _ _
  | prune ran => exact pins.prune ran
  | retag minted => exact pins.retag minted
  | @retagPlace key _ _ _ span _ _ minted => exact (pins.placeAlloc key none span).retag minted
  | @unprotect tag =>
    unfold Provenance.unprotect
    cases found : prov.tags[tag]? with
    | none => exact pins
    | some entry =>
      dsimp only
      split
      · exact pins
      · refine ⟨pins.bound, pins.exposed, fun index member => ?_⟩
        rcases mem_pushDirty member with old | rfl
        · exact pins.queued index old
        · have frame : prov.frames[tag]? = some entry.frame := by
            rw [frames_get, found, Option.map_some]
          obtain ⟨plot, plot_found, _⟩ := wellFormed.sized tag entry.frame frame
          have inGrove := (List.getElem?_eq_some_iff.mp plot_found).1
          rw [grove, List.length_map] at inGrove
          exact inGrove
  | expose => exact pins.expose kept
  | regionFreed | regionFrozen | assumed => exact pins.keep rfl rfl rfl
  | initRange =>
    unfold Provenance.initRange
    split
    · exact pins
    · exact pins.modify _ _ fun _ => rfl
  | access accessed | accessPlace accessed => exact pins.access wellFormed accessed
  | refuted | unplaced => exact pins

theorem pins_new : new.Pins := by
  refine ⟨fun key found bound => ?_, fun index entry found => ?_, fun index member => ?_⟩
  · simp [place, new] at bound
  · simp [new] at found
  · simp [new] at member

end Pins

end Provenance

end WolfInterp
