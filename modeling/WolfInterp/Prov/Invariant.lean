import WolfInterp.Prov.Access

/-!
# The forest under every operation

Each operation extends the tag table, trims trees, or leaves both shapes alone. A machine stays
well formed as long as every retag names a parent that was minted for the allocation it retags.
-/

namespace WolfInterp.Provenance

/-! ## Updates that keep the shapes -/

theorem bare_setTree (update : Perm → Perm) (targets : List TagId) (tags : List Tag) :
    (setTree update targets tags).map Tag.bare = tags.map Tag.bare := by
  induction targets generalizing tags with
  | nil => rfl
  | cons target targets induction =>
    refine (induction _).trans ?_
    exact map_modify target fun tag => by simp [Tag.bare, Function.comp_def]

/-- Changing a whole tree changes every permission of its tags. -/
theorem perms_setTree {update : Perm → Perm} (settles : ∀ perm, update (update perm) = update perm)
    (targets : List TagId) (tags : List Tag) (id : TagId) :
    ((setTree update targets tags)[id]?).map Tag.perms = (tags[id]?).map fun tag =>
        if id ∈ targets then tag.perms.map update else tag.perms := by
  induction targets generalizing tags with
  | nil => simp [setTree]
  | cons target targets induction =>
    refine (induction _).trans ?_
    rw [List.getElem?_modify]
    have twice : update ∘ update = update := funext settles
    cases tags[id]? with
    | none => rfl
    | some tag =>
      by_cases same : target = id
      · by_cases later : id ∈ targets <;> simp [same, later, twice]
      · simp [same, Ne.symm same]

theorem permAt_eq_perms (prov : Provenance) (id : TagId) (off : Nat) :
    prov.permAt id off = ((prov.tags[id]?).map Tag.perms).bind fun perms => perms[off]? := by
  rw [permAt]
  cases prov.tags[id]? <;> rfl

theorem permAt_setTree (prov : Provenance) {update : Perm → Perm}
    (settles : ∀ perm, update (update perm) = update perm) (targets : List TagId) (id : TagId)
    (off : Nat) :
    ({ prov with tags := setTree update targets prov.tags } : Provenance).permAt id off =
      (prov.permAt id off).map fun perm => if id ∈ targets then update perm else perm := by
  rw [permAt_eq_perms, permAt_eq_perms, perms_setTree settles]
  cases prov.tags[id]? with
  | none => rfl
  | some tag => by_cases member : id ∈ targets <;> simp [member]

theorem freezePerm_freezePerm (perm : Perm) : freezePerm (freezePerm perm) = freezePerm perm := by
  cases perm <;> rfl

/-! ## Operations that keep the shapes -/

/-- Two machines whose forests have one shape. -/
def SameForest (before after : Provenance) : Prop :=
  after.frames = before.frames ∧ after.grove = before.grove

section Keeping

variable (prov : Provenance)

theorem sameForest_hostFree (ptr : RawPtr) : prov.SameForest (prov.hostFree ptr).2 := by
  unfold hostFree
  cases ptr.alloc with
  | none => exact ⟨rfl, rfl⟩
  | some index =>
    cases found : prov.allocs[index]? with
    | none => simp only [found]; exact ⟨rfl, rfl⟩
    | some alloc =>
      simp only [found]
      split
      · exact ⟨rfl, rfl⟩
      · exact ⟨frames_of_arena (bare_setTree _ alloc.tags prov.tags),
          map_modify index fun _ => rfl⟩

theorem sameForest_unprotect (tag : TagId) : prov.SameForest (prov.unprotect tag) := by
  unfold unprotect
  cases prov.tags[tag]? with
  | none => exact ⟨rfl, rfl⟩
  | some entry =>
    dsimp only
    split
    · exact ⟨rfl, rfl⟩
    · refine ⟨List.ext_getElem? fun id => ?_, rfl⟩
      rw [frames_get, frames_get]
      change ((prov.tags.modify tag _)[id]?).map Tag.frame = _
      rw [List.getElem?_modify]
      cases prov.tags[id]? with
      | none => rfl
      | some other => by_cases same : tag = id <;> simp [same, Tag.frame]

theorem sameForest_expose (ptr : RawPtr) : prov.SameForest (prov.expose ptr) := by
  unfold expose
  split
  · refine ⟨rfl, map_modify _ fun alloc => ?_⟩
    split <;> rfl
  · exact ⟨rfl, rfl⟩

theorem sameForest_initRange (ptr : RawPtr) (len : Nat) :
    prov.SameForest (prov.initRange ptr len) := by
  unfold initRange
  split
  · exact ⟨rfl, rfl⟩
  · exact ⟨rfl, map_modify _ fun _ => rfl⟩

theorem sameForest_regionFreed (regions : List RegionId) :
    prov.SameForest (prov.regionFreed regions) :=
  ⟨frames_of_arena (bare_setTree _ _ prov.tags), rfl⟩

theorem sameForest_regionFrozen (regions : List RegionId) :
    prov.SameForest (prov.regionFrozen regions) :=
  ⟨frames_of_arena (bare_setTree _ _ prov.tags), rfl⟩

variable {prov}

theorem Moves.sameForest {next : Provenance} {index : AllocId} {through : TagId} {kind : AccessKind}
    {offs : List Nat} (moves : prov.Moves next index through kind offs) : prov.SameForest next :=
  ⟨frames_of_arena moves.arena, by rw [grove, grove, moves.allocs]⟩

theorem sameForest_initialized (index : AllocId) (lo hi : Nat) (kind : AccessKind) :
    prov.SameForest (prov.initialized index lo hi kind) := by
  cases kind with
  | read => exact ⟨rfl, rfl⟩
  | write => exact ⟨rfl, map_modify index fun _ => rfl⟩

theorem SameForest.trans {middle last : Provenance} (first : prov.SameForest middle)
    (second : middle.SameForest last) : prov.SameForest last :=
  ⟨second.1.trans first.1, second.2.trans first.2⟩

end Keeping

theorem SameForest.parent_eq {before after : Provenance} (same : before.SameForest after) :
    after.parent = before.parent := by
  funext id
  rw [parent_eq_frames, parent_eq_frames, same.1]

theorem SameForest.treeTags_eq {before after : Provenance} (same : before.SameForest after) :
    after.treeTags = before.treeTags := by
  funext id
  rw [treeTags_eq_grove, treeTags_eq_grove, same.2]

/-! ## Growing and trimming -/

section Growing

variable {before after : Provenance} {fresh : Tag}

section

variable (tags_eq : after.tags = before.tags ++ [fresh]) (id : TagId)
include tags_eq id

/-- A tag table with one more tag. -/
theorem tags_snoc :
    after.tags[id]? = if id = before.tags.length then some fresh else before.tags[id]? := by
  rw [tags_eq, Worklist.getElem?_snoc]

theorem parent_snoc :
    after.parent id = if id = before.tags.length then fresh.parent else before.parent id := by
  rw [parent, tags_snoc tags_eq, parent]
  split <;> rfl

theorem permAt_snoc (off : Nat) : after.permAt id off =
      if id = before.tags.length then fresh.perms[off]? else before.permAt id off := by
  rw [permAt, tags_snoc tags_eq, permAt]
  split <;> rfl

end

/-- A new allocation with its root tag. -/
theorem WellFormed.plant (holds : before.WellFormed) (size : Nat)
    (frames_eq : after.frames = before.frames ++ [⟨before.allocs.length, none, size⟩])
    (grove_eq : after.grove = before.grove ++ [⟨size, before.tags.length, [before.tags.length]⟩]) :
    after.WellFormed := by
  have frame_get : ∀ id : TagId, after.frames[id]? =
      if id = before.tags.length then some ⟨before.allocs.length, none, size⟩
      else before.frames[id]? := by
    intro id
    rw [frames_eq, Worklist.getElem?_snoc, frames, List.length_map]
  have plot_get : ∀ index : AllocId, after.grove[index]? =
      if index = before.allocs.length then some ⟨size, before.tags.length, [before.tags.length]⟩
      else before.grove[index]? := by
    intro index
    rw [grove_eq, Worklist.getElem?_snoc, grove, List.length_map]
  have parent_get : ∀ id, after.parent id =
      if id = before.tags.length then none else before.parent id := by
    intro id
    rw [parent_eq_frames, frame_get, parent_eq_frames]
    split <;> rfl
  have alloc_get : ∀ id, after.allocOf id =
      if id = before.tags.length then some before.allocs.length else before.allocOf id := by
    intro id
    rw [allocOf_eq_frames, frame_get, allocOf_eq_frames]
    split <;> rfl
  have newPlot : before.grove[before.allocs.length]? = none := by
    rw [grove_get, List.getElem?_eq_none (Nat.le_refl _), Option.map_none]
  constructor
  · intro id owner edge
    rw [parent_get] at edge
    split at edge
    · simp at edge
    · rename_i old
      obtain ⟨below, same⟩ := holds.parented id owner edge
      have ownerOld : owner ≠ before.tags.length :=
        Nat.ne_of_lt (Nat.lt_trans below (lt_of_parent edge))
      rw [alloc_get, alloc_get, if_neg old, if_neg ownerOld]
      exact ⟨below, same⟩
  · intro id frame found
    rw [frame_get] at found
    split at found
    · cases found
      rw [plot_get, if_pos rfl]
      exact ⟨_, rfl, rfl⟩
    · obtain ⟨plot, plot_found, size_eq⟩ := holds.sized id frame found
      refine ⟨plot, ?_, size_eq⟩
      rw [plot_get, if_neg]
      · exact plot_found
      · rintro same
        rw [same, newPlot] at plot_found
        simp at plot_found
  · intro index plot found
    rw [plot_get] at found
    split at found
    · cases found
      rw [parent_get, if_pos rfl]
      exact ⟨List.mem_singleton_self _, rfl⟩
    · obtain ⟨rooted, isRoot⟩ := holds.planted index plot found
      refine ⟨rooted, ?_⟩
      rw [parent_get]
      split
      · rfl
      · exact isRoot
  · intro index tag member
    rw [treeTags_eq_grove, plot_get] at member
    rw [alloc_get]
    split at member
    · rename_i fresh
      obtain rfl := List.mem_singleton.mp member
      rw [if_pos rfl, fresh]
    · rw [← treeTags_eq_grove] at member
      have minted := holds.members index tag member
      rw [if_neg (Nat.ne_of_lt (lt_of_allocOf minted))]
      exact minted

/-- A new child tag. -/
theorem WellFormed.graft (holds : before.WellFormed) {index : AllocId} {owner : TagId}
    {entry : Alloc} (found : before.allocs[index]? = some entry)
    (minted : before.allocOf owner = some index)
    (frames_eq : after.frames = before.frames ++ [⟨index, some owner, entry.size⟩])
    (grove_eq : after.grove = before.grove.modify index fun plot =>
      { plot with tags := plot.tags ++ [before.tags.length] }) : after.WellFormed := by
  have frame_get : ∀ id : TagId, after.frames[id]? =
      if id = before.tags.length then some ⟨index, some owner, entry.size⟩
      else before.frames[id]? := by
    intro id
    rw [frames_eq, Worklist.getElem?_snoc, frames, List.length_map]
  have plot_get : ∀ target : AllocId, after.grove[target]? =
      (before.grove[target]?).map fun plot =>
        if index = target then { plot with tags := plot.tags ++ [before.tags.length] }
        else plot := by
    intro target
    rw [grove_eq, List.getElem?_modify]
    rfl
  have parent_get : ∀ id, after.parent id =
      if id = before.tags.length then some owner else before.parent id := by
    intro id
    rw [parent_eq_frames, frame_get, parent_eq_frames]
    split <;> rfl
  have alloc_get : ∀ id, after.allocOf id =
      if id = before.tags.length then some index else before.allocOf id := by
    intro id
    rw [allocOf_eq_frames, frame_get, allocOf_eq_frames]
    split <;> rfl
  have owner_lt : owner < before.tags.length := lt_of_allocOf minted
  constructor
  · intro id above edge
    rw [parent_get] at edge
    rw [alloc_get, alloc_get]
    split at edge
    · rename_i fresh
      cases edge
      rw [if_pos fresh, if_neg (Nat.ne_of_lt owner_lt), fresh]
      exact ⟨owner_lt, minted⟩
    · rename_i old
      obtain ⟨below, same⟩ := holds.parented id above edge
      have aboveOld : above ≠ before.tags.length :=
        Nat.ne_of_lt (Nat.lt_trans below (lt_of_parent edge))
      rw [if_neg old, if_neg aboveOld]
      exact ⟨below, same⟩
  · intro id frame frame_found
    rw [frame_get] at frame_found
    rw [plot_get]
    split at frame_found
    · cases frame_found
      rw [grove_get, found, Option.map_some, Option.map_some, if_pos rfl]
      exact ⟨_, rfl, rfl⟩
    · obtain ⟨plot, plot_found, size_eq⟩ := holds.sized id frame frame_found
      rw [plot_found, Option.map_some]
      refine ⟨_, rfl, ?_⟩
      split <;> exact size_eq
  · intro target plot plot_found
    rw [plot_get, Option.map_eq_some_iff] at plot_found
    obtain ⟨old, old_found, rfl⟩ := plot_found
    obtain ⟨rooted, isRoot⟩ := holds.planted target old old_found
    have root_eq : ∀ plot : Plot, (if index = target then
        { plot with tags := plot.tags ++ [before.tags.length] } else plot).root = plot.root := by
      intro plot
      split <;> rfl
    have minted_root : old.root < before.tags.length := by
      have inTree : old.root ∈ before.treeTags target := by
        rw [treeTags_eq_grove, old_found]
        exact rooted
      exact lt_of_allocOf (holds.members target old.root inTree)
    rw [root_eq, parent_get, if_neg (Nat.ne_of_lt minted_root)]
    refine ⟨?_, isRoot⟩
    split
    · exact List.mem_append_left _ rooted
    · exact rooted
  · intro target tag member
    rw [treeTags_eq_grove, plot_get] at member
    rw [alloc_get]
    cases plot_eq : before.grove[target]? with
    | none => simp [plot_eq] at member
    | some plot =>
      rw [plot_eq, Option.map_some, Option.elim_some] at member
      have oldMember : tag ∈ plot.tags → before.allocOf tag = some target := by
        intro inTree
        refine holds.members target tag ?_
        rw [treeTags_eq_grove, plot_eq]
        exact inTree
      by_cases fresh : tag = before.tags.length
      · rw [if_pos fresh]
        split at member
        · rename_i same
          rw [same]
        · exact absurd (lt_of_allocOf (oldMember member)) (by simp [fresh])
      · rw [if_neg fresh]
        split at member
        · rcases List.mem_append.mp member with inTree | last
          · exact oldMember inTree
          · exact absurd (List.mem_singleton.mp last) fresh
        · exact oldMember member

/-- Trees that lose tags but keep their roots. -/
theorem WellFormed.trim (holds : before.WellFormed) (frames_eq : after.frames = before.frames)
    (trimmed : ∀ (index : AllocId) (plot : Plot), after.grove[index]? = some plot →
      ∃ old, before.grove[index]? = some old ∧ plot.size = old.size ∧ plot.root = old.root ∧
        old.root ∈ plot.tags ∧ plot.tags ⊆ old.tags)
    (kept : after.grove.length = before.grove.length) : after.WellFormed := by
  have parents : after.parent = before.parent := by
    funext id
    rw [parent_eq_frames, parent_eq_frames, frames_eq]
  have allocs : after.allocOf = before.allocOf := by
    funext id
    rw [allocOf_eq_frames, allocOf_eq_frames, frames_eq]
  constructor
  · rw [parents, allocs]
    exact holds.parented
  · intro id frame found
    rw [frames_eq] at found
    obtain ⟨plot, plot_found, size_eq⟩ := holds.sized id frame found
    have bound : frame.alloc < after.grove.length :=
      kept ▸ (List.getElem?_eq_some_iff.mp plot_found).1
    obtain ⟨old, old_found, old_size, _⟩ :=
      trimmed frame.alloc after.grove[frame.alloc] (List.getElem?_eq_getElem bound)
    obtain rfl : old = plot := Option.eq_some_unique old_found plot_found
    exact ⟨_, List.getElem?_eq_getElem bound, size_eq.trans old_size.symm⟩
  · intro index plot found
    obtain ⟨old, old_found, _, root_eq, rooted, _⟩ := trimmed index plot found
    rw [root_eq, parents]
    exact ⟨rooted, (holds.planted index old old_found).2⟩
  · intro index tag member
    rw [treeTags_eq_grove] at member
    rw [allocs]
    cases found : after.grove[index]? with
    | none => simp [found] at member
    | some plot =>
      obtain ⟨old, old_found, _, _, _, subset⟩ := trimmed index plot found
      refine holds.members index tag ?_
      rw [found, Option.elim_some] at member
      rw [treeTags_eq_grove, old_found]
      exact subset member

end Growing

/-! ## Pruning -/

/-- What pruning may leave of a tree: it keeps the root and every tag that is protected, bound or
exposed, and with a tag its parent. -/
structure Trims (prov : Provenance) (alloc : Alloc) (tags : List TagId) : Prop where
  filtered : ∃ keep : TagId → Bool, tags = alloc.tags.filter keep
  anchored : ∀ tag ∈ alloc.tags, tag = alloc.root ∨ prov.isProtected tag = true ∨
    tag ∈ prov.bound ∨ tag ∈ alloc.exposed → tag ∈ tags
  upward : ∀ tag ∈ tags, ∀ owner ∈ alloc.tags, prov.parent tag = some owner → owner ∈ tags

section Pruning

variable {prov : Provenance}

theorem Trims.refl (prov : Provenance) (alloc : Alloc) : prov.Trims alloc alloc.tags :=
  ⟨⟨fun _ => true, (List.filter_true alloc.tags).symm⟩, fun _ member _ => member,
    fun _ _ _ member _ => member⟩

theorem Trims.trans {alloc : Alloc} {middle last : List TagId} (first : prov.Trims alloc middle)
    (second : prov.Trims { alloc with tags := middle } last) : prov.Trims alloc last := by
  obtain ⟨keepFirst, middle_eq⟩ := first.filtered
  obtain ⟨keepSecond, last_eq⟩ := second.filtered
  refine ⟨⟨fun tag => keepSecond tag && keepFirst tag, ?_⟩, fun tag member anchor => ?_,
    fun tag member owner owner_mem edge => ?_⟩
  · rw [last_eq, middle_eq, List.filter_filter]
  · exact second.anchored tag (first.anchored tag member anchor) anchor
  · have inMiddle : tag ∈ middle := by
      rw [last_eq] at member
      exact (List.mem_filter.mp member).1
    exact second.upward tag member owner (first.upward tag inMiddle owner owner_mem edge) edge

/-- One round of pruning. -/
theorem trims_filter (alloc : Alloc) :
    prov.Trims alloc (alloc.tags.filter (prov.mustKeep alloc alloc.tags)) := by
  refine ⟨⟨_, rfl⟩, fun tag member anchor => ?_, fun tag member owner owner_mem edge => ?_⟩
  · refine List.mem_filter.mpr ⟨member, ?_⟩
    simp only [mustKeep, Bool.or_eq_true, decide_eq_true_eq, List.contains_iff_mem]
    rcases anchor with isRoot | guarded | bound | exposed
    · exact .inl (.inl (.inl (.inl isRoot)))
    · exact .inl (.inl (.inl (.inr guarded)))
    · exact .inl (.inr bound)
    · exact .inr exposed
  · refine List.mem_filter.mpr ⟨owner_mem, ?_⟩
    simp only [mustKeep, Bool.or_eq_true, decide_eq_true_eq, List.contains_iff_mem]
    exact .inl (.inl (.inr (List.mem_filterMap.mpr ⟨tag, (List.mem_filter.mp member).1, edge⟩)))

theorem trims_pruneTree (alloc : Alloc) (fuel : Nat) (tags : List TagId) :
    prov.Trims { alloc with tags } (prov.pruneTree alloc fuel tags) := by
  induction fuel generalizing tags with
  | zero => exact Trims.refl prov { alloc with tags }
  | succ fuel induction =>
    rw [pruneTree]
    split
    · exact Trims.refl prov { alloc with tags }
    · have first : prov.Trims { alloc with tags } (tags.filter (prov.mustKeep alloc tags)) :=
        trims_filter { alloc with tags }
      exact first.trans (induction _)

/-- Pruning trims every tree and changes nothing else of an allocation. -/
theorem pruneAll_spec {indices : List AllocId} {allocs pruned : List Alloc}
    (ran : prov.pruneAll indices allocs = some pruned) :
    pruned.length = allocs.length ∧ ∀ (index : AllocId) (alloc : Alloc),
      allocs[index]? = some alloc →
        ∃ tags, pruned[index]? = some { alloc with tags } ∧ prov.Trims alloc tags := by
  induction indices generalizing allocs with
  | nil =>
    cases ran
    exact ⟨rfl, fun index alloc found => ⟨alloc.tags, found, Trims.refl prov alloc⟩⟩
  | cons first rest induction =>
    rw [pruneAll] at ran
    cases entry : allocs[first]? with
    | none => simp [entry] at ran
    | some target =>
      simp only [entry] at ran
      obtain ⟨length_eq, trimmed⟩ := induction ran
      refine ⟨by rw [length_eq, List.length_set], fun index alloc found => ?_⟩
      by_cases same : first = index
      · obtain rfl : target = alloc := by
          rw [same] at entry
          exact Option.eq_some_unique entry found
        have here := @trims_pruneTree prov target (target.tags.length + 1) target.tags
        obtain ⟨tags, pruned_found, later⟩ := trimmed index
          { target with tags := prov.pruneTree target (target.tags.length + 1) target.tags }
          (by simp [same, (List.getElem?_eq_some_iff.mp found).1])
        exact ⟨tags, pruned_found, here.trans later⟩
      · exact trimmed index alloc (by rw [List.getElem?_set_ne same]; exact found)

theorem pruneAll_isSome {indices : List AllocId} {allocs : List Alloc}
    (inTable : ∀ index ∈ indices, index < allocs.length) :
    (prov.pruneAll indices allocs).isSome := by
  induction indices generalizing allocs with
  | nil => rfl
  | cons first rest induction =>
    have bound : first < allocs.length := inTable first List.mem_cons_self
    rw [pruneAll, List.getElem?_eq_getElem bound]
    refine induction fun index member => ?_
    rw [List.length_set]
    exact inTable index (List.mem_cons_of_mem first member)

/-- A prune trims trees and empties the queue. -/
theorem prune_spec {next : Provenance} (pruned : prov.prune = some next) :
    { next with allocs := [], dirty := [] } = { prov with allocs := [], dirty := [] } ∧
      next.allocs.length = prov.allocs.length ∧ next.dirty = [] ∧
      ∀ (index : AllocId) (alloc : Alloc), prov.allocs[index]? = some alloc →
        ∃ tags, next.allocs[index]? = some { alloc with tags } ∧ prov.Trims alloc tags := by
  obtain ⟨allocs, ran, rfl⟩ := Option.map_eq_some_iff.mp pruned
  obtain ⟨length_eq, trimmed⟩ := pruneAll_spec ran
  exact ⟨rfl, length_eq, rfl, trimmed⟩

theorem prune_isSome (queued : ∀ index ∈ prov.dirty, index < prov.allocs.length) :
    prov.prune.isSome := by
  rw [prune, Option.isSome_map]
  refine pruneAll_isSome fun index member => queued index ?_
  rw [List.mem_dedup] at member
  exact (List.perm_insertionSort _ _).mem_iff.mp member

theorem WellFormed.prune {next : Provenance} (holds : prov.WellFormed)
    (pruned : prov.prune = some next) : next.WellFormed := by
  obtain ⟨same, length_eq, _, trimmed⟩ := prune_spec pruned
  have tags_eq : next.tags = prov.tags := by
    have tables := congrArg Provenance.tags same
    exact tables
  refine holds.trim (by rw [frames, frames, tags_eq]) (fun index plot found => ?_)
    (by rw [grove, grove, List.length_map, List.length_map, length_eq])
  have bound : index < prov.allocs.length := by
    have inTable := (List.getElem?_eq_some_iff.mp found).1
    rw [grove, List.length_map, length_eq] at inTable
    exact inTable
  obtain ⟨tags, next_found, trims⟩ := trimmed index _ (List.getElem?_eq_getElem bound)
  rw [grove_get, next_found, Option.map_some] at found
  cases found
  have old_found : prov.grove[index]? = some (prov.allocs[index]).plot := by
    rw [grove_get, List.getElem?_eq_getElem bound, Option.map_some]
  obtain ⟨keep, tags_eq⟩ := trims.filtered
  refine ⟨_, old_found, rfl, rfl, ?_, ?_⟩
  · exact trims.anchored _ (holds.planted index _ old_found).1 (.inl rfl)
  · intro tag member
    change tag ∈ tags at member
    rw [tags_eq] at member
    exact (List.mem_filter.mp member).1

end Pruning

/-! ## Every operation -/

/-- A retag names a parent that was minted for the allocation it retags. -/
def RetagReal (prov : Provenance) : ProvOp → Prop
  | .retag alloc parent _ _ _ _ => prov.allocOf parent = some alloc
  | .retagPlace key _ _ _ => ∀ found ∈ prov.place key, prov.allocOf found.2 = some found.1
  | _ => True

/-- What each operation leaves. -/
inductive Leaves (prov : Provenance) : ProvOp → Provenance → Prop where
  | hostAlloc {size owner span} :
    Leaves prov (.hostAlloc size owner span) (prov.hostAlloc size owner span).2
  | hostFree {ptr} : Leaves prov (.hostFree ptr) (prov.hostFree ptr).2
  | bindPlace {key alloc tag} :
    Leaves prov (.bindPlace key alloc tag) (prov.bindPlace key alloc tag)
  | rebindPlace {key alloc tag} :
    Leaves prov (.rebindPlace key alloc tag) (prov.bindPlace key alloc tag)
  | restorePlace {key previous} :
    Leaves prov (.restorePlace key previous) (prov.restorePlace key previous)
  | dropFrame {task frame} : Leaves prov (.dropFrame task frame) (prov.dropFrame task frame)
  | prune {next} (ran : prov.prune = some next) : Leaves prov .prune next
  | retag {alloc parent kind isProtected label span child next}
      (minted : prov.retag alloc parent kind isProtected label span = some (child, next)) :
    Leaves prov (.retag alloc parent kind isProtected label span) next
  | retagPlace {key kind isProtected label span child next}
      (minted : (prov.placeAlloc key none span).2.retag (prov.placeAlloc key none span).1.1
        (prov.placeAlloc key none span).1.2 kind isProtected label span = some (child, next)) :
    Leaves prov (.retagPlace key kind isProtected span) next
  | unprotect {tag} : Leaves prov (.unprotect tag) (prov.unprotect tag)
  | expose {ptr} : Leaves prov (.expose ptr) (prov.expose ptr)
  | regionFreed {regions} : Leaves prov (.regionFreed regions) (prov.regionFreed regions)
  | regionFrozen {regions} : Leaves prov (.regionFrozen regions) (prov.regionFrozen regions)
  | initRange {ptr len} : Leaves prov (.initRange ptr len) (prov.initRange ptr len)
  | refuted {ptrs span} : Leaves prov (.assumeNoalias ptrs span) prov
  | assumed {ptrs span ranges} : Leaves prov (.assumeNoalias ptrs span)
      { prov with assumptions := prov.assumptions ++ [{ ranges, span }] }
  | access {ptr len kind span answer next}
      (accessed : prov.access ptr len kind span = some (answer, next)) :
    Leaves prov (.access ptr len kind span) next
  | unplaced {key kind span} : Leaves prov (.accessPlace key kind span) prov
  | accessPlace {key ptr len kind span answer next}
      (accessed : prov.access ptr len kind span = some (answer, next)) :
    Leaves prov (.accessPlace key kind span) next

theorem leaves_of_perform {prov next : Provenance} {op : ProvOp} {answer : ProvAnswer}
    (performed : prov.perform op = some (answer, next)) : prov.Leaves op next := by
  cases op with
  | prune =>
    obtain ⟨pruned, ran, same⟩ := Option.map_eq_some_iff.mp performed
    exact (Prod.mk.inj same).2 ▸ .prune ran
  | retag =>
    obtain ⟨_, minted, same⟩ := Option.map_eq_some_iff.mp performed
    exact (Prod.mk.inj same).2 ▸ .retag minted
  | retagPlace =>
    obtain ⟨_, retagged, same⟩ := Option.map_eq_some_iff.mp performed
    obtain ⟨_, minted, rfl⟩ := Option.map_eq_some_iff.mp retagged
    exact (Prod.mk.inj same).2 ▸ .retagPlace minted
  | assumeNoalias =>
    obtain ⟨_, assumed, same⟩ := Option.map_eq_some_iff.mp performed
    obtain rfl := (Prod.mk.inj same).2
    unfold assumeNoalias at assumed
    dsimp only at assumed
    split at assumed
    · obtain ⟨_, _, rfl⟩ := Option.map_eq_some_iff.mp assumed
      exact .refuted
    · exact Option.some.inj assumed ▸ .assumed
  | access =>
    obtain ⟨_, accessed, same⟩ := Option.map_eq_some_iff.mp performed
    exact (Prod.mk.inj same).2 ▸ .access accessed
  | accessPlace =>
    obtain ⟨_, accessed, same⟩ := Option.map_eq_some_iff.mp performed
    obtain rfl := (Prod.mk.inj same).2
    unfold accessPlace at accessed
    split at accessed
    · exact Option.some.inj accessed ▸ .unplaced
    · exact .accessPlace accessed
  | _ =>
    obtain rfl := (Prod.mk.inj (Option.some.inj performed)).2
    constructor

section Operations

variable {prov : Provenance} {next : Provenance} {span : Span}

theorem WellFormed.keep (holds : prov.WellFormed) (same : prov.SameForest next) : next.WellFormed :=
  holds.congr same.1 same.2

theorem sameForest_markDisplaced (prov : Provenance) (was : Option (AllocId × TagId)) :
    prov.SameForest (prov.markDisplaced was) := by
  cases was <;> exact ⟨rfl, rfl⟩

theorem WellFormed.newAlloc (holds : prov.WellFormed) (size : Nat) (origin : Origin)
    (owner : Option RegionId) (label : String) (span : Span) (perm : Perm) :
    (prov.newAlloc size origin owner label span perm).2.WellFormed := by
  refine holds.plant size ?_ ?_
  · simp [Provenance.newAlloc, frames, Tag.frame]
  · simp [Provenance.newAlloc, grove, Alloc.plot]

theorem WellFormed.hostAlloc (holds : prov.WellFormed) (size : Nat) (owner : RegionId)
    (span : Span) : (prov.hostAlloc size owner span).2.WellFormed := by
  have grown := holds.newAlloc size .hostC (some owner) s!"c.malloc({size})" span .active
  refine grown.keep ⟨rfl, ?_⟩
  exact map_modify prov.allocs.length fun _ => rfl

theorem WellFormed.placeAlloc (holds : prov.WellFormed) (key : String) (owner : Option RegionId)
    (span : Span) : (prov.placeAlloc key owner span).2.WellFormed := by
  unfold Provenance.placeAlloc
  cases prov.place key with
  | some found => exact holds
  | none =>
    have grown := holds.newAlloc 1 .place owner s!"place `{key}`" span .active
    refine grown.keep ⟨rfl, ?_⟩
    exact map_modify prov.allocs.length fun _ => rfl

/-- The place a retag goes through is bound to a tag minted for its allocation. -/
theorem placeAlloc_minted {key : String} {owner : Option RegionId}
    (real : ∀ found ∈ prov.place key, prov.allocOf found.2 = some found.1) :
    (prov.placeAlloc key owner span).2.allocOf (prov.placeAlloc key owner span).1.2 =
      some (prov.placeAlloc key owner span).1.1 := by
  unfold placeAlloc
  cases bound : prov.place key with
  | some found => exact real found bound
  | none => simp [newAlloc, allocOf]

theorem retag_eq_some {alloc : AllocId} {parent : TagId} {kind : RetagKind} {isProtected : Bool}
    {label : String} {child : TagId}
    (minted : prov.retag alloc parent kind isProtected label span = some (child, next)) :
    ∃ entry, prov.allocs[alloc]? = some entry ∧ child = prov.tags.length ∧
      next.tags = prov.tags ++
        [{ id := prov.tags.length, alloc, parent := some parent,
           perms := List.replicate entry.size kind.perm, isProtected, label, span }] ∧
      next.allocs = prov.allocs.modify alloc (fun entry =>
        { entry with tags := entry.tags ++ [prov.tags.length] }) ∧
      next.dirty = pushDirty prov.dirty alloc ∧
      { next with tags := [], allocs := [], dirty := [] } =
        { prov with tags := [], allocs := [], dirty := [] } := by
  obtain ⟨entry, found, same⟩ := Option.map_eq_some_iff.mp minted
  cases same
  exact ⟨entry, found, rfl, rfl, rfl, rfl, rfl⟩

theorem WellFormed.retag (holds : prov.WellFormed) {alloc : AllocId} {parent : TagId}
    {kind : RetagKind} {isProtected : Bool} {label : String} {child : TagId}
    (real : prov.allocOf parent = some alloc)
    (minted : prov.retag alloc parent kind isProtected label span = some (child, next)) :
    next.WellFormed := by
  obtain ⟨entry, found, _, tags_eq, allocs_eq, _, _⟩ := retag_eq_some minted
  refine holds.graft found real ?_ ?_
  · rw [frames, tags_eq]
    simp [frames, Tag.frame]
  · refine List.ext_getElem? fun index => ?_
    rw [grove_get, allocs_eq, List.getElem?_modify, List.getElem?_modify, grove_get]
    cases prov.allocs[index]? with
    | none => rfl
    | some other => by_cases same : alloc = index <;> simp [same, Alloc.plot]

theorem WellFormed.access (holds : prov.WellFormed) {ptr : RawPtr} {len : Nat} {kind : AccessKind}
    {answer : Except UbFinding Unit}
    (answered : prov.access ptr len kind span = some (answer, next)) : next.WellFormed := by
  cases effect_of_access holds answered with
  | refused finding => exact holds
  | unread finding passes => exact passes.moves.wellFormed holds
  | passed passes =>
    exact (passes.moves.wellFormed holds).keep (sameForest_initialized _ _ _ kind)

/-- Every operation keeps the forest well formed as long as a retag names a real parent. -/
theorem wellFormed_perform (holds : prov.WellFormed) {op : ProvOp} (real : prov.RetagReal op)
    {answer : ProvAnswer} (performed : prov.perform op = some (answer, next)) :
    next.WellFormed := by
  cases leaves_of_perform performed with
  | hostAlloc => exact holds.hostAlloc _ _ _
  | hostFree => exact holds.keep (sameForest_hostFree prov _)
  | bindPlace | rebindPlace | restorePlace => exact holds.keep (sameForest_markDisplaced _ _)
  | dropFrame | assumed => exact holds.keep ⟨rfl, rfl⟩
  | prune ran => exact holds.prune ran
  | retag minted => exact holds.retag real minted
  | @retagPlace key _ _ _ span _ _ minted =>
    exact (holds.placeAlloc key none span).retag (placeAlloc_minted real) minted
  | unprotect => exact holds.keep (sameForest_unprotect prov _)
  | expose => exact holds.keep (sameForest_expose prov _)
  | regionFreed => exact holds.keep (sameForest_regionFreed prov _)
  | regionFrozen => exact holds.keep (sameForest_regionFrozen prov _)
  | initRange => exact holds.keep (sameForest_initRange prov _ _)
  | access accessed | accessPlace accessed => exact holds.access accessed
  | refuted | unplaced => exact holds

theorem wellFormed_new : new.WellFormed := by
  constructor
  · intro id owner edge
    simp [parent, new] at edge
  · intro id frame found
    simp [frames, new] at found
  · intro index plot found
    simp [grove, new] at found
  · intro index tag member
    simp [treeTags, new] at member

end Operations

end WolfInterp.Provenance
