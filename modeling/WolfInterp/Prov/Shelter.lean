import WolfInterp.Prov.ActiveChain

/-!
# What a protector shelters

On a live allocation with a living owner a protected tag is never disabled: a foreign write that
would disable it is refused as a whole, and the operations that disable a tree take its allocation
out of play. Exposed tags stay in the tag table, so a wildcard access never panics.
-/

namespace WolfInterp

namespace Provenance

/-- An allocation that is neither freed nor owned by a freed region. -/
def Alive (prov : Provenance) (index : AllocId) : Prop :=
  ∃ entry, prov.allocs[index]? = some entry ∧ entry.live = true ∧
    ∀ owner, entry.owner = some owner → owner ∉ prov.regionDead

/-- A protected tag of a live tree is disabled. -/
def Stricken (prov : Provenance) (index : AllocId) (node : TagId) (off : Nat) : Prop :=
  prov.Alive index ∧ node ∈ prov.treeTags index ∧ prov.isProtected node = true ∧
    prov.permAt node off = some .disabled

/-- Every tag an operation retags or exposes was minted before. -/
def NamesMinted (prov : Provenance) : ProvOp → Prop
  | .retag alloc parent _ _ _ _ => prov.allocOf parent = some alloc
  | .retagPlace key _ _ _ => ∀ found ∈ prov.place key, prov.allocOf found.2 = some found.1
  | .expose ptr =>
    match ptr.prov with
    | .tag tag => tag < prov.tags.length
    | .wildcard => True
  | _ => True

instance (prov : Provenance) : ∀ op, Decidable (prov.NamesMinted op)
  | .retag alloc parent _ _ _ _ => inferInstanceAs (Decidable (prov.allocOf parent = some alloc))
  | .retagPlace key _ _ _ =>
    inferInstanceAs (Decidable (∀ found ∈ prov.place key, prov.allocOf found.2 = some found.1))
  | .expose ⟨_, _, .tag tag, _⟩ => inferInstanceAs (Decidable (tag < prov.tags.length))
  | .expose ⟨_, _, .wildcard, _⟩ => isTrue trivial
  | .hostAlloc .. | .hostFree _ | .bindPlace .. | .rebindPlace .. | .restorePlace ..
  | .dropFrame .. | .prune | .unprotect _ | .regionFreed _ | .regionFrozen _
  | .initRange .. | .assumeNoalias .. | .access .. | .accessPlace .. => isTrue trivial

/-- No protected tag of a live tree is disabled, and exposed tags are in the tag table. -/
structure Sheltered (prov : Provenance) : Prop where
  wellFormed : prov.WellFormed
  exposed : ∀ (index : AllocId) (entry : Alloc), prov.allocs[index]? = some entry →
    ∀ tag ∈ entry.exposed, tag < prov.tags.length
  unstricken : ∀ index node off, ¬ prov.Stricken index node off

/-- What each allocation after an operation takes over from the one before: its exposed tags are
old or in the table, and its tags are fresh or come from an allocation no less alive. -/
def Inherits (before after : List Alloc) (fresh bound : TagId) : Prop :=
  ∀ (index : AllocId) (entry : Alloc), after[index]? = some entry →
    (∀ tag ∈ entry.exposed, tag < bound ∨
      ∃ was, before[index]? = some was ∧ tag ∈ was.exposed) ∧
    ∀ tag ∈ entry.tags, fresh ≤ tag ∨
      ∃ was, before[index]? = some was ∧ tag ∈ was.tags ∧ (entry.live = true → was.live = true) ∧
        entry.owner = was.owner

section Inherit

variable {allocs : List Alloc} {fresh bound : TagId}

theorem inherits_refl (allocs : List Alloc) (fresh bound : TagId) :
    Inherits allocs allocs fresh bound := by
  intro index entry found
  constructor
  · intro tag member
    exact .inr ⟨entry, found, member⟩
  · intro tag member
    exact .inr ⟨entry, found, member, fun live => live, rfl⟩

/-- Changing one allocation, when the change itself inherits. -/
theorem inherits_modify (target : AllocId) {update : Alloc → Alloc}
    (exposed : ∀ was, ∀ tag ∈ (update was).exposed, tag < bound ∨ tag ∈ was.exposed)
    (tags : ∀ was, ∀ tag ∈ (update was).tags, fresh ≤ tag ∨ tag ∈ was.tags)
    (live : ∀ was, (update was).live = true → was.live = true)
    (owner : ∀ was, (update was).owner = was.owner) :
    Inherits allocs (allocs.modify target update) fresh bound := by
  intro index entry found
  rw [List.getElem?_modify] at found
  cases there : allocs[index]? with
  | none => simp [there] at found
  | some was =>
    rw [there] at found
    by_cases same : target = index
    · obtain rfl : update was = entry := by simpa [same] using found
      constructor
      · intro tag member
        rcases exposed was tag member with bounded | old
        · exact .inl bounded
        · exact .inr ⟨was, rfl, old⟩
      · intro tag member
        rcases tags was tag member with isFresh | old
        · exact .inl isFresh
        · exact .inr ⟨was, rfl, old, live was, owner was⟩
    · obtain rfl : was = entry := by simpa [same] using found
      exact there ▸ inherits_refl allocs fresh bound index was there

end Inherit

section Shelter

variable {prov next : Provenance}

theorem NamesMinted.retagReal {op : ProvOp} (minted : prov.NamesMinted op) : prov.RetagReal op := by
  cases op with
  | retag alloc parent kind isProtected label span => exact minted
  | retagPlace key kind isProtected span => exact minted
  | _ => trivial

section

variable (holds : prov.Sheltered) (wellFormed : next.WellFormed)
include holds wellFormed

/-- The invariant survives a step that strikes no protected tag. -/
theorem Sheltered.keep
    (inherits : Inherits prov.allocs next.allocs prov.tags.length next.tags.length)
    (grown : prov.tags.length ≤ next.tags.length)
    (dead : ∀ region ∈ prov.regionDead, region ∈ next.regionDead)
    (spared : ∀ index node off, next.Stricken index node off →
      node < prov.tags.length ∧ prov.isProtected node = true ∧
        prov.permAt node off = some .disabled) : next.Sheltered := by
  refine ⟨wellFormed, ?_, ?_⟩
  · intro index entry found tag member
    rcases (inherits index entry found).1 tag member with bounded | ⟨was, there, old⟩
    · exact bounded
    · exact Nat.lt_of_lt_of_le (holds.exposed index was there tag old) grown
  · intro index node off stricken
    have ⟨old, guarded, disabled⟩ := spared index node off stricken
    obtain ⟨⟨entry, found, live, alive⟩, member, _⟩ := stricken
    rw [treeTags, found] at member
    rcases (inherits index entry found).2 node member with fresh | ⟨was, there, inTree, stays, same⟩
    · exact Nat.not_le_of_lt old fresh
    · refine holds.unstricken index node off ⟨⟨was, there, stays live, ?_⟩, ?_, guarded, disabled⟩
      · intro owner owned buried
        exact alive owner (same.trans owned) (dead owner buried)
      · rw [treeTags, there]
        exact inTree

/-- A step that touches neither tags nor liveness. -/
theorem Sheltered.keep_tags (tags_eq : next.tags = prov.tags)
    (dead_eq : next.regionDead = prov.regionDead)
    (inherits : Inherits prov.allocs next.allocs prov.tags.length prov.tags.length) :
    next.Sheltered := by
  refine holds.keep wellFormed (by rw [tags_eq]; exact inherits) (by rw [tags_eq]) ?_ ?_
  · intro region member
    rw [dead_eq]
    exact member
  · rintro index node off ⟨_, member, guarded, disabled⟩
    have bound := lt_of_allocOf (wellFormed.members index node member)
    rw [isProtected, tags_eq] at guarded
    rw [permAt_of_tags tags_eq] at disabled
    rw [tags_eq] at bound
    exact ⟨bound, guarded, disabled⟩

theorem Sheltered.quiet (tags_eq : next.tags = prov.tags)
    (dead_eq : next.regionDead = prov.regionDead) (allocs_eq : next.allocs = prov.allocs) :
    next.Sheltered := by
  refine holds.keep_tags wellFormed tags_eq dead_eq ?_
  rw [allocs_eq]
  exact inherits_refl _ _ _

end

/-- Changing the permissions of listed trees, when each of them is taken out of play or the change
disables nothing. -/
theorem Sheltered.setTree (holds : prov.Sheltered) (update : Perm → Perm)
    (wellFormed : next.WellFormed) (settles : ∀ perm, update (update perm) = update perm)
    {targets : List TagId} (tags_eq : next.tags = Provenance.setTree update targets prov.tags)
    (dead : ∀ region ∈ prov.regionDead, region ∈ next.regionDead)
    (inherits : Inherits prov.allocs next.allocs prov.tags.length prov.tags.length)
    (harmless : (∀ perm, update perm = .disabled → perm = .disabled) ∨
      ∀ index, next.Alive index → ∀ node ∈ next.treeTags index, node ∉ targets) :
    next.Sheltered := by
  have arena_eq : next.arena = prov.arena := by
    rw [arena, tags_eq]
    exact bare_setTree update targets prov.tags
  obtain ⟨_, protected_eq, _, length_eq⟩ := arena_congr arena_eq
  have perms : ∀ id off, next.permAt id off =
      (prov.permAt id off).map fun perm => if id ∈ targets then update perm else perm := by
    intro id off
    have here := prov.permAt_setTree settles targets id off
    rw [permAt, tags_eq]
    exact here
  refine holds.keep wellFormed (by rw [length_eq]; exact inherits) (by rw [length_eq]) dead ?_
  rintro index node off ⟨alive, member, guarded, disabled⟩
  have bound := lt_of_allocOf (wellFormed.members index node member)
  rw [protected_eq] at guarded
  rw [length_eq] at bound
  rw [perms] at disabled
  obtain ⟨perm, found, perm_eq⟩ := Option.map_eq_some_iff.mp disabled
  refine ⟨bound, guarded, ?_⟩
  rcases harmless with reflects | apart
  · split at perm_eq
    · rw [found, reflects perm perm_eq]
    · rw [found, perm_eq]
  · rw [if_neg (apart index alive node member)] at perm_eq
    rw [found, perm_eq]

/-- A free answers false and changes nothing, or disables one tree and kills its allocation. -/
theorem hostFree_cases (prov : Provenance) (ptr : RawPtr) :
    (prov.hostFree ptr).2 = prov ∨ ∃ freed entry, prov.allocs[freed]? = some entry ∧
      (prov.hostFree ptr).2 = { prov with
        allocs := prov.allocs.modify freed fun alloc => { alloc with live := false }
        tags := Provenance.setTree (fun _ => .disabled) entry.tags prov.tags } := by
  unfold Provenance.hostFree
  cases ptr.alloc with
  | none => exact .inl rfl
  | some freed =>
    cases found : prov.allocs[freed]? with
    | none =>
      simp only [found]
      exact .inl trivial
    | some entry =>
      simp only [found]
      split
      · exact .inl rfl
      · exact .inr ⟨freed, entry, found, rfl⟩

/-- No tag is in two trees. -/
theorem tree_unique (wellFormed : prov.WellFormed) {node : TagId} {first second : AllocId}
    (inFirst : node ∈ prov.treeTags first) (inSecond : node ∈ prov.treeTags second) :
    first = second := by
  have left := wellFormed.members first node inFirst
  have right := wellFormed.members second node inSecond
  exact Option.eq_some_unique left right

section

variable (holds : prov.Sheltered)
include holds

theorem Sheltered.hostFree (ptr : RawPtr) : (prov.hostFree ptr).2.Sheltered := by
  have same := sameForest_hostFree prov ptr
  rcases hostFree_cases prov ptr with unchanged | ⟨freed, entry, found, next_eq⟩
  · rw [unchanged]
    exact holds
  · have wellFormed := holds.wellFormed.keep same
    rw [next_eq] at same wellFormed ⊢
    refine holds.setTree (fun _ => .disabled) wellFormed (fun _ => rfl) rfl
      (fun _ member => member) ?_ (.inr ?_)
    · refine inherits_modify freed ?_ ?_ ?_ fun _ => rfl
      · exact fun was tag member => .inr member
      · exact fun was tag member => .inr member
      · exact fun was live => absurd live Bool.false_ne_true
    · rintro index ⟨other, other_found, live, _⟩ node member inFreed
      rw [same.treeTags_eq] at member
      have whole : entry.tags = prov.treeTags freed := by rw [treeTags, found]; rfl
      obtain rfl : freed = index := tree_unique holds.wellFormed (whole ▸ inFreed) member
      rw [List.getElem?_modify, found] at other_found
      obtain rfl : { entry with live := false } = other := by simpa using other_found
      exact Bool.false_ne_true live

theorem Sheltered.regionFreed (regions : List RegionId) : (prov.regionFreed regions).Sheltered := by
  have same := sameForest_regionFreed prov regions
  have buried : ∀ (regions dead : List RegionId) (region : RegionId),
      region ∈ dead ∨ region ∈ regions →
      region ∈ regions.foldl
        (fun dead region => if region ∈ dead then dead else dead ++ [region]) dead := by
    intro regions
    induction regions with
    | nil => simp
    | cons first rest induction =>
      intro dead region member
      rw [List.foldl_cons]
      refine induction _ region ?_
      by_cases known : first ∈ dead
      · rw [if_pos known]
        rcases member with old | new
        · exact .inl old
        · rcases List.mem_cons.mp new with rfl | later
          · exact .inl known
          · exact .inr later
      · rw [if_neg known]
        rcases member with old | new
        · exact .inl (List.mem_append_left [first] old)
        · rcases List.mem_cons.mp new with rfl | later
          · exact .inl (List.mem_append_right dead List.mem_cons_self)
          · exact .inr later
  refine holds.setTree (fun _ => .disabled) (holds.wellFormed.keep same) (fun _ => rfl) rfl ?_
    (inherits_refl _ _ _) (.inr ?_)
  · exact fun region member => buried regions prov.regionDead region (.inl member)
  · rintro index ⟨entry, found, _, alive⟩ node member owned
    obtain ⟨other, holder, holder_found, holder_owned, inHolder⟩ := mem_ownedTags.mp owned
    rw [same.treeTags_eq] at member
    have whole : holder.tags = prov.treeTags other := by rw [treeTags, holder_found]; rfl
    obtain rfl : other = index := tree_unique holds.wellFormed (whole ▸ inHolder) member
    obtain rfl : holder = entry := Option.eq_some_unique holder_found found
    obtain ⟨owner, owner_eq, listed⟩ := (Option.any_eq_true _ _).mp holder_owned
    have inList : owner ∈ regions := by simpa using listed
    exact alive owner owner_eq (buried regions prov.regionDead owner (.inr inList))

theorem Sheltered.regionFrozen (regions : List RegionId) :
    (prov.regionFrozen regions).Sheltered := by
  have wellFormed := holds.wellFormed.keep (sameForest_regionFrozen prov regions)
  refine holds.setTree freezePerm wellFormed freezePerm_freezePerm rfl (fun _ member => member)
    (inherits_refl _ _ _) (.inl ?_)
  intro perm frozen
  cases perm <;> simp_all [freezePerm]

theorem Sheltered.unprotect (tag : TagId) : (prov.unprotect tag).Sheltered := by
  have wellFormed := holds.wellFormed.keep (sameForest_unprotect prov tag)
  have perms := permAt_unprotect prov tag
  have weaker : ∀ node, (prov.unprotect tag).isProtected node = true →
      prov.isProtected node = true := by
    intro node
    unfold Provenance.unprotect
    cases found : prov.tags[tag]? with
    | none => exact fun guarded => guarded
    | some entry =>
      dsimp only
      split
      · exact fun guarded => guarded
      · simp only [markDirty, isProtected, List.getElem?_modify]
        cases prov.tags[node]? with
        | none => simp
        | some other => by_cases same : tag = node <;> simp [same]
  have shape : (prov.unprotect tag).allocs = prov.allocs ∧
      (prov.unprotect tag).regionDead = prov.regionDead ∧
      (prov.unprotect tag).tags.length = prov.tags.length := by
    unfold Provenance.unprotect
    cases prov.tags[tag]? with
    | none => exact ⟨rfl, rfl, rfl⟩
    | some entry =>
      dsimp only
      split
      · exact ⟨rfl, rfl, rfl⟩
      · exact ⟨rfl, rfl, List.length_modify _ _ _⟩
  obtain ⟨allocs_eq, dead_eq, length_eq⟩ := shape
  refine holds.keep wellFormed ?_ (by rw [length_eq]) ?_ ?_
  · rw [allocs_eq]
    exact inherits_refl _ _ _
  · intro region member
    rw [dead_eq]
    exact member
  · rintro index node off ⟨_, member, guarded, disabled⟩
    have bound := lt_of_allocOf (wellFormed.members index node member)
    rw [length_eq] at bound
    rw [perms] at disabled
    exact ⟨bound, weaker node guarded, disabled⟩

theorem Sheltered.prune (pruned : prov.prune = some next) : next.Sheltered := by
  obtain ⟨rest, length_eq, _, trimmed⟩ := prune_spec pruned
  have tags_eq := congrArg Provenance.tags rest
  have dead_eq := congrArg Provenance.regionDead rest
  refine holds.keep_tags (holds.wellFormed.prune pruned) tags_eq dead_eq ?_
  intro index entry found
  have bound : index < prov.allocs.length := by
    rw [← length_eq]
    exact (List.getElem?_eq_some_iff.mp found).1
  obtain ⟨tags, next_found, trims⟩ := trimmed index _ (List.getElem?_eq_getElem bound)
  obtain rfl := Option.eq_some_unique next_found found
  obtain ⟨keep, tags_eq⟩ := trims.filtered
  constructor
  · intro tag member
    exact .inr ⟨_, List.getElem?_eq_getElem bound, member⟩
  · intro tag member
    rw [tags_eq] at member
    have inTree := (List.mem_filter.mp member).1
    exact .inr ⟨_, List.getElem?_eq_getElem bound, inTree, fun live => live, rfl⟩

/-- One more tag, born with no disabled byte. -/
theorem Sheltered.snoc (wellFormed : next.WellFormed) {fresh : Tag}
    (tags_eq : next.tags = prov.tags ++ [fresh]) (dead_eq : next.regionDead = prov.regionDead)
    (inherits : Inherits prov.allocs next.allocs prov.tags.length next.tags.length)
    (enabled : ∀ off : Nat, fresh.perms[off]? ≠ some Perm.disabled) : next.Sheltered := by
  have length_eq : next.tags.length = prov.tags.length + 1 := by simp [tags_eq]
  refine holds.keep wellFormed inherits (by rw [length_eq]; exact Nat.le_succ _) ?_ ?_
  · intro region member
    rw [dead_eq]
    exact member
  · rintro index node off ⟨_, member, guarded, disabled⟩
    have bound := lt_of_allocOf (wellFormed.members index node member)
    rw [permAt_snoc tags_eq] at disabled
    rw [isProtected, tags_snoc tags_eq] at guarded
    split at disabled
    · exact absurd disabled (enabled off)
    · rename_i old
      rw [if_neg old] at guarded
      rw [length_eq] at bound
      exact ⟨Nat.lt_of_le_of_ne (Nat.le_of_lt_succ bound) old, guarded, disabled⟩

theorem Sheltered.newAlloc (size : Nat) (origin : Origin) (owner : Option RegionId) (label : String)
    (span : Span) : (prov.newAlloc size origin owner label span .active).2.Sheltered := by
  refine holds.snoc (holds.wellFormed.newAlloc size origin owner label span .active) rfl rfl ?_ ?_
  · intro index entry found
    rw [Provenance.newAlloc, Worklist.getElem?_snoc] at found
    split at found
    · cases found
      constructor
      · simp
      · intro tag member
        exact .inl (Nat.le_of_eq (List.mem_singleton.mp member).symm)
    · exact inherits_refl prov.allocs _ _ index entry found
  · intro off
    rw [List.getElem?_replicate]
    split <;> simp

theorem Sheltered.hostAlloc (size : Nat) (owner : RegionId) (span : Span) :
    (prov.hostAlloc size owner span).2.Sheltered := by
  have grown := holds.newAlloc size .hostC (some owner) s!"c.malloc({size})" span
  refine grown.keep_tags (holds.wellFormed.hostAlloc size owner span) rfl rfl ?_
  refine inherits_modify prov.allocs.length ?_ ?_ (fun _ live => live) fun _ => rfl
  · intro was tag member
    rcases List.mem_append.mp member with old | root
    · exact .inr old
    · rw [List.mem_singleton.mp root]
      exact .inl (by simp [Provenance.newAlloc])
  · exact fun was tag member => .inr member

theorem Sheltered.placeAlloc (key : String) (owner : Option RegionId) (span : Span) :
    (prov.placeAlloc key owner span).2.Sheltered := by
  have wellFormed := holds.wellFormed.placeAlloc key owner span
  revert wellFormed
  unfold Provenance.placeAlloc
  cases prov.place key with
  | some found => exact fun _ => holds
  | none =>
    intro wellFormed
    have grown := holds.newAlloc 1 .place owner s!"place `{key}`" span
    refine grown.keep_tags wellFormed rfl rfl ?_
    refine inherits_modify prov.allocs.length ?_ ?_ (fun _ live => live) fun _ => rfl
    · exact fun was tag member => .inr member
    · exact fun was tag member => .inr member

theorem Sheltered.retag {alloc : AllocId} {parent : TagId} {kind : RetagKind} {isProtected : Bool}
    {label : String} {span : Span} {child : TagId} (real : prov.allocOf parent = some alloc)
    (minted : prov.retag alloc parent kind isProtected label span = some (child, next)) :
    next.Sheltered := by
  obtain ⟨entry, found, _, tags_eq, allocs_eq, _, rest⟩ := retag_eq_some minted
  have dead_eq := congrArg Provenance.regionDead rest
  refine holds.snoc (holds.wellFormed.retag real minted) tags_eq dead_eq ?_ ?_
  · rw [allocs_eq]
    refine inherits_modify alloc ?_ ?_ (fun _ live => live) fun _ => rfl
    · exact fun was tag member => .inr member
    · intro was tag member
      rcases List.mem_append.mp member with old | fresh
      · exact .inr old
      · exact .inl (Nat.le_of_eq (List.mem_singleton.mp fresh).symm)
  · intro off
    rw [List.getElem?_replicate]
    cases kind <;> split <;> simp [RetagKind.perm]

theorem Sheltered.expose {ptr : RawPtr} (minted : prov.NamesMinted (.expose ptr)) :
    (prov.expose ptr).Sheltered := by
  have wellFormed := holds.wellFormed.keep (sameForest_expose prov ptr)
  revert wellFormed
  unfold Provenance.expose
  split
  · rename_i alloc tag _ named
    intro wellFormed
    refine holds.keep_tags wellFormed rfl rfl ?_
    refine inherits_modify alloc ?_ ?_ ?_ ?_
    · intro was other member
      split at member
      · exact .inr member
      · rcases List.mem_append.mp member with old | new
        · exact .inr old
        · rw [List.mem_singleton.mp new]
          simp only [NamesMinted, named] at minted
          exact .inl minted
    · intro was other member
      split at member <;> exact .inr member
    · intro was live
      split at live <;> exact live
    · intro was
      split <;> rfl
  · exact fun _ => holds

/-- An access that a tag permits strikes no protected tag. -/
theorem Sheltered.moves {index : AllocId} {through : TagId} {kind : AccessKind} {lo hi : Nat}
    (permitted : prov.permits index kind lo hi through = true)
    (moves : prov.Moves next index through kind (bytes lo hi)) : next.Sheltered := by
  obtain ⟨_, protected_eq, _, length_eq⟩ := arena_congr moves.arena
  have allocs_eq := moves.allocs
  have dead_eq := congrArg Provenance.regionDead moves.rest
  dsimp only at dead_eq
  refine holds.keep (moves.wellFormed holds.wellFormed) ?_ (by rw [length_eq]) ?_ ?_
  · rw [allocs_eq]
    exact inherits_refl _ _ _
  · intro region member
    rw [dead_eq]
    exact member
  · rintro other node off ⟨_, member, guarded, disabled⟩
    have bound := lt_of_allocOf ((moves.wellFormed holds.wellFormed).members other node member)
    rw [length_eq] at bound
    rw [protected_eq] at guarded
    refine ⟨bound, guarded, ?_⟩
    rw [moves.perms] at disabled
    obtain ⟨current, found, after⟩ := Option.map_eq_some_iff.mp disabled
    rw [found]
    split at after
    · rename_i covered
      obtain ⟨answer, passed⟩ := transition_of_permits permitted covered.1 covered.2 found
      rw [guarded] at passed
      cases current <;> cases child : prov.childOf node through <;> cases kind <;>
        simp_all [moved, transition]
    · rw [after]

theorem Sheltered.initialized (index : AllocId) (lo hi : Nat) (kind : AccessKind) :
    (prov.initialized index lo hi kind).Sheltered := by
  cases kind with
  | read => exact holds
  | write =>
    have wellFormed := holds.wellFormed.keep (sameForest_initialized index lo hi .write)
    refine holds.keep_tags wellFormed rfl rfl ?_
    refine inherits_modify index ?_ ?_ (fun _ live => live) fun _ => rfl
    · exact fun was tag member => .inr member
    · exact fun was tag member => .inr member

theorem Sheltered.access {ptr : RawPtr} {len : Nat} {kind : AccessKind} {span : Span}
    {answer : Except UbFinding Unit}
    (answered : prov.access ptr len kind span = some (answer, next)) : next.Sheltered := by
  cases effect_of_access holds.wellFormed answered with
  | refused finding => exact holds
  | unread finding passes => exact holds.moves passes.permitted passes.moves
  | passed passes =>
    exact (holds.moves passes.permitted passes.moves).initialized _ _ _ kind

theorem Sheltered.displaced (places : Places) (was : Option (AllocId × TagId)) :
    ({ prov with places }.markDisplaced was).Sheltered := by
  have wellFormed := holds.wellFormed.keep (sameForest_markDisplaced { prov with places } was)
  cases was with
  | none | some displaced => exact holds.quiet wellFormed rfl rfl rfl

theorem Sheltered.initRange (ptr : RawPtr) (len : Nat) : (prov.initRange ptr len).Sheltered := by
  have wellFormed := holds.wellFormed.keep (sameForest_initRange prov ptr len)
  revert wellFormed
  unfold Provenance.initRange
  cases ptr.alloc with
  | none => exact fun _ => holds
  | some index =>
    intro wellFormed
    refine holds.keep_tags wellFormed rfl rfl ?_
    refine inherits_modify index ?_ ?_ (fun _ live => live) fun _ => rfl
    · exact fun was tag member => .inr member
    · exact fun was tag member => .inr member

/-- Every operation keeps the invariant as long as it retags and exposes minted tags. -/
theorem sheltered_perform {op : ProvOp} (minted : prov.NamesMinted op) {answer : ProvAnswer}
    (performed : prov.perform op = some (answer, next)) : next.Sheltered := by
  have wellFormed := wellFormed_perform holds.wellFormed minted.retagReal performed
  cases leaves_of_perform performed with
  | hostAlloc => exact holds.hostAlloc _ _ _
  | hostFree => exact holds.hostFree _
  | @bindPlace key | @rebindPlace key | @restorePlace key =>
    exact holds.displaced _ (prov.place key)
  | dropFrame | assumed => exact holds.quiet wellFormed rfl rfl rfl
  | prune ran => exact holds.prune ran
  | retag retagged => exact holds.retag minted retagged
  | @retagPlace key _ _ _ span _ _ retagged =>
    exact (holds.placeAlloc key none span).retag (placeAlloc_minted minted) retagged
  | unprotect => exact holds.unprotect _
  | expose => exact holds.expose minted
  | regionFreed => exact holds.regionFreed _
  | regionFrozen => exact holds.regionFrozen _
  | initRange => exact holds.initRange _ _
  | access accessed | accessPlace accessed => exact holds.access accessed
  | refuted | unplaced => exact holds

end

theorem sheltered_new : new.Sheltered := by
  refine ⟨wellFormed_new, ?_, ?_⟩
  · intro index entry found
    simp [new] at found
  · rintro index node off ⟨_, member, _⟩
    simp [treeTags, new] at member

end Shelter

end Provenance

end WolfInterp
