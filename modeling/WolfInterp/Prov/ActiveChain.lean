import WolfInterp.Prov.Invariant

/-!
# Active tags form a chain

At every byte the active tags of a borrow tree are a chain that starts at the root, in every run
whose retags name a parent that is still in the tree. Pruning removes tags that a caller may still
hold; a retag below such a tag breaks the chain.
-/

namespace WolfInterp.Provenance

open Execution ParentChain Relation

/-- A retag names a parent that is in the tree of the allocation it retags. -/
def RetagKept (prov : Provenance) : ProvOp → Prop
  | .retag alloc parent _ _ _ _ => parent ∈ prov.treeTags alloc
  | .retagPlace key _ _ _ => ∀ found ∈ prov.place key, found.2 ∈ prov.treeTags found.1
  | _ => True

instance (prov : Provenance) : ∀ op, Decidable (prov.RetagKept op)
  | .retag alloc parent _ _ _ _ => inferInstanceAs (Decidable (parent ∈ prov.treeTags alloc))
  | .retagPlace key _ _ _ =>
    inferInstanceAs (Decidable (∀ found ∈ prov.place key, found.2 ∈ prov.treeTags found.1))
  | .hostAlloc .. | .hostFree _ | .bindPlace .. | .rebindPlace .. | .restorePlace ..
  | .dropFrame .. | .prune | .unprotect _ | .expose _ | .regionFreed _ | .regionFrozen _
  | .initRange .. | .assumeNoalias .. | .access .. | .accessPlace .. => isTrue trivial

/-- With a tag a tree holds the tag's parent. -/
def Closed (prov : Provenance) : Prop :=
  ∀ index, ∀ tag ∈ prov.treeTags index, ∀ owner, prov.parent tag = some owner →
    owner ∈ prov.treeTags index

/-- A closed tree holds the whole chain of each of its tags. -/
theorem Closed.ancestor {prov : Provenance} (closed : prov.Closed) {index : AllocId}
    {node through : TagId} (member : through ∈ prov.treeTags index)
    (path : Ancestor prov.parent node through) : node ∈ prov.treeTags index := by
  induction path using ReflTransGen.head_induction_on with
  | refl => exact member
  | head edge _ induction => exact closed index _ induction _ edge

/-- At every byte the parent of an active tag is active, and of two active tags of one tree one is
an ancestor of the other. -/
def ActiveChain (prov : Provenance) : Prop :=
  ∀ index off, ∀ tag ∈ prov.treeTags index, prov.permAt tag off = some .active →
    (∀ owner, prov.parent tag = some owner → prov.permAt owner off = some .active) ∧
    ∀ other ∈ prov.treeTags index, prov.permAt other off = some .active →
      Ancestor prov.parent tag other ∨ Ancestor prov.parent other tag

/-- After a write, every tag of the tree that is neither the tag it went through nor one of its
ancestors is disabled at the written bytes. -/
def WriteDisables (prov next : Provenance) (ptr : RawPtr) (len : Nat) : Prop :=
  ∃ index entry through, ptr.alloc = some index ∧ prov.allocs[index]? = some entry ∧
    through ∈ candidates ptr.prov entry ∧
    ∀ node ∈ next.treeTags index, ¬ Ancestor next.parent node through →
      ∀ off : Nat, ptr.offset ≤ (off : Int) → (off : Int) < ptr.offset + (len : Int) →
        next.permAt node off = some .disabled

/-- A successful write, of a raw pointer or of a place that has a tag, disables the other tags. -/
def WritesDisable (prov : Provenance) (op : ProvOp) (answer : ProvAnswer) (next : Provenance) :
    Prop :=
  match op, answer with
  | .access ptr len .write _, .verdict (.ok ()) => prov.WriteDisables next ptr len
  | .accessPlace key .write _, .verdict (.ok ()) =>
    ∀ alloc tag, prov.place key = some (alloc, tag) →
      prov.WriteDisables next { alloc := some alloc, offset := 0, prov := .tag tag, elem := 1 } 1
  | _, _ => True

/-! ## What an access leaves active -/

section Access

variable {prov next : Provenance} {index : AllocId} {through : TagId} {kind : AccessKind}
  {lo hi : Nat} {node : TagId} {off : Nat}

theorem transition_of_permits (permitted : prov.permits index kind lo hi through = true)
    (member : node ∈ prov.treeTags index) (inside : off ∈ bytes lo hi) {current : Perm}
    (found : prov.permAt node off = some current) :
    ∃ answer, transition current (prov.childOf node through) kind (prov.isProtected node) =
      .ok answer := by
  rw [permits, Option.isNone_iff_eq_none, firstBreach, List.findSome?_eq_none_iff] at permitted
  have noBreach := List.findSome?_eq_none_iff.mp (permitted node member) off inside
  rw [breachAt, found, Option.bind_some] at noBreach
  cases passed : transition current (prov.childOf node through) kind (prov.isProtected node) with
  | error breach => simp [passed] at noBreach
  | ok answer => exact ⟨answer, rfl⟩

/-- After a permitted access a tag of the tree is active where it was and the access is a child
access, and where a child write made it so. -/
theorem active_iff_of_moves (permitted : prov.permits index kind lo hi through = true)
    (moves : prov.Moves next index through kind (bytes lo hi)) (member : node ∈ prov.treeTags index)
    (inside : off ∈ bytes lo hi) : next.permAt node off = some .active ↔
      prov.childOf node through = true ∧ (prov.permAt node off).isSome ∧
        (kind = .read → prov.permAt node off = some .active) := by
  rw [moves.perms]
  cases found : prov.permAt node off with
  | none => simp
  | some current =>
    obtain ⟨answer, passed⟩ := transition_of_permits permitted member inside found
    simp only [member, inside, and_self, if_true, Option.map_some, Option.some.injEq,
      Option.isSome_some, true_and]
    cases kind <;> cases current <;> cases child : prov.childOf node through <;>
      simp_all [moved, transition]

theorem permAt_of_moves_outside (moves : prov.Moves next index through kind (bytes lo hi))
    (outside : ¬ (node ∈ prov.treeTags index ∧ off ∈ bytes lo hi)) :
    next.permAt node off = prov.permAt node off := by
  rw [moves.perms]
  cases prov.permAt node off <;> simp [outside]

/-- Two ancestors of one tag are comparable. -/
theorem comparable_of_ancestors {first second : TagId} (left : Ancestor prov.parent first through)
    (right : Ancestor prov.parent second through) :
    Ancestor prov.parent first second ∨ Ancestor prov.parent second first := by
  have leftUp : ReflTransGen (Function.swap (ParentChain.Owns prov.parent)) through first :=
    reflTransGen_swap.mpr left
  have rightUp : ReflTransGen (Function.swap (ParentChain.Owns prov.parent)) through second :=
    reflTransGen_swap.mpr right
  have unique : Relator.RightUnique (Function.swap (ParentChain.Owns prov.parent)) :=
    fun _ _ _ one other => owns_unique one other
  rcases ReflTransGen.total_of_right_unique unique leftUp rightUp with down | up
  · exact .inr (reflTransGen_swap.mp down)
  · exact .inl (reflTransGen_swap.mp up)

/-- A permitted access keeps the chain of active tags. -/
theorem ActiveChain.moves (chain : prov.ActiveChain) (wellFormed : prov.WellFormed)
    (closed : prov.Closed) (permitted : prov.permits index kind lo hi through = true)
    (moves : prov.Moves next index through kind (bytes lo hi)) : next.ActiveChain := by
  have same := moves.sameForest
  intro target off tag member active
  rw [same.treeTags_eq] at member
  rw [same.parent_eq, same.treeTags_eq]
  by_cases hit : target = index ∧ off ∈ bytes lo hi
  · obtain ⟨rfl, inside⟩ := hit
    have wasActive := (active_iff_of_moves permitted moves member inside).mp active
    have above := childOf_iff.mp wasActive.1
    constructor
    · intro owner edge
      have owner_mem := closed target tag member owner edge
      refine (active_iff_of_moves permitted moves owner_mem inside).mpr ⟨?_, ?_, fun read => ?_⟩
      · exact childOf_iff.mpr (ReflTransGen.head edge above)
      · have minted := wellFormed.members target tag member
        have ownerMinted := wellFormed.members target owner owner_mem
        obtain ⟨entry, found⟩ : ∃ entry, prov.allocs[target]? = some entry := by
          cases found : prov.allocs[target]? with
          | none => simp [treeTags, found] at member
          | some entry => exact ⟨entry, rfl⟩
        rw [permAt_isSome wellFormed ownerMinted found]
        exact (permAt_isSome wellFormed minted found off).mp wasActive.2.1
      · exact (chain target off tag member (wasActive.2.2 read)).1 owner edge
    · intro other other_mem otherActive
      have otherWas := (active_iff_of_moves permitted moves other_mem inside).mp otherActive
      exact comparable_of_ancestors above (childOf_iff.mp otherWas.1)
  · have untouched : ∀ node ∈ prov.treeTags target,
        next.permAt node off = prov.permAt node off := by
      intro node node_mem
      refine permAt_of_moves_outside moves fun held => hit ⟨?_, held.2⟩
      have first := wellFormed.members target node node_mem
      have second := wellFormed.members index node held.1
      exact Option.eq_some_unique first second
    rw [untouched tag member] at active
    obtain ⟨parents, comparable⟩ := chain target off tag member active
    constructor
    · intro owner edge
      rw [untouched owner (closed target tag member owner edge)]
      exact parents owner edge
    · intro other other_mem otherActive
      rw [untouched other other_mem] at otherActive
      exact comparable other other_mem otherActive

end Access

/-! ## The other operations -/

section Others

variable {prov next : Provenance}

/-- The chain survives an update that keeps parents and permissions and adds nothing to a tree. -/
theorem ActiveChain.frame (chain : prov.ActiveChain) (parents : next.parent = prov.parent)
    (perms : next.permAt = prov.permAt)
    (trees : ∀ index, next.treeTags index ⊆ prov.treeTags index) :
    next.ActiveChain := by
  intro index off tag member active
  rw [perms] at active
  obtain ⟨above, comparable⟩ := chain index off tag (trees index member) active
  rw [parents, perms]
  exact ⟨above, fun other other_mem => comparable other (trees index other_mem)⟩

theorem Closed.keep (closed : prov.Closed) (same : prov.SameForest next) : next.Closed := by
  rw [Closed, same.parent_eq, same.treeTags_eq]
  exact closed

/-- The listed tags are whole subtrees: with a parent they hold its children. -/
def Downward (prov : Provenance) (targets : List TagId) : Prop :=
  ∀ index, ∀ tag ∈ prov.treeTags index, ∀ owner ∈ targets, prov.parent tag = some owner →
    tag ∈ targets

/-- Taking the active permission away from whole subtrees keeps the chain. -/
theorem ActiveChain.setTree (chain : prov.ActiveChain) (update : Perm → Perm)
    (settles : ∀ perm, update (update perm) = update perm) (passive : ∀ perm, update perm ≠ .active)
    {targets : List TagId} (downward : prov.Downward targets) (same : prov.SameForest next)
    (tags_eq : next.tags = Provenance.setTree update targets prov.tags) : next.ActiveChain := by
  have perms : ∀ id off, next.permAt id off =
      (prov.permAt id off).map fun perm => if id ∈ targets then update perm else perm := by
    intro id off
    have here := prov.permAt_setTree settles targets id off
    rw [permAt, tags_eq]
    exact here
  have active_iff : ∀ id off, next.permAt id off = some .active ↔
      id ∉ targets ∧ prov.permAt id off = some .active := by
    intro id off
    rw [perms]
    cases prov.permAt id off with
    | none => simp
    | some perm => by_cases hit : id ∈ targets <;> simp [hit, passive]
  intro index off tag member active
  rw [same.treeTags_eq] at member
  rw [same.parent_eq, same.treeTags_eq]
  obtain ⟨spared, wasActive⟩ := (active_iff tag off).mp active
  obtain ⟨above, comparable⟩ := chain index off tag member wasActive
  constructor
  · intro owner edge
    refine (active_iff owner off).mpr ⟨fun hit => spared ?_, above owner edge⟩
    exact downward index tag member owner hit edge
  · intro other other_mem otherActive
    exact comparable other other_mem ((active_iff other off).mp otherActive).2

theorem mem_ownedTags {regions : List RegionId} {tag : TagId} :
    tag ∈ prov.ownedTags regions ↔ ∃ (index : AllocId) (entry : Alloc),
      prov.allocs[index]? = some entry ∧
        (entry.owner.any fun owner => regions.contains owner) = true ∧ tag ∈ entry.tags := by
  simp only [ownedTags, List.mem_flatMap, List.mem_filter]
  constructor
  · rintro ⟨entry, ⟨entry_mem, owned⟩, member⟩
    obtain ⟨index, bound, rfl⟩ := List.mem_iff_getElem.mp entry_mem
    exact ⟨index, _, List.getElem?_eq_getElem bound, owned, member⟩
  · rintro ⟨index, entry, found, owned, member⟩
    exact ⟨entry, ⟨List.mem_of_getElem? found, owned⟩, member⟩

/-- Whole trees are whole subtrees. -/
theorem downward_of_trees (wellFormed : prov.WellFormed) {targets : List TagId}
    (hit : AllocId → Prop)
    (covers : ∀ tag, tag ∈ targets ↔ ∃ index, hit index ∧ tag ∈ prov.treeTags index) :
    prov.Downward targets := by
  intro index tag member owner owner_mem edge
  obtain ⟨target, chosen, inTree⟩ := (covers owner).mp owner_mem
  have same := (wellFormed.parented tag owner edge).2
  rw [wellFormed.members index tag member, wellFormed.members target owner inTree] at same
  exact (covers tag).mpr ⟨target, chosen, Option.some.inj same ▸ member⟩

theorem downward_treeTags (wellFormed : prov.WellFormed) (index : AllocId) :
    prov.Downward (prov.treeTags index) := by
  refine downward_of_trees wellFormed (fun target => target = index) fun tag => ?_
  simp

theorem downward_ownedTags (wellFormed : prov.WellFormed) (regions : List RegionId) :
    prov.Downward (prov.ownedTags regions) := by
  refine downward_of_trees wellFormed (fun index => ∃ entry, prov.allocs[index]? = some entry ∧
    (entry.owner.any fun owner => regions.contains owner) = true) fun tag => ?_
  rw [mem_ownedTags]
  constructor
  · rintro ⟨index, entry, found, owned, member⟩
    refine ⟨index, ⟨entry, found, owned⟩, ?_⟩
    rw [treeTags, found]
    exact member
  · rintro ⟨index, ⟨entry, found, owned⟩, member⟩
    rw [treeTags, found] at member
    exact ⟨index, entry, found, owned, member⟩

section

variable (chain : prov.ActiveChain) (wellFormed : prov.WellFormed)
include chain wellFormed

theorem ActiveChain.hostFree (ptr : RawPtr) : (prov.hostFree ptr).2.ActiveChain := by
  have same := sameForest_hostFree prov ptr
  revert same
  unfold Provenance.hostFree
  cases ptr.alloc with
  | none => exact fun _ => chain
  | some index =>
    cases found : prov.allocs[index]? with
    | none =>
      simp only [found]
      exact fun _ => chain
    | some entry =>
      simp only [found]
      split
      · exact fun _ => chain
      · intro same
        have whole : entry.tags = prov.treeTags index := by rw [treeTags, found]; rfl
        refine chain.setTree (fun _ => .disabled) (fun _ => rfl) (by simp) ?_ same rfl
        exact whole ▸ downward_treeTags wellFormed index

theorem ActiveChain.regionFreed (regions : List RegionId) : (prov.regionFreed regions).ActiveChain
    := by
  exact chain.setTree (fun _ => .disabled) (fun _ => rfl) (by simp)
    (downward_ownedTags wellFormed regions)
    (sameForest_regionFreed prov regions) rfl

theorem ActiveChain.regionFrozen (regions : List RegionId) : (prov.regionFrozen regions).ActiveChain
    := by
  have passive : ∀ perm, freezePerm perm ≠ .active := by
    intro perm
    cases perm <;> simp [freezePerm]
  exact chain.setTree freezePerm freezePerm_freezePerm passive
    (downward_ownedTags wellFormed regions)
    (sameForest_regionFrozen prov regions) rfl

end

theorem permAt_unprotect (prov : Provenance) (tag : TagId) :
    (prov.unprotect tag).permAt = prov.permAt := by
  unfold unprotect
  cases found : prov.tags[tag]? with
  | none => rfl
  | some entry =>
    dsimp only
    split
    · rfl
    · funext id off
      simp only [markDirty, permAt, List.getElem?_modify]
      cases prov.tags[id]? with
      | none => rfl
      | some other => by_cases same : tag = id <;> simp [same]

/-- One more tag keeps the chain when it is not active, or is the root of a tree of its own. -/
theorem ActiveChain.snoc (chain : prov.ActiveChain) (wellFormed : prov.WellFormed) {fresh : Tag}
    (tags_eq : next.tags = prov.tags ++ [fresh]) (trees : ∀ index, ∀ tag ∈ next.treeTags index,
      tag ∈ prov.treeTags index ∨ tag = prov.tags.length)
    (harmless : (∀ off : Nat, fresh.perms[off]? ≠ some Perm.active) ∨ fresh.parent = none ∧
      ∀ index, prov.tags.length ∈ next.treeTags index →
        ∀ tag ∈ next.treeTags index, tag = prov.tags.length) : next.ActiveChain := by
  have parents := parent_snoc tags_eq
  have perms := permAt_snoc tags_eq
  have old : ∀ {index tag}, tag ∈ prov.treeTags index → tag ≠ prov.tags.length :=
    fun member => Nat.ne_of_lt (lt_of_allocOf (wellFormed.members _ _ member))
  have lifts : ∀ {top bottom}, Ancestor prov.parent top bottom →
      Ancestor next.parent top bottom := by
    intro top bottom path
    refine ReflTransGen.mono ?_ top bottom path
    intro above below edge
    rw [ParentChain.Owns, parents, if_neg (Nat.ne_of_lt (lt_of_parent edge))]
    exact edge
  intro index off tag member active
  by_cases fresh_eq : tag = prov.tags.length
  · rw [perms, if_pos fresh_eq] at active
    obtain passive | ⟨noParent, alone⟩ := harmless
    · exact absurd active (passive off)
    · rw [parents, if_pos fresh_eq, noParent]
      refine ⟨by simp, fun other other_mem _ => .inl ?_⟩
      rw [fresh_eq, alone index (fresh_eq ▸ member) other other_mem]
      exact ReflTransGen.refl
  · have tag_mem := (trees index tag member).resolve_right fresh_eq
    rw [perms, if_neg fresh_eq] at active
    obtain ⟨above, comparable⟩ := chain index off tag tag_mem active
    constructor
    · intro owner edge
      rw [parents, if_neg fresh_eq] at edge
      have owner_lt := (wellFormed.parented tag owner edge).1
      rw [perms, if_neg (Nat.ne_of_lt (Nat.lt_trans owner_lt (lt_of_parent edge)))]
      exact above owner edge
    · intro other other_mem otherActive
      rcases trees index other other_mem with other_old | other_fresh
      · rw [perms, if_neg (old other_old)] at otherActive
        exact (comparable other other_old otherActive).imp lifts lifts
      · rw [perms, if_pos other_fresh] at otherActive
        obtain passive | ⟨_, alone⟩ := harmless
        · exact absurd otherActive (passive off)
        · exact absurd (alone index (other_fresh ▸ other_mem) tag member) fresh_eq

end Others

/-! ## The invariant -/

/-- What every operation keeps as long as retags name parents of the tree. -/
structure Chained (prov : Provenance) : Prop where
  wellFormed : prov.WellFormed
  closed : prov.Closed
  active : prov.ActiveChain

section Invariant

variable {prov next : Provenance} {op : ProvOp} {span : Span}

theorem RetagKept.real (wellFormed : prov.WellFormed) (kept : prov.RetagKept op) :
    prov.RetagReal op := by
  cases op with
  | retag alloc parent kind isProtected label span => exact wellFormed.members alloc parent kept
  | retagPlace key kind isProtected span =>
    exact fun found bound => wellFormed.members found.1 found.2 (kept found bound)
  | _ => trivial

/-- The invariant survives what keeps the forest and the permissions. -/
theorem Chained.keep (holds : prov.Chained) (same : prov.SameForest next)
    (perms : next.permAt = prov.permAt) : next.Chained where
  wellFormed := holds.wellFormed.keep same
  closed := holds.closed.keep same
  active := holds.active.frame same.parent_eq perms fun index => by rw [same.treeTags_eq]; simp

theorem permAt_of_tags (tags_eq : next.tags = prov.tags) : next.permAt = prov.permAt := by
  funext id off
  rw [permAt, permAt, tags_eq]

theorem tags_markDisplaced (prov : Provenance) (was : Option (AllocId × TagId)) :
    (prov.markDisplaced was).tags = prov.tags := by
  cases was <;> rfl

theorem treeTags_newAlloc (prov : Provenance) (size : Nat) (origin : Origin)
    (owner : Option RegionId) (label : String) (span : Span) (perm : Perm) (index : AllocId) :
    (prov.newAlloc size origin owner label span perm).2.treeTags index =
      if index = prov.allocs.length then [prov.tags.length] else prov.treeTags index := by
  rw [treeTags, newAlloc, Worklist.getElem?_snoc, treeTags]
  split <;> rfl

theorem Chained.newAlloc (holds : prov.Chained) (size : Nat) (origin : Origin)
    (owner : Option RegionId) (label : String) (span : Span) (perm : Perm) :
    (prov.newAlloc size origin owner label span perm).2.Chained := by
  have trees := prov.treeTags_newAlloc size origin owner label span perm
  have parents : ∀ id, (prov.newAlloc size origin owner label span perm).2.parent id =
      if id = prov.tags.length then none else prov.parent id := by
    intro id
    rw [parent_snoc (show (prov.newAlloc size origin owner label span perm).2.tags =
      prov.tags ++ [_] from rfl)]
  have noTree : prov.treeTags prov.allocs.length = [] := by
    rw [treeTags, List.getElem?_eq_none (Nat.le_refl _)]
    rfl
  refine ⟨holds.wellFormed.newAlloc size origin owner label span perm, ?_, ?_⟩
  · intro index tag member above edge
    rw [trees] at member ⊢
    rw [parents] at edge
    split at member
    · obtain rfl := List.mem_singleton.mp member
      simp at edge
    · rename_i old
      rw [if_neg old]
      have bound := lt_of_allocOf (holds.wellFormed.members index tag member)
      rw [if_neg (Nat.ne_of_lt bound)] at edge
      exact holds.closed index tag member above edge
  · refine holds.active.snoc holds.wellFormed rfl (fun index tag member => ?_)
      (.inr ⟨rfl, fun index fresh tag member => ?_⟩)
    · rw [trees] at member
      split at member
      · exact .inr (List.mem_singleton.mp member)
      · exact .inl member
    · rw [trees] at fresh member
      split at fresh
      · rename_i same
        rw [if_pos same] at member
        exact List.mem_singleton.mp member
      · have minted := holds.wellFormed.members index _ fresh
        exact absurd (lt_of_allocOf minted) (Nat.lt_irrefl _)

theorem Chained.hostAlloc (holds : prov.Chained) (size : Nat) (owner : RegionId) (span : Span) :
    (prov.hostAlloc size owner span).2.Chained := by
  refine (holds.newAlloc size .hostC (some owner) s!"c.malloc({size})" span .active).keep
    ⟨rfl, ?_⟩ (permAt_of_tags rfl)
  exact map_modify prov.allocs.length fun _ => rfl

theorem Chained.placeAlloc (holds : prov.Chained) (key : String) (owner : Option RegionId)
    (span : Span) : (prov.placeAlloc key owner span).2.Chained := by
  unfold Provenance.placeAlloc
  cases prov.place key with
  | some found => exact holds
  | none =>
    refine (holds.newAlloc 1 .place owner s!"place `{key}`" span .active).keep ⟨rfl, ?_⟩
      (permAt_of_tags rfl)
    exact map_modify prov.allocs.length fun _ => rfl

theorem placeAlloc_kept {key : String} {owner : Option RegionId}
    (kept : ∀ found ∈ prov.place key, found.2 ∈ prov.treeTags found.1) :
    (prov.placeAlloc key owner span).1.2 ∈
      (prov.placeAlloc key owner span).2.treeTags (prov.placeAlloc key owner span).1.1 := by
  unfold Provenance.placeAlloc
  cases bound : prov.place key with
  | some found => exact kept found bound
  | none => simp [Provenance.newAlloc, treeTags]

theorem Chained.retag (holds : prov.Chained) {alloc : AllocId} {parent : TagId} {kind : RetagKind}
    {isProtected : Bool} {label : String} {child : TagId} (kept : parent ∈ prov.treeTags alloc)
    (minted : prov.retag alloc parent kind isProtected label span = some (child, next)) :
    next.Chained := by
  have real := holds.wellFormed.members alloc parent kept
  obtain ⟨entry, found, _, tags_eq, allocs_eq, _, _⟩ := retag_eq_some minted
  have trees : ∀ index, next.treeTags index =
      if alloc = index then prov.treeTags index ++ [prov.tags.length] else prov.treeTags index := by
    intro index
    rw [treeTags, allocs_eq, List.getElem?_modify, treeTags]
    by_cases same : alloc = index
    · rw [← same, found]
      simp
    · cases prov.allocs[index]? <;> simp [same]
  refine ⟨holds.wellFormed.retag real minted, ?_, ?_⟩
  · intro index tag member above edge
    rw [parent_snoc tags_eq] at edge
    rw [trees] at member ⊢
    split at edge
    · rename_i fresh
      obtain rfl : parent = above := Option.some.inj edge
      have absent : prov.tags.length ∉ prov.treeTags index := by
        intro inTree
        exact Nat.lt_irrefl _ (lt_of_allocOf (holds.wellFormed.members index _ inTree))
      by_cases same : alloc = index
      · rw [if_pos same]
        exact List.mem_append_left _ (same ▸ kept)
      · rw [if_neg same, fresh] at member
        exact absurd member absent
    · rename_i old
      have oldMember : tag ∈ prov.treeTags index := by
        split at member
        · rcases List.mem_append.mp member with inTree | last
          · exact inTree
          · exact absurd (List.mem_singleton.mp last) old
        · exact member
      have owner_mem := holds.closed index tag oldMember above edge
      split
      · exact List.mem_append_left _ owner_mem
      · exact owner_mem
  · refine holds.active.snoc holds.wellFormed tags_eq (fun index tag member => ?_)
      (.inl fun off => ?_)
    · rw [trees] at member
      split at member
      · exact (List.mem_append.mp member).imp_right List.mem_singleton.mp
      · exact .inl member
    · rw [List.getElem?_replicate]
      cases kind <;> simp [RetagKind.perm]

theorem Chained.prune (holds : prov.Chained) (pruned : prov.prune = some next) : next.Chained := by
  obtain ⟨rest, length_eq, _, trimmed⟩ := prune_spec pruned
  have tags_eq : next.tags = prov.tags := by
    have tables := congrArg Provenance.tags rest
    exact tables
  have parents : next.parent = prov.parent := by
    funext id
    rw [parent, parent, tags_eq]
  have trees : ∀ index, next.treeTags index = [] ∧ prov.treeTags index = [] ∨ ∃ alloc,
      prov.allocs[index]? = some alloc ∧ prov.treeTags index = alloc.tags ∧
        prov.Trims alloc (next.treeTags index) := by
    intro index
    cases found : prov.allocs[index]? with
    | none =>
      have gone : next.allocs[index]? = none := by
        rw [List.getElem?_eq_none_iff, length_eq]
        exact List.getElem?_eq_none_iff.mp found
      exact .inl (by simp [treeTags, found, gone])
    | some alloc =>
      obtain ⟨tags, next_found, trims⟩ := trimmed index alloc found
      refine .inr ⟨alloc, rfl, by simp [treeTags, found], ?_⟩
      rw [treeTags, next_found]
      exact trims
  refine ⟨holds.wellFormed.prune pruned, fun index tag member owner edge => ?_, ?_⟩
  · rw [parents] at edge
    obtain ⟨gone, _⟩ | ⟨alloc, _, tree_eq, trims⟩ := trees index
    · simp [gone] at member
    · obtain ⟨keep, kept_eq⟩ := trims.filtered
      have inTree : tag ∈ prov.treeTags index := by
        rw [tree_eq]
        rw [kept_eq] at member
        exact (List.mem_filter.mp member).1
      have owner_mem := holds.closed index tag inTree owner edge
      exact trims.upward tag member owner (tree_eq ▸ owner_mem) edge
  · refine holds.active.frame parents (permAt_of_tags tags_eq) fun index tag member => ?_
    obtain ⟨gone, _⟩ | ⟨alloc, _, tree_eq, trims⟩ := trees index
    · simp [gone] at member
    · obtain ⟨keep, kept_eq⟩ := trims.filtered
      rw [tree_eq]
      rw [kept_eq] at member
      exact (List.mem_filter.mp member).1

theorem Chained.access (holds : prov.Chained) {ptr : RawPtr} {len : Nat} {kind : AccessKind}
    {answer : Except UbFinding Unit}
    (answered : prov.access ptr len kind span = some (answer, next)) : next.Chained := by
  have moved : ∀ {index entry lo hi through after},
      prov.Passes ptr len kind index entry lo hi through after → after.Chained := by
    intro index entry lo hi through after passes
    have same := passes.moves.sameForest
    exact ⟨holds.wellFormed.keep same, holds.closed.keep same,
      holds.active.moves holds.wellFormed holds.closed passes.permitted passes.moves⟩
  cases effect_of_access holds.wellFormed answered with
  | refused finding => exact holds
  | unread finding passes => exact moved passes
  | passed passes =>
    refine (moved passes).keep (sameForest_initialized _ _ _ kind) (permAt_of_tags ?_)
    cases kind <;> rfl

/-- Every operation keeps the invariant as long as a retag names a parent of the tree. -/
theorem chained_perform (holds : prov.Chained) (kept : prov.RetagKept op) {answer : ProvAnswer}
    (performed : prov.perform op = some (answer, next)) : next.Chained := by
  cases leaves_of_perform performed with
  | hostAlloc => exact holds.hostAlloc _ _ _
  | @hostFree ptr =>
    have same := sameForest_hostFree prov ptr
    exact ⟨holds.wellFormed.keep same, holds.closed.keep same,
      holds.active.hostFree holds.wellFormed ptr⟩
  | bindPlace | rebindPlace | restorePlace =>
    exact holds.keep (sameForest_markDisplaced _ _) (permAt_of_tags (tags_markDisplaced _ _))
  | dropFrame | assumed => exact holds.keep ⟨rfl, rfl⟩ rfl
  | prune ran => exact holds.prune ran
  | retag minted => exact holds.retag kept minted
  | @retagPlace key _ _ _ span _ _ minted =>
    exact (holds.placeAlloc key none span).retag (placeAlloc_kept kept) minted
  | @unprotect tag => exact holds.keep (sameForest_unprotect prov tag) (permAt_unprotect prov tag)
  | @expose ptr =>
    refine holds.keep (sameForest_expose prov ptr) (permAt_of_tags ?_)
    unfold Provenance.expose
    split <;> rfl
  | @regionFreed regions =>
    have same := sameForest_regionFreed prov regions
    exact ⟨holds.wellFormed.keep same, holds.closed.keep same,
      holds.active.regionFreed holds.wellFormed regions⟩
  | @regionFrozen regions =>
    have same := sameForest_regionFrozen prov regions
    exact ⟨holds.wellFormed.keep same, holds.closed.keep same,
      holds.active.regionFrozen holds.wellFormed regions⟩
  | @initRange ptr len =>
    refine holds.keep (sameForest_initRange prov ptr len) (permAt_of_tags ?_)
    unfold Provenance.initRange
    split <;> rfl
  | access accessed | accessPlace accessed => exact holds.access accessed
  | refuted | unplaced => exact holds

theorem chained_new : new.Chained := by
  refine ⟨wellFormed_new, fun index tag member => ?_, fun index off tag member => ?_⟩
  · simp [treeTags, new] at member
  · simp [treeTags, new] at member

/-! ## Writes -/

/-- A write that goes through disables every tag off its chain. -/
theorem writeDisables_of_access (holds : prov.WellFormed) {ptr : RawPtr} {len : Nat}
    (answered : prov.access ptr len .write span = some (.ok (), next)) :
    prov.WriteDisables next ptr len := by
  cases effect_of_access holds answered with
  | passed passes =>
    rename_i index entry lo hi through after
    obtain ⟨target, found, inside, _⟩ := of_opened passes.opened
    obtain ⟨start, stop⟩ := range_of_opened passes.opened
    have same : prov.SameForest (after.initialized index lo hi .write) :=
      passes.moves.sameForest.trans (sameForest_initialized _ _ _ _)
    refine ⟨index, entry, through, target, found, passes.named, ?_⟩
    intro node member apart off lower upper
    rw [same.treeTags_eq] at member
    rw [same.parent_eq] at apart
    have covered : off ∈ bytes lo hi := mem_bytes.mpr (by omega)
    have foreign : prov.childOf node through = false := by
      rw [← Bool.not_eq_true, childOf_iff]
      exact apart
    have minted := holds.members index node member
    have present : (prov.permAt node off).isSome :=
      (permAt_isSome holds minted found off).mpr
        (Nat.lt_of_lt_of_le (mem_bytes.mp covered).2 inside)
    obtain ⟨current, current_eq⟩ := Option.isSome_iff_exists.mp present
    have later := passes.moves.perms node off
    rw [current_eq, Option.map_some, if_pos ⟨member, covered⟩, foreign] at later
    have perms : (after.initialized index lo hi .write).permAt = after.permAt :=
      permAt_of_tags rfl
    rw [perms, later]
    cases current <;> rfl

theorem writesDisable_perform (holds : prov.WellFormed) {answer : ProvAnswer}
    (performed : prov.perform op = some (answer, next)) : prov.WritesDisable op answer next := by
  unfold WritesDisable
  split
  · obtain ⟨⟨verdict, later⟩, accessed, same⟩ := Option.map_eq_some_iff.mp performed
    obtain ⟨verdict_eq, rfl⟩ := Prod.mk.inj same
    obtain rfl := ProvAnswer.verdict.inj verdict_eq
    exact writeDisables_of_access holds accessed
  · rename_i key span
    intro alloc tag bound
    obtain ⟨⟨verdict, later⟩, accessed, same⟩ := Option.map_eq_some_iff.mp performed
    obtain ⟨verdict_eq, rfl⟩ := Prod.mk.inj same
    obtain rfl := ProvAnswer.verdict.inj verdict_eq
    simp only [accessPlace, bound] at accessed
    exact writeDisables_of_access holds accessed
  · trivial

end Invariant

/-- In every run whose retags name parents of the tree, the active tags of every tree form a chain
at every byte, and every write that goes through disables the tags off its chain. -/
theorem activeChain_of_guarded {ops : List ProvOp} (kept : Guarded step RetagKept new ops) :
    Always step ActiveChain new ops ∧ ∀ front op rest state answer next, ops = front ++ op :: rest →
        exec step new front = some state → perform state op = some (answer, next) →
          WritesDisable state op answer next := by
  have preserved : ∀ state op next, Chained state → RetagKept state op →
      step state op = some next → Chained next := by
    intro state op next holds guard performed
    obtain ⟨⟨answer, later⟩, answered, rfl⟩ := Option.map_eq_some_iff.mp performed
    exact chained_perform holds guard answered
  have chained : Always step Chained new ops :=
    always_of_guarded Chained RetagKept chained_new preserved kept
  refine ⟨fun front rest state split run => (chained front rest state split run).active, ?_⟩
  intro front op rest state answer next split run performed
  exact writesDisable_perform (chained front (op :: rest) state split run).wellFormed performed

/-- A child of a tag that a prune has dropped, and a write through it. -/
def retagUnderPruned : List ProvOp :=
  [.hostAlloc 1 0 ⟨0, 1⟩, .retag 0 0 .mutable false "outer" ⟨2, 3⟩, .prune,
    .retag 0 1 .mutable false "inner" ⟨4, 5⟩,
    .access { alloc := some 0, offset := 0, prov := .tag 2, elem := 1 } 1 .write ⟨6, 7⟩]

/-- The write activates the child while the dropped parent stays reserved. -/
theorem activeChain_broken_by_prune : ¬ ∀ ops : List ProvOp, Always step ActiveChain new ops ∧
      ∀ front op rest state answer next, ops = front ++ op :: rest →
        exec step new front = some state → perform state op = some (answer, next) →
          WritesDisable state op answer next := by
  intro claim
  have chain := (claim retagUnderPruned).1 retagUnderPruned [] _ (by simp) rfl
  have above := (chain 0 0 2 (by decide) (by decide)).1 1 (by decide)
  exact absurd above (by decide)

/-- A child of a tag that an exposure keeps in its tree, and a write through it. -/
def retagUnderExposed : List ProvOp :=
  [.hostAlloc 1 0 ⟨0, 1⟩, .retag 0 0 .mutable false "outer" ⟨2, 3⟩,
    .expose { alloc := some 0, offset := 0, prov := .tag 1, elem := 1 }, .prune,
    .retag 0 1 .mutable false "inner" ⟨4, 5⟩,
    .access { alloc := some 0, offset := 0, prov := .tag 2, elem := 1 } 1 .write ⟨6, 7⟩]

theorem activeChain_retagUnderExposed : Always step ActiveChain new retagUnderExposed :=
  (activeChain_of_guarded (by decide)).1

end WolfInterp.Provenance
