import WolfInterp.Prov.Machine

/-!
# Borrow trees and one access

The shape of the tag table, and what one access does to it: the first breach of the transition
table decides the row, and without a breach every byte of every tag of the tree moves as the table
says. Later results read these lemmas and unfold no part of the access check.
-/

namespace WolfInterp

open ParentChain

/-- A tag without its permissions, their number apart. -/
def Tag.bare (tag : Tag) : Tag := { tag with perms := tag.perms.map fun _ => .disabled }

/-- The place of a tag in the forest, and how many permissions it has. -/
structure Frame where
  alloc : AllocId
  parent : Option TagId
  perms : Nat

def Tag.frame (tag : Tag) : Frame := ⟨tag.alloc, tag.parent, tag.perms.length⟩

/-- The size of an allocation, its root and its tree. -/
structure Plot where
  size : Nat
  root : TagId
  tags : List TagId

def Alloc.plot (alloc : Alloc) : Plot := ⟨alloc.size, alloc.root, alloc.tags⟩

namespace Provenance

/-! ## The shape of the tables -/

/-- The tag table without the permissions. -/
def arena (prov : Provenance) : List Tag := prov.tags.map Tag.bare

def frames (prov : Provenance) : List Frame := prov.tags.map Tag.frame

def grove (prov : Provenance) : List Plot := prov.allocs.map Alloc.plot

/-- The allocation a tag was minted for. -/
def allocOf (prov : Provenance) (id : TagId) : Option AllocId := (prov.tags[id]?).map Tag.alloc

/-- Parents come before their children in the table and belong to the same allocation, every tag
has a permission for each byte of its allocation, and every tree holds its root and tags of its
own allocation only. -/
structure WellFormed (prov : Provenance) : Prop where
  parented : ∀ id owner, prov.parent id = some owner →
    owner < id ∧ prov.allocOf owner = prov.allocOf id
  sized : ∀ (id : TagId) (frame : Frame), prov.frames[id]? = some frame →
    ∃ plot, prov.grove[frame.alloc]? = some plot ∧ frame.perms = plot.size
  planted : ∀ (index : AllocId) (plot : Plot), prov.grove[index]? = some plot →
    plot.root ∈ plot.tags ∧ prov.parent plot.root = none
  members : ∀ id tag, tag ∈ prov.treeTags id → prov.allocOf tag = some id

section

variable (prov : Provenance)

theorem length_arena : prov.arena.length = prov.tags.length := by
  simp [arena]

theorem arena_get (id : TagId) :
    prov.arena[id]? = (prov.tags[id]?).map Tag.bare := by
  simp [arena]

theorem parent_eq_arena (id : TagId) :
    prov.parent id = (prov.arena[id]?).bind Tag.parent := by
  rw [parent, arena_get]
  cases prov.tags[id]? <;> rfl

theorem isProtected_eq_arena (id : TagId) :
    prov.isProtected id = (prov.arena[id]?).elim false Tag.isProtected := by
  rw [isProtected, arena_get]
  cases prov.tags[id]? <;> rfl

theorem allocOf_eq_arena (id : TagId) :
    prov.allocOf id = (prov.arena[id]?).map Tag.alloc := by
  rw [allocOf, arena_get]
  cases prov.tags[id]? <;> rfl

theorem treeTags_eq_grove (id : AllocId) :
    prov.treeTags id = (prov.grove[id]?).elim [] Plot.tags := by
  rw [treeTags, grove, List.getElem?_map]
  cases prov.allocs[id]? <;> rfl

end

/-- Machines with one arena agree on everything but permissions. -/
theorem arena_congr {before after : Provenance} (same : after.arena = before.arena) :
    after.parent = before.parent ∧ after.isProtected = before.isProtected ∧
      after.allocOf = before.allocOf ∧ after.tags.length = before.tags.length := by
  refine ⟨funext fun id => ?_, funext fun id => ?_, funext fun id => ?_, ?_⟩
  · rw [parent_eq_arena, parent_eq_arena, same]
  · rw [isProtected_eq_arena, isProtected_eq_arena, same]
  · rw [allocOf_eq_arena, allocOf_eq_arena, same]
  · rw [← length_arena, ← length_arena, same]

theorem frames_of_arena {before after : Provenance} (same : after.arena = before.arena) :
    after.frames = before.frames := by
  have frame_bare : Tag.frame ∘ Tag.bare = Tag.frame := by
    funext tag
    simp [Tag.frame, Tag.bare]
  have frames_eq : ∀ prov : Provenance, prov.frames = prov.arena.map Tag.frame := by
    intro prov
    rw [frames, arena, List.map_map, frame_bare]
  rw [frames_eq, frames_eq, same]

theorem frames_get (prov : Provenance) (id : TagId) :
    prov.frames[id]? = (prov.tags[id]?).map Tag.frame := by
  simp [frames]

theorem parent_eq_frames (prov : Provenance) (id : TagId) :
    prov.parent id = (prov.frames[id]?).bind Frame.parent := by
  rw [parent, frames_get]
  cases prov.tags[id]? <;> rfl

theorem allocOf_eq_frames (prov : Provenance) (id : TagId) :
    prov.allocOf id = (prov.frames[id]?).map Frame.alloc := by
  rw [allocOf, frames_get]
  cases prov.tags[id]? <;> rfl

theorem grove_get (prov : Provenance) (id : AllocId) :
    prov.grove[id]? = (prov.allocs[id]?).map Alloc.plot := by
  simp [grove]

/-- Well-formedness is a fact about the frames and the grove. -/
theorem WellFormed.congr {before after : Provenance} (holds : before.WellFormed)
    (sameFrames : after.frames = before.frames) (sameGrove : after.grove = before.grove) :
    after.WellFormed := by
  have parents : after.parent = before.parent := by
    funext id
    rw [parent_eq_frames, parent_eq_frames, sameFrames]
  have allocs : after.allocOf = before.allocOf := by
    funext id
    rw [allocOf_eq_frames, allocOf_eq_frames, sameFrames]
  have trees : after.treeTags = before.treeTags := by
    funext id
    rw [treeTags_eq_grove, treeTags_eq_grove, sameGrove]
  constructor
  · rw [parents, allocs]
    exact holds.parented
  · rw [sameFrames, sameGrove]
    exact holds.sized
  · rw [sameGrove, parents]
    exact holds.planted
  · rw [trees, allocs]
    exact holds.members

/-- A tag has a permission for each byte of its allocation. -/
theorem WellFormed.length_perms {prov : Provenance} (wellFormed : prov.WellFormed) {id : TagId}
    {tag : Tag} (tag_found : prov.tags[id]? = some tag) {alloc : Alloc}
    (alloc_found : prov.allocs[tag.alloc]? = some alloc) : tag.perms.length = alloc.size := by
  obtain ⟨plot, plot_found, length_eq⟩ :=
    wellFormed.sized id tag.frame (by rw [frames_get, tag_found, Option.map_some])
  rw [show tag.frame.alloc = tag.alloc from rfl, grove_get, alloc_found,
    Option.map_some] at plot_found
  exact length_eq.trans (congrArg Plot.size (Option.some.inj plot_found)).symm

/-- The root of an allocation is in its tree and has no parent. -/
theorem WellFormed.root_mem {prov : Provenance} (wellFormed : prov.WellFormed) {index : AllocId}
    {alloc : Alloc} (found : prov.allocs[index]? = some alloc) :
    alloc.root ∈ prov.treeTags index ∧ prov.parent alloc.root = none := by
  have planted := wellFormed.planted index alloc.plot (by rw [grove_get, found, Option.map_some])
  rw [treeTags, found]
  exact planted

/-! ## Children and ancestors -/

section Shape

variable {prov : Provenance}

theorem WellFormed.acyclic (wellFormed : prov.WellFormed) : Acyclic prov.parent :=
  acyclic_of_lt fun node owner edge => (wellFormed.parented node owner edge).1

theorem allocOf_isSome_iff (id : TagId) : (prov.allocOf id).isSome ↔ id < prov.tags.length := by
  simp [allocOf]

theorem lt_of_allocOf {id : TagId} {alloc : AllocId} (minted : prov.allocOf id = some alloc) :
    id < prov.tags.length :=
  (allocOf_isSome_iff id).mp (by simp [minted])

theorem lt_of_parent {id owner : TagId} (edge : prov.parent id = some owner) :
    id < prov.tags.length := by
  obtain ⟨tag, found, _⟩ := Option.bind_eq_some_iff.mp edge
  exact (List.getElem?_eq_some_iff.mp found).1

/-- Is `node` the accessing tag or one of its ancestors, without the panics? -/
def childOf (prov : Provenance) (node through : TagId) : Bool :=
  climb prov.parent node (prov.tags.length + 1) through

theorem childOf_iff {node through : TagId} :
    prov.childOf node through = true ↔ Ancestor prov.parent node through := by
  have covered : ∀ id, (prov.parent id).isSome → id ∈ List.range prov.tags.length := by
    intro id hasParent
    obtain ⟨owner, edge⟩ := Option.isSome_iff_exists.mp hasParent
    exact List.mem_range.mpr (lt_of_parent edge)
  exact climb_iff covered (by simp)

theorem walkUp_eq (wellFormed : prov.WellFormed) (node : TagId) {fuel current : Nat}
    (real : current < prov.tags.length) :
    prov.walkUp node fuel current = some (climb prov.parent node (fuel + 1) current) := by
  induction fuel generalizing current with
  | zero =>
    by_cases here : current = node
    · simp [walkUp, climb, here]
    · cases owner : prov.parent current <;> simp [walkUp, climb, here, owner]
  | succ fuel induction =>
    by_cases here : current = node
    · simp [walkUp, climb, here]
    · have found : prov.tags[current]? = some prov.tags[current] := List.getElem?_eq_getElem real
      have edge : prov.parent current = prov.tags[current].parent := by simp [parent, found]
      rw [walkUp, if_neg here, found, climb, if_neg here, edge]
      cases owner : prov.tags[current].parent with
      | none => simp only [owner]
      | some above =>
        have above_lt := (wellFormed.parented current above (edge.trans owner)).1
        simp only [owner]
        exact induction (Nat.lt_trans above_lt real)

/-- The parent walk of the access check decides the child test. -/
theorem isChildAccess_eq (wellFormed : prov.WellFormed) (node : TagId) {through : TagId}
    (real : through < prov.tags.length) :
    prov.isChildAccess node through = some (prov.childOf node through) :=
  walkUp_eq wellFormed node real

/-! ## Permissions -/

theorem permAt_isSome (wellFormed : prov.WellFormed) {id : TagId} {index : AllocId} {alloc : Alloc}
    (minted : prov.allocOf id = some index) (found : prov.allocs[index]? = some alloc) (off : Nat) :
    (prov.permAt id off).isSome ↔ off < alloc.size := by
  obtain ⟨tag, tag_found, rfl⟩ := Option.map_eq_some_iff.mp minted
  simp [permAt, tag_found, wellFormed.length_perms tag_found found]

end Shape

/-! ## The borrow tree prints -/

section Text

variable {prov : Provenance}

theorem mapM_isSome {Input Output : Type} {make : Input → Option Output} {inputs : List Input}
    (all : ∀ input ∈ inputs, (make input).isSome) : (inputs.mapM make).isSome := by
  induction inputs with
  | nil => rfl
  | cons input inputs induction =>
    obtain ⟨first, first_eq⟩ := Option.isSome_iff_exists.mp (all input List.mem_cons_self)
    obtain ⟨rest, rest_eq⟩ := Option.isSome_iff_exists.mp
      (induction fun other member => all other (List.mem_cons_of_mem input member))
    simp [List.mapM_cons, first_eq, rest_eq]

section

variable {index : AllocId} {alloc : Alloc} (wellFormed : prov.WellFormed)
  (found : prov.allocs[index]? = some alloc)
include wellFormed found

/-- A tree over an allocation with at least one byte prints. -/
theorem render_isSome (positive : 0 < alloc.size) {fuel : Nat} {tag : TagId}
    (minted : prov.allocOf tag = some index) (depth : Nat) :
    (prov.render fuel tag depth).isSome := by
  induction fuel generalizing tag depth with
  | zero => rfl
  | succ fuel induction =>
    obtain ⟨entry, entry_found, entry_alloc⟩ := Option.map_eq_some_iff.mp minted
    have length_eq := wellFormed.length_perms entry_found (entry_alloc ▸ found)
    obtain ⟨word, word_eq⟩ : ∃ word, squashed entry.perms = some word := by
      cases perms : entry.perms with
      | nil => simp [perms] at length_eq; omega
      | cons first rest => exact ⟨_, rfl⟩
    have below : (((prov.treeTags entry.alloc).filter fun child =>
        prov.parent child = some tag).mapM fun child =>
          prov.render fuel child (depth + 1)).isSome := by
      refine mapM_isSome fun child member => induction ?_ (depth + 1)
      have inTree := (List.mem_filter.mp member).1
      exact entry_alloc ▸ wellFormed.members entry.alloc child inTree
    obtain ⟨lines, lines_eq⟩ := Option.isSome_iff_exists.mp below
    simp [render, entry_found, word_eq, lines_eq]

theorem tree_isSome_iff : (prov.tree index).isSome ↔ 0 < alloc.size := by
  have minted := wellFormed.members index alloc.root (wellFormed.root_mem found).1
  constructor
  · intro printed
    by_contra empty
    obtain ⟨entry, entry_found, entry_alloc⟩ := Option.map_eq_some_iff.mp minted
    have length_eq := wellFormed.length_perms entry_found (entry_alloc ▸ found)
    have noPerms : entry.perms = [] := by
      rw [← List.length_eq_zero_iff, length_eq]
      exact Nat.eq_zero_of_not_pos empty
    simp [tree, found, render, entry_found, noPerms, squashed] at printed
  · intro positive
    obtain ⟨lines, lines_eq⟩ := Option.isSome_iff_exists.mp
      (show (prov.render (prov.tags.length + 1) alloc.root 1).isSome from
        render_isSome wellFormed found positive minted 1)
    simp [tree, found, lines_eq]

end

end Text

end Provenance

end WolfInterp
