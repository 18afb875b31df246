import Mathlib.Data.List.Nodup
import Mathlib.Data.List.Perm.Subperm
import Mathlib.Data.Nat.Find

/-!
# Parent chains

A forest given by one optional parent per node. Ancestry is the reflexive-transitive closure of
the parent edge; the executable walk climbs parent edges under a step bound, and decides ancestry
as soon as the forest is acyclic and the bound exceeds the number of nodes that have a parent.
-/

namespace ParentChain

open Relation

variable {Node : Type*}

/-- `above` is the parent of `below`. -/
def Owns (parent : Node → Option Node) (above below : Node) : Prop := parent below = some above

/-- `ancestor` lies on the parent chain of `node`, the node itself included. -/
def Ancestor (parent : Node → Option Node) : Node → Node → Prop := ReflTransGen (Owns parent)

/-- No node is its own proper ancestor. -/
def Acyclic (parent : Node → Option Node) : Prop := ∀ node, ¬ TransGen (Owns parent) node node

variable {parent : Node → Option Node}

theorem owns_unique {first second below : Node} (left : Owns parent first below)
    (right : Owns parent second below) : first = second :=
  Option.eq_some_unique left right

variable {ancestor node : Node}

/-- A proper ancestor of a node is an ancestor of the node's parent. -/
theorem transGen_iff_parent : TransGen (Owns parent) ancestor node ↔
      ∃ above, parent node = some above ∧ Ancestor parent ancestor above := by
  rw [TransGen.tail'_iff]
  exact ⟨fun ⟨above, chain, edge⟩ => ⟨above, edge, chain⟩,
    fun ⟨above, edge, chain⟩ => ⟨above, chain, edge⟩⟩

/-- Every ancestor of a node on a cycle is on a cycle. -/
theorem cycle_of_ancestor (cycle : TransGen (Owns parent) node node)
    (chain : Ancestor parent ancestor node) : TransGen (Owns parent) ancestor ancestor := by
  induction chain using ReflTransGen.head_induction_on with
  | refl => exact cycle
  | @head above below edge _ induction =>
    obtain ⟨owner, owner_eq, loop⟩ := transGen_iff_parent.mp induction
    obtain rfl : owner = above := owns_unique owner_eq edge
    exact TransGen.head' edge loop

/-- A parent map that only decreases has no cycle. -/
theorem acyclic_of_lt {parent : Nat → Option Nat}
    (decreases : ∀ node owner, parent node = some owner → owner < node) : Acyclic parent := by
  have below : ∀ {top node}, TransGen (Owns parent) top node → top < node := by
    intro top node chain
    induction chain with
    | single edge => exact decreases _ _ edge
    | tail _ edge induction => exact Nat.lt_trans induction (decreases _ _ edge)
  exact fun node cycle => Nat.lt_irrefl node (below cycle)

/-! ## Climbing -/

/-- The node `steps` parent edges above `node`. -/
def up (parent : Node → Option Node) : Nat → Node → Option Node
  | 0, node => some node
  | steps + 1, node => (parent node).bind (up parent steps)

/-- In an acyclic forest a climb visits distinct nodes, all of which have a parent. -/
theorem exists_chain_of_up (acyclic : Acyclic parent) {steps : Nat} {top : Node}
    (climbed : up parent steps node = some top) :
    ∃ visited : List Node, visited.length = steps ∧ visited.Nodup ∧
      ∀ visitedNode ∈ visited, (parent visitedNode).isSome ∧ Ancestor parent visitedNode node := by
  induction steps generalizing node with
  | zero => exact ⟨[], rfl, List.nodup_nil, by simp⟩
  | succ steps induction =>
    obtain ⟨above, above_eq, higher⟩ := Option.bind_eq_some_iff.mp climbed
    obtain ⟨visited, length_eq, nodup, members⟩ := induction higher
    refine ⟨node :: visited, by simp [length_eq], ?_, ?_⟩
    · refine List.nodup_cons.mpr ⟨fun member => ?_, nodup⟩
      exact acyclic node (transGen_iff_parent.mpr ⟨above, above_eq, (members node member).2⟩)
    · intro visitedNode member
      obtain rfl | member := List.mem_cons.mp member
      · exact ⟨by simp [above_eq], ReflTransGen.refl⟩
      · exact ⟨(members visitedNode member).1,
          ReflTransGen.tail (members visitedNode member).2 above_eq⟩

/-- A climb longer than the list of nodes that have a parent leaves the forest. -/
theorem up_eq_none (acyclic : Acyclic parent) {domain : List Node}
    (covered : ∀ node, (parent node).isSome → node ∈ domain) {steps : Nat}
    (enough : domain.length < steps) (node : Node) : up parent steps node = none := by
  by_contra climbed
  obtain ⟨top, top_eq⟩ := Option.ne_none_iff_exists'.mp climbed
  obtain ⟨visited, length_eq, nodup, members⟩ := exists_chain_of_up acyclic top_eq
  have inside : visited ⊆ domain := fun visitedNode member =>
    covered visitedNode (members visitedNode member).1
  have bounded : visited.length ≤ domain.length := (nodup.subperm inside).length_le
  omega

theorem up_add (first second : Nat) (node : Node) :
    up parent (first + second) node = (up parent first node).bind (up parent second) := by
  induction first generalizing node with
  | zero => simp [up]
  | succ first induction =>
    rw [Nat.succ_add, up, up, Option.bind_assoc]
    exact congrArg _ (funext fun above => induction above)

theorem exists_up_of_ancestor (chain : Ancestor parent ancestor node) :
    ∃ steps, up parent steps node = some ancestor := by
  induction chain with
  | refl => exact ⟨0, rfl⟩
  | @tail above below _ edge induction =>
    obtain ⟨steps, reached⟩ := induction
    refine ⟨steps + 1, ?_⟩
    rw [up, show parent below = some above from edge]
    exact reached

/-- An ancestor is met after at most as many edges as there are nodes with a parent, cycle or not:
on a shortest climb no node is met twice. -/
theorem exists_short_up {domain : List Node}
    (covered : ∀ node, (parent node).isSome → node ∈ domain)
    (chain : Ancestor parent ancestor node) :
    ∃ steps, up parent steps node = some ancestor ∧ steps ≤ domain.length := by
  classical
  have climbs := exists_up_of_ancestor chain
  obtain ⟨steps, reached, least⟩ : ∃ steps, up parent steps node = some ancestor ∧
      ∀ fewer < steps, up parent fewer node ≠ some ancestor :=
    ⟨Nat.find climbs, Nat.find_spec climbs, fun _ => Nat.find_min climbs⟩
  refine ⟨steps, reached, ?_⟩
  have distinct : ((List.range steps).map fun step => up parent step node).Nodup := by
    refine List.Nodup.map_on (fun first firstBelow second secondBelow same => ?_) List.nodup_range
    -- Two equal stops would leave out the edges between them.
    have cut : ∀ low high, low < high → high < steps →
        up parent low node ≠ up parent high node := by
      intro low high order below equal
      apply least (low + (steps - high)) (by omega)
      rw [up_add, equal, ← up_add, Nat.add_sub_of_le (Nat.le_of_lt below)]
      exact reached
    rw [List.mem_range] at firstBelow secondBelow
    rcases Nat.lt_trichotomy first second with before | equal | after
    · exact absurd same (cut first second before secondBelow)
    · exact equal
    · exact absurd same.symm (cut second first after firstBelow)
  have inside : ((List.range steps).map fun step => up parent step node) ⊆ domain.map some := by
    intro stop member
    obtain ⟨step, below, rfl⟩ := List.mem_map.mp member
    have split : step + (steps - step) = steps := by
      rw [List.mem_range] at below
      omega
    rw [← split, up_add, Option.bind_eq_some_iff] at reached
    obtain ⟨stop, stop_eq, rest⟩ := reached
    rw [stop_eq]
    obtain ⟨left, left_eq⟩ : ∃ left, steps - step = left + 1 := by
      rw [List.mem_range] at below
      exact ⟨steps - step - 1, by omega⟩
    rw [left_eq, up, Option.bind_eq_some_iff] at rest
    obtain ⟨above, above_eq, _⟩ := rest
    exact List.mem_map.mpr ⟨stop, covered stop (by simp [above_eq]), rfl⟩
  simpa using (distinct.subperm inside).length_le

/-! ## The bounded walk -/

section Walk

variable [DecidableEq Node]

/-- Climb at most `fuel` parent edges from `node`, looking for `target`. -/
def climb (parent : Node → Option Node) (target : Node) : Nat → Node → Bool
  | 0, _ => false
  | fuel + 1, node =>
    if node = target then true
    else match parent node with
      | none => false
      | some above => climb parent target fuel above

variable {target : Node}

theorem ancestor_of_climb {fuel : Nat} {node : Node}
    (found : climb parent target fuel node = true) :
    Ancestor parent target node := by
  induction fuel generalizing node with
  | zero => simp [climb] at found
  | succ fuel induction =>
    by_cases here : node = target
    · exact here ▸ ReflTransGen.refl
    · cases above_eq : parent node with
      | none => simp [climb, here, above_eq] at found
      | some above =>
        have later : climb parent target fuel above = true := by
          simpa [climb, here, above_eq] using found
        exact ReflTransGen.tail (induction later) above_eq

/-- A walk longer than the way to a node reaches it. -/
theorem climb_of_up {steps fuel : Nat} {node : Node} (reached : up parent steps node = some target)
    (short : steps < fuel) : climb parent target fuel node = true := by
  induction steps generalizing node fuel with
  | zero =>
    obtain ⟨fuel, rfl⟩ := Nat.exists_eq_succ_of_ne_zero (Nat.ne_of_gt short)
    obtain rfl : node = target := Option.some.inj reached
    simp [climb]
  | succ steps induction =>
    obtain ⟨fuel, rfl⟩ := Nat.exists_eq_succ_of_ne_zero (Nat.ne_zero_of_lt short)
    obtain ⟨above, above_eq, higher⟩ := Option.bind_eq_some_iff.mp reached
    by_cases here : node = target
    · simp [climb, here]
    · simpa [climb, here, above_eq] using induction higher (Nat.lt_of_succ_lt_succ short)

/-- The bounded walk decides ancestry when its bound exceeds the nodes that have a parent. -/
theorem climb_iff {domain : List Node} (covered : ∀ node, (parent node).isSome → node ∈ domain)
    {fuel : Nat} (enough : domain.length < fuel) {node : Node} :
    climb parent target fuel node = true ↔ Ancestor parent target node := by
  refine ⟨ancestor_of_climb, fun chain => ?_⟩
  obtain ⟨steps, reached, bounded⟩ := exists_short_up covered chain
  exact climb_of_up reached (Nat.lt_of_le_of_lt bounded enough)

end Walk

/-! ## Re-parenting one node -/

section Attach

variable [DecidableEq Node] {child owner : Node}

/-- The forest with `child` hung under `owner`. -/
def attach (parent : Node → Option Node) (child owner : Node) : Node → Option Node :=
  fun node => if node = child then some owner else parent node

/-- Above `owner` the chains of the two forests agree unless they meet `child`. -/
theorem ancestor_of_attach (apart : ¬ Ancestor parent child owner) {ancestor : Node}
    (chain : Ancestor (attach parent child owner) ancestor owner) :
    Ancestor parent ancestor owner ∧ ancestor ≠ child := by
  induction chain using ReflTransGen.head_induction_on with
  | refl => exact ⟨ReflTransGen.refl, fun same => apart (same ▸ ReflTransGen.refl)⟩
  | @head above below edge _ induction =>
    obtain ⟨old, differs⟩ := induction
    have oldEdge : Owns parent above below := by
      simpa [Owns, attach, differs] using edge
    have older : Ancestor parent above owner := ReflTransGen.head oldEdge old
    exact ⟨older, fun same => apart (same ▸ older)⟩

/-- Every old chain below `child` is one in the new forest, from its last visit of `child`. -/
theorem attach_ancestor {node : Node} (chain : Ancestor parent child node) :
    Ancestor (attach parent child owner) child node := by
  induction chain with
  | refl => exact ReflTransGen.refl
  | @tail above below old edge induction =>
    by_cases same : below = child
    · exact same ▸ ReflTransGen.refl
    · have newEdge : Owns (attach parent child owner) above below := by
        simpa [Owns, attach, same] using edge
      exact ReflTransGen.tail induction newEdge

/-- An old chain is one in the new forest unless it comes down to `child`. -/
theorem attach_ancestor_or {top node : Node} (chain : Ancestor parent top node) :
    Ancestor (attach parent child owner) top node ∨ Ancestor parent top child := by
  induction chain with
  | refl => exact .inl ReflTransGen.refl
  | @tail above below old edge induction =>
    by_cases same : below = child
    · exact .inr (same ▸ ReflTransGen.tail old edge)
    · have newEdge : Owns (attach parent child owner) above below := by
        simpa [Owns, attach, same] using edge
      exact induction.imp_left fun chain => ReflTransGen.tail chain newEdge

/-- A new chain is an old one, or goes through the new edge. -/
theorem ancestor_or_of_attach {top node : Node}
    (chain : Ancestor (attach parent child owner) top node) :
    Ancestor parent top node ∨ Ancestor parent top owner ∧ Ancestor parent child node := by
  induction chain with
  | refl => exact .inl ReflTransGen.refl
  | @tail above below _ edge induction =>
    by_cases same : below = child
    · subst same
      obtain rfl : owner = above := by simpa [Owns, attach] using edge
      refine .inr ⟨?_, ReflTransGen.refl⟩
      rcases induction with old | ⟨old, _⟩
      · exact old
      · exact old
    · have oldEdge : Owns parent above below := by simpa [Owns, attach, same] using edge
      exact induction.imp (fun old => ReflTransGen.tail old oldEdge)
        (fun both => ⟨both.1, ReflTransGen.tail both.2 oldEdge⟩)

/-- Hanging `child` under `owner` keeps the forest acyclic exactly when `child` is not already an
ancestor of `owner`. -/
theorem acyclic_attach_iff (acyclic : Acyclic parent) :
    Acyclic (attach parent child owner) ↔ ¬ Ancestor parent child owner := by
  have newEdge : Owns (attach parent child owner) owner child := by simp [Owns, attach]
  constructor
  · intro stillAcyclic chain
    exact stillAcyclic child (TransGen.tail' (attach_ancestor chain) newEdge)
  · intro apart node cycle
    -- A cycle through `child` would climb from `owner` back to `child`.
    have avoids : ∀ {member}, Ancestor (attach parent child owner) member node →
        member ≠ child := by
      rintro member chain rfl
      obtain ⟨above, above_eq, loop⟩ :=
        transGen_iff_parent.mp (cycle_of_ancestor cycle chain)
      obtain rfl : above = owner := owns_unique above_eq newEdge
      exact (ancestor_of_attach apart loop).2 rfl
    have oldEdge : ∀ {above below}, Ancestor (attach parent child owner) below node →
        Owns (attach parent child owner) above below → Owns parent above below := by
      intro above below chain edge
      simpa [Owns, attach, avoids chain] using edge
    have oldChain : ∀ {member}, Ancestor (attach parent child owner) member node →
        Ancestor parent member node := by
      intro member chain
      induction chain using ReflTransGen.head_induction_on with
      | refl => exact ReflTransGen.refl
      | head edge rest induction => exact ReflTransGen.head (oldEdge rest edge) induction
    obtain ⟨below, edge, rest⟩ := TransGen.head'_iff.mp cycle
    exact acyclic node (TransGen.head' (oldEdge rest edge) (oldChain rest))

end Attach

end ParentChain
