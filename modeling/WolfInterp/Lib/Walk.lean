import Mathlib.Data.List.Basic
import Mathlib.Data.Option.Basic

/-!
# Walks in a tree whose children have names

A tree of any shape is known by its partial lens: the child a step names, and the tree with that
child replaced. A path of steps names a descendant. The rules say how a change at one path is seen
from another: at the path itself, below it, above it, and at a path that branches off.
-/

/-- The children of a tree's nodes: what a step names, and how that child is replaced. -/
structure Lens (Node Step : Type*) where
  child : Node → Step → Option Node
  graft : Node → Step → Node → Node
  child_graft : ∀ {node step old}, child node step = some old →
    ∀ new, child (graft node step new) step = some new
  child_graft_ne : ∀ {node step other}, other ≠ step →
    ∀ new, child (graft node step new) other = child node other
  graft_child : ∀ {node step old}, child node step = some old → graft node step old = node
  graft_graft : ∀ node step first second, graft (graft node step first) step second =
    graft node step second

namespace Lens

variable {Node Step : Type*} (lens : Lens Node Step)

/-- The descendant a path names. -/
def walk : Node → List Step → Option Node
  | node, [] => some node
  | node, step :: path => (lens.child node step).bind fun next => walk next path

/-- The tree with the descendant a path names changed; a path that names none changes nothing. -/
def change (update : Node → Node) : Node → List Step → Node
  | node, [] => update node
  | node, step :: path =>
    match lens.child node step with
    | none => node
    | some next => lens.graft node step (change update next path)

variable {lens}

@[simp]
theorem walk_nil (node : Node) : lens.walk node [] = some node := rfl

@[simp]
theorem walk_cons (node : Node) (step : Step) (path : List Step) :
    lens.walk node (step :: path) = (lens.child node step).bind fun next => lens.walk next path :=
  rfl

theorem walk_append (node : Node) (path rest : List Step) : lens.walk node (path ++ rest) =
      (lens.walk node path).bind fun next => lens.walk next rest := by
  induction path generalizing node with
  | nil => rfl
  | cons step path induction =>
    rw [List.cons_append, walk_cons, walk_cons]
    cases lens.child node step with
    | none => rfl
    | some next => exact induction next

theorem change_of_child {node next : Node} {step : Step} (found : lens.child node step = some next)
    (update : Node → Node) (path : List Step) :
    lens.change update node (step :: path) =
      lens.graft node step (lens.change update next path) := by
  rw [change, found]

variable {path other : List Step}

/-- A change at a path that names nothing changes nothing. -/
theorem change_of_walk_none {node : Node} (missing : lens.walk node path = none)
    (update : Node → Node) : lens.change update node path = node := by
  induction path generalizing node with
  | nil => cases missing
  | cons step path induction =>
    cases found : lens.child node step with
    | none => rw [change, found]
    | some next =>
      rw [walk_cons, found] at missing
      rw [change_of_child found, induction missing]
      exact lens.graft_child found

/-- A change at a longer path is a change of what its front names. -/
theorem change_append (update : Node → Node) (node : Node) (path rest : List Step) :
    lens.change update node (path ++ rest) =
      lens.change (fun target => lens.change update target rest) node path := by
  induction path generalizing node with
  | nil => rfl
  | cons step path induction =>
    rw [List.cons_append]
    cases found : lens.child node step with
    | none => simp only [change, found]
    | some next => rw [change_of_child found, change_of_child found, induction]

/-- A change that keeps what the path names keeps the tree. -/
theorem change_of_fixed {node target : Node} {update : Node → Node}
    (found : lens.walk node path = some target) (fixed : update target = target) :
    lens.change update node path = node := by
  induction path generalizing node with
  | nil =>
    cases found
    exact fixed
  | cons step path induction =>
    rw [walk_cons] at found
    obtain ⟨next, child, rest⟩ := Option.bind_eq_some_iff.mp found
    rw [change_of_child child, induction rest]
    exact lens.graft_child child

/-- Two changes at one path are one. -/
theorem change_change (first second : Node → Node) (node : Node) (path : List Step) :
    lens.change second (lens.change first node path) path =
      lens.change (fun target => second (first target)) node path := by
  induction path generalizing node with
  | nil => rfl
  | cons step path induction =>
    cases found : lens.child node step with
    | none =>
      have missing : lens.walk node (step :: path) = none := by rw [walk_cons, found]; rfl
      rw [change_of_walk_none missing, change_of_walk_none missing,
        change_of_walk_none missing]
    | some next =>
      rw [change_of_child found, change_of_child (lens.child_graft found _), induction,
        change_of_child found, lens.graft_graft]

section

variable (update : Node → Node) (node : Node) (path : List Step)

/-- What a path names after a change there. -/
theorem walk_change_self :
    lens.walk (lens.change update node path) path = (lens.walk node path).map update := by
  induction path generalizing node with
  | nil => rfl
  | cons step path induction =>
    cases found : lens.child node step with
    | none =>
      have missing : lens.walk node (step :: path) = none := by rw [walk_cons, found]; rfl
      rw [change_of_walk_none missing, missing]
      rfl
    | some next =>
      rw [change_of_child found, walk_cons, walk_cons, lens.child_graft found, found]
      exact induction next

/-- What lies below a path after a change there. -/
theorem walk_change_below (rest : List Step) :
    lens.walk (lens.change update node path) (path ++ rest) =
      (lens.walk node path).bind fun next => lens.walk (update next) rest := by
  rw [walk_append, walk_change_self]
  cases lens.walk node path <;> rfl

/-- What lies above a path after a change there. -/
theorem walk_change_above (rest : List Step) :
    lens.walk (lens.change update node (path ++ rest)) path =
      (lens.walk node path).map fun next => lens.change update next rest := by
  rw [change_append, walk_change_self]

end

/-- The two paths part at some step. -/
def Parts (path other : List Step) : Prop :=
  ∃ front step rest step' rest', step ≠ step' ∧ path = front ++ step :: rest ∧
    other = front ++ step' :: rest'

/-- A path that branches off sees nothing of a change. -/
theorem walk_change_of_parts (parts : Parts path other) (update : Node → Node) (node : Node) :
    lens.walk (lens.change update node path) other = lens.walk node other := by
  obtain ⟨front, step, rest, step', rest', differ, rfl, rfl⟩ := parts
  rw [walk_append, walk_append, walk_change_above]
  cases lens.walk node front with
  | none => rfl
  | some next =>
    simp only [Option.map_some, Option.bind_some, walk_cons]
    cases found : lens.child next step with
    | none =>
      have missing : lens.walk next (step :: rest) = none := by rw [walk_cons, found]; rfl
      rw [change_of_walk_none missing]
    | some child =>
      rw [change_of_child found, lens.child_graft_ne (Ne.symm differ)]

theorem Parts.symm (parts : Parts path other) : Parts other path := by
  obtain ⟨front, step, rest, step', rest', differ, left, right⟩ := parts
  exact ⟨front, step', rest', step, rest, Ne.symm differ, right, left⟩

theorem Parts.cons_iff {step : Step} : Parts (step :: path) (step :: other) ↔ Parts path other := by
  constructor
  · rintro ⟨front, left, rest, right, rest', differ, one, two⟩
    cases front with
    | nil =>
      obtain ⟨rfl, rfl⟩ := List.cons.inj one
      exact absurd (List.cons.inj two).1 differ
    | cons first front =>
      exact ⟨front, left, rest, right, rest', differ, (List.cons.inj one).2,
        (List.cons.inj two).2⟩
  · rintro ⟨front, left, rest, right, rest', differ, rfl, rfl⟩
    exact ⟨step :: front, left, rest, right, rest', differ, rfl, rfl⟩

/-- Two paths are one before the other, or they part. -/
theorem prefix_or_parts [DecidableEq Step] (path other : List Step) :
    path <+: other ∨ other <+: path ∨ Parts path other := by
  induction path generalizing other with
  | nil => exact .inl (List.nil_prefix)
  | cons step path induction =>
    cases other with
    | nil => exact .inr (.inl List.nil_prefix)
    | cons step' other =>
      by_cases same : step = step'
      · subst same
        rcases induction other with before | after | parts
        · exact .inl (List.cons_prefix_cons.mpr ⟨rfl, before⟩)
        · exact .inr (.inl (List.cons_prefix_cons.mpr ⟨rfl, after⟩))
        · obtain ⟨front, left, rest, right, rest', differ, rfl, rfl⟩ := parts
          exact .inr (.inr ⟨step :: front, left, rest, right, rest', differ, rfl, rfl⟩)
      · exact .inr (.inr ⟨[], step, path, step', other, same, rfl, rfl⟩)

end Lens
