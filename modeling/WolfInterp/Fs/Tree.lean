import Mathlib.Data.List.Basic

/-!
# File trees and the host's walk

A file tree, the texts that name places in it, and the walk by which the host resolves a text: `..`
goes up from the directory that was actually reached, links are followed, and a component that is
missing or no directory ends the walk.
-/

namespace WolfInterp.Fs

abbrev Name := String

/-- A piece of a path between two separators. -/
inductive Segment where
  /-- Nothing: a doubled or trailing separator. -/
  | empty
  | cur
  | parent
  | name (name : Name)
  deriving DecidableEq

/-- A path, as its text cut at the separators. An absolute path starts with one more separator. -/
structure Path where
  absolute : Bool
  segments : List Segment
  nonempty : segments ≠ []
  deriving DecidableEq

/-- A place in the tree, by the names of the directories above it, outermost first. -/
abbrev Place := List Name

inductive Node where
  | file
  | link (target : Path)
  | directory (entries : List (Name × Node))

/-- A file tree: the entries of its root directory. -/
abbrev Tree := List (Name × Node)

/-- What stands below a node, directories only. -/
def Node.find : Node → Place → Option Node
  | node, [] => some node
  | .directory entries, name :: rest => (entries.lookup name).bind (Node.find · rest)
  | _, _ :: _ => none

namespace Tree

variable (tree : Tree)

/-- What stands at a place. -/
def find (place : Place) : Option Node := (Node.directory tree).find place

def isDirectory (place : Place) : Bool :=
  match find tree place with
  | some (.directory _) => true
  | _ => false

/-- The target of the link at a place. -/
def linkAt (place : Place) : Option Path :=
  match find tree place with
  | some (.link target) => some target
  | _ => none

end Tree

/-! ## The host -/

/-- Why the host does not resolve a path. -/
inductive Errno where
  | notFound
  | notDirectory
  | loop
  deriving DecidableEq

/-- Where a path starts: at the root of the tree, or at a directory. -/
def Path.start (path : Path) (directory : Place) : Place := if path.absolute then [] else directory

/-- Most links the host follows in one resolution. -/
def maxSymlinks : Nat := 40

/-- The host's walk from a place, following so many links; the last component may be missing, which
is where the call would create it, and without `follow` a link there is not followed. -/
def hostWalk (tree : Tree) (follow : Bool) (links : Nat) (place : Place) :
    List Segment → Except Errno Place
  | [] => .ok place
  | segment :: rest =>
    if ¬ tree.isDirectory place then .error .notDirectory
    else match segment with
      | .empty | .cur => hostWalk tree follow links place rest
      | .parent => hostWalk tree follow links place.dropLast rest
      | .name name => match tree.find (place ++ [name]) with
        | none =>
          if rest.all (· = .empty) then .ok (place ++ [name]) else .error .notFound
        | some (.link target) =>
          if ¬ follow ∧ rest = [] then .ok (place ++ [name])
          else match links with
            | 0 => .error .loop
            | links + 1 =>
              hostWalk tree follow links (target.start place) (target.segments ++ rest)
        | some _ => hostWalk tree follow links (place ++ [name]) rest
termination_by segments => (links, segments.length)

/-- The host's resolution of a path. -/
def resolve (tree : Tree) (follow : Bool) (directory : Place) (path : Path) : Except Errno Place :=
  hostWalk tree follow maxSymlinks (path.start directory) path.segments

/-- The host's walk as a relation: from a place, with so many links to follow, a path's segments
lead to an object and leave so many links. -/
inductive Resolves (tree : Tree) (follow : Bool) :
    Nat → Place → List Segment → Nat → Place → Prop
  | done (links : Nat) (place : Place) : Resolves tree follow links place [] links place
  | skip {links left : Nat} {place object : Place} {segment : Segment} {rest : List Segment}
      (directory : tree.isDirectory place) (skipped : segment = .empty ∨ segment = .cur)
      (walk : Resolves tree follow links place rest left object) :
      Resolves tree follow links place (segment :: rest) left object
  | up {links left : Nat} {place object : Place} {rest : List Segment}
      (directory : tree.isDirectory place)
      (walk : Resolves tree follow links place.dropLast rest left object) :
      Resolves tree follow links place (.parent :: rest) left object
  | create {links : Nat} {place : Place} {name : Name} {rest : List Segment}
      (directory : tree.isDirectory place) (missing : tree.find (place ++ [name]) = none)
      (last : ∀ segment ∈ rest, segment = .empty) :
      Resolves tree follow links place (.name name :: rest) links (place ++ [name])
  | keep {links : Nat} {place : Place} {name : Name} {target : Path}
      (directory : tree.isDirectory place)
      (link : tree.find (place ++ [name]) = some (.link target))
      (unfollowed : follow = false) :
      Resolves tree follow links place [.name name] links (place ++ [name])
  | jump {links left : Nat} {place object : Place} {name : Name} {target : Path}
      {rest : List Segment} (directory : tree.isDirectory place)
      (link : tree.find (place ++ [name]) = some (.link target)) (followed : follow ∨ rest ≠ [])
      (walk : Resolves tree follow links (target.start place) (target.segments ++ rest) left
        object) :
      Resolves tree follow (links + 1) place (.name name :: rest) left object
  | enter {links left : Nat} {place object : Place} {name : Name} {node : Node}
      {rest : List Segment} (directory : tree.isDirectory place)
      (there : tree.find (place ++ [name]) = some node) (plain : ∀ target, node ≠ .link target)
      (walk : Resolves tree follow links (place ++ [name]) rest left object) :
      Resolves tree follow links place (.name name :: rest) left object

theorem resolves_of_hostWalk {tree : Tree} {follow : Bool} {links : Nat} {place object : Place}
    {segments : List Segment} (walked : hostWalk tree follow links place segments = .ok object) :
    ∃ left, Resolves tree follow links place segments left object := by
  fun_induction hostWalk tree follow links place segments with
  | case1 links place =>
    cases walked
    exact ⟨links, .done links _⟩
  | case2 => cases walked
  | case3 links place rest directory ih =>
    obtain ⟨left, walk⟩ := ih walked
    exact ⟨left, .skip (not_not.mp directory) (.inl rfl) walk⟩
  | case4 links place rest directory ih =>
    obtain ⟨left, walk⟩ := ih walked
    exact ⟨left, .skip (not_not.mp directory) (.inr rfl) walk⟩
  | case5 links place rest directory ih =>
    obtain ⟨left, walk⟩ := ih walked
    exact ⟨left, .up (not_not.mp directory) walk⟩
  | case6 links place rest directory name missing last =>
    cases walked
    exact ⟨links, .create (not_not.mp directory) missing (by simpa using last)⟩
  | case7 => cases walked
  | case8 links place rest directory name target link final =>
    obtain ⟨unfollowed, rfl⟩ := final
    cases walked
    exact ⟨links, .keep (not_not.mp directory) link (by simpa using unfollowed)⟩
  | case9 => cases walked
  | case10 place rest directory name target link notFinal links ih =>
    obtain ⟨left, walk⟩ := ih walked
    refine ⟨left, .jump (not_not.mp directory) link ?_ walk⟩
    rw [not_and_or, not_not] at notFinal
    exact notFinal
  | case11 links place rest directory name node plain there ih =>
    obtain ⟨left, walk⟩ := ih walked
    exact ⟨left, .enter (not_not.mp directory) there plain walk⟩

theorem hostWalk_of_resolves {tree : Tree} {follow : Bool} {links left : Nat} {place object : Place}
    {segments : List Segment} (walk : Resolves tree follow links place segments left object) :
    hostWalk tree follow links place segments = .ok object := by
  induction walk with
  | done => rw [hostWalk]
  | skip directory skipped walk ih =>
    rcases skipped with rfl | rfl <;> rw [hostWalk] <;> simp [directory, ih]
  | up directory walk ih => rw [hostWalk]; simp [directory, ih]
  | create directory missing last => rw [hostWalk]; simpa [directory, missing] using last
  | keep directory link unfollowed => rw [hostWalk]; simp [directory, link, unfollowed]
  | jump directory link followed walk ih =>
    rw [hostWalk]
    rw [← ih]
    rcases followed with followed | followed <;> simp [directory, link, followed]
  | @enter _ _ _ _ _ node _ directory there plain walk ih =>
    rw [hostWalk]
    cases node with
    | link target => exact absurd rfl (plain target)
    | _ => simp [directory, there, ih]

/-! ## What stands in a tree -/

theorem Node.find_append (node : Node) (place rest : Place) :
    node.find (place ++ rest) = (node.find place).bind (Node.find · rest) := by
  induction place generalizing node with
  | nil => rfl
  | cons name above ih =>
    cases node with
    | directory entries =>
      simp only [List.cons_append, Node.find, Option.bind_assoc]
      congr 1
      funext node
      exact ih node
    | _ => rfl

variable {tree : Tree}

theorem find_append (place rest : Place) :
    tree.find (place ++ rest) = (tree.find place).bind (Node.find · rest) :=
  Node.find_append _ place rest

/-- What has something below it is a directory. -/
theorem isDirectory_of_find {place : Place} {name : Name}
    (there : (tree.find (place ++ [name])).isSome) : tree.isDirectory place := by
  rw [find_append] at there
  unfold Tree.isDirectory
  cases found : tree.find place with
  | none => simp [found] at there
  | some node => cases node <;> simp_all [Node.find]

/-- No link stands at a place or above it. -/
def LinkFree (tree : Tree) (place : Place) : Prop :=
  ∀ above, above <+: place → tree.linkAt above = none

theorem linkFree_nil : LinkFree tree [] := by
  intro above inside
  rw [List.prefix_nil.mp inside]
  rfl

section

variable {place : Place} (free : LinkFree tree place)
include free

theorem LinkFree.of_prefix {above : Place} (inside : above <+: place) : LinkFree tree above :=
  fun higher below => free higher (below.trans inside)

theorem LinkFree.dropLast :
    LinkFree tree place.dropLast :=
  free.of_prefix (List.dropLast_prefix place)

theorem LinkFree.append {name : Name} (plain : tree.linkAt (place ++ [name]) = none) :
    LinkFree tree (place ++ [name]) := by
  intro above inside
  rcases List.prefix_concat_iff.mp inside with rfl | higher
  · exact plain
  · exact free above higher

end

end WolfInterp.Fs
