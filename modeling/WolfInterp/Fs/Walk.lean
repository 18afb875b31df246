import WolfInterp.Fs.Tree

/-!
# The containment walk

The machine's own resolution of a path against the served tree, and the doors of the path calls
that decide by it.
-/

namespace WolfInterp.Fs

/-! ## Paths -/

/-- A path's components: doubled and trailing separators are gone, and dots but a leading one. -/
inductive Component where
  | rootDir
  | curDir
  | parentDir
  | normal (segment : Name)
  deriving DecidableEq

def Segment.component : Segment → Option Component
  | .empty | .cur => none
  | .parent => some .parentDir
  | .name word => some (.normal word)

def Segment.isSkipped (segment : Segment) : Bool := segment = .empty ∨ segment = .cur

namespace Path

def components (path : Path) : List Component :=
  (if path.absolute then [.rootDir]
    else if path.segments.head? = some .cur then [.curDir] else []) ++
  path.segments.filterMap Segment.component

/-- The empty text. -/
def isEmpty (path : Path) : Bool := ¬ path.absolute ∧ path.segments = [.empty]

/-- The other path taken against this one; an absolute one stands alone. -/
def join (path other : Path) : Path :=
  if other.absolute then other
  else {
    absolute := path.absolute
    segments := (if path.segments.getLast? = some .empty then path.segments.dropLast
      else path.segments) ++ other.segments
    nonempty := List.append_ne_nil_of_right_ne_nil _ other.nonempty }

/-- The segments above the last component, without the separators and dots at their end; a leading
dot stays, and where nothing is left the text is the root's or empty. -/
def aboveLast (path : Path) (above : List Segment) : List Segment :=
  match (above.dropWhile Segment.isSkipped).reverse with
  | [] => if ¬ path.absolute ∧ above.getLast? = some .cur then [.cur] else [.empty]
  | kept => kept

theorem aboveLast_ne_nil (path : Path) (above : List Segment) : path.aboveLast above ≠ [] := by
  unfold aboveLast
  split
  · split <;> simp
  · rename_i kept notNil
    exact notNil

/-- The path without its last component, and what that component is. -/
def parentLast (path : Path) : Option (Path × Segment) :=
  match path.segments.reverse.dropWhile Segment.isSkipped with
  | [] => none
  | last :: above =>
    some (⟨path.absolute, path.aboveLast above, path.aboveLast_ne_nil above⟩, last)

end Path

/-! ## The walk -/

/-- Where the walk's resolution of a path ends. -/
inductive Walk where
  | inside
  | outside
  /-- The walk could not decide. -/
  | undecided (stayedInside : Bool)
  deriving DecidableEq

/-- A place at or below another. -/
def within (root place : Place) : Bool := root.isPrefixOf place

/-- What stands at a place, found by the host without following a link there. -/
def symlinkMetadata (tree : Tree) (place : Place) : Option Node :=
  match hostWalk tree false maxSymlinks [] (place.map .name) with
  | .ok found => tree.find found
  | .error _ => none

/-- The canonical name of an existing object. -/
def canonicalize (tree : Tree) (directory : Place) (path : Path) : Option Place :=
  match resolve tree true directory path with
  | .ok place => if (tree.find place).isSome then some place else none
  | .error _ => none

/-- The walk's loop: the components that are still to walk, from a canonical prefix. -/
def walkLoop (tree : Tree) (root : Place) (hops : Nat) (cursor : Place) (stayedInside : Bool) :
    List Component → Walk
  | [] => if within root cursor then .inside else .outside
  | component :: queue =>
    let stayedInside := stayedInside && within root cursor
    match component with
    | .rootDir => walkLoop tree root hops [] stayedInside queue
    | .curDir => walkLoop tree root hops cursor stayedInside queue
    | .parentDir => walkLoop tree root hops cursor.dropLast stayedInside queue
    | .normal segment => match symlinkMetadata tree (cursor ++ [segment]) with
      | some (.link target) =>
        if hops < maxSymlinks then
          walkLoop tree root (hops + 1) cursor stayedInside (target.components ++ queue)
        else .undecided stayedInside
      | _ => walkLoop tree root hops (cursor ++ [segment]) stayedInside queue
termination_by queue => (maxSymlinks - hops, queue.length)

/-- The walk of a path against a root, both taken by a process in a directory. -/
def walkFrom (tree : Tree) (directory : Place) (root path : Path) : Walk :=
  match canonicalize tree directory root with
  | none => .undecided false
  | some root => walkLoop tree root 0 root true path.components

def resolvesInside (tree : Tree) (directory : Place) (root path : Path) : Bool :=
  walkFrom tree directory root path = .inside

end WolfInterp.Fs
