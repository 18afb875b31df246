import WolfInterp.Fs.Walk

/-!
# The doors of the path calls

What every path call does before it hands its path to the host: the windows device names are refused
wherever they appear, the path is taken against the served tree, and it is served only where the
walk ends inside. The last section is the standard library's creation of a chain of directories.
-/

namespace WolfInterp.Fs

/-! ## Texts -/

def Segment.text : Segment → String
  | .empty => ""
  | .cur => "."
  | .parent => ".."
  | .name word => word

def Path.text (path : Path) : String :=
  (if path.absolute then "/" else "") ++ "/".intercalate (path.segments.map Segment.text)

/-- Why a call refuses: a row of the call, or a refusal by name. -/
inductive FsErr where
  | row (tag : String)
  | outside (reason : String)
  deriving DecidableEq

def outsideReason (name : String) (path : Path) : String :=
  s!"`{name}(\"{path.text}\")` resolves outside the working directory — `..` applied and " ++
    "symlinks followed, as the host would (`[os.fs.path.domain]`); this machine serves " ++
    "the fs tier over REAL files inside its own tree and declines the rest by name " ++
    "rather than observing it"

/-! ## Containment -/

/-- A windows device, which keeps its meaning before an extension and ignores case and trailing
spaces. -/
def isDevice (segment : Name) : Bool :=
  let stem := segment.toList.takeWhile (· ≠ '.')
  let stem := (stem.reverse.dropWhile fun c => c = ' ' || c = '\t').reverse.map Char.toUpper
  stem ∈ ["NUL".toList, "CON".toList, "AUX".toList, "PRN".toList] ||
    match stem with
    | [a, b, c, digit] =>
      ([a, b, c] = "COM".toList || [a, b, c] = "LPT".toList) && digit.isDigit && digit ≠ '0'
    | _ => false

def Component.isDevice : Component → Bool
  | .normal segment => Fs.isDevice segment
  | _ => false

/-- The lexical half of containment. -/
def contained (path : Path) (name : String) : Except FsErr Path :=
  if path.components.any Component.isDevice then
    .error (.outside (s!"`{name}(\"{path.text}\")` names a windows device (`NUL`, `CON`, `AUX`, " ++
      "`PRN`, `COM1`-`COM9`, `LPT1`-`LPT9`), which resolves outside the working directory on " ++
      "one host of the matrix whatever the directory says, so the shape is refused by " ++
      "name on every host rather than served on some"))
  else .ok path

/-- What the doors read of the machine and of the process it runs in. -/
structure Session where
  tree : Tree
  /-- The process's directory. -/
  cwd : Place
  live : Bool
  /-- The host's name for the process's directory. -/
  currentDir : Option Path
  /-- The private root of an observed program. -/
  observationRoot : Except String Path
  /-- The directory the program moved to. -/
  movedCwd : Option Path
  /-- The process's directory is named by its canonical place. -/
  free : LinkFree tree cwd
  current : ∀ dir, currentDir = some dir → canonicalize tree cwd dir = some cwd
  rooted : ∀ root, observationRoot = .ok root → root.absolute

namespace Session

variable (s : Session)

/-- A relative path is taken against the moved directory once there is one. -/
def candidate (path : Path) : Path :=
  match s.movedCwd with
  | some dir => if ¬ path.absolute ∧ ¬ path.isEmpty then dir.join path else path
  | none => path

/-- The root of the served tree. -/
def root (path : Path) (name : String) : Except FsErr Path :=
  if s.live then match s.currentDir with
    | some dir => .ok dir
    | none => .error (.outside (s!"`{name}(\"{path.text}\")` cannot be served: this machine " ++
        "could not read the working directory it would resolve the path against"))
  else match s.observationRoot with
    | .ok root => .ok root
    | .error tag => .error (.row tag)

/-- The path that is handed to the host. -/
def served (root candidate : Path) : Path := if s.live then candidate else root.join candidate

/-- Containment and resolution, as one method. -/
def fsContained (path : Path) (name : String) : Except FsErr Path := do
  let path ← contained path name
  let root ← s.root path name
  if resolvesInside s.tree s.cwd root (s.candidate path) then
    .ok (s.served root (s.candidate path))
  else .error (.outside (outsideReason name path))

/-- The directory of a bare name is the one the path is taken against. -/
def orDot (parent : Path) : Path := if parent.isEmpty then ⟨false, [.cur], by simp⟩ else parent

/-- Containment for a call that does not follow the path's final component: the parent must resolve
inside, and the last name is taken as written. -/
def fsContainedLink (path : Path) (name : String) : Except FsErr Path :=
  match path.parentLast with
  | some (parent, .name last) => do
    return (← s.fsContained (orDot parent) name).join ⟨false, [.name last], by simp⟩
  | _ => s.fsContained path name

/-- Whether an open's mode word asks not to follow a final link. -/
def noFollow (mode : Int) : Bool := mode / 16 % 2 = 1

/-- The raw final component is a plain name. -/
def plainFinal (path : Path) : Bool :=
  match path.segments.getLast? with
  | some (.name _) => true
  | _ => false

def fsContainedOpen (path : Path) (name : String) (mode : Int) : Except FsErr Path :=
  if noFollow mode ∧ plainFinal path then s.fsContainedLink path name
  else s.fsContained path name

end Session

/-! ## Creating a chain of directories -/

/-- An empty directory put at a place below a node. -/
def Node.addDirectory : Node → Place → Node
  | .directory entries, [name] => .directory (entries ++ [(name, .directory [])])
  | .directory entries, name :: rest =>
    .directory (entries.map fun entry =>
      if entry.1 = name then (entry.1, entry.2.addDirectory rest) else entry)
  | node, _ => node

def Tree.addDirectory (tree : Tree) (place : Place) : Tree :=
  match (Node.directory tree).addDirectory place with
  | .directory entries => entries
  | _ => tree

/-- Why a directory is not created. -/
inductive MkdirError where
  | notFound
  | exists
  | other
  deriving DecidableEq

/-- The host's creation of one directory. -/
def mkdir (tree : Tree) (directory : Place) (path : Path) : Except MkdirError Tree :=
  match resolve tree false directory path with
  | .ok place =>
    if (tree.find place).isSome then .error .exists else .ok (tree.addDirectory place)
  | .error .notFound => .error .notFound
  | .error _ => .error .other

def isDir (tree : Tree) (directory : Place) (path : Path) : Bool :=
  match resolve tree true directory path with
  | .ok place => tree.isDirectory place
  | .error _ => false

/-- How many components a path has, a leading dot aside. -/
def Path.depth (path : Path) : Nat := path.segments.countP (¬ ·.isSkipped)

theorem countP_dropWhile (segments : List Segment) :
    (segments.dropWhile Segment.isSkipped).countP (¬ ·.isSkipped) =
      segments.countP (¬ ·.isSkipped) := by
  induction segments with
  | nil => rfl
  | cons segment rest ih =>
    rw [List.dropWhile_cons]
    split
    · rename_i skipped
      rw [ih, List.countP_cons_of_neg (by simp [skipped])]
    · rfl

theorem Path.aboveLast_depth (path : Path) (above : List Segment) :
    (path.aboveLast above).countP (¬ ·.isSkipped) ≤ above.countP (¬ ·.isSkipped) := by
  unfold Path.aboveLast
  split
  · split <;> simp [Segment.isSkipped]
  · exact Nat.le_of_eq (by rw [List.countP_reverse, countP_dropWhile])

theorem Path.parentLast_shallower {path parent : Path} {last : Segment}
    (split : path.parentLast = some (parent, last)) : parent.depth < path.depth := by
  have kept := countP_dropWhile path.segments.reverse
  have first := List.head?_dropWhile_not Segment.isSkipped path.segments.reverse
  unfold Path.parentLast at split
  split at split
  · cases split
  · rename_i final above shape
    cases split
    have rest := path.aboveLast_depth above
    rw [shape, List.head?_cons] at first
    rw [shape, List.countP_cons_of_pos (by simpa using first), List.countP_reverse] at kept
    calc (path.aboveLast above).countP (¬ ·.isSkipped)
      _ ≤ above.countP (¬ ·.isSkipped) := rest
      _ < path.segments.countP (¬ ·.isSkipped) := by omega

/-- Create a directory and every directory above it that is missing; what was created stays also
when the whole fails. -/
def createDirAll (tree : Tree) (directory : Place) (path : Path) : Bool × Tree :=
  if path.components = [] then (true, tree)
  else match mkdir tree directory path with
    | .ok tree => (true, tree)
    | .error .notFound => match _shape : path.parentLast with
      | none => (false, tree)
      | some (parent, _) => match createDirAll tree directory parent with
        | (false, tree) => (false, tree)
        | (true, tree) => match mkdir tree directory path with
          | .ok tree => (true, tree)
          | .error _ => (isDir tree directory path, tree)
    | .error _ => (isDir tree directory path, tree)
termination_by path.depth
decreasing_by exact Path.parentLast_shallower _shape

end WolfInterp.Fs
