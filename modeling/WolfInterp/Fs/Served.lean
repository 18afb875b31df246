import WolfInterp.Fs.Contained
import WolfInterp.Lib.Fallible

/-!
# What the doors serve

A path that a door serves resolves at or below the root of the served tree, whatever the host makes
of it afterwards.
-/

namespace WolfInterp.Fs

variable {tree : Tree}

/-! ## The walk of a whole path -/

variable {path : Path}

theorem resolve_walk {follow : Bool} {directory object : Place}
    (resolved : resolve tree follow directory path = .ok object) :
    ∃ left, Resolves tree follow maxSymlinks (path.start directory) path.segments left object :=
  resolves_of_hostWalk resolved

theorem canonicalize_walk {directory top : Place}
    (canonical : canonicalize tree directory path = some top) :
    (∃ left, Resolves tree true maxSymlinks (path.start directory) path.segments left top) ∧
      (tree.find top).isSome := by
  unfold canonicalize at canonical
  split at canonical
  · rename_i place resolved
    split at canonical
    · rename_i there
      cases canonical
      exact ⟨resolve_walk resolved, there⟩
    · cases canonical
  · cases canonical

theorem walkLoop_path {root place object : Place} {links left : Nat}
    (walk : Resolves tree true links (path.start place) path.segments left object)
    (free : LinkFree tree place) (room : links ≤ maxSymlinks) (stayed : Bool) :
    walkLoop tree root 0 place stayed path.components = verdict root object := by
  have walked : ∀ stayed, walkLoop tree root 0 (path.start place) stayed
      (path.segments.filterMap Segment.component ++ []) = verdict root object := by
    intro stayed
    rw [List.append_nil]
    exact walk.walkLoop (free.start path) (by omega) stayed
  have whole := walkLoop_components walked stayed
  rwa [List.append_nil] at whole

/-- Where the host resolves a path from the root, following at most so many links as it ever does,
the walk answers about the object the host finds. -/
theorem walkFrom_eq_verdict {directory top object : Place} {root : Path} {links left : Nat}
    (free : LinkFree tree directory) (canonical : canonicalize tree directory root = some top)
    (walk : Resolves tree true links (path.start top) path.segments left object)
    (room : links ≤ maxSymlinks) : walkFrom tree directory root path = verdict top object := by
  obtain ⟨⟨_, toTop⟩, _⟩ := canonicalize_walk canonical
  have free := toTop.linkFree (free.start root)
  unfold walkFrom
  rw [canonical]
  exact walkLoop_path walk free room true

theorem verdict_eq_inside {root place : Place} :
    verdict root place = .inside ↔ within root place := by
  unfold verdict
  split <;> simp_all

/-! ## The door that follows -/

namespace Session

variable {s : Session}

/-- The root of the served tree and its canonical place. -/
def Serves (s : Session) (root : Path) (top : Place) : Prop :=
  (∃ path name, s.root path name = .ok root) ∧ canonicalize s.tree s.cwd root = some top

theorem Serves.live {root : Path} {top : Place} (serves : s.Serves root top) (live : s.live) :
    top = s.cwd := by
  obtain ⟨⟨path, name, rooted⟩, canonical⟩ := serves
  unfold Session.root at rooted
  rw [if_pos live] at rooted
  cases current : s.currentDir with
  | none => simp [current] at rooted
  | some dir =>
    simp only [current, Except.ok.injEq] at rooted
    rw [← rooted, s.current dir current] at canonical
    exact (Option.some.inj canonical).symm

/-- The root does not depend on the path that asks for it. -/
theorem Serves.root {root : Path} {top : Place} (serves : s.Serves root top) (path : Path)
    (name : String) : s.root path name = .ok root := by
  obtain ⟨⟨path', name', rooted⟩, _⟩ := serves
  unfold Session.root at *
  cases live : s.live <;> cases current : s.currentDir <;> cases observed : s.observationRoot <;>
    simp_all

variable {path served : Path} {name : String} {object : Place}

theorem fsContained_eq_ok (ok : s.fsContained path name = .ok served) :
    ∃ root top, s.Serves root top ∧ walkFrom s.tree s.cwd root (s.candidate path) = .inside ∧
        served = s.served root (s.candidate path) := by
  obtain ⟨admitted, shape, ok⟩ := Fallible.bind_eq_ok.mp ok
  obtain rfl : path = admitted := by
    unfold contained at shape
    split at shape
    · cases shape
    · exact Except.ok.inj shape
  obtain ⟨root, rooted, ok⟩ := Fallible.bind_eq_ok.mp ok
  split at ok
  · rename_i inside
    cases ok
    have inside : walkFrom s.tree s.cwd root (s.candidate path) = .inside := by
      simpa [resolvesInside] using inside
    obtain ⟨top, canonical⟩ : ∃ top, canonicalize s.tree s.cwd root = some top := by
      unfold walkFrom at inside
      split at inside
      · cases inside
      · exact ⟨_, ‹_›⟩
    exact ⟨root, top, ⟨⟨path, name, rooted⟩, canonical⟩, inside, rfl⟩
  · cases ok

/-- What the served path resolves to, the candidate resolves to from the top of the served tree. -/
theorem served_walk {root candidate : Path} {top : Place} {left : Nat} {follow : Bool}
    (serves : s.Serves root top)
    (walk : Resolves s.tree follow maxSymlinks ((s.served root candidate).start s.cwd)
      (s.served root candidate).segments left object) : ∃ links ≤ maxSymlinks,
      Resolves s.tree follow links (candidate.start top) candidate.segments left object := by
  unfold served at walk
  cases live : s.live with
  | true =>
    rw [if_pos live] at walk
    rw [serves.live live]
    exact ⟨_, Nat.le_refl _, walk⟩
  | false =>
    rw [if_neg (by simp [live])] at walk
    unfold Path.join at walk
    cases absolute : candidate.absolute with
    | true =>
      rw [if_pos absolute] at walk
      refine ⟨_, Nat.le_refl _, ?_⟩
      simpa [Path.start, absolute] using walk
    | false =>
      rw [if_neg (by simp [absolute])] at walk
      obtain ⟨⟨middle, toTop⟩, there⟩ := canonicalize_walk serves.2
      have fromTop : candidate.start top = top := by simp [Path.start, absolute]
      rw [fromTop]
      have more : follow ∨ candidate.segments ≠ [] := .inr candidate.nonempty
      split at walk
      · rename_i separated
        obtain ⟨short, shape⟩ := List.getLast?_eq_some_iff.mp separated
        rw [shape] at toTop
        have head := toTop.trim there
        have same : root.segments.dropLast = short := by rw [shape, List.dropLast_concat]
        rw [← same] at head
        exact head.rest there more walk
      · exact toTop.rest there more walk

/-- What the door serves resolves at or below the top of the served tree. -/
theorem fsContained_sound (ok : s.fsContained path name = .ok served)
    (resolved : resolve s.tree true s.cwd served = .ok object) :
    ∃ root top, s.Serves root top ∧ within top object := by
  obtain ⟨root, top, serves, inside, rfl⟩ := fsContained_eq_ok ok
  obtain ⟨left, walk⟩ := resolve_walk resolved
  obtain ⟨links, room, walk⟩ := served_walk serves walk
  rw [walkFrom_eq_verdict s.free serves.2 walk room, verdict_eq_inside] at inside
  exact ⟨root, top, serves, inside⟩

/-- A path names no windows device, and the walk from the served root answers inside. -/
def Admits (s : Session) (path : Path) : Prop :=
  ¬ path.components.any Component.isDevice ∧ ∃ root top, s.Serves root top ∧
    walkFrom s.tree s.cwd root (s.candidate path) = .inside

/-- The door serves the paths that name no windows device and walk inside, and no others. -/
theorem fsContained_iff : (∃ served, s.fsContained path name = .ok served) ↔ s.Admits path := by
  constructor
  · rintro ⟨served, ok⟩
    obtain ⟨root, top, serves, inside, -⟩ := fsContained_eq_ok ok
    refine ⟨fun named => ?_, root, top, serves, inside⟩
    unfold fsContained contained at ok
    rw [if_pos named] at ok
    cases ok
  · rintro ⟨named, root, top, serves, inside⟩
    unfold fsContained contained
    rw [if_neg named]
    simp only [bind, Except.bind, serves.root path name]
    exact ⟨_, if_pos (by simp [resolvesInside, inside])⟩

/-! ## The doors that do not follow -/

theorem within_append {root place rest : Place} (inside : within root place) :
    within root (place ++ rest) := by
  unfold within at *
  rw [List.isPrefixOf_iff_prefix] at *
  exact inside.trans (List.prefix_append place rest)

theorem getLast_join (path other : Path) :
    (path.join other).segments.getLast? = other.segments.getLast? := by
  unfold Path.join
  split
  · rfl
  · exact List.getLast?_append_of_ne_nil _ other.nonempty

theorem getLast_candidate (path : Path) :
    (s.candidate path).segments.getLast? = path.segments.getLast? := by
  unfold candidate
  split
  · split
    · exact getLast_join _ path
    · rfl
  · rfl

theorem getLast_served (root candidate : Path) :
    (s.served root candidate).segments.getLast? = candidate.segments.getLast? := by
  unfold served
  split
  · rfl
  · exact getLast_join root candidate

/-- A path whose text ends in a name has that name as its last component. -/
theorem parentLast_of_getLast {name : Name} (last : path.segments.getLast? = some (.name name)) :
    ∃ parent, path.parentLast = some (parent, .name name) := by
  obtain ⟨above, shape⟩ := List.getLast?_eq_some_iff.mp last
  have plain : ¬ (Segment.name name).isSkipped = true := by simp [Segment.isSkipped]
  have reversed : path.segments.reverse.dropWhile Segment.isSkipped =
      .name name :: above.reverse := by
    rw [shape, List.reverse_concat, List.dropWhile_cons_of_neg plain]
  unfold Path.parentLast
  split
  · rename_i nothing
    rw [reversed] at nothing
    cases nothing
  · rename_i final rest found
    rw [reversed] at found
    cases found
    exact ⟨_, rfl⟩

/-- Without following, the last name is looked up in a directory inside. -/
theorem joinLast_sound {base : Path} {last : Name} (ok : s.fsContained path name = .ok base)
    (resolved : resolve s.tree false s.cwd (base.join ⟨false, [.name last], by simp⟩) =
      .ok object) :
    ∃ root top, s.Serves root top ∧ within top object := by
  obtain ⟨left, walk⟩ := resolve_walk resolved
  have trimmed : Resolves s.tree false maxSymlinks (base.start s.cwd)
      ((if base.segments.getLast? = some .empty then base.segments.dropLast else base.segments) ++
        [.name last]) left object := walk
  obtain ⟨left, directory, head, isDirectory, rfl⟩ := trimmed.final
  have whole : Resolves s.tree true maxSymlinks
      (base.start s.cwd) base.segments left directory := by
    split at head
    · rename_i separated
      obtain ⟨short, shape⟩ := List.getLast?_eq_some_iff.mp separated
      rw [shape, List.dropLast_concat] at head
      have whole := head.separate isDirectory
      rwa [← shape] at whole
    · exact head
  obtain ⟨root, top, serves, inside⟩ := fsContained_sound ok (hostWalk_of_resolves whole)
  exact ⟨root, top, serves, within_append inside⟩

theorem fsContained_sound_unnamed (ok : s.fsContained path name = .ok served)
    (unnamed : ∀ name, path.segments.getLast? ≠ some (.name name))
    (resolved : resolve s.tree false s.cwd served = .ok object) :
    ∃ root top, s.Serves root top ∧ within top object := by
  obtain ⟨left, walk⟩ := resolve_walk resolved
  obtain ⟨root, top, serves, inside, rfl⟩ := fsContained_eq_ok ok
  refine fsContained_sound ok (hostWalk_of_resolves (walk.followed fun word last => ?_))
  rw [getLast_served, getLast_candidate] at last
  exact unnamed word last

/-- What the link door serves, taken without following a final link, is at or below the top. -/
theorem fsContainedLink_sound (ok : s.fsContainedLink path name = .ok served)
    (resolved : resolve s.tree false s.cwd served = .ok object) :
    ∃ root top, s.Serves root top ∧ within top object := by
  unfold fsContainedLink at ok
  split at ok
  · rename_i parent last split
    obtain ⟨_, base, same⟩ := Fallible.bind_eq_ok.mp ok
    cases same
    exact joinLast_sound base resolved
  · rename_i other
    refine fsContained_sound_unnamed ok (fun word last => ?_) resolved
    obtain ⟨parent, split⟩ := parentLast_of_getLast last
    exact other parent word split

/-- What the open door serves, followed or not as the mode asks, is at or below the top. -/
theorem fsContainedOpen_sound {mode : Int} (ok : s.fsContainedOpen path name mode = .ok served)
    (resolved : resolve s.tree (!noFollow mode) s.cwd served = .ok object) :
    ∃ root top, s.Serves root top ∧ within top object := by
  unfold fsContainedOpen at ok
  split at ok
  · rename_i unfollowed
    rw [unfollowed.1] at resolved
    exact fsContainedLink_sound ok resolved
  · rename_i other
    cases asked : noFollow mode with
    | false =>
      rw [asked] at resolved
      exact fsContained_sound ok resolved
    | true =>
      rw [asked] at resolved
      refine fsContained_sound_unnamed ok (fun word last => other ⟨asked, ?_⟩) resolved
      rw [plainFinal, last]

/-- What the link door looks at: the directory of a plain last name, which is taken as written, and
otherwise the path. -/
def linkDirectory (path : Path) : Path :=
  match path.parentLast with
  | some (parent, .name _) => orDot parent
  | _ => path

theorem fsContainedLink_iff :
    (∃ served, s.fsContainedLink path name = .ok served) ↔ s.Admits (linkDirectory path) := by
  unfold fsContainedLink linkDirectory
  cases path.parentLast with
  | none => exact fsContained_iff
  | some found =>
    obtain ⟨parent, last⟩ := found
    cases last with
    | name last =>
      dsimp only
      rw [← @fsContained_iff s _ name]
      constructor
      · rintro ⟨served, ok⟩
        obtain ⟨base, ok, -⟩ := Fallible.bind_eq_ok.mp ok
        exact ⟨base, ok⟩
      · rintro ⟨base, ok⟩
        simp only [ok, bind, Except.bind, pure, Except.pure]
        exact ⟨_, rfl⟩
    | _ => exact fsContained_iff

theorem fsContainedOpen_iff {mode : Int} :
    (∃ served, s.fsContainedOpen path name mode = .ok served) ↔
      s.Admits (if noFollow mode ∧ plainFinal path then linkDirectory path else path) := by
  unfold fsContainedOpen
  split
  · exact fsContainedLink_iff
  · exact fsContained_iff

end Session

end WolfInterp.Fs
