import WolfInterp.Fs.Served

/-!
# What a creation of directories reaches

Creating a directory changes no link, so the walk of every path stays what it was, and every
directory that the creation of a chain makes is where the walk of one of the paths above ends.
-/

namespace WolfInterp.Fs

variable {tree larger : Tree}

/-! ## One directory -/

theorem lookup_map_entries {entries : List (Name × Node)} {head name : Name}
    (change : Node → Node) :
    (entries.map fun entry => if entry.1 = head then (entry.1, change entry.2) else entry).lookup
      name = (entries.lookup name).map fun node => if name = head then change node else node := by
  induction entries with
  | nil => rfl
  | cons entry rest ih =>
    obtain ⟨key, node⟩ := entry
    rw [List.map_cons, List.lookup_cons, List.lookup_cons, ih]
    by_cases same : name = key
    · subst same
      by_cases changed : name = head <;> simp [changed]
    · have other : (name == key) = false := by simpa using same
      by_cases changed : key = head
      · simp [← changed, other]
      · simp [changed, other]

/-- What stands below a node after an empty directory was put at a free place in a directory. -/
theorem Node.find_addDirectory {node : Node} {above : Place} {name : Name}
    {entries : List (Name × Node)} (directory : node.find above = some (.directory entries))
    (missing : node.find (above ++ [name]) = none) (place : Place) :
    (∀ target, (node.addDirectory (above ++ [name])).find place = some (.link target) ↔
      node.find place = some (.link target)) ∧
    (((node.addDirectory (above ++ [name])).find place).isSome ↔
      (node.find place).isSome ∨ place = above ++ [name]) := by
  induction above generalizing node place with
  | nil =>
    cases directory
    have free : entries.lookup name = none := by
      simpa [Node.find] using missing
    cases place with
    | nil => simp [Node.addDirectory, Node.find]
    | cons head rest =>
      simp only [List.nil_append, Node.addDirectory, Node.find, List.lookup_append]
      by_cases same : head = name
      · subst same
        rw [free]
        cases rest <;> simp [Node.find]
      · have other : (head == name) = false := by simpa using same
        cases found : entries.lookup head <;> simp [List.lookup_cons, other, same]
  | cons first above ih =>
    cases node with
    | directory siblings =>
      obtain ⟨child, there, inner⟩ := Option.bind_eq_some_iff.mp directory
      have absent : child.find (above ++ [name]) = none := by
        simpa [Node.find, there] using missing
      have step : (Node.directory siblings).addDirectory (first :: (above ++ [name])) =
          .directory (siblings.map fun entry =>
            if entry.1 = first then (entry.1, entry.2.addDirectory (above ++ [name]))
            else entry) := by
        cases above <;> rfl
      rw [List.cons_append, step]
      cases place with
      | nil => simp [Node.find]
      | cons head rest =>
        have read := @lookup_map_entries siblings first head
          fun node => node.addDirectory (above ++ [name])
        simp only [Node.find, read]
        by_cases same : head = first
        · subst same
          simpa [there] using ih inner absent rest
        · cases found : siblings.lookup head <;> simp [same]
    | _ => simp [Node.find] at directory

variable {place : Place} {fresh : Place → Prop}

theorem exists_entries (directory : tree.isDirectory place) :
    ∃ entries, tree.find place = some (.directory entries) := by
  unfold Tree.isDirectory at directory
  split at directory
  · exact ⟨_, ‹_›⟩
  · cases directory

theorem addDirectory_root (entries : List (Name × Node)) (place : Place) :
    ∃ entries', (Node.directory entries).addDirectory place = .directory entries' := by
  unfold Node.addDirectory
  split <;> simp_all

theorem linkAt_eq_some {target : Path} :
    tree.linkAt place = some target ↔ tree.find place = some (.link target) := by
  unfold Tree.linkAt
  split <;> simp_all

/-- What stands in a tree after an empty directory was put at a free place in a directory. -/
theorem find_addDirectory {above : Place} {name : Name} (directory : tree.isDirectory above)
    (missing : tree.find (above ++ [name]) = none) (place : Place) :
    (tree.addDirectory (above ++ [name])).linkAt place = tree.linkAt place ∧
    (((tree.addDirectory (above ++ [name])).find place).isSome ↔
      (tree.find place).isSome ∨ place = above ++ [name]) := by
  obtain ⟨entries, found⟩ := exists_entries directory
  obtain ⟨entries', whole⟩ := addDirectory_root tree (above ++ [name])
  obtain ⟨links, there⟩ := Node.find_addDirectory found missing place
  have same : (tree.addDirectory (above ++ [name])).find place =
      ((Node.directory tree).addDirectory (above ++ [name])).find place := by
    unfold Tree.addDirectory Tree.find
    rw [whole]
  refine ⟨?_, by rw [same]; exact there⟩
  apply Option.ext
  intro target
  rw [linkAt_eq_some, linkAt_eq_some, same]
  exact links target

/-! ## Trees that grew -/

/-- A tree has the links of another and all that stands there, and what is new stands at certain
places. -/
structure Grown (tree larger : Tree) (fresh : Place → Prop) : Prop where
  links : ∀ place, larger.linkAt place = tree.linkAt place
  keeps : ∀ place, (tree.find place).isSome → (larger.find place).isSome
  fresh : ∀ place, tree.find place = none → (larger.find place).isSome → fresh place

theorem Grown.refl (tree : Tree) (fresh : Place → Prop) : Grown tree tree fresh where
  links _ := rfl
  keeps _ there := there
  fresh place missing there := by
    rw [missing] at there
    cases there

theorem Grown.trans {later : Tree} {fresh fresh' fresh'' : Place → Prop}
    (first : Grown tree larger fresh) (second : Grown larger later fresh')
    (earlier : ∀ place, fresh place → fresh'' place)
    (after : ∀ place, tree.find place = none → fresh' place → fresh'' place) :
    Grown tree later fresh'' where
  links place := (second.links place).trans (first.links place)
  keeps place there := second.keeps place (first.keeps place there)
  fresh place missing there := by
    cases found : larger.find place with
    | none => exact after place missing (second.fresh place found there)
    | some node => exact earlier place (first.fresh place missing (by rw [found]; rfl))

theorem Grown.mono {fresh' : Place → Prop} (more : Grown tree larger fresh)
    (weaker : ∀ place, fresh place → fresh' place) : Grown tree larger fresh' where
  links := more.links
  keeps := more.keeps
  fresh place missing there := weaker place (more.fresh place missing there)

theorem LinkFree.grown (free : LinkFree tree place) (more : Grown tree larger fresh) :
    LinkFree larger place :=
  fun above inside => (more.links above).trans (free above inside)

theorem Grown.find_link (more : Grown tree larger fresh) {target : Path}
    (link : tree.find place = some (.link target)) : larger.find place = some (.link target) := by
  rw [← linkAt_eq_some, more.links place, linkAt_eq_some, link]

/-- The walk does not see what grew. -/
theorem walkLoop_grown (more : Grown tree larger fresh) (root : Place) (hops : Nat) (cursor : Place)
    (stayed : Bool) (queue : List Component) (free : LinkFree tree cursor) :
    walkLoop larger root hops cursor stayed queue = walkLoop tree root hops cursor stayed queue
    := by
  fun_induction walkLoop tree root hops cursor stayed queue with
  | case1 hops cursor stayed inside => rw [walkLoop, if_pos inside]
  | case2 hops cursor stayed outside => rw [walkLoop, if_neg outside]
  | case3 hops cursor stayed queue _ ih =>
    rw [walkLoop]
    exact ih linkFree_nil
  | case4 hops cursor stayed queue _ ih =>
    rw [walkLoop]
    exact ih free
  | case5 hops cursor stayed queue _ ih =>
    rw [walkLoop]
    exact ih free.dropLast
  | case6 hops cursor stayed queue _ name target link room ih =>
    rw [symlinkMetadata_of_free free] at link
    rw [walkLoop_link (free.grown more) (more.find_link link) room]
    exact ih free
  | case7 hops cursor stayed queue _ name target link full =>
    rw [symlinkMetadata_of_free free] at link
    rw [walkLoop, symlinkMetadata_of_free (free.grown more), more.find_link link]
    exact if_neg full
  | case8 hops cursor stayed queue _ name plain ih =>
    rw [symlinkMetadata_of_free free] at plain
    have unlinked : tree.linkAt (cursor ++ [name]) = none := by
      unfold Tree.linkAt
      split
      · rename_i target link
        exact absurd link (plain target)
      · rfl
    rw [walkLoop_normal (free.grown more) ((more.links _).trans unlinked)]
    exact ih (free.append unlinked)

/-! ## The creation of a chain -/

section

variable {follow : Bool} {links left : Nat} {place object : Place} {segments : List Segment}
  (walk : Resolves tree follow links place segments left object)
include walk

theorem Resolves.directory (more : segments ≠ []) : tree.isDirectory place := by
  cases walk with
  | done => exact absurd rfl more
  | skip directory | up directory | create directory | keep directory | jump directory
  | enter directory => exact directory

/-- A resolution to a free place ends in a directory, and followed every link on its way. -/
theorem Resolves.free (there : (tree.find place).isSome) (missing : tree.find object = none) :
    Resolves tree true links place segments left object ∧
      ∃ above name, object = above ++ [name] ∧ tree.isDirectory above := by
  induction walk with
  | done =>
    rw [missing] at there
    cases there
  | skip directory skipped walk ih =>
    obtain ⟨followed, last⟩ := ih there missing
    exact ⟨.skip directory skipped followed, last⟩
  | @up _ _ place _ _ directory walk ih =>
    have above : (tree.find place.dropLast).isSome := by
      obtain rfl | ⟨above, name, rfl⟩ := List.eq_nil_or_concat place
      · exact there
      · rw [List.concat_eq_append] at there ⊢
        rw [List.dropLast_concat]
        exact exists_of_isDirectory (isDirectory_of_find there)
    obtain ⟨followed, last⟩ := ih above missing
    exact ⟨.up directory followed, last⟩
  | create directory free last => exact ⟨.create directory free last, _, _, rfl, directory⟩
  | keep directory link unfollowed =>
    rw [missing] at link
    cases link
  | @jump _ _ place _ _ target _ directory link followed walk ih =>
    have start : (tree.find (target.start place)).isSome := by
      unfold Path.start
      split
      · rfl
      · exact there
    obtain ⟨followed, last⟩ := ih start missing
    exact ⟨.jump directory link (.inl rfl) followed, last⟩
  | enter directory found plain walk ih =>
    obtain ⟨followed, last⟩ := ih (by rw [found]; rfl) missing
    exact ⟨.enter directory found plain followed, last⟩

end

/-- The walk of a path from a directory ends at a place. -/
def Ends (tree : Tree) (directory : Place) (path : Path) (place : Place) : Prop :=
  ∀ root stayed, walkLoop tree root 0 (path.start directory) stayed
    (path.segments.filterMap Segment.component) = verdict root place

/-- The creation of one directory makes what the walk of its path ends at. -/
theorem mkdir_grown {directory : Place} {path : Path} (free : LinkFree tree directory)
    (made : mkdir tree directory path = .ok larger) :
    Grown tree larger (Ends tree directory path) := by
  unfold mkdir at made
  split at made
  · rename_i object resolved
    split at made
    · cases made
    · rename_i absent
      cases made
      have missing : tree.find object = none := Option.not_isSome_iff_eq_none.mp absent
      obtain ⟨left, walk⟩ := resolve_walk resolved
      have there := exists_of_isDirectory (walk.directory path.nonempty)
      obtain ⟨followed, above, name, rfl, isDirectory⟩ := walk.free there missing
      have found := find_addDirectory isDirectory missing
      exact {
        links := fun place => (found place).1
        keeps := fun place there => (found place).2.mpr (.inl there)
        fresh := fun place missing there => by
          rcases (found place).2.mp there with old | rfl
          · rw [missing] at old
            cases old
          · exact fun root stayed => followed.walkLoop (free.start path) (by omega) stayed }
  · cases made
  · cases made

/-- A path and the paths above it. -/
inductive Above : Path → Path → Prop
  | self (path : Path) : Above path path
  | up {path parent above : Path} {last : Segment} (split : path.parentLast = some (parent, last))
      (higher : Above parent above) : Above path above

theorem Ends.grown {directory : Place} {path : Path} (ends : Ends larger directory path place)
    (more : Grown tree larger fresh) (free : LinkFree tree directory) :
    Ends tree directory path place := by
  intro root stayed
  rw [← walkLoop_grown more root 0 _ stayed _ (free.start path)]
  exact ends root stayed

/-- Every directory made on the way to a path is where the walk of a path above it ends. -/
theorem createDirAll_grown (directory : Place) (path : Path) (free : LinkFree tree directory) :
    Grown tree (createDirAll tree directory path).2 fun place =>
      ∃ above, Above path above ∧ Ends tree directory above place := by
  have own : ∀ {path : Path} {larger : Tree}, mkdir tree directory path = .ok larger →
      Grown tree larger fun place =>
        ∃ above, Above path above ∧ Ends tree directory above place :=
    fun {path} {larger} made => (mkdir_grown free made).mono fun _ ends => ⟨_, .self path, ends⟩
  fun_induction createDirAll tree directory path with
  | case1 => exact .refl tree _
  | case2 path named larger made => exact own made
  | case3 => exact .refl tree _
  | case4 path named absent parent last split middle failed ih =>
    rw [failed] at ih
    exact ih.mono fun place ⟨above, higher, ends⟩ => ⟨above, .up split higher, ends⟩
  | case5 path named absent parent last split middle made larger last' ih =>
    rw [made] at ih
    refine ih.trans (mkdir_grown (free.grown ih) last') ?_ ?_
    · rintro place ⟨above, higher, ends⟩
      exact ⟨above, .up split higher, ends⟩
    · intro place _ ends
      exact ⟨path, .self path, ends.grown ih free⟩
  | case6 path named absent parent last split middle made error refused ih =>
    rw [made] at ih
    exact ih.mono fun place ⟨above, higher, ends⟩ => ⟨above, .up split higher, ends⟩
  | case7 => exact .refl tree _

/-! ## Creation behind the door -/

theorem within_refl (place : Place) : within place place :=
  List.isPrefixOf_iff_prefix.mpr (List.prefix_refl place)

/-- The walk of a path ends at one place. -/
theorem Ends.unique {directory place' : Place} {path : Path} (ends : Ends tree directory path place)
    (ends' : Ends tree directory path place') : place = place' := by
  have same : ∀ root, within root place ↔ within root place' := by
    intro root
    rw [← verdict_eq_inside, ← verdict_eq_inside, ← ends root true, ends' root true]
  have below := List.isPrefixOf_iff_prefix.mp ((same place).mp (within_refl place))
  have above := List.isPrefixOf_iff_prefix.mp ((same place').mpr (within_refl place'))
  exact below.eq_of_length (Nat.le_antisymm below.length_le above.length_le)

theorem Above.absolute {path above : Path} (higher : Above path above) :
    above.absolute = path.absolute := by
  induction higher with
  | self => rfl
  | up split higher ih =>
    rw [ih]
    unfold Path.parentLast at split
    split at split
    · cases split
    · cases split
      rfl

namespace Session

variable {s : Session}

theorem served_absolute {root candidate : Path} {top : Place} (serves : s.Serves root top)
    (observed : ¬ s.live) : (s.served root candidate).absolute := by
  have rooted : root.absolute := by
    obtain ⟨⟨path, name, rooted⟩, _⟩ := serves
    unfold Session.root at rooted
    rw [if_neg observed] at rooted
    cases found : s.observationRoot with
    | error tag => simp [found] at rooted
    | ok dir =>
      simp only [found, Except.ok.injEq] at rooted
      exact rooted ▸ s.rooted dir found
  unfold served Path.join
  rw [if_neg observed]
  split
  · assumption
  · exact rooted

/-- Every directory made on the way to a served path is at or below the top, when the walk of each
path above it that does not exist yet ends inside as well. -/
theorem createDirAll_sound {path served : Path} {name : String} {place : Place}
    (ok : s.fsContained path name = .ok served)
    (admitted : ∀ root above, (∃ top, s.Serves root top) → Above served above →
      (∃ object, resolve s.tree true s.cwd above = .ok object ∧ (s.tree.find object).isSome) ∨
        walkFrom s.tree s.cwd root above = .inside) (missing : s.tree.find place = none)
    (made : ((createDirAll s.tree s.cwd served).2.find place).isSome) :
    ∃ root top, s.Serves root top ∧ within top place := by
  obtain ⟨above, higher, ends⟩ :=
    (createDirAll_grown s.cwd served s.free).fresh place missing made
  obtain ⟨root, top, serves, _, rfl⟩ := fsContained_eq_ok ok
  refine ⟨root, top, serves, ?_⟩
  rcases admitted root above ⟨top, serves⟩ higher with ⟨object, resolved, there⟩ | inside
  · obtain ⟨left, walk⟩ := resolve_walk resolved
    have old : Ends s.tree s.cwd above object :=
      fun root stayed => walk.walkLoop (s.free.start above) (by omega) stayed
    rw [old.unique ends, missing] at there
    cases there
  · have start : above.start top = above.start s.cwd := by
      cases live : s.live with
      | true => rw [serves.live live]
      | false =>
        have absolute : (s.served root (s.candidate path)).absolute :=
          served_absolute serves (by simp [live])
        simp [Path.start, higher.absolute, absolute]
    have walked : ∀ stayed, walkLoop s.tree top 0 (above.start top) stayed
        (above.segments.filterMap Segment.component ++ []) = verdict top place := by
      intro stayed
      rw [List.append_nil, start]
      exact ends top stayed
    have whole := walkLoop_components walked true
    unfold walkFrom at inside
    rw [serves.2] at inside
    simp only at inside
    rw [List.append_nil] at whole
    rw [← verdict_eq_inside, ← whole, inside]

/-- The walk answers inside only about paths that the host resolves at or below the root, and about
all of those; the doors serve only such paths, however the host is asked to treat a final link and
whatever directories it creates on the way, and they refuse of them those that name a device where
they look: the link door, and the open door that does not follow, in the directory alone. -/
theorem containment (s : Session) : (∀ root path, walkFrom s.tree s.cwd root path = .inside →
      ∃ top, canonicalize s.tree s.cwd root = some top ∧
        ∀ object, resolve s.tree true top path = .ok object → within top object) ∧
    (∀ root top path object, canonicalize s.tree s.cwd root = some top →
      resolve s.tree true top path = .ok object → within top object →
        walkFrom s.tree s.cwd root path = .inside) ∧
    (∀ path name served object, s.fsContained path name = .ok served →
      resolve s.tree true s.cwd served = .ok object →
        ∃ root top, s.Serves root top ∧ within top object) ∧
    (∀ path name served object, s.fsContainedLink path name = .ok served →
      resolve s.tree false s.cwd served = .ok object →
        ∃ root top, s.Serves root top ∧ within top object) ∧
    (∀ path name mode served object, s.fsContainedOpen path name mode = .ok served →
      resolve s.tree (!noFollow mode) s.cwd served = .ok object →
        ∃ root top, s.Serves root top ∧ within top object) ∧
    (∀ path name served place, s.fsContained path name = .ok served →
      (∀ root above, (∃ top, s.Serves root top) → Above served above →
        (∃ object, resolve s.tree true s.cwd above = .ok object ∧ (s.tree.find object).isSome) ∨
          walkFrom s.tree s.cwd root above = .inside) →
      s.tree.find place = none → ((createDirAll s.tree s.cwd served).2.find place).isSome →
        ∃ root top, s.Serves root top ∧ within top place) ∧
    (∀ path name, (∃ served, s.fsContained path name = .ok served) ↔ s.Admits path) ∧
    (∀ path name, (∃ served, s.fsContainedLink path name = .ok served) ↔
      s.Admits (linkDirectory path)) ∧
    ∀ path name mode, (∃ served, s.fsContainedOpen path name mode = .ok served) ↔
      s.Admits (if noFollow mode ∧ plainFinal path then linkDirectory path else path) := by
  refine ⟨?_, ?_, fun _ _ _ _ => fsContained_sound, fun _ _ _ _ => fsContainedLink_sound,
    fun _ _ _ _ _ => fsContainedOpen_sound, fun _ _ _ _ => createDirAll_sound,
    fun _ _ => fsContained_iff, fun _ _ => fsContainedLink_iff, fun _ _ _ => fsContainedOpen_iff⟩
  · intro root path inside
    obtain ⟨top, canonical⟩ : ∃ top, canonicalize s.tree s.cwd root = some top := by
      unfold walkFrom at inside
      split at inside
      · cases inside
      · exact ⟨_, ‹_›⟩
    refine ⟨top, canonical, fun object resolved => ?_⟩
    obtain ⟨left, walk⟩ := resolve_walk resolved
    rwa [walkFrom_eq_verdict s.free canonical walk (Nat.le_refl _), verdict_eq_inside] at inside
  · intro root top path object canonical resolved inside
    obtain ⟨left, walk⟩ := resolve_walk resolved
    rwa [walkFrom_eq_verdict s.free canonical walk (Nat.le_refl _), verdict_eq_inside]

/-- A process in an empty directory of its own. -/
def inService : Session where
  tree := [("srv", .directory [])]
  cwd := ["srv"]
  live := true
  currentDir := some ⟨true, [.name "srv"], by simp⟩
  observationRoot := .error "io"
  movedCwd := none
  free := by
    refine LinkFree.append linkFree_nil ?_
    rfl
  current := by
    rintro dir ⟨⟩
    simp [canonicalize, resolve, Path.start, hostWalk, Tree.isDirectory, Tree.find, Node.find]
  rooted := by simp

theorem inService_serves : inService.Serves ⟨true, [.name "srv"], by simp⟩ ["srv"] :=
  ⟨⟨⟨false, [.cur], by simp⟩, "fs_open", rfl⟩, inService.current _ rfl⟩

/-- A name in the directory resolves inside it. -/
theorem inService_resolve (word : Name) :
    resolve inService.tree true ["srv"] ⟨false, [.name word], by simp⟩ = .ok ["srv", word] := by
  simp [inService, resolve, Path.start, hostWalk, Tree.isDirectory, Tree.find, Node.find]

/-- A device name is refused at the door although the host would resolve it inside. -/
theorem device_refused : ∃ (s : Session) (root : Path) (top : Place) (path : Path) (object : Place),
    s.Serves root top ∧ resolve s.tree true top (s.candidate path) = .ok object ∧
      within top object ∧ ∀ name served, s.fsContained path name ≠ .ok served := by
  refine ⟨inService, _, _, ⟨false, [.name "NUL"], by simp⟩, ["srv", "NUL"], inService_serves,
    inService_resolve "NUL", by decide, fun name served => ?_⟩
  have device : (⟨false, [.name "NUL"], by simp⟩ : Path).components.any Component.isDevice := by
    decide
  unfold fsContained contained
  rw [if_pos device]
  simp [bind, Except.bind]

/-- A name in the directory is served, inside; the link door serves a device name as well. -/
theorem containment_inService :
    (∃ served, inService.fsContained ⟨false, [.name "data"], by simp⟩ "fs_open" = .ok served ∧
      ∃ root top, inService.Serves root top ∧ within top ["srv", "data"]) ∧
    (¬ ∃ served, inService.fsContained ⟨false, [.name "NUL"], by simp⟩ "fs_open" = .ok served) ∧
    ∃ served,
      inService.fsContainedLink ⟨false, [.name "NUL"], by simp⟩ "fs_lstat" = .ok served := by
  obtain ⟨-, complete, sound, -, -, -, served, link, -⟩ := containment inService
  have here : resolve inService.tree true ["srv"] ⟨false, [.cur], by simp⟩ = .ok ["srv"] := by
    simp [inService, resolve, Path.start, hostWalk, Tree.isDirectory, Tree.find, Node.find]
  refine ⟨?_, fun device => absurd ((served _ _).1 device).1 (by decide),
    (link _ _).2 ⟨by decide, _, _,
    inService_serves, complete _ _ _ _ inService_serves.2 here (by decide)⟩⟩
  obtain ⟨path, ok⟩ := (served ⟨false, [.name "data"], by simp⟩ "fs_open").2 ⟨by decide, _, _,
    inService_serves, complete _ _ _ _ inService_serves.2 (inService_resolve "data") (by decide)⟩
  obtain ⟨root, top, -, -, rfl⟩ := fsContained_eq_ok ok
  exact ⟨_, ok, sound _ _ _ _ ok (inService_resolve "data")⟩

end Session

end WolfInterp.Fs
