import WolfInterp.Fs.Doors

/-!
# The walk and the host agree

Where the host resolves a path, the walk ends at the same place.
-/

namespace WolfInterp.Fs

variable {tree : Tree} {place cursor object : Place} {links left hops : Nat}
  {segments : List Segment} {queue : List Component} {name : Name}

theorem find_eq_none_of_prefix {rest : Place} (missing : tree.find place = none) :
    tree.find (place ++ rest) = none := by
  rw [find_append, missing]
  rfl

/-- Below a place that no link leads to, the host's lookup of the names is the lookup of the
place. -/
theorem lookup_names (place : Place) {above : Place} (free : LinkFree tree (place ++ above))
    (links : Nat)
    (name : Name) :
    (match hostWalk tree false links place ((above ++ [name]).map .name) with
      | .ok found => tree.find found
      | .error _ => none) = tree.find (place ++ above ++ [name]) := by
  induction above generalizing place with
  | nil =>
    rw [List.append_nil]
    cases directory : tree.isDirectory place with
    | false =>
      have missing : tree.find (place ++ [name]) = none := by
        by_contra there
        rw [isDirectory_of_find (Option.isSome_iff_ne_none.mpr there)] at directory
        cases directory
      simp [hostWalk, directory, missing]
    | true =>
      cases found : tree.find (place ++ [name]) with
      | none => simp [hostWalk, directory, found]
      | some node => cases node <;> simp [hostWalk, directory, found]
  | cons head above ih =>
    have assoc : place ++ (head :: above) = place ++ [head] ++ above := by simp
    rw [assoc] at free ⊢
    have plain : tree.linkAt (place ++ [head]) = none := free _ (List.prefix_append _ _)
    cases directory : tree.isDirectory place with
    | false =>
      have missing : tree.find (place ++ [head]) = none := by
        by_contra there
        rw [isDirectory_of_find (Option.isSome_iff_ne_none.mpr there)] at directory
        cases directory
      rw [List.append_assoc, find_eq_none_of_prefix missing]
      simp [hostWalk, directory]
    | true =>
      rw [← ih _ free]
      cases found : tree.find (place ++ [head]) with
      | none =>
        rw [ih _ free, List.append_assoc, find_eq_none_of_prefix found]
        simp [hostWalk, directory, found]
      | some node =>
        have same : hostWalk tree false links place ((head :: above ++ [name]).map .name) =
            hostWalk tree false links (place ++ [head]) ((above ++ [name]).map .name) := by
          rw [List.cons_append, List.map_cons, hostWalk]
          cases node with
          | link target => simp [Tree.linkAt, found] at plain
          | _ => simp [directory, found]
        rw [same]

theorem symlinkMetadata_of_free (free : LinkFree tree cursor) (name : Name) :
    symlinkMetadata tree (cursor ++ [name]) = tree.find (cursor ++ [name]) :=
   lookup_names [] free maxSymlinks name

theorem linkAt_of_find {node : Node} (found : tree.find place = some node)
    (plain : ∀ target, node ≠ .link target) : tree.linkAt place = none := by
  unfold Tree.linkAt
  rw [found]
  cases node with
  | link target => exact absurd rfl (plain target)
  | _ => rfl

theorem LinkFree.start (free : LinkFree tree place) (path : Path) :
    LinkFree tree (path.start place) := by
  unfold Path.start
  split
  · exact linkFree_nil
  · exact free

/-- A resolution that follows links ends at no link. -/
theorem Resolves.linkFree (walk : Resolves tree true links place segments left object)
    (free : LinkFree tree place) : LinkFree tree object := by
  induction walk with
  | done => exact free
  | skip directory skipped walk ih => exact ih free
  | up directory walk ih => exact ih free.dropLast
  | create directory missing last =>
    refine free.append ?_
    rw [Tree.linkAt, missing]
  | keep directory link unfollowed => cases unfollowed
  | jump directory link followed walk ih => exact ih (free.start _)
  | enter directory there plain walk ih => exact ih (free.append (linkAt_of_find there plain))

theorem component_cons {segment : Segment} {component : Component} {rest : List Segment}
    (same : segment.component = some component) : (segment :: rest).filterMap Segment.component =
      component :: rest.filterMap Segment.component :=
  List.filterMap_cons_some same

/-- What a walk answers about the place it ended at. -/
def verdict (root place : Place) : Walk := if within root place then .inside else .outside

/-- The walk passes over the dot that a path may start with. -/
theorem walkLoop_components {root : Place} {path : Path} {answer : Walk}
    (walked : ∀ stayed, walkLoop tree root hops (path.start cursor) stayed
      (path.segments.filterMap Segment.component ++ queue) = answer) (stayed : Bool) :
    walkLoop tree root hops cursor stayed (path.components ++ queue) = answer := by
  unfold Path.components Path.start at *
  cases absolute : path.absolute with
  | true =>
    simp only [absolute, if_true, List.cons_append, List.nil_append] at walked ⊢
    rw [walkLoop]
    exact walked _
  | false =>
    simp only [absolute, Bool.false_eq_true, if_false] at walked ⊢
    split
    · rw [List.cons_append, List.cons_append, List.nil_append, walkLoop]
      exact walked _
    · exact walked _

theorem walkLoop_normal {root : Place} {stayed : Bool} (free : LinkFree tree cursor)
    (plain : tree.linkAt (cursor ++ [name]) = none) :
    walkLoop tree root hops cursor stayed (.normal name :: queue) =
      walkLoop tree root hops (cursor ++ [name]) (stayed && within root cursor) queue := by
  rw [walkLoop, symlinkMetadata_of_free free]
  split
  · rename_i target link
    rw [Tree.linkAt, link] at plain
    cases plain
  · rfl

theorem walkLoop_link {root : Place} {stayed : Bool} {target : Path} (free : LinkFree tree cursor)
    (link : tree.find (cursor ++ [name]) = some (.link target)) (room : hops < maxSymlinks) :
    walkLoop tree root hops cursor stayed (.normal name :: queue) =
      walkLoop tree root (hops + 1) cursor (stayed && within root cursor)
        (target.components ++ queue) := by
  rw [walkLoop, symlinkMetadata_of_free free, link]
  exact if_pos room

/-- Where the host resolves a path, the walk of its components ends at the object the host found. -/
theorem Resolves.walkLoop {root : Place}
    (walk : Resolves tree true links place segments left object) (free : LinkFree tree place)
    (room : hops + links ≤ maxSymlinks) (stayed : Bool) :
    walkLoop tree root hops place stayed (segments.filterMap Segment.component) =
      verdict root object := by
  induction walk generalizing hops stayed with
  | done => rw [List.filterMap_nil, Fs.walkLoop, verdict]
  | skip directory skipped walk ih =>
    rcases skipped with rfl | rfl <;> exact ih free room stayed
  | up directory walk ih =>
    rw [component_cons rfl, Fs.walkLoop]
    exact ih free.dropLast room _
  | @create links place name rest directory missing last =>
    have none : rest.filterMap Segment.component = [] := by
      rw [List.filterMap_eq_nil_iff]
      rintro segment among
      rw [last segment among]
      rfl
    rw [component_cons rfl, none,
      walkLoop_normal free (by rw [Tree.linkAt, missing]), Fs.walkLoop, verdict]
  | keep directory link unfollowed => cases unfollowed
  | @jump links left place object name target rest directory link followed walk ih =>
    rw [component_cons rfl, walkLoop_link free link (by omega)]
    refine walkLoop_components (fun stayed => ?_) _
    rw [← List.filterMap_append]
    exact ih (free.start _) (by omega) stayed
  | @enter links left place object name node rest directory there plain walk ih =>
    have unlinked := linkAt_of_find there plain
    rw [component_cons rfl, walkLoop_normal free unlinked]
    exact ih (free.append unlinked) room _

/-! ## Parts of a resolution -/

theorem exists_of_isDirectory (directory : tree.isDirectory place) : (tree.find place).isSome := by
  unfold Tree.isDirectory at directory
  cases found : tree.find place with
  | none => simp [found] at directory
  | some node => rfl

/-- After a first part that resolves to an object, the rest is resolved from there. -/
theorem Resolves.rest {follow : Bool} {middle : Nat} {top : Place} {first rest : List Segment}
    (head : Resolves tree true links place first middle top) (there : (tree.find top).isSome)
    (more : follow ∨ rest ≠ [])
    (walk : Resolves tree follow links place (first ++ rest) left object) :
    ∃ links' ≤ links, Resolves tree follow links' top rest left object := by
  induction head with
  | done links place => exact ⟨links, Nat.le_refl _, walk⟩
  | @skip links left place object segment later directory skipped head ih =>
    rw [List.cons_append] at walk
    generalize tail : later ++ rest = after at walk ih
    cases walk with
    | skip _ _ walk => exact ih there walk
    | _ => simp at skipped
  | @up links left place object later directory head ih =>
    rw [List.cons_append] at walk
    generalize tail : later ++ rest = after at walk ih
    cases walk with
    | skip _ skipped => simp at skipped
    | up _ walk => exact ih there walk
  | create directory missing last =>
    rw [missing] at there
    cases there
  | keep directory link unfollowed => cases unfollowed
  | @jump links left place object name target later directory link followed head ih =>
    rw [List.cons_append] at walk
    rw [List.append_assoc] at ih
    generalize tail : later ++ rest = after at walk ih
    cases walk with
    | skip _ skipped => simp at skipped
    | create _ missing =>
      rw [link] at missing
      cases missing
    | keep _ _ unfollowed =>
      obtain ⟨-, rfl⟩ := List.append_eq_nil_iff.mp tail
      simp [unfollowed] at more
    | jump _ link' _ walk =>
      rw [link] at link'
      cases link'
      obtain ⟨links', fewer, walk⟩ := ih there walk
      exact ⟨links', by omega, walk⟩
    | enter _ found plain =>
      rw [link] at found
      cases found
      exact absurd rfl (plain target)
  | @enter links left place object name node later directory found plain head ih =>
    rw [List.cons_append] at walk
    generalize tail : later ++ rest = after at walk ih
    cases walk with
    | skip _ skipped => simp at skipped
    | create _ missing =>
      rw [found] at missing
      cases missing
    | keep _ link =>
      rw [found] at link
      cases link
      exact absurd rfl (plain _)
    | jump _ link =>
      rw [found] at link
      cases link
      exact absurd rfl (plain _)
    | enter _ _ _ walk => exact ih there walk

/-- A separator at the end of the path of an existing object may be left out. -/
theorem Resolves.trim (walk : Resolves tree true links place (segments ++ [.empty]) left object)
    (there : (tree.find object).isSome) : Resolves tree true links place segments left object := by
  generalize shape : segments ++ [.empty] = whole at walk
  induction walk generalizing segments with
  | done => simp at shape
  | skip directory skipped walk ih =>
    cases segments with
    | nil =>
      cases shape
      cases walk
      exact .done _ _
    | cons segment rest =>
      obtain ⟨rfl, rfl⟩ := List.cons.inj shape
      exact .skip directory skipped (ih there rfl)
  | up directory walk ih =>
    cases segments with
    | nil => cases shape
    | cons segment rest =>
      obtain ⟨rfl, rfl⟩ := List.cons.inj shape
      exact .up directory (ih there rfl)
  | create directory missing last =>
    rw [missing] at there
    cases there
  | keep directory link unfollowed => cases unfollowed
  | jump directory link followed walk ih =>
    cases segments with
    | nil => cases shape
    | cons segment rest =>
      obtain ⟨rfl, rfl⟩ := List.cons.inj shape
      exact .jump directory link (.inl rfl) (ih there (List.append_assoc ..))
  | enter directory found plain walk ih =>
    cases segments with
    | nil => cases shape
    | cons segment rest =>
      obtain ⟨rfl, rfl⟩ := List.cons.inj shape
      exact .enter directory found plain (ih there rfl)

/-- A separator may be put at the end of the path of a directory. -/
theorem Resolves.separate (walk : Resolves tree true links place segments left object)
    (isDirectory : tree.isDirectory object) :
    Resolves tree true links place (segments ++ [.empty]) left object := by
  induction walk with
  | done links place => exact .skip isDirectory (.inl rfl) (.done links place)
  | skip directory skipped walk ih => exact .skip directory skipped (ih isDirectory)
  | up directory walk ih => exact .up directory (ih isDirectory)
  | create directory missing last =>
    have there := exists_of_isDirectory isDirectory
    rw [missing] at there
    cases there
  | keep directory link unfollowed => cases unfollowed
  | jump directory link followed walk ih =>
    have walk := ih isDirectory
    rw [List.append_assoc] at walk
    exact .jump directory link (.inl rfl) walk
  | enter directory found plain walk ih => exact .enter directory found plain (ih isDirectory)

/-- Without following a final link, the last name is looked up in the directory that the segments
before it resolve to. -/
theorem Resolves.final
    (walk : Resolves tree false links place (segments ++ [.name name]) left object) :
    ∃ left directory, Resolves tree true links place segments left directory ∧
      tree.isDirectory directory ∧ object = directory ++ [name] := by
  generalize shape : segments ++ [.name name] = whole at walk
  induction walk generalizing segments with
  | done => simp at shape
  | skip directory skipped walk ih =>
    cases segments with
    | nil =>
      cases shape
      simp at skipped
    | cons segment rest =>
      obtain ⟨rfl, rfl⟩ := List.cons.inj shape
      obtain ⟨left, final, walk, facts⟩ := ih rfl
      exact ⟨left, final, .skip directory skipped walk, facts⟩
  | up directory walk ih =>
    cases segments with
    | nil => cases shape
    | cons segment rest =>
      obtain ⟨rfl, rfl⟩ := List.cons.inj shape
      obtain ⟨left, final, walk, facts⟩ := ih rfl
      exact ⟨left, final, .up directory walk, facts⟩
  | create directory missing last =>
    cases segments with
    | nil =>
      cases shape
      exact ⟨_, _, .done _ _, directory, rfl⟩
    | cons segment rest =>
      obtain ⟨rfl, rfl⟩ := List.cons.inj shape
      have empty := last (.name name) (by simp)
      cases empty
  | keep directory link unfollowed =>
    cases segments with
    | nil =>
      cases shape
      exact ⟨_, _, .done _ _, directory, rfl⟩
    | cons segment rest =>
      obtain ⟨_, nothing⟩ := List.cons.inj shape
      simp at nothing
  | jump directory link followed walk ih =>
    cases segments with
    | nil =>
      cases shape
      simp at followed
    | cons segment rest =>
      obtain ⟨rfl, rfl⟩ := List.cons.inj shape
      obtain ⟨left, final, walk, facts⟩ := ih (List.append_assoc ..)
      exact ⟨left, final, .jump directory link (.inl rfl) walk, facts⟩
  | enter directory found plain walk ih =>
    cases segments with
    | nil =>
      cases shape
      cases walk
      exact ⟨_, _, .done _ _, directory, rfl⟩
    | cons segment rest =>
      obtain ⟨rfl, rfl⟩ := List.cons.inj shape
      obtain ⟨left, final, walk, facts⟩ := ih rfl
      exact ⟨left, final, .enter directory found plain walk, facts⟩

/-- A path whose text does not end in a name has no final link. -/
theorem Resolves.followed (walk : Resolves tree false links place segments left object)
    (unnamed : ∀ name, segments.getLast? ≠ some (.name name)) :
    Resolves tree true links place segments left object := by
  have later : ∀ {segment : Segment} {rest : List Segment},
      (∀ name, (segment :: rest).getLast? ≠ some (.name name)) →
        ∀ name, rest.getLast? ≠ some (.name name) := by
    intro segment rest unnamed name last
    apply unnamed name
    rw [List.getLast?_cons, last]
    rfl
  induction walk with
  | done => exact .done _ _
  | skip directory skipped walk ih => exact .skip directory skipped (ih (later unnamed))
  | up directory walk ih => exact .up directory (ih (later unnamed))
  | create directory missing last => exact .create directory missing last
  | keep => simp at unnamed
  | @jump _ _ _ _ name target rest directory link followed walk ih =>
    refine .jump directory link (.inl rfl) (ih fun name last => ?_)
    have more : rest ≠ [] := by simpa using followed
    rw [List.getLast?_append_of_ne_nil _ more] at last
    exact later unnamed name last
  | enter directory found plain walk ih =>
    exact .enter directory found plain (ih (later unnamed))

end WolfInterp.Fs
