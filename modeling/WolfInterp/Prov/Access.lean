import WolfInterp.Prov.Tree

/-!
# One access

What an access does when it goes through and which row it answers when it does not, over a
well-formed machine.
-/

namespace WolfInterp.Provenance

/-- The permission after an access that breaks nothing. -/
def moved : Perm → Bool → AccessKind → Perm
  | .reserved, true, .write => .active
  | .active, false, .read => .frozen
  | _, false, .write => .disabled
  | current, _, _ => current

theorem moved_of_transition {current : Perm} {child isProtected : Bool} {kind : AccessKind}
    {next : Option Perm} (passed : transition current child kind isProtected = .ok next) :
    next.getD current = moved current child kind := by
  cases current <;> cases child <;> cases kind <;> cases isProtected <;>
    simp_all [transition, moved] <;> simp [← passed]

/-- The rule that an access through `through` breaks at one byte of `node`. -/
def breachAt (prov : Provenance) (through : TagId) (kind : AccessKind) (node : TagId)
    (off : Nat) : Option Breach :=
  (prov.permAt node off).bind fun current =>
    match transition current (prov.childOf node through) kind (prov.isProtected node) with
    | .error breach => some breach
    | .ok _ => none

/-- The first rule that an access breaks, tag by tag and byte by byte. -/
def firstBreach (prov : Provenance) (through : TagId) (kind : AccessKind) (offs : List Nat)
    (nodes : List TagId) : Option Breach :=
  nodes.findSome? fun node => offs.findSome? (prov.breachAt through kind node)

/-! ## Carrying out a plan -/

/-- The permission that a list of changes leaves at one byte of a tag. -/
def lastPerm (changes : List Change) (id : TagId) (off : Nat) (current : Perm) : Perm :=
  changes.foldl
    (fun current change => if change.1 = id ∧ change.2.1 = off then change.2.2 else current) current

theorem lastPerm_eq {changes : List Change} {id : TagId} {off : Nat} {current final : Perm}
    (agree : ∀ change ∈ changes, change.1 = id → change.2.1 = off → change.2.2 = final)
    (present : (id, off, final) ∈ changes ∨ current = final) :
    lastPerm changes id off current = final := by
  induction changes generalizing current with
  | nil =>
    obtain member | same := present
    · simp at member
    · exact same
  | cons change changes induction =>
    have later : ∀ other ∈ changes, other.1 = id → other.2.1 = off → other.2.2 = final :=
      fun other member => agree other (List.mem_cons_of_mem change member)
    rw [lastPerm, List.foldl_cons]
    refine induction later ?_
    by_cases hit : change.1 = id ∧ change.2.1 = off
    · rw [if_pos hit]
      exact .inr (agree change List.mem_cons_self hit.1 hit.2)
    · rw [if_neg hit]
      rcases present with member | same
      · obtain rfl | member := List.mem_cons.mp member
        · exact absurd ⟨rfl, rfl⟩ hit
        · exact .inl member
      · exact .inr same

theorem permAt_commit (prov : Provenance) (changes : List Change) (id : TagId) (off : Nat) :
    (prov.commit changes).permAt id off = (prov.permAt id off).map (lastPerm changes id off) := by
  induction changes generalizing prov with
  | nil =>
    change prov.permAt id off = (prov.permAt id off).map _
    cases prov.permAt id off <;> rfl
  | cons change changes induction =>
    have first : (prov.commit [change]).permAt id off = (prov.permAt id off).map fun current =>
        if change.1 = id ∧ change.2.1 = off then change.2.2 else current := by
      simp only [commit, List.foldl_cons, List.foldl_nil, permAt, List.getElem?_modify]
      cases prov.tags[id]? with
      | none => rfl
      | some tag =>
        by_cases same : change.1 = id
        · simp only [same, if_true, true_and, Option.map_eq_map, Option.map_some,
            Option.bind_some, List.getElem?_set]
          by_cases here : change.2.1 = off
          · subst here
            by_cases bound : change.2.1 < tag.perms.length
            · simp [bound]
            · simp [bound]
          · cases tag.perms[off]? <;> simp [here]
        · cases there : tag.perms[off]? <;> simp [same, there]
    have rest := induction (prov.commit [change])
    have split : prov.commit (change :: changes) = (prov.commit [change]).commit changes := rfl
    rw [split, rest, first, Option.map_map]
    rfl

/-- An update in place of what a view of the entries does not look at. -/
theorem map_modify {Entry View : Type} {look : Entry → View} {entries : List Entry} (index : Nat)
    {update : Entry → Entry} (keeps : ∀ entry, look (update entry) = look entry) :
    (entries.modify index update).map look = entries.map look := by
  refine List.ext_getElem? fun target => ?_
  rw [List.getElem?_map, List.getElem?_modify, List.getElem?_map]
  cases entries[target]? with
  | none => rfl
  | some entry => by_cases same : index = target <;> simp [same, keeps]

theorem arena_commit (prov : Provenance) (changes : List Change) :
    (prov.commit changes).arena = prov.arena := by
  induction changes generalizing prov with
  | nil => rfl
  | cons change changes induction =>
    have first : (prov.commit [change]).arena = prov.arena :=
      map_modify change.1 fun tag => by simp [Tag.bare, List.map_set]
    exact (induction (prov.commit [change])).trans first

/-! ## Planning -/

/-- A list of changes says what an access does to the listed tags and bytes. -/
structure Describes (prov : Provenance) (through : TagId) (kind : AccessKind) (nodes : List TagId)
    (offs : List Nat) (changes : List Change) : Prop where
  sound : ∀ change ∈ changes, change.1 ∈ nodes ∧ change.2.1 ∈ offs ∧
    ∃ current, prov.permAt change.1 change.2.1 = some current ∧
      change.2.2 = moved current (prov.childOf change.1 through) kind
  complete : ∀ node ∈ nodes, ∀ off ∈ offs, ∀ current, prov.permAt node off = some current →
    (node, off, moved current (prov.childOf node through) kind) ∈ changes ∨
      current = moved current (prov.childOf node through) kind

section Planning

variable {prov : Provenance} {through : TagId} {kind : AccessKind} {offs : List Nat} {node : TagId}

/-- A described plan moves the bytes it covers and no others. -/
theorem permAt_of_describes {nodes : List TagId} {changes : List Change}
    (describes : prov.Describes through kind nodes offs changes) (id : TagId) (off : Nat) :
    (prov.commit changes).permAt id off = (prov.permAt id off).map fun current =>
      if id ∈ nodes ∧ off ∈ offs then moved current (prov.childOf id through) kind
      else current := by
  rw [permAt_commit]
  cases found : prov.permAt id off with
  | none => rfl
  | some current =>
    simp only [Option.map_some, Option.some.injEq]
    refine lastPerm_eq (fun change member same here => ?_) ?_
    · obtain ⟨node_mem, off_mem, before, before_eq, after_eq⟩ := describes.sound change member
      rw [same, here] at before_eq
      obtain rfl : before = current := Option.eq_some_unique before_eq found
      rw [if_pos ⟨same ▸ node_mem, here ▸ off_mem⟩, after_eq, same]
    · by_cases covered : id ∈ nodes ∧ off ∈ offs
      · rw [if_pos covered]
        exact describes.complete id covered.1 off covered.2 current found
      · rw [if_neg covered]
        exact .inr rfl

theorem Describes.append {first rest : List TagId} {left right : List Change}
    (front : prov.Describes through kind first offs left)
    (back : prov.Describes through kind rest offs right) :
    prov.Describes through kind (first ++ rest) offs (left ++ right) := by
  constructor
  · intro change member
    rcases List.mem_append.mp member with inLeft | inRight
    · obtain ⟨node_mem, others⟩ := front.sound change inLeft
      exact ⟨List.mem_append_left rest node_mem, others⟩
    · obtain ⟨node_mem, others⟩ := back.sound change inRight
      exact ⟨List.mem_append_right first node_mem, others⟩
  · intro node node_mem off off_mem current found
    rcases List.mem_append.mp node_mem with inFirst | inRest
    · exact (front.complete node inFirst off off_mem current found).imp_left
        (List.mem_append_left right)
    · exact (back.complete node inRest off off_mem current found).imp_left
        (List.mem_append_right left)

theorem describes_nil (nodes : List TagId) : prov.Describes through kind nodes [] [] :=
  ⟨by simp, by simp⟩

/-- One more byte of the same tag. -/
theorem Describes.cons_byte {off : Nat} {changes : List Change}
    (rest : prov.Describes through kind [node] offs changes) {current : Perm} {next : Option Perm}
    (found : prov.permAt node off = some current)
    (moves : next.getD current = moved current (prov.childOf node through) kind) :
    prov.Describes through kind [node] (off :: offs)
      ((next.toList.map fun perm => (node, off, perm)) ++ changes) := by
  constructor
  · intro change member
    rcases List.mem_append.mp member with here | later
    · obtain ⟨perm, perm_mem, rfl⟩ := List.mem_map.mp here
      obtain rfl := Option.mem_toList.mp perm_mem
      exact ⟨List.mem_singleton_self node, List.mem_cons_self, current, found, moves⟩
    · obtain ⟨node_mem, off_mem, others⟩ := rest.sound change later
      exact ⟨node_mem, List.mem_cons_of_mem off off_mem, others⟩
  · intro target target_mem byte byte_mem before before_eq
    obtain rfl := List.mem_singleton.mp target_mem
    rcases List.mem_cons.mp byte_mem with rfl | later
    · obtain rfl : before = current := Option.eq_some_unique before_eq found
      cases next with
      | none => exact .inr moves
      | some perm =>
        rw [← moves]
        exact .inl (by simp)
    · exact (rest.complete target target_mem byte later before before_eq).imp_left
        (List.mem_append_right _)

theorem breachAt_eq {off : Nat} {tag : Tag} {current : Perm}
    (tag_found : prov.tags[node]? = some tag) (perm_found : tag.perms[off]? = some current) :
    prov.breachAt through kind node off =
      match transition current (prov.childOf node through) kind tag.isProtected with
      | .error breach => some breach
      | .ok _ => none := by
  simp [breachAt, permAt, isProtected, tag_found, perm_found]

/-- The bytes of one tag: the first breach, or a plan that describes them. -/
theorem planBytes_spec (through : TagId) (kind : AccessKind) (alloc : AllocId)
    (wellFormed : prov.WellFormed) {index : AllocId} {entry : Alloc}
    (entry_found : prov.allocs[index]? = some entry) {tag : Tag}
    (tag_found : prov.tags[node]? = some tag) (tag_alloc : tag.alloc = index) (span : Span)
    (inside : ∀ off ∈ offs, off < entry.size) :
    (∀ breach, offs.findSome? (prov.breachAt through kind node) = some breach →
      ∃ finding, prov.planBytes alloc node tag (prov.childOf node through) kind span offs =
        some (.error finding) ∧ finding.row = breach.row) ∧
    (offs.findSome? (prov.breachAt through kind node) = none →
      ∃ changes, prov.planBytes alloc node tag (prov.childOf node through) kind span offs =
        some (.ok changes) ∧ prov.Describes through kind [node] offs changes) := by
  induction offs with
  | nil => exact ⟨by simp, fun _ => ⟨[], rfl, describes_nil [node]⟩⟩
  | cons off offs induction =>
    have length_eq := wellFormed.length_perms tag_found (tag_alloc ▸ entry_found)
    have bound : off < tag.perms.length := length_eq ▸ inside off List.mem_cons_self
    obtain ⟨current, perm_found⟩ : ∃ current, tag.perms[off]? = some current :=
      ⟨_, List.getElem?_eq_getElem bound⟩
    have here : prov.breachAt through kind node off = _ := breachAt_eq tag_found perm_found
    rw [List.findSome?_cons, here, planBytes]
    simp only [perm_found]
    cases passed : transition current (prov.childOf node through) kind tag.isProtected with
    | error breach =>
      simp only [Option.some.injEq, reduceCtorEq, false_implies, and_true]
      rintro _ rfl
      have positive : 0 < entry.size :=
        Nat.lt_of_le_of_lt (Nat.zero_le off) (inside off List.mem_cons_self)
      obtain ⟨lines, lines_eq⟩ := Option.isSome_iff_exists.mp
        ((tree_isSome_iff wellFormed entry_found).mpr positive)
      simp only [tag_alloc, report, lines_eq, Option.map_some]
      exact ⟨_, rfl, rfl⟩
    | ok next =>
      obtain ⟨onBreach, onClear⟩ :=
        induction fun other member => inside other (List.mem_cons_of_mem off member)
      refine ⟨fun breach found => ?_, fun clear => ?_⟩
      · obtain ⟨finding, plan_eq, row_eq⟩ := onBreach breach found
        exact ⟨finding, by simp [plan_eq, Except.map], row_eq⟩
      · obtain ⟨changes, plan_eq, describes⟩ := onClear clear
        refine ⟨(next.toList.map fun perm => (node, off, perm)) ++ changes,
          by simp only [plan_eq, Option.map_some, Except.map], ?_⟩
        exact describes.cons_byte (by simp [permAt, tag_found, perm_found])
          (moved_of_transition passed)

/-- The tags of a tree: the first breach, or a plan that describes them. -/
theorem planTags_spec (wellFormed : prov.WellFormed) {index : AllocId} {entry : Alloc}
    (entry_found : prov.allocs[index]? = some entry) (real : through < prov.tags.length)
    (span : Span) (inside : ∀ off ∈ offs, off < entry.size) {nodes : List TagId}
    (minted : ∀ node ∈ nodes, prov.allocOf node = some index) :
    (∀ breach, prov.firstBreach through kind offs nodes = some breach →
      ∃ finding, prov.planTags index through offs kind span nodes = some (.error finding) ∧
        finding.row = breach.row) ∧ (prov.firstBreach through kind offs nodes = none →
      ∃ changes, prov.planTags index through offs kind span nodes = some (.ok changes) ∧
        prov.Describes through kind nodes offs changes) := by
  induction nodes with
  | nil => exact ⟨by simp [firstBreach], fun _ => ⟨[], rfl, by simp, by simp⟩⟩
  | cons node nodes induction =>
    obtain ⟨tag, tag_found, tag_alloc⟩ :=
      Option.map_eq_some_iff.mp (minted node List.mem_cons_self)
    have child := isChildAccess_eq wellFormed node real
    obtain ⟨onBreach, onClear⟩ := planBytes_spec through kind index wellFormed entry_found
      tag_found tag_alloc span inside
    obtain ⟨laterBreach, laterClear⟩ :=
      induction fun other member => minted other (List.mem_cons_of_mem node member)
    rw [firstBreach, List.findSome?_cons, planTags, child, tag_found]
    cases here : offs.findSome? (prov.breachAt through kind node) with
    | some breach =>
      obtain ⟨finding, plan_eq, row_eq⟩ := onBreach breach here
      simp only [plan_eq]
      exact ⟨fun other same => ⟨finding, rfl, Option.some.inj same ▸ row_eq⟩, by simp⟩
    | none =>
      obtain ⟨changes, plan_eq, describes⟩ := onClear here
      simp only [plan_eq]
      refine ⟨fun breach found => ?_, fun clear => ?_⟩
      · obtain ⟨finding, later_eq, row_eq⟩ := laterBreach breach found
        exact ⟨finding, by simp [later_eq, Except.map], row_eq⟩
      · obtain ⟨later, later_eq, later_describes⟩ := laterClear clear
        refine ⟨changes ++ later, by simp [later_eq, Except.map], ?_⟩
        exact describes.append later_describes

/-! ## The access check -/

/-- The permissions of one tree move as an access through `through` moves them; nothing else
changes. -/
structure Moves (prov next : Provenance) (index : AllocId) (through : TagId) (kind : AccessKind)
    (offs : List Nat) : Prop where
  arena : next.arena = prov.arena
  perms : ∀ id off, next.permAt id off = (prov.permAt id off).map fun current =>
    if id ∈ prov.treeTags index ∧ off ∈ offs then moved current (prov.childOf id through) kind
    else current
  rest : { next with tags := [] } = { prov with tags := [] }

theorem mem_bytes {lo hi off : Nat} : off ∈ bytes lo hi ↔ lo ≤ off ∧ off < hi := by
  rw [bytes, List.mem_range'_1]
  omega

/-- A plan answers the first breach, and without one moves the tree. -/
theorem plan_spec (kind : AccessKind) (lo : Nat) (wellFormed : prov.WellFormed) {index : AllocId}
    {entry : Alloc} (entry_found : prov.allocs[index]? = some entry)
    (real : through < prov.tags.length) (span : Span) {hi : Nat} (inside : hi ≤ entry.size) :
    (∀ breach, prov.firstBreach through kind (bytes lo hi) (prov.treeTags index) = some breach →
      ∃ finding, prov.plan index through lo hi kind span = some (.error finding) ∧
        finding.row = breach.row) ∧
    (prov.firstBreach through kind (bytes lo hi) (prov.treeTags index) = none →
      ∃ changes, prov.plan index through lo hi kind span = some (.ok changes) ∧
        Moves prov (prov.commit changes) index through kind (bytes lo hi)) := by
  have bounds : ∀ off ∈ bytes lo hi, off < entry.size :=
    fun off member => Nat.lt_of_lt_of_le (mem_bytes.mp member).2 inside
  obtain ⟨onBreach, onClear⟩ := planTags_spec wellFormed entry_found real span bounds
    (wellFormed.members index)
  refine ⟨onBreach, fun clear => ?_⟩
  obtain ⟨changes, plan_eq, describes⟩ := onClear clear
  exact ⟨changes, plan_eq, arena_commit prov changes, permAt_of_describes describes, rfl⟩

end Planning

/-- How an access meets the machine: refused before the tree check, with the allocation whose tree
the finding prints, or let through to it. -/
inductive Gate where
  | refused (row : UbRow) (printed : Option AllocId)
  | opened (index : AllocId) (entry : Alloc) (lo hi : Nat)

/-- The checks before the tree check. -/
def gate (prov : Provenance) (ptr : RawPtr) (len : Nat) : Gate :=
  match ptr.alloc with
  | none => .refused .l2 none
  | some index =>
    match prov.allocs[index]? with
    | none => .refused .l2 none
    | some entry =>
      if ptr.offset < 0 ∨ (entry.size : Int) < ptr.offset + (len : Int) then
        .refused .p3 (some index)
      else if (entry.owner.filter fun owner => prov.regionDead.contains owner).isSome then
        .refused .p4 (some index)
      else .opened index entry ptr.offset.toNat (ptr.offset.toNat + len)

section Access

variable {prov : Provenance} {ptr : RawPtr} {len : Nat}

theorem access_of_refused {row : UbRow} (closed : prov.gate ptr len = .refused row none)
    (kind : AccessKind) (span : Span) :
    ∃ finding, prov.access ptr len kind span = some (.error finding, prov) ∧ finding.row = row := by
  unfold gate at closed
  unfold access
  cases target : ptr.alloc with
  | none =>
    simp only [target, Gate.refused.injEq, and_true] at closed ⊢
    exact ⟨_, rfl, closed⟩
  | some index =>
    cases found : prov.allocs[index]? with
    | none =>
      simp only [target, found, Gate.refused.injEq, and_true] at closed ⊢
      exact ⟨_, rfl, closed⟩
    | some entry =>
      simp only [target, found] at closed
      split at closed
      · simp at closed
      · split at closed <;> simp at closed

theorem access_of_printed {row : UbRow} {index : AllocId}
    (closed : prov.gate ptr len = .refused row (some index)) (kind : AccessKind) (span : Span) :
    (∃ entry, prov.allocs[index]? = some entry) ∧ ∃ tagSpan message, prov.access ptr len kind span =
      (prov.report index row span tagSpan message).map fun finding => (.error finding, prov) := by
  unfold gate at closed
  unfold access
  cases target : ptr.alloc with
  | none => simp [target] at closed
  | some place =>
    cases found : prov.allocs[place]? with
    | none => simp [target, found] at closed
    | some entry =>
      simp only [target, found] at closed ⊢
      split at closed
      · rename_i outside
        obtain ⟨rfl, same⟩ := Gate.refused.inj closed
        cases same
        rw [if_pos outside]
        exact ⟨⟨entry, found⟩, _, _, rfl⟩
      · rename_i inside
        split at closed
        · rename_i dead
          obtain ⟨rfl, same⟩ := Gate.refused.inj closed
          cases same
          obtain ⟨owner, owner_eq⟩ := Option.isSome_iff_exists.mp dead
          rw [if_neg inside, owner_eq]
          exact ⟨⟨entry, found⟩, _, _, rfl⟩
        · simp at closed

section

variable {index : AllocId} {entry : Alloc} {lo hi : Nat}
  (passed : prov.gate ptr len = .opened index entry lo hi)
include passed

theorem access_of_opened (kind : AccessKind) (span : Span) :
    prov.access ptr len kind span =
      match prov.checkTree index entry ptr lo hi kind span with
      | none => none
      | some (.error finding) => some (.error finding, prov)
      | some (.ok next) => next.checkInit index entry lo hi kind span := by
  unfold gate at passed
  unfold access
  cases target : ptr.alloc with
  | none => simp [target] at passed
  | some place =>
    cases found : prov.allocs[place]? with
    | none => simp [target, found] at passed
    | some other =>
      simp only [target, found] at passed ⊢
      split at passed
      · simp at passed
      · rename_i inside
        split at passed
        · simp at passed
        · rename_i alive
          obtain ⟨rfl, rfl, rfl, rfl⟩ := Gate.opened.inj passed
          have not_freed := Option.not_isSome_iff_eq_none.mp alive
          rcases prov.checkTree place other ptr ptr.offset.toNat (ptr.offset.toNat + len) kind
            span with _ | _ | _
          · simp only [if_neg inside, not_freed]
          · simp only [if_neg inside, not_freed]
          · simp only [if_neg inside, not_freed]

/-- What the checks before the tree check have established. -/
theorem of_opened : ptr.alloc = some index ∧ prov.allocs[index]? = some entry ∧ hi ≤ entry.size ∧
      ∀ owner, entry.owner = some owner → owner ∉ prov.regionDead := by
  unfold gate at passed
  cases target : ptr.alloc with
  | none => simp [target] at passed
  | some place =>
    cases found : prov.allocs[place]? with
    | none => simp [target, found] at passed
    | some other =>
      simp only [target, found] at passed
      split at passed
      · simp at passed
      · split at passed
        · simp at passed
        · rename_i inside alive
          obtain ⟨rfl, rfl, rfl, rfl⟩ := Gate.opened.inj passed
          refine ⟨rfl, found, by omega, fun owner owner_eq dead => ?_⟩
          simp [owner_eq, dead] at alive

theorem range_of_opened : (lo : Int) = ptr.offset ∧ hi = lo + len := by
  unfold gate at passed
  cases target : ptr.alloc with
  | none => simp [target] at passed
  | some place =>
    cases found : prov.allocs[place]? with
    | none => simp [target, found] at passed
    | some other =>
      simp only [target, found] at passed
      split at passed
      · simp at passed
      · split at passed
        · simp at passed
        · obtain ⟨rfl, rfl, rfl, rfl⟩ := Gate.opened.inj passed
          omega

end

end Access

/-! ## The tree check -/

/-- Does an access through `through` break nothing? -/
def permits (prov : Provenance) (index : AllocId) (kind : AccessKind) (lo hi : Nat)
    (through : TagId) : Bool :=
  (prov.firstBreach through kind (bytes lo hi) (prov.treeTags index)).isNone

/-- The row of the first breach of an access through `through`. -/
def breachRow (prov : Provenance) (index : AllocId) (kind : AccessKind) (lo hi : Nat)
    (through : TagId) : Option UbRow :=
  (prov.firstBreach through kind (bytes lo hi) (prov.treeTags index)).map Breach.row

/-- The tag an access goes through, or the row it answers; `none` when the finding has no tree to
print. -/
def choose (prov : Provenance) (index : AllocId) (entry : Alloc) (pointer : Prov) (lo hi : Nat)
    (kind : AccessKind) : Option (Except UbRow TagId) :=
  match pointer with
  | .tag tag =>
    some ((prov.breachRow index kind lo hi tag).elim (.ok tag) .error)
  | .wildcard =>
    if entry.live = false then (if 0 < entry.size then some (.error .l2) else none)
    else match entry.exposed.find? (prov.permits index kind lo hi) with
      | some chosen => some (.ok chosen)
      | none =>
        match entry.exposed.head?.bind (prov.breachRow index kind lo hi) with
        | some row => some (.error row)
        | none => if 0 < entry.size then some (.error .p1) else none

/-- Every tag an access could go through is in the tag table. -/
def Reaches (prov : Provenance) (pointer : Prov) (entry : Alloc) : Prop :=
  match pointer with
  | .tag tag => tag < prov.tags.length
  | .wildcard => ∀ tag ∈ entry.exposed, tag < prov.tags.length

section Checks

variable {prov : Provenance} {index : AllocId} {entry : Alloc} {lo hi : Nat}

/-- A finding prints exactly when its allocation has a byte. -/
theorem report_spec (wellFormed : prov.WellFormed) (found : prov.allocs[index]? = some entry)
    (row : UbRow) (span : Span) (tagSpan : Option Span) (message : String) :
    (0 < entry.size → ∃ finding, prov.report index row span tagSpan message = some finding ∧
      finding.row = row) ∧
    (¬ 0 < entry.size → prov.report index row span tagSpan message = none) := by
  constructor
  · intro positive
    obtain ⟨lines, lines_eq⟩ :=
      Option.isSome_iff_exists.mp ((tree_isSome_iff wellFormed found).mpr positive)
    exact ⟨_, by rw [report, lines_eq, Option.map_some], rfl⟩
  · intro empty
    have silent : prov.tree index = none := by
      rw [← Option.not_isSome_iff_eq_none, tree_isSome_iff wellFormed found]
      exact empty
    rw [report, silent, Option.map_none]

/-- Without a tag in the table to go through, a plan panics at the root. -/
theorem plan_of_unreal (kind : AccessKind) (wellFormed : prov.WellFormed)
    (found : prov.allocs[index]? = some entry) {through : TagId}
    (unreal : ¬ through < prov.tags.length) (span : Span) :
    prov.plan index through lo hi kind span = none := by
  have absent : prov.tags[through]? = none := List.getElem?_eq_none (Nat.le_of_not_lt unreal)
  have stuck : ∀ node ∈ prov.treeTags index, prov.isChildAccess node through = none := by
    intro node member
    have bound := lt_of_allocOf (wellFormed.members index node member)
    have differs : through ≠ node := fun same => unreal (same ▸ bound)
    rw [isChildAccess]
    cases length_eq : prov.tags.length with
    | zero => exact absurd bound (by simp [length_eq])
    | succ fuel => rw [walkUp, if_neg differs, absent]
  have rooted := (wellFormed.root_mem found).1
  rw [plan]
  cases nodes : prov.treeTags index with
  | nil => simp [nodes] at rooted
  | cons node rest =>
    rw [planTags, stuck node (nodes ▸ List.mem_cons_self)]

variable {span : Span} {next : Provenance}

/-- A plan that goes through goes through a tag of the table and moves the tree. -/
theorem moves_of_plan (wellFormed : prov.WellFormed) (found : prov.allocs[index]? = some entry)
    (inside : hi ≤ entry.size) {kind : AccessKind} {through : TagId} {changes : List Change}
    (planned : prov.plan index through lo hi kind span = some (.ok changes)) :
    through < prov.tags.length ∧ prov.permits index kind lo hi through = true ∧
      Moves prov (prov.commit changes) index through kind (bytes lo hi) := by
  have real : through < prov.tags.length := by
    by_contra unreal
    rw [plan_of_unreal kind wellFormed found unreal span] at planned
    simp at planned
  obtain ⟨onBreach, onClear⟩ := plan_spec kind lo wellFormed found real span inside
  cases breach_eq : prov.firstBreach through kind (bytes lo hi) (prov.treeTags index) with
  | some breach =>
    obtain ⟨finding, plan_eq, _⟩ := onBreach breach breach_eq
    simp [plan_eq] at planned
  | none =>
    obtain ⟨other, plan_eq, moves⟩ := onClear breach_eq
    obtain rfl : other = changes := by simpa [plan_eq] using planned
    exact ⟨real, by rw [permits, breach_eq]; rfl, moves⟩

/-- The tags an access may go through, in the order they are tried. -/
def candidates (pointer : Prov) (entry : Alloc) : List TagId :=
  match pointer with
  | .tag tag => [tag]
  | .wildcard => entry.exposed

/-- A tree check that passes has moved the tree through one tag that permits the access. -/
theorem moves_of_checkTree (wellFormed : prov.WellFormed) (found : prov.allocs[index]? = some entry)
    (inside : hi ≤ entry.size) {ptr : RawPtr} {kind : AccessKind}
    (checked : prov.checkTree index entry ptr lo hi kind span = some (.ok next)) :
    ∃ through, through < prov.tags.length ∧ prov.permits index kind lo hi through = true ∧
      Moves prov next index through kind (bytes lo hi) ∧ through ∈ candidates ptr.prov entry := by
  unfold checkTree at checked
  cases pointer : ptr.prov with
  | tag tag =>
    simp only [pointer, Option.map_eq_some_iff] at checked
    obtain ⟨answer, planned, answer_eq⟩ := checked
    cases answer with
    | error => simp [Except.map] at answer_eq
    | ok changes =>
      obtain rfl : prov.commit changes = next := by simpa [Except.map] using answer_eq
      obtain ⟨real, permitted, moves⟩ := moves_of_plan wellFormed found inside planned
      exact ⟨tag, real, permitted, moves, List.mem_singleton_self tag⟩
  | wildcard =>
    have search : ∀ candidates first changes,
        prov.resolve index lo hi kind span candidates first = some (.ok changes) →
        ∃ through, through < prov.tags.length ∧ prov.permits index kind lo hi through = true ∧
          Moves prov (prov.commit changes) index through kind (bytes lo hi) ∧
          through ∈ candidates := by
      intro candidates
      induction candidates with
      | nil => simp [resolve]
      | cons candidate rest induction =>
        intro first changes resolved
        rw [resolve] at resolved
        cases planned : prov.plan index candidate lo hi kind span with
        | none => simp [planned] at resolved
        | some answer =>
          cases answer with
          | error finding =>
            simp only [planned] at resolved
            obtain ⟨through, real, permitted, moves, member⟩ :=
              induction _ changes resolved
            exact ⟨through, real, permitted, moves, List.mem_cons_of_mem candidate member⟩
          | ok other =>
            obtain rfl : other = changes := by simpa [planned] using resolved
            obtain ⟨real, permitted, moves⟩ := moves_of_plan wellFormed found inside planned
            exact ⟨candidate, real, permitted, moves, List.mem_cons_self⟩
    simp only [pointer] at checked
    split at checked
    · obtain ⟨finding, _, answer_eq⟩ := Option.map_eq_some_iff.mp checked
      simp at answer_eq
    · split at checked
      · simp at checked
      · rename_i changes resolved
        obtain ⟨through, real, permitted, moves, member⟩ := search _ _ _ resolved
        obtain rfl : prov.commit changes = next := by simpa using checked
        exact ⟨through, real, permitted, moves, member⟩
      · simp at checked
      · obtain ⟨finding, _, answer_eq⟩ := Option.map_eq_some_iff.mp checked
        simp at answer_eq

/-- A check that only reports answers its row, unless there is no tree to print. -/
theorem report_answers (wellFormed : prov.WellFormed) (found : prov.allocs[index]? = some entry)
    {answer : Option (Except UbRow TagId)} {row : UbRow}
    (answer_eq : answer = if 0 < entry.size then some (.error row) else none)
    (goesThrough : TagId → Option (Except UbFinding Provenance) → Prop) (span : Span)
    (tagSpan : Option Span) (message : String) : (∀ through, answer = some (.ok through) →
      goesThrough through ((prov.report index row span tagSpan message).map .error)) ∧
    (∀ other, answer = some (.error other) → ∃ finding,
      (prov.report index row span tagSpan message).map Except.error =
        (some (.error finding) : Option (Except UbFinding Provenance)) ∧ finding.row = other) ∧
    (answer = none → (prov.report index row span tagSpan message).map Except.error =
      (none : Option (Except UbFinding Provenance))) := by
  obtain ⟨prints, silent⟩ := report_spec wellFormed found row span tagSpan message
  subst answer_eq
  by_cases positive : 0 < entry.size
  · obtain ⟨finding, report_eq, row_eq⟩ := prints positive
    simp [positive, report_eq, row_eq]
  · simp [positive, silent positive]

section

variable (kind : AccessKind) (lo : Nat) (wellFormed : prov.WellFormed)
  (found : prov.allocs[index]? = some entry) (span : Span) (inside : hi ≤ entry.size)
include wellFormed found inside

/-- The wildcard search: the first exposed tag that breaks nothing, or the first finding. -/
theorem resolve_spec {candidates : List TagId} (real : ∀ tag ∈ candidates, tag < prov.tags.length)
    (first : Option UbFinding) :
    (∀ chosen, candidates.find? (prov.permits index kind lo hi) = some chosen →
      ∃ changes, prov.resolve index lo hi kind span candidates first = some (.ok changes) ∧
        Moves prov (prov.commit changes) index chosen kind (bytes lo hi)) ∧
    (candidates.find? (prov.permits index kind lo hi) = none →
      ∃ finding, prov.resolve index lo hi kind span candidates first = some (.error finding) ∧
        finding.map UbFinding.row = (first.map UbFinding.row).or
          (candidates.head?.bind (prov.breachRow index kind lo hi))) := by
  induction candidates generalizing first with
  | nil =>
    refine ⟨by simp, fun _ => ⟨first, rfl, ?_⟩⟩
    cases first <;> rfl
  | cons candidate rest induction =>
    obtain ⟨onBreach, onClear⟩ := plan_spec kind lo wellFormed found
      (real candidate List.mem_cons_self) span inside
    have later := induction fun tag member => real tag (List.mem_cons_of_mem candidate member)
    cases breach_eq : prov.firstBreach candidate kind (bytes lo hi) (prov.treeTags index) with
    | none =>
      obtain ⟨changes, plan_eq, moves⟩ := onClear breach_eq
      have passes : prov.permits index kind lo hi candidate = true := by
        rw [permits, breach_eq]
        rfl
      rw [List.find?_cons_of_pos passes, resolve, plan_eq]
      exact ⟨fun chosen same => ⟨changes, rfl, Option.some.inj same ▸ moves⟩, by simp⟩
    | some breach =>
      obtain ⟨finding, plan_eq, row_eq⟩ := onBreach breach breach_eq
      have fails : ¬ prov.permits index kind lo hi candidate = true := by
        rw [permits, breach_eq]
        simp
      rw [List.find?_cons_of_neg fails, resolve, plan_eq]
      obtain ⟨onChosen, onNone⟩ := later (some (first.getD finding))
      refine ⟨onChosen, fun none_eq => ?_⟩
      obtain ⟨answer, resolve_eq, rows⟩ := onNone none_eq
      refine ⟨answer, resolve_eq, rows.trans ?_⟩
      cases first with
      | some known => rfl
      | none => simp [breachRow, breach_eq, row_eq]

/-- The tree check goes through the chosen tag, answers the chosen row, or has no tree to print. -/
theorem checkTree_spec {ptr : RawPtr} (reaches : prov.Reaches ptr.prov entry) :
    (∀ through, prov.choose index entry ptr.prov lo hi kind = some (.ok through) →
      ∃ next, prov.checkTree index entry ptr lo hi kind span = some (.ok next) ∧
        Moves prov next index through kind (bytes lo hi)) ∧
    (∀ row, prov.choose index entry ptr.prov lo hi kind = some (.error row) →
      ∃ finding, prov.checkTree index entry ptr lo hi kind span = some (.error finding) ∧
        finding.row = row) ∧ (prov.choose index entry ptr.prov lo hi kind = none →
      prov.checkTree index entry ptr lo hi kind span = none) := by
  cases pointer : ptr.prov with
  | tag tag =>
    rw [pointer] at reaches
    obtain ⟨onBreach, onClear⟩ := plan_spec kind lo wellFormed found reaches span inside
    simp only [choose, checkTree, pointer, breachRow]
    cases breach_eq : prov.firstBreach tag kind (bytes lo hi) (prov.treeTags index) with
    | none =>
      obtain ⟨changes, plan_eq, moves⟩ := onClear breach_eq
      simp only [plan_eq, Option.map_none, Option.elim_none, Option.map_some, Except.map,
        Option.some.injEq, Except.ok.injEq, reduceCtorEq, false_implies, implies_true, and_true]
      rintro _ rfl
      exact ⟨_, rfl, moves⟩
    | some breach =>
      obtain ⟨finding, plan_eq, row_eq⟩ := onBreach breach breach_eq
      simp only [plan_eq, Option.elim_some, Option.map_some, Except.map,
        Option.some.injEq, Except.error.injEq, reduceCtorEq, false_implies, implies_true,
        true_and, and_true]
      rintro _ rfl
      exact ⟨finding, rfl, row_eq⟩
  | wildcard =>
    rw [pointer] at reaches
    simp only [choose, checkTree, pointer]
    by_cases dead : entry.live = false
    · simp only [if_pos dead]
      exact report_answers wellFormed found rfl
        (fun through answer => ∃ next, answer = some (.ok next) ∧
          Moves prov next index through kind (bytes lo hi)) span _ _
    · simp only [if_neg dead]
      obtain ⟨onChosen, onNone⟩ := resolve_spec kind lo wellFormed found span inside reaches none
      cases search : entry.exposed.find? (prov.permits index kind lo hi) with
      | some chosen =>
        obtain ⟨changes, resolve_eq, moves⟩ := onChosen chosen search
        simp only [resolve_eq, Option.some.injEq, Except.ok.injEq, reduceCtorEq, false_implies,
          implies_true, and_true]
        rintro _ rfl
        exact ⟨_, rfl, moves⟩
      | none =>
        obtain ⟨finding, resolve_eq, rows⟩ := onNone search
        rw [Option.map_none, Option.none_or] at rows
        simp only [resolve_eq, ← rows]
        cases finding with
        | some finding => simp
        | none =>
          exact report_answers wellFormed found rfl
            (fun through answer => ∃ next, answer = some (.ok next) ∧
              Moves prov next index through kind (bytes lo hi)) span _ _

end

/-- The bytes of an allocation that a write initializes. -/
def wrote (prov : Provenance) (index : AllocId) (lo hi : Nat) : Provenance :=
  { prov with
    allocs := prov.allocs.modify index fun entry =>
      { entry with
        init := entry.init.mapIdx fun off done => done || decide (lo ≤ off ∧ off < hi) } }

/-- Does a read meet a byte nothing has written? -/
def readsFresh (entry : Alloc) (lo hi : Nat) (kind : AccessKind) : Bool :=
  kind = .read ∧ ((bytes lo hi).find? fun off => entry.init[off]? ≠ some true).isSome

/-- The machine after the initialization check. -/
def initialized (prov : Provenance) (index : AllocId) (lo hi : Nat) (kind : AccessKind) :
    Provenance :=
  match kind with
  | .read => prov
  | .write => prov.wrote index lo hi

/-- The initialization check. -/
theorem checkInit_spec (kind : AccessKind) (lo : Nat) (wellFormed : prov.WellFormed)
    {printed : Alloc} (found : prov.allocs[index]? = some printed)
    (same : printed.size = entry.size) (inside : hi ≤ entry.size) (span : Span) :
    (readsFresh entry lo hi kind = true →
      ∃ finding, prov.checkInit index entry lo hi kind span = some (.error finding, prov) ∧
        finding.row = .l1) ∧ (readsFresh entry lo hi kind = false →
      prov.checkInit index entry lo hi kind span =
        some (.ok (), prov.initialized index lo hi kind)) := by
  cases kind with
  | write => simp [readsFresh, checkInit, initialized, wrote]
  | read =>
    cases search : (bytes lo hi).find? fun off => entry.init[off]? ≠ some true with
    | none =>
      simp only [readsFresh, checkInit, initialized, search]
      simp
    | some off =>
      have bound := mem_bytes.mp (List.mem_of_find?_eq_some search)
      have positive : 0 < printed.size := by omega
      simp only [readsFresh, checkInit, search]
      refine ⟨fun _ => ?_, by simp⟩
      obtain ⟨finding, report_eq, row_eq⟩ := (report_spec wellFormed found .l1 span
        (some entry.span) s!"read of alloc#{index}[{off}], which nothing has written").1 positive
      exact ⟨finding, by rw [report_eq, Option.map_some], row_eq⟩

/-- What the initialization check answers leaves the machine alone or initializes bytes. -/
theorem of_checkInit {kind : AccessKind} {answer : Except UbFinding Unit}
    (checked : prov.checkInit index entry lo hi kind span = some (answer, next)) :
    (∃ finding, answer = .error finding ∧ next = prov) ∨
      answer = .ok () ∧ next = prov.initialized index lo hi kind := by
  unfold checkInit at checked
  split at checked
  · split at checked
    · obtain ⟨finding, _, same⟩ := Option.map_eq_some_iff.mp checked
      exact .inl ⟨finding, (Prod.mk.inj same).1.symm, (Prod.mk.inj same).2.symm⟩
    · cases checked
      exact .inr ⟨rfl, rfl⟩
  · cases checked
    exact .inr ⟨rfl, rfl⟩

/-! ## What an access does -/

/-- The machine `next` is reached when an access moves one tree through a tag that permits it. -/
structure Passes (prov : Provenance) (ptr : RawPtr) (len : Nat) (kind : AccessKind)
    (index : AllocId) (entry : Alloc) (lo hi : Nat) (through : TagId) (next : Provenance) :
    Prop where
  opened : prov.gate ptr len = .opened index entry lo hi
  real : through < prov.tags.length
  permitted : prov.permits index kind lo hi through = true
  moves : prov.Moves next index through kind (bytes lo hi)
  named : through ∈ candidates ptr.prov entry

/-- The three ways an access ends when it does not panic. -/
inductive Effect (prov : Provenance) (ptr : RawPtr) (len : Nat) (kind : AccessKind) :
    Except UbFinding Unit → Provenance → Prop where
  | refused (finding : UbFinding) : Effect prov ptr len kind (.error finding) prov
  | unread {index entry lo hi through next} (finding : UbFinding)
      (passes : prov.Passes ptr len kind index entry lo hi through next) :
      Effect prov ptr len kind (.error finding) next
  | passed {index entry lo hi through next}
      (passes : prov.Passes ptr len kind index entry lo hi through next) :
      Effect prov ptr len kind (.ok ()) (next.initialized index lo hi kind)

/-- Whatever the pointer, an access that answers has one of the three effects. -/
theorem effect_of_access (wellFormed : prov.WellFormed) {ptr : RawPtr} {len : Nat}
    {kind : AccessKind} {answer : Except UbFinding Unit}
    (answered : prov.access ptr len kind span = some (answer, next)) :
    Effect prov ptr len kind answer next := by
  cases entered : prov.gate ptr len with
  | refused row printed =>
    cases printed with
    | none =>
      obtain ⟨finding, access_eq, _⟩ := access_of_refused entered kind span
      obtain ⟨rfl, rfl⟩ := Prod.mk.inj (Option.eq_some_unique access_eq answered)
      exact .refused finding
    | some printed =>
      obtain ⟨_, tagSpan, message, access_eq⟩ := access_of_printed entered kind span
      obtain ⟨finding, _, same⟩ := Option.map_eq_some_iff.mp (access_eq.symm.trans answered)
      cases same
      exact .refused finding
  | opened index entry lo hi =>
    obtain ⟨_, found, inside, _⟩ := of_opened entered
    rw [access_of_opened entered] at answered
    cases checked : prov.checkTree index entry ptr lo hi kind span with
    | none => simp [checked] at answered
    | some result =>
      cases result with
      | error finding =>
        simp only [checked, Option.some.injEq, Prod.mk.injEq] at answered
        obtain ⟨rfl, rfl⟩ := answered
        exact .refused finding
      | ok middle =>
        simp only [checked] at answered
        obtain ⟨through, real, permitted, moves, named⟩ :=
          moves_of_checkTree wellFormed found inside checked
        have passes : prov.Passes ptr len kind index entry lo hi through middle :=
          ⟨entered, real, permitted, moves, named⟩
        obtain ⟨finding, rfl, rfl⟩ | ⟨rfl, rfl⟩ := of_checkInit answered
        · exact .unread finding passes
        · exact .passed passes

end Checks

/-! ## How an access ends -/

/-- How an access ends: in a panic, refused with a row before anything moves, stopped at a byte
nothing has written after the permissions of one tree have moved, or passed. -/
inductive Outcome where
  | panics
  | refused (row : UbRow)
  | unread (index : AllocId) (lo hi : Nat) (through : TagId)
  | passed (index : AllocId) (lo hi : Nat) (through : TagId)

/-- How an access ends. -/
def outcome (prov : Provenance) (ptr : RawPtr) (len : Nat) (kind : AccessKind) : Outcome :=
  match prov.gate ptr len with
  | .refused row none => .refused row
  | .refused row (some index) =>
    if (prov.allocs[index]?).any fun entry => 0 < entry.size then .refused row else .panics
  | .opened index entry lo hi =>
    match prov.choose index entry ptr.prov lo hi kind with
    | none => .panics
    | some (.error row) => .refused row
    | some (.ok through) =>
      if readsFresh entry lo hi kind then .unread index lo hi through
      else .passed index lo hi through

/-- Every tag a pointer could go through is in the tag table. -/
def PointsInto (prov : Provenance) (ptr : RawPtr) : Prop :=
  ∀ index entry, ptr.alloc = some index → prov.allocs[index]? = some entry →
    prov.Reaches ptr.prov entry

/-- The answer and the machine that an outcome stands for. -/
def Outcome.Holds (prov : Provenance) (kind : AccessKind)
    (answer : Option (Except UbFinding Unit × Provenance)) : Outcome → Prop
  | .panics => answer = none
  | .refused row => ∃ finding, answer = some (.error finding, prov) ∧ finding.row = row
  | .unread index lo hi through => ∃ finding next, answer = some (.error finding, next) ∧
      finding.row = .l1 ∧ prov.Moves next index through kind (bytes lo hi)
  | .passed index lo hi through => ∃ next,
      answer = some (.ok (), next.initialized index lo hi kind) ∧
        prov.Moves next index through kind (bytes lo hi)

section

variable {prov next : Provenance} {index : AllocId} {through : TagId} {kind : AccessKind}
  {offs : List Nat} (moves : prov.Moves next index through kind offs)
include moves

theorem Moves.allocs :
    next.allocs = prov.allocs := by
  have same := congrArg Provenance.allocs moves.rest
  exact same

theorem Moves.wellFormed (wellFormed : prov.WellFormed) : next.WellFormed := by
  refine wellFormed.congr (frames_of_arena moves.arena) ?_
  rw [grove, grove, moves.allocs]

end

/-- An access ends as its outcome says. -/
theorem access_spec {prov : Provenance} (wellFormed : prov.WellFormed) {ptr : RawPtr}
    (points : prov.PointsInto ptr) (len : Nat) (kind : AccessKind) (span : Span) :
    (prov.outcome ptr len kind).Holds prov kind (prov.access ptr len kind span) := by
  rw [outcome]
  cases entered : prov.gate ptr len with
  | refused row printed =>
    cases printed with
    | none => exact access_of_refused entered kind span
    | some index =>
      obtain ⟨⟨entry, found⟩, tagSpan, message, access_eq⟩ :=
        access_of_printed entered kind span
      obtain ⟨prints, silent⟩ := report_spec wellFormed found row span tagSpan message
      rw [access_eq]
      by_cases positive : 0 < entry.size
      · obtain ⟨finding, report_eq, row_eq⟩ := prints positive
        simp only [found, Option.any_some, positive, decide_true, if_true, report_eq]
        exact ⟨finding, rfl, row_eq⟩
      · simp only [found, Option.any_some, positive, decide_false, Bool.false_eq_true,
          if_false, silent positive]
        rfl
  | opened index entry lo hi =>
    obtain ⟨target, found, inside, _⟩ := of_opened entered
    obtain ⟨onChosen, onRow, onPanic⟩ :=
      checkTree_spec kind lo wellFormed found span inside (points index entry target found)
    rw [access_of_opened entered]
    cases choice : prov.choose index entry ptr.prov lo hi kind with
    | none =>
      simp only [choice, onPanic choice]
      rfl
    | some answer =>
      cases answer with
      | error row =>
        obtain ⟨finding, tree_eq, row_eq⟩ := onRow row choice
        simp only [choice, tree_eq]
        exact ⟨finding, rfl, row_eq⟩
      | ok through =>
        obtain ⟨next, tree_eq, moves⟩ := onChosen through choice
        have nextFound : next.allocs[index]? = some entry := moves.allocs ▸ found
        obtain ⟨onFresh, onRead⟩ :=
          checkInit_spec kind lo (moves.wellFormed wellFormed) nextFound rfl inside span
        simp only [choice, tree_eq]
        cases fresh : readsFresh entry lo hi kind with
        | true =>
          obtain ⟨finding, init_eq, row_eq⟩ := onFresh fresh
          rw [if_pos rfl]
          exact ⟨finding, next, init_eq, row_eq, moves⟩
        | false =>
          rw [if_neg Bool.false_ne_true]
          exact ⟨next, onRead fresh, moves⟩

end WolfInterp.Provenance
