import Mathlib.Data.List.Perm.Subperm

/-!
# Worklist closure

The usual queue-driven search: a list that is both the queue and the visited set, extended by the
successors of one entry after another. Under a step bound that exceeds the number of nodes the
search returns exactly the nodes reachable from its start.
-/

namespace Worklist

open Relation

variable {Node : Type*} [DecidableEq Node]

/-- Append a node unless it is already there. -/
def push (out : List Node) (node : Node) : List Node :=
  if node ∈ out then out else out ++ [node]

/-- Append the new ones among a list of nodes, in order. -/
def pushAll (out nodes : List Node) : List Node := nodes.foldl push out

/-- Visit the entries from position `at` on, appending the new successors of each. -/
def visit (next : Node → List Node) : Nat → Nat → List Node → List Node
  | 0, _, out => out
  | fuel + 1, position, out =>
    match out[position]? with
    | none => out
    | some node => visit next fuel (position + 1) (pushAll out (next node))

/-- The search from one node. -/
def closure (next : Node → List Node) (fuel : Nat) (start : Node) : List Node :=
  visit next fuel 0 [start]

omit [DecidableEq Node] in
/-- What stands where once an entry is put at the end. -/
theorem getElem?_snoc (out : List Node) (last : Node) (index : Nat) :
    (out ++ [last])[index]? = if index = out.length then some last else out[index]? := by
  rcases Nat.lt_trichotomy index out.length with below | same | above
  · rw [List.getElem?_append_left below, if_neg (Nat.ne_of_lt below)]
  · simp [same]
  · rw [if_neg (Nat.ne_of_gt above), List.getElem?_eq_none (by simp; omega),
      List.getElem?_eq_none (Nat.le_of_lt above)]

variable {out : List Node} {node : Node}

@[simp]
theorem mem_push {added : Node} : node ∈ push out added ↔ node ∈ out ∨ node = added := by
  unfold push
  split
  · rename_i present
    exact ⟨Or.inl, fun member => member.elim id fun same => same ▸ present⟩
  · simp

theorem nodup_push (nodup : out.Nodup) (node : Node) : (push out node).Nodup := by
  unfold push
  split
  · exact nodup
  · rename_i absent
    exact List.nodup_append.mpr ⟨nodup, by simp, by
      rintro first member second single rfl
      exact absent (List.mem_singleton.mp single ▸ member)⟩

theorem prefix_push (out : List Node) (node : Node) : out <+: push out node := by
  unfold push
  split
  · exact List.prefix_refl out
  · exact List.prefix_append out [node]

@[simp]
theorem mem_pushAll {nodes : List Node} : node ∈ pushAll out nodes ↔ node ∈ out ∨ node ∈ nodes := by
  induction nodes generalizing out with
  | nil => simp [pushAll]
  | cons first nodes induction =>
    have unfolded : pushAll out (first :: nodes) = pushAll (push out first) nodes := rfl
    rw [unfolded, induction, mem_push, List.mem_cons, or_assoc]

theorem nodup_pushAll (nodup : out.Nodup) (nodes : List Node) : (pushAll out nodes).Nodup := by
  induction nodes generalizing out with
  | nil => exact nodup
  | cons first nodes induction => exact induction (nodup_push nodup first)

theorem prefix_pushAll (out nodes : List Node) : out <+: pushAll out nodes := by
  induction nodes generalizing out with
  | nil => exact List.prefix_refl out
  | cons first nodes induction => exact (prefix_push out first).trans (induction (push out first))

variable {next : Node → List Node}

/-- The edge the search follows. -/
def Edge (next : Node → List Node) (source target : Node) : Prop := target ∈ next source

theorem prefix_visit (fuel position : Nat) (out : List Node) :
    out <+: visit next fuel position out := by
  induction fuel generalizing position out with
  | zero => exact List.prefix_refl out
  | succ fuel induction =>
    cases entry : out[position]? with
    | none => simp [visit, entry]
    | some node =>
      simp only [visit, entry]
      exact (prefix_pushAll out (next node)).trans (induction _ _)

/-- Everything the search returns is reachable from what it started with. -/
theorem reachable_of_mem_visit {fuel position : Nat}
    (member : node ∈ visit next fuel position out) :
    ∃ start ∈ out, ReflTransGen (Edge next) start node := by
  induction fuel generalizing position out with
  | zero => exact ⟨node, member, ReflTransGen.refl⟩
  | succ fuel induction =>
    cases entry : out[position]? with
    | none => exact ⟨node, by simpa [visit, entry] using member, ReflTransGen.refl⟩
    | some current =>
      have later : node ∈ visit next fuel (position + 1) (pushAll out (next current)) := by
        simpa [visit, entry] using member
      obtain ⟨start, start_mem, path⟩ := induction later
      obtain old | fresh := mem_pushAll.mp start_mem
      · exact ⟨start, old, path⟩
      · exact ⟨current, List.mem_of_getElem? entry, ReflTransGen.head fresh path⟩

/-- With fuel for every node, the search closes its result under the edge. -/
theorem closed_visit (domain : List Node)
    (covered : ∀ source target, target ∈ next source → target ∈ domain) {fuel position : Nat}
    (nodup : out.Nodup) (inside : ∀ node ∈ out, node ∈ domain)
    (enough : domain.length ≤ fuel + position)
    (visited : ∀ index node, index < position → out[index]? = some node →
      ∀ target ∈ next node, target ∈ out) :
    ∀ node ∈ visit next fuel position out, ∀ target ∈ next node,
      target ∈ visit next fuel position out := by
  have finished : ∀ {place : Nat} {list : List Node}, list.length ≤ place →
      (∀ index node, index < place → list[index]? = some node →
        ∀ target ∈ next node, target ∈ list) →
      ∀ node ∈ list, ∀ target ∈ next node, target ∈ list := by
    intro place list short processed node member target edge
    obtain ⟨index, bound, rfl⟩ := List.mem_iff_getElem.mp member
    exact processed index _ (by omega) (by simp [bound]) target edge
  induction fuel generalizing position out with
  | zero =>
    have bounded : out.length ≤ domain.length := (nodup.subperm inside).length_le
    exact finished (by omega : out.length ≤ position) visited
  | succ fuel induction =>
    cases entry : out[position]? with
    | none =>
      simp only [visit, entry]
      exact finished (List.getElem?_eq_none_iff.mp entry) visited
    | some current =>
      simp only [visit, entry]
      refine induction (nodup_pushAll nodup _) ?_ (by omega) ?_
      · intro node member
        obtain old | fresh := mem_pushAll.mp member
        · exact inside node old
        · exact covered current node fresh
      · intro index node bound place target edge
        obtain ⟨extra, extended⟩ := prefix_pushAll out (next current)
        have short : position < out.length := (List.getElem?_eq_some_iff.mp entry).1
        have oldPlace : out[index]? = some node := by
          rw [← place, ← extended, List.getElem?_append_left (by omega)]
        obtain before | here : index < position ∨ index = position := by omega
        · exact mem_pushAll.mpr (.inl (visited index node before oldPlace target edge))
        · obtain rfl : node = current := by
            subst here
            exact Option.eq_some_unique oldPlace entry
          exact mem_pushAll.mpr (.inr edge)

/-- The search returns exactly the nodes reachable from its start. -/
theorem mem_closure_iff {domain : List Node}
    (covered : ∀ source target, target ∈ next source → target ∈ domain) {fuel : Nat}
    (enough : domain.length < fuel) {start : Node} :
    node ∈ closure next fuel start ↔ ReflTransGen (Edge next) start node := by
  constructor
  · intro member
    obtain ⟨first, first_mem, path⟩ := reachable_of_mem_visit member
    obtain rfl := List.mem_singleton.mp first_mem
    exact path
  · intro path
    induction path with
    | refl => exact (prefix_visit fuel 0 [start]).subset (List.mem_singleton.mpr rfl)
    | @tail source target _ edge induction =>
      refine closed_visit (start :: domain) ?_ (by simp)
        (by simp) (by simp; omega) (by simp) source induction target edge
      intro before after step
      exact List.mem_cons_of_mem start (covered before after step)

/-! ## Looking for a node -/

/-- Push the successors of an entry; `none` once one of them is the node looked for. -/
def scan (goal : Node) : List Node → List Node → Option (List Node)
  | [], seen => some seen
  | node :: nodes, seen => if node = goal then none else scan goal nodes (push seen node)

/-- Visit the entries from position `at` on until a successor is the node looked for; `none` when
the fuel does not suffice. -/
def seek (next : Node → List Node) (goal : Node) : Nat → Nat → List Node → Option Bool
  | 0, _, _ => none
  | fuel + 1, position, seen =>
    match seen[position]? with
    | none => some false
    | some node =>
      match scan goal (next node) seen with
      | none => some true
      | some seen => seek next goal fuel (position + 1) seen

section Seeking

variable {goal : Node} {seen : List Node} {fuel : Nat}

theorem scan_eq_none {nodes : List Node} : scan goal nodes seen = none ↔ goal ∈ nodes := by
  induction nodes generalizing seen with
  | nil => simp [scan]
  | cons node nodes induction =>
    rw [scan]
    by_cases same : node = goal
    · simp [same]
    · rw [if_neg same, induction, List.mem_cons]
      exact (or_iff_right (Ne.symm same)).symm

theorem scan_eq_some {nodes later : List Node} (scanned : scan goal nodes seen = some later) :
    later = pushAll seen nodes ∧ goal ∉ nodes := by
  induction nodes generalizing seen with
  | nil => exact ⟨(Option.some.inj scanned).symm, List.not_mem_nil⟩
  | cons node nodes induction =>
    rw [scan] at scanned
    by_cases same : node = goal
    · rw [if_pos same] at scanned
      cases scanned
    · rw [if_neg same] at scanned
      obtain ⟨rfl, absent⟩ := induction scanned
      refine ⟨rfl, ?_⟩
      rintro (_ | ⟨_, later⟩)
      · exact same rfl
      · exact absent later

/-- A node that is found is a proper successor of an entry. -/
theorem found_of_seek {position : Nat} (found : seek next goal fuel position seen = some true) :
    ∃ start ∈ seen, TransGen (Edge next) start goal := by
  induction fuel generalizing position seen with
  | zero => cases found
  | succ fuel induction =>
    rw [seek] at found
    cases entry : seen[position]? with
    | none => simp [entry] at found
    | some node =>
      simp only [entry] at found
      have member := List.mem_of_getElem? entry
      cases scanned : scan goal (next node) seen with
      | none => exact ⟨node, member, .single (scan_eq_none.mp scanned)⟩
      | some later =>
        simp only [scanned] at found
        obtain ⟨rfl, _⟩ := scan_eq_some scanned
        obtain ⟨start, start_mem, path⟩ := induction found
        rcases mem_pushAll.mp start_mem with old | fresh
        · exact ⟨start, old, path⟩
        · exact ⟨node, member, path.head fresh⟩

/-- A search that ends in vain has seen a closed list without the node looked for among its
successors. -/
theorem closed_of_seek {position : Nat} (missed : seek next goal fuel position seen = some false)
    (visited : ∀ index node, index < position → seen[index]? = some node →
      ∀ target ∈ next node, target ∈ seen ∧ target ≠ goal) : ∃ closed, seen ⊆ closed ∧
      ∀ node ∈ closed, ∀ target ∈ next node, target ∈ closed ∧ target ≠ goal := by
  induction fuel generalizing position seen with
  | zero => cases missed
  | succ fuel induction =>
    rw [seek] at missed
    cases entry : seen[position]? with
    | none =>
      refine ⟨seen, List.Subset.refl seen, ?_⟩
      intro node member target edge
      obtain ⟨index, bound, rfl⟩ := List.mem_iff_getElem.mp member
      have short := List.getElem?_eq_none_iff.mp entry
      exact visited index _ (Nat.lt_of_lt_of_le bound short) (List.getElem?_eq_getElem bound) target
        edge
    | some node =>
      simp only [entry] at missed
      cases scanned : scan goal (next node) seen with
      | none => simp [scanned] at missed
      | some later =>
        simp only [scanned] at missed
        obtain ⟨rfl, absent⟩ := scan_eq_some scanned
        obtain ⟨extra, extended⟩ := prefix_pushAll seen (next node)
        have short : position < seen.length := (List.getElem?_eq_some_iff.mp entry).1
        obtain ⟨closed, within, closes⟩ := induction missed (by
          intro index other bound place target edge
          rw [← extended, List.getElem?_append_left (by omega)] at place
          rcases Nat.lt_succ_iff_lt_or_eq.mp bound with before | rfl
          · obtain ⟨old, differs⟩ := visited index other before place target edge
            exact ⟨mem_pushAll.mpr (.inl old), differs⟩
          · obtain rfl := Option.eq_some_unique place entry
            refine ⟨mem_pushAll.mpr (.inr edge), ?_⟩
            rintro rfl
            exact absent edge)
        exact ⟨closed, fun node old => within (mem_pushAll.mpr (.inl old)), closes⟩

/-- The search ends once there is fuel for every node. -/
theorem seek_ends (domain : List Node)
    (covered : ∀ source target, target ∈ next source → target ∈ domain) {position : Nat}
    (nodup : seen.Nodup) (inside : ∀ node ∈ seen, node ∈ domain)
    (enough : domain.length < fuel + position) (least : position ≤ seen.length) :
    (seek next goal fuel position seen).isSome := by
  induction fuel generalizing position seen with
  | zero =>
    have bounded : seen.length ≤ domain.length := (nodup.subperm inside).length_le
    omega
  | succ fuel induction =>
    rw [seek]
    cases entry : seen[position]? with
    | none => rfl
    | some node =>
      dsimp only
      cases scanned : scan goal (next node) seen with
      | none => rfl
      | some later =>
        obtain ⟨rfl, _⟩ := scan_eq_some scanned
        have short : position < seen.length := (List.getElem?_eq_some_iff.mp entry).1
        have longer := (prefix_pushAll seen (next node)).length_le
        refine induction (nodup_pushAll nodup _) ?_ (by omega) (by omega)
        intro other member
        rcases mem_pushAll.mp member with old | fresh
        · exact inside other old
        · exact covered node other fresh

/-- With fuel for every node, the search finds exactly the proper successors of its start. -/
theorem seek_eq_some_iff (goal start : Node) {domain : List Node}
    (covered : ∀ source target, target ∈ next source → target ∈ domain)
    (enough : domain.length + 1 < fuel) : ∃ found, seek next goal fuel 0 [start] = some found ∧
      (found = true ↔ TransGen (Edge next) start goal) := by
  have ends : (seek next goal fuel 0 [start]).isSome := by
    refine seek_ends (start :: domain) ?_ (List.pairwise_singleton _ start) (by simp)
      (by simpa using enough) (Nat.zero_le _)
    exact fun source target edge => List.mem_cons_of_mem _ (covered source target edge)
  obtain ⟨found, sought⟩ := Option.isSome_iff_exists.mp ends
  refine ⟨found, sought, ?_⟩
  cases found with
  | true =>
    obtain ⟨first, member, path⟩ := found_of_seek sought
    obtain rfl := List.mem_singleton.mp member
    exact iff_of_true rfl path
  | false =>
    refine iff_of_false Bool.false_ne_true fun path => ?_
    obtain ⟨closed, within, closes⟩ := closed_of_seek sought (by simp)
    have kept : ∀ node, ReflTransGen (Edge next) start node → node ∈ closed := by
      intro node before
      induction before with
      | refl => exact within (List.mem_singleton.mpr rfl)
      | tail _ edge reached => exact (closes _ reached _ edge).1
    obtain ⟨last, before, edge⟩ := TransGen.tail'_iff.mp path
    exact (closes last (kept last before) goal edge).2 rfl

end Seeking

/-! ## Adding an edge -/

section Adding

variable {Item : Type*} {before after : Item → Item → Prop} {source target : Item}

theorem path_of_added (added : ∀ left right, after left right →
    before left right ∨ left = source ∧ right = target) {first last : Item}
    (path : ReflTransGen after first last) : ReflTransGen before first last ∨
      ReflTransGen before first source ∧ ReflTransGen before target last := by
  induction path with
  | refl => exact .inl .refl
  | tail _ edge induction =>
    rcases added _ _ edge with old | ⟨rfl, rfl⟩
    · rcases induction with whole | ⟨front, rest⟩
      · exact .inl (whole.tail old)
      · exact .inr ⟨front, rest.tail old⟩
    · rcases induction with whole | ⟨front, rest⟩
      · exact .inr ⟨whole, .refl⟩
      · exact .inr ⟨front, .refl⟩

/-- An edge whose target does not reach its source closes no cycle. -/
theorem acyclic_of_added (acyclic : ∀ node, ¬ TransGen before node node)
    (apart : ¬ ReflTransGen before target source)
    (added : ∀ left right, after left right → before left right ∨ left = source ∧ right = target)
    (node : Item) : ¬ TransGen after node node := by
  intro cycle
  obtain ⟨middle, edge, path⟩ := TransGen.head'_iff.mp cycle
  rcases added _ _ edge with old | ⟨rfl, rfl⟩
  · rcases path_of_added added path with whole | ⟨front, rest⟩
    · exact acyclic node (TransGen.head' old whole)
    · exact apart (rest.trans (front.head old))
  · rcases path_of_added added path with whole | ⟨front, rest⟩
    · exact apart whole
    · exact apart front

end Adding

end Worklist
