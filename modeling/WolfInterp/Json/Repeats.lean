import WolfInterp.Json.Query
import WolfInterp.Lib.LastWins

/-!
# Repeated names

`Raw` is a value as a text writes it, every member of an object in source order. The reader merges
the members of every object, the last value in the first place, and the queries answer for a text
what they answer for the merged members.
-/

namespace WolfInterp.Json

open Fallible
open LastWins (firsts lastOf merge)

/-! ## The table of slots -/

/-- The slot of a name among the members, as far as the names have been met. -/
abbrev Slots := List (Text × Nat)

/-- One member read into the members and the table. -/
def putMember (found : List (Text × Node) × Slots) (key : Text) (node : Node) :
    List (Text × Node) × Slots :=
  match found.2.lookup key with
  | some slot => (found.1.modify slot fun member => (member.1, node), found.2)
  | none => (found.1 ++ [(key, node)], (key, found.1.length) :: found.2)

/-- The loop of an object as it is written, with the table beside the members. -/
def slotLoop : Nat → Nat → List (Text × Node) × Slots → Text → Except Error (Node × Text)
  | 0, _, _, _ => .error .parse
  | fuel + 1, depth, found, text =>
    match eat '"' (skipWs text) with
    | none => .error .parse
    | some rest => do
      let (key, rest) ← string rest
      match eat ':' (skipWs rest) with
      | none => .error .parse
      | some rest =>
        let (node, rest) ← value fuel depth (skipWs rest)
        let found := putMember found key node
        match eat ',' (skipWs rest) with
        | some rest => slotLoop fuel depth found rest
        | none =>
          match eat '}' (skipWs rest) with
          | some rest => .ok (.object found.1, rest)
          | none => .error .parse

/-- The table holds the slot of every name. -/
def Tabled (found : List (Text × Node) × Slots) : Prop :=
  ∀ key, found.2.lookup key = found.1.findIdx? fun member => member.1 = key

theorem findIdx?_of_keys {members others : List (Text × Node)}
    (same : members.map Prod.fst = others.map Prod.fst) (key : Text) :
    (members.findIdx? fun member => member.1 = key) =
      others.findIdx? fun member => member.1 = key := by
  have keyed (members : List (Text × Node)) : (members.findIdx? fun member => member.1 = key) =
      (members.map Prod.fst).findIdx? fun name => name = key := by
    rw [List.findIdx?_map]
    rfl
  rw [keyed, keyed, same]

variable {found : List (Text × Node) × Slots} {depth : Nat} {text : Text}

theorem putMember_eq (tabled : Tabled found) (key : Text) (node : Node) :
    (putMember found key node).1 = insert found.1 key node := by
  rw [putMember, insert, tabled key]
  cases found.1.findIdx? fun member => member.1 = key <;> rfl

theorem Tabled.putMember (tabled : Tabled found) (key : Text) (node : Node) :
    Tabled (putMember found key node) := by
  intro other
  rw [Json.putMember]
  cases slot : found.2.lookup key with
  | some at_ =>
    rw [tabled other]
    exact findIdx?_of_keys (keys_modify at_).symm other
  | none =>
    have absent := (tabled key).symm.trans slot
    rw [List.lookup_cons, List.findIdx?_append]
    by_cases same : other = key
    · rw [same, beq_self_eq_true, absent]
      simp
    · rw [beq_false_of_ne same, tabled other]
      simp [Ne.symm same]

/-- The table decides nothing but where a name is: the loop reads what the reader's loop reads. -/
theorem slotLoop_eq (fuel depth : Nat) (tabled : Tabled found) (text : Text) :
    slotLoop fuel depth found text = members fuel depth found.1 text := by
  induction fuel generalizing found text with
  | zero => rfl
  | succ fuel induction =>
    rw [slotLoop, members]
    cases eat '"' (skipWs text) with
    | none => rfl
    | some rest =>
      refine bind_congr fun (key, rest) => ?_
      dsimp only
      cases eat ':' (skipWs rest) with
      | none => rfl
      | some rest =>
        refine bind_congr fun (node, rest) => ?_
        dsimp only
        rw [← putMember_eq tabled key node]
        cases eat ',' (skipWs rest) with
        | some rest => exact induction (tabled.putMember key node) rest
        | none => rfl

theorem tabled_nil : Tabled ([], []) := fun _ => rfl

/-- The loop of an object from an empty table on. -/
theorem slotLoop_start (fuel depth : Nat) (text : Text) :
    slotLoop fuel depth ([], []) text = members fuel depth [] text :=
  slotLoop_eq fuel depth tabled_nil text

/-! ## Values as written -/

/-- A value as a text writes it: an object has all its members, in source order. -/
inductive Raw where
  | object (members : List (Text × Raw))
  | array (items : List Raw)
  | str (decoded : Text)
  | num (spelling : Text)
  | bool (value : Bool)
  | null

namespace Raw

mutual

/-- The value with the members of every object merged. -/
def merged : Raw → Node
  | .object members => .object (merge (mergedMembers members))
  | .array items => .array (mergedItems items)
  | .str decoded => .str decoded
  | .num spelling => .num spelling
  | .bool value => .bool value
  | .null => .null

def mergedMembers : List (Text × Raw) → List (Text × Node)
  | [] => []
  | (key, value) :: members => (key, value.merged) :: mergedMembers members

def mergedItems : List Raw → List Node
  | [] => []
  | item :: items => item.merged :: mergedItems items

end

theorem mergedMembers_eq (members : List (Text × Raw)) :
    mergedMembers members = members.map fun member => (member.1, member.2.merged) := by
  induction members with
  | nil => rfl
  | cons member members induction =>
    obtain ⟨key, value⟩ := member
    rw [mergedMembers, induction, List.map_cons]

theorem mergedItems_eq (items : List Raw) : mergedItems items = items.map merged := by
  induction items with
  | nil => rfl
  | cons item items induction => rw [mergedItems, induction, List.map_cons]

/-! ### The queries on a value as written -/

/-- One step of a path: a name addresses its last occurrence. -/
def child (raw : Raw) (segment : Text) : Except Error Raw :=
  match raw with
  | .array items => do
    let at_ ← index segment
    match items[at_]? with
    | some item => return item
    | none => .error .missing
  | .object members =>
    match lastOf members segment with
    | some value => .ok value
    | none => .error .missing
  | _ => .error .missing

def resolve (root : Raw) (path : Text) : Except Error Raw :=
  if path = [] then .ok root else (path.splitOn '.').foldlM child root

def kind : Raw → String
  | .object _ => "object"
  | .array _ => "array"
  | .str _ => "str"
  | .num _ => "num"
  | .bool _ => "bool"
  | .null => "null"

/-- An object has as many members as distinct names. -/
def len : Raw → Except Error Nat
  | .array items => .ok items.length
  | .object members => .ok (firsts (members.map Prod.fst)).length
  | _ => .error .kind

mutual

/-- The value without whitespace: each name in its first place, with its last value. -/
def compact : Raw → Text
  | .object members =>
    ['{'] ++ commas ((merge (compactMembers members)).map fun member =>
      encodeStr member.1 ++ ':' :: member.2) ++ ['}']
  | .array items => ['['] ++ commas (compactItems items) ++ [']']
  | .str decoded => encodeStr decoded
  | .num spelling => spelling
  | .bool value => if value then ['t', 'r', 'u', 'e'] else ['f', 'a', 'l', 's', 'e']
  | .null => ['n', 'u', 'l', 'l']

def compactMembers : List (Text × Raw) → List (Text × Text)
  | [] => []
  | (key, value) :: members => (key, value.compact) :: compactMembers members

def compactItems : List Raw → List Text
  | [] => []
  | item :: items => item.compact :: compactItems items

end

def render (text path : Text) : Raw → Text
  | .str decoded => decoded
  | .object members => if path = [] then trim text else compact (.object members)
  | .array items => if path = [] then trim text else compact (.array items)
  | raw => compact raw

theorem compactMembers_merge (members : List (Text × Node)) : Json.compactMembers (merge members) =
      (merge (members.map fun member => (member.1, Json.compact member.2))).map fun member =>
        encodeStr member.1 ++ ':' :: member.2 := by
  rw [Json.compactMembers_eq, LastWins.merge_map, List.map_map]
  rfl

mutual

/-- The merged value renders as each name in its first place, with its last value. -/
theorem compact_merged : ∀ raw : Raw, Json.compact raw.merged = raw.compact
  | .object members => by
    rw [merged, Json.compact, compactMembers_merge, compactMembers_merged members, compact]
  | .array items => by
    rw [merged, Json.compact, compact, compactItems_merged items]
  | .str _ => rfl
  | .num _ => rfl
  | .bool _ => rfl
  | .null => rfl

theorem compactMembers_merged : ∀ members : List (Text × Raw),
    ((mergedMembers members).map fun member => (member.1, Json.compact member.2)) =
      compactMembers members
  | [] => rfl
  | (key, value) :: members => by
    rw [mergedMembers, List.map_cons, compact_merged value, compactMembers_merged members,
      compactMembers]

theorem compactItems_merged : ∀ items : List Raw,
    Json.compactItems (mergedItems items) = compactItems items
  | [] => rfl
  | item :: items => by
    rw [mergedItems, Json.compactItems, compactItems, compact_merged item,
      compactItems_merged items]

end

theorem kind_merged (raw : Raw) : raw.merged.kind = raw.kind := by
  cases raw <;> rfl

theorem render_merged (text path : Text) (raw : Raw) :
    Json.render text path raw.merged = raw.render text path := by
  cases raw with
  | object members =>
    have compacts := compact_merged (.object members)
    rw [merged] at compacts ⊢
    rw [Json.render, render, compacts]
  | array items =>
    have compacts := compact_merged (.array items)
    rw [merged] at compacts ⊢
    rw [Json.render, render, compacts]
  | str | num | bool | null => rfl

theorem find?_merge (members : List (Text × Node)) (segment : Text) :
    ((merge members).find? fun member => member.1 = segment) =
      (lastOf members segment).map fun node => (segment, node) := by
  cases last : lastOf members segment with
  | some node =>
    have listed := LastWins.mem_merge.mpr last
    cases found : (merge members).find? fun member => member.1 = segment with
    | none =>
      have absent := List.find?_eq_none.mp found (segment, node) listed
      simp at absent
    | some member =>
      have same : member.1 = segment := by simpa using List.find?_some found
      have member_last := LastWins.mem_merge.mp (List.mem_of_find?_eq_some found)
      rw [same, last] at member_last
      cases member_last
      rw [Option.map_some, ← same]
  | none =>
    rw [Option.map_none, List.find?_eq_none]
    intro member listed same
    have found := LastWins.mem_merge.mp listed
    have equal : member.1 = segment := by simpa using same
    rw [equal, last] at found
    cases found

/-- A path's step answers the last occurrence of a name. -/
theorem child_merged (raw : Raw) (segment : Text) :
    raw.merged.child segment = (raw.child segment).map merged := by
  cases raw with
  | object members =>
    rw [merged, Node.child, child, find?_merge, mergedMembers_eq, LastWins.lastOf_map]
    cases lastOf members segment <;> rfl
  | array items =>
    rw [merged, Node.child, child, mergedItems_eq]
    cases index segment with
    | error e => rfl
    | ok at_ =>
      simp only [bind, Except.bind, List.getElem?_map]
      cases items[at_]? <;> rfl
  | str | num | bool | null => rfl

theorem foldlM_merged (segments : List Text) (raw : Raw) :
    segments.foldlM Node.child raw.merged = (segments.foldlM child raw).map merged := by
  induction segments generalizing raw with
  | nil => rfl
  | cons segment segments induction =>
    rw [List.foldlM_cons, List.foldlM_cons, child_merged]
    cases raw.child segment with
    | error e => rfl
    | ok next => exact induction next

theorem resolve_merged (raw : Raw) (path : Text) :
    Json.resolve raw.merged path = (raw.resolve path).map merged := by
  rw [Json.resolve, resolve]
  split
  · rfl
  · exact foldlM_merged _ raw

end Raw

/-! ## What a text writes -/

/-- One entry of an array as written, with the whitespace around it. -/
structure RawEntry where
  before : Text
  text : Text
  after : Text
  raw : Raw

def RawEntry.entry (written : RawEntry) : Entry :=
  { before := written.before, text := written.text, after := written.after
    node := written.raw.merged }

/-- A value as written, with at most `depth` containers inside one another. -/
inductive Writes : Nat → Text → Raw → Prop
  | null {depth : Nat} : Writes depth ['n', 'u', 'l', 'l'] .null
  | true_ {depth : Nat} : Writes depth ['t', 'r', 'u', 'e'] (.bool true)
  | false_ {depth : Nat} : Writes depth ['f', 'a', 'l', 's', 'e'] (.bool false)
  | number {depth : Nat} {text : Text} (number : Number text) : Writes depth text (.num text)
  | string {depth : Nat} {text decoded : Text} (body : Body text decoded) :
      Writes depth ('"' :: text ++ ['"']) (.str decoded)
  | emptyArray {depth : Nat} {text : Text} (blank : Blank text) :
      Writes (depth + 1) ('[' :: text ++ [']']) (.array [])
  | array {depth : Nat} {entries : List RawEntry} (some_one : entries ≠ [])
      (blanks : ∀ entry ∈ entries, entry.entry.Blanks)
      (values : ∀ entry ∈ entries, Writes depth entry.text entry.raw) :
      Writes (depth + 1) ('[' :: commas (entries.map fun entry => entry.entry.spelling) ++ [']'])
        (.array (entries.map RawEntry.raw))
  | emptyObject {depth : Nat} {text : Text} (blank : Blank text) :
      Writes (depth + 1) ('{' :: text ++ ['}']) (.object [])
  | object {depth : Nat} {members : List (Name × RawEntry)} (some_one : members ≠ [])
      (names : ∀ member ∈ members, member.1.Spells)
      (blanks : ∀ member ∈ members, member.2.entry.Blanks)
      (values : ∀ member ∈ members, Writes depth member.2.text member.2.raw) :
      Writes (depth + 1)
        ('{' :: commas (members.map fun member =>
          member.1.spelling ++ member.2.entry.spelling) ++ ['}'])
        (.object (members.map fun member => (member.1.decoded, member.2.raw)))

/-- The value a text writes, with whitespace around it. -/
def Raw.WrittenIn (raw : Raw) (text : Text) : Prop :=
  ∃ before inner after, text = before ++ inner ++ after ∧ Blank before ∧ Blank after ∧
    Writes maxDepth inner raw

/-! ## The fold of the members -/

section Fold

variable {members : List (Text × Node)} {key : Text} {node : Node}

theorem insert_old (nodup : (members.map Prod.fst).Nodup) (old : key ∈ members.map Prod.fst) :
    insert members key node =
      members.map fun member => if member.1 = key then (member.1, node) else member := by
  induction members with
  | nil => cases old
  | cons member rest induction =>
    rw [List.map_cons, List.nodup_cons] at nodup
    rw [insert, List.findIdx?_cons]
    by_cases same : member.1 = key
    · have others : (rest.map fun other => if other.1 = key then (other.1, node) else other) =
          rest := by
        refine (List.map_congr_left fun other listed => ?_).trans (List.map_id rest)
        apply if_neg
        intro equal
        apply nodup.1
        rw [same, ← equal]
        exact List.mem_map_of_mem listed
      rw [List.map_cons, if_pos same, others]
      simp [same]
    · have later : key ∈ rest.map Prod.fst := by
        rcases List.mem_cons.mp old with first | later
        · exact absurd first.symm same
        · exact later
      have rest_insert := induction nodup.2 later
      rw [insert] at rest_insert
      rw [List.map_cons, if_neg same, ← rest_insert]
      simp only [same, decide_false, Bool.false_eq_true, if_false]
      cases rest.findIdx? fun other => decide (other.1 = key) <;> rfl

/-- Inserting the members one after the other, from the left, merges them. -/
theorem lastWins_eq_merge (pairs : List (Text × Node)) : lastWins pairs = merge pairs := by
  induction pairs using List.reverseRecOn with
  | nil => rfl
  | append_singleton pairs pair induction =>
    have folded : lastWins (pairs ++ [pair]) = insert (merge pairs) pair.1 pair.2 := by
      rw [← induction, lastWins, List.foldl_append]
      rfl
    rw [folded]
    by_cases old : pair.1 ∈ pairs.map Prod.fst
    · rw [LastWins.merge_snoc_old old]
      exact insert_old (LastWins.nodup_keys_merge pairs) (LastWins.mem_keys_merge.mpr old)
    · rw [LastWins.merge_snoc_new old]
      exact insert_fresh fun listed => old (LastWins.mem_keys_merge.mp listed)

end Fold

/-! ## The reader merges what is written -/

/-- The value written is the one the grammar names, its members merged. -/
theorem Writes.value {raw : Raw} (writes : Writes depth text raw) :
    Value depth text raw.merged := by
  induction writes with
  | null => exact .null
  | true_ => exact .true_
  | false_ => exact .false_
  | number isNumber => exact .number isNumber
  | string body => exact .string body
  | emptyArray blank => exact .emptyArray blank
  | @array depth entries some_one blanks values induction =>
    have nodes : Raw.mergedItems (entries.map RawEntry.raw) =
        (entries.map RawEntry.entry).map Entry.node := by
      rw [Raw.mergedItems_eq, List.map_map, List.map_map]
      rfl
    have spelled : (entries.map fun entry => entry.entry.spelling) =
        (entries.map RawEntry.entry).map Entry.spelling := by
      rw [List.map_map]
      rfl
    rw [Raw.merged, nodes, spelled]
    apply Value.array
    · simpa using some_one
    · intro entry listed
      obtain ⟨written, written_listed, rfl⟩ := List.mem_map.mp listed
      exact blanks written written_listed
    · intro entry listed
      obtain ⟨written, written_listed, rfl⟩ := List.mem_map.mp listed
      exact induction written written_listed
  | emptyObject blank => exact .emptyObject blank
  | @object depth members some_one names blanks values induction =>
    let entries := members.map fun member => (member.1, member.2.entry)
    have nodes : Raw.mergedMembers (members.map fun member => (member.1.decoded, member.2.raw)) =
        entries.map fun member => (member.1.decoded, member.2.node) := by
      rw [Raw.mergedMembers_eq, List.map_map, List.map_map]
      rfl
    have spelled : (members.map fun member => member.1.spelling ++ member.2.entry.spelling) =
        entries.map fun member => member.1.spelling ++ member.2.spelling := by
      rw [List.map_map]
      rfl
    rw [Raw.merged, nodes, spelled, ← lastWins_eq_merge]
    apply Value.object
    · simpa [entries] using some_one
    · intro member listed
      obtain ⟨written, written_listed, rfl⟩ := List.mem_map.mp listed
      exact names written written_listed
    · intro member listed
      obtain ⟨written, written_listed, rfl⟩ := List.mem_map.mp listed
      exact blanks written written_listed
    · intro member listed
      obtain ⟨written, written_listed, rfl⟩ := List.mem_map.mp listed
      exact induction written written_listed

theorem rawEntries {entries : List Entry}
    (each : ∀ entry ∈ entries, ∃ raw, Writes depth entry.text raw ∧ raw.merged = entry.node) :
    ∃ written : List RawEntry, written.map RawEntry.entry = entries ∧
      ∀ entry ∈ written, Writes depth entry.text entry.raw := by
  induction entries with
  | nil => exact ⟨[], rfl, fun entry listed => nomatch listed⟩
  | cons entry rest induction =>
    obtain ⟨raw, writes, same⟩ := each entry List.mem_cons_self
    obtain ⟨written, entries_eq, writes_rest⟩ :=
      induction fun other listed => each other (List.mem_cons_of_mem entry listed)
    refine ⟨⟨entry.before, entry.text, entry.after, raw⟩ :: written, ?_, ?_⟩
    · rw [List.map_cons, entries_eq, RawEntry.entry, same]
    · intro other listed
      rcases List.mem_cons.mp listed with rfl | later
      · exact writes
      · exact writes_rest other later

theorem rawMembers {members : List (Name × Entry)} (each : ∀ member ∈ members,
      ∃ raw, Writes depth member.2.text raw ∧ raw.merged = member.2.node) :
    ∃ written : List (Name × RawEntry),
      (written.map fun member => (member.1, member.2.entry)) = members ∧
      ∀ member ∈ written, Writes depth member.2.text member.2.raw := by
  induction members with
  | nil => exact ⟨[], rfl, fun member listed => nomatch listed⟩
  | cons member rest induction =>
    obtain ⟨name, entry⟩ := member
    obtain ⟨raw, writes, same⟩ := each (name, entry) List.mem_cons_self
    obtain ⟨written, members_eq, writes_rest⟩ :=
      induction fun other listed => each other (List.mem_cons_of_mem _ listed)
    refine ⟨(name, ⟨entry.before, entry.text, entry.after, raw⟩) :: written, ?_, ?_⟩
    · rw [List.map_cons, members_eq, RawEntry.entry, same]
    · intro other listed
      rcases List.mem_cons.mp listed with rfl | later
      · exact writes
      · exact writes_rest other later

/-- Every value of the grammar is written somehow. -/
theorem Value.written {node : Node} (isValue : Value depth text node) :
    ∃ raw, Writes depth text raw ∧ raw.merged = node := by
  induction isValue with
  | null => exact ⟨.null, .null, rfl⟩
  | true_ => exact ⟨.bool true, .true_, rfl⟩
  | false_ => exact ⟨.bool false, .false_, rfl⟩
  | number isNumber => exact ⟨.num _, .number isNumber, rfl⟩
  | string body => exact ⟨.str _, .string body, rfl⟩
  | emptyArray blank => exact ⟨.array [], .emptyArray blank, rfl⟩
  | @array depth entries some_one blanks values induction =>
    obtain ⟨written, entries_eq, writes⟩ := rawEntries induction
    subst entries_eq
    refine ⟨.array (written.map RawEntry.raw), ?_, ?_⟩
    · rw [List.map_map]
      apply Writes.array
      · simpa using some_one
      · exact fun entry listed => blanks _ (List.mem_map_of_mem listed)
      · exact writes
    · rw [Raw.merged, Raw.mergedItems_eq, List.map_map, List.map_map]
      rfl
  | emptyObject blank => exact ⟨.object [], .emptyObject blank, rfl⟩
  | @object depth members some_one names blanks values induction =>
    obtain ⟨written, members_eq, writes⟩ := rawMembers induction
    subst members_eq
    refine ⟨.object (written.map fun member => (member.1.decoded, member.2.raw)), ?_, ?_⟩
    · rw [List.map_map]
      apply Writes.object
      · simpa using some_one
      · intro member listed
        exact names (member.1, member.2.entry) (List.mem_map.mpr ⟨member, listed, rfl⟩)
      · intro member listed
        exact blanks (member.1, member.2.entry) (List.mem_map.mpr ⟨member, listed, rfl⟩)
      · exact writes
    · rw [Raw.merged, Raw.mergedMembers_eq, lastWins_eq_merge, List.map_map, List.map_map]
      rfl

/-! ## Every reader -/

/-- The values inside a value as written, itself among them. -/
inductive Raw.Holds : Raw → Raw → Prop
  | refl (raw : Raw) : Raw.Holds raw raw
  | item {items : List Raw} {item raw : Raw} (listed : item ∈ items) (inside : Raw.Holds item raw) :
      Raw.Holds (.array items) raw
  | member {members : List (Text × Raw)} {member : Text × Raw} {raw : Raw}
      (listed : member ∈ members) (inside : Raw.Holds member.2 raw) :
      Raw.Holds (.object members) raw

/-- The members have each name once, in the order of the first occurrences, with the value of the
last one. -/
structure LastOccurrences (pairs : List (Text × Raw)) (members : List (Text × Node)) : Prop where
  distinct : (members.map Prod.fst).Nodup
  ordered : members.map Prod.fst = firsts (pairs.map Prod.fst)
  last : ∀ key node, (key, node) ∈ members ↔ (lastOf pairs key).map Raw.merged = some node

/-- The text is read as the merged value, and every query answers for the text what it answers for
the value as written. -/
structure ReadsMerged (text : Text) (raw : Raw) : Prop where
  parses : parse text = .ok raw.merged
  objects : ∀ pairs, raw.Holds (.object pairs) →
    ∃ members, (Raw.object pairs).merged = .object members ∧ LastOccurrences pairs members
  gets : ∀ path, get text path = (raw.resolve path).map (Raw.render text path)
  kinds : ∀ path, kind text path = (raw.resolve path).map Raw.kind
  lens : ∀ path, len text path = raw.resolve path >>= Raw.len

theorem lastOccurrences_merge (pairs : List (Text × Raw)) :
    LastOccurrences pairs (merge (Raw.mergedMembers pairs)) := by
  refine ⟨LastWins.nodup_keys_merge _, ?_, ?_⟩
  · rw [LastWins.keys_merge, Raw.mergedMembers_eq, List.map_map]
    rfl
  · intro key node
    rw [LastWins.mem_merge, Raw.mergedMembers_eq, LastWins.lastOf_map]

theorem len_merged (raw : Raw) :
    (match raw.merged with
      | .array items => Except.ok items.length
      | .object members => Except.ok members.length
      | _ => Except.error Error.kind) = raw.len := by
  cases raw with
  | object members =>
    rw [Raw.merged, Raw.len]
    have keys := congrArg List.length (lastOccurrences_merge members).ordered
    rw [List.length_map] at keys
    exact congrArg Except.ok keys
  | array items =>
    rw [Raw.merged, Raw.len, Raw.mergedItems_eq]
    exact congrArg Except.ok (List.length_map _)
  | str | num | bool | null => rfl

theorem readsMerged_of_parse {raw : Raw} (parses : parse text = .ok raw.merged) :
    ReadsMerged text raw := by
  refine ⟨parses, ?_, ?_, ?_, ?_⟩
  · intro pairs _
    exact ⟨_, rfl, lastOccurrences_merge pairs⟩
  · intro path
    rw [get, bind_of_ok parses, Raw.resolve_merged]
    cases raw.resolve path with
    | error e => rfl
    | ok found => exact congrArg Except.ok (Raw.render_merged text path found)
  · intro path
    rw [kind, bind_of_ok parses, Raw.resolve_merged]
    cases raw.resolve path with
    | error e => rfl
    | ok found => exact congrArg Except.ok (Raw.kind_merged found)
  · intro path
    rw [len, bind_of_ok parses, Raw.resolve_merged]
    cases raw.resolve path with
    | error e => rfl
    | ok found => exact len_merged found

/-- A JSON text, and any text the reader accepts, is read with its repeated names merged: the last
value, in the first place. -/
theorem repeated_names (text : Text) : (∀ raw : Raw, raw.WrittenIn text → ReadsMerged text raw) ∧
      ∀ node, parse text = .ok node →
        ∃ raw : Raw, raw.WrittenIn (respell text) ∧ ReadsMerged text raw := by
  constructor
  · rintro raw ⟨before, inner, after, split, isBefore, isAfter, writes⟩
    apply readsMerged_of_parse
    exact parse_of_spells ⟨before, inner, after, split, isBefore, isAfter, writes.value⟩
  · intro node parsed
    obtain ⟨before, inner, after, split, isBefore, isAfter, isValue⟩ := parse_iff.mp parsed
    obtain ⟨raw, writes, rfl⟩ := isValue.written
    exact ⟨raw, ⟨before, inner, after, split, isBefore, isAfter, writes⟩,
      readsMerged_of_parse parsed⟩

/-- The two members of `{"a":1,"a":2}`. -/
theorem repeated_names_twice :
    let text : Text := ['{', '"', 'a', '"', ':', '1', ',', '"', 'a', '"', ':', '2', '}']
    ∃ raw : Raw, raw.WrittenIn (respell text) ∧ ReadsMerged text raw :=
  (repeated_names _).2 (.object [(['a'], .num ['2'])]) rfl

end WolfInterp.Json
