import Mathlib.Data.List.Nodup
import WolfInterp.Json.Valid

/-!
# Queries compose

A container that is rendered reads back as itself: strings are encoded as pieces of the grammar,
numbers keep their spelling, names are merged already, and nothing gets deeper. So a query into a
rendered container answers what the longer path answers in the whole text.
-/

namespace WolfInterp.Json

open Fallible

/-! ## Encoding strings -/

theorem toDigit_digitChar {value : Nat} (small : value < 16) :
    toDigit (Nat.digitChar value) = some value := by
  revert value
  decide

/-- Two digits of a byte, after two zeros. -/
theorem quad_hexByte {value : Nat} (byte : value < 256) :
    Quad (['0', '0'] ++ hexByte value) value := by
  have high : toDigit (Nat.digitChar (value / 16)) = some (value / 16) :=
    toDigit_digitChar (by omega)
  have low : toDigit (Nat.digitChar (value % 16)) = some (value % 16) :=
    toDigit_digitChar (Nat.mod_lt _ (by decide))
  have zero : toDigit '0' = some 0 := rfl
  have quad := Quad.digits zero zero high low
  have whole : 16 * (16 * (16 * 0 + 0) + value / 16) + value % 16 = value := by omega
  rw [whole] at quad
  exact quad

/-- Every character is encoded as a piece that stands for it. -/
theorem piece_encodeChar (c : Char) : Piece (encodeChar c) c := by
  rw [encodeChar]
  split
  · rename_i quote
    rw [quote]
    exact .short rfl
  · rename_i unquoted
    split
    · rename_i slash
      rw [slash]
      exact .short rfl
    · rename_i unescaped
      split
      · rename_i tab
        rw [tab]
        exact .short rfl
      · split
        · rename_i feed
          rw [feed]
          exact .short rfl
        · split
          · rename_i ret
            rw [ret]
            exact .short rfl
          · split
            · rename_i control
              have quad : Quad (['0', '0'] ++ hexByte c.toNat) c.toNat := quad_hexByte (by omega)
              have high : isHigh c.toNat = false := by
                simp only [isHigh, decide_eq_false_iff_not]
                omega
              have low : isLow c.toNat = false := by
                simp only [isLow, decide_eq_false_iff_not]
                omega
              have isPiece := Piece.unicode quad high low
              rw [Char.ofNat_toNat] at isPiece
              exact isPiece
            · rename_i visible
              exact .plain (by omega) unquoted unescaped

theorem body_encode (decoded : Text) : Body (decoded.flatMap encodeChar) decoded := by
  induction decoded with
  | nil => exact .nil
  | cons c decoded ih =>
    rw [List.flatMap_cons]
    exact .cons (piece_encodeChar c) ih

/-! ## Merged names -/

section Merged

variable {members : List (Text × Node)} {key : Text} {node : Node}

theorem mem_insert {member : Text × Node} (isMember : member ∈ insert members key node) :
    member ∈ members ∨ member.2 = node := by
  rw [insert] at isMember
  split at isMember
  · rename_i slot _
    obtain ⟨at_, isAt⟩ := List.mem_iff_getElem?.mp isMember
    rw [List.getElem?_modify] at isAt
    obtain ⟨before, isBefore, same⟩ := Option.map_eq_some_iff.mp isAt
    split at same
    · exact .inr (by rw [← same])
    · exact .inl (same ▸ List.mem_of_getElem? isBefore)
  · rcases List.mem_append.mp isMember with old | new
    · exact .inl old
    · exact .inr (by rw [List.mem_singleton.mp new])

theorem keys_modify (slot : Nat) :
    (members.modify slot fun member => (member.1, node)).map Prod.fst = members.map Prod.fst := by
  apply List.ext_getElem?
  intro at_
  rw [List.getElem?_map, List.getElem?_map, List.getElem?_modify]
  cases members[at_]? with
  | none => rfl
  | some member =>
    by_cases here : slot = at_
    · simp [here]
    · simp [here]

/-- A name that is there keeps its place; a new one comes last. -/
theorem keys_insert : (insert members key node).map Prod.fst = members.map Prod.fst ∨
      key ∉ members.map Prod.fst ∧
        (insert members key node).map Prod.fst = members.map Prod.fst ++ [key] := by
  rw [insert]
  split
  · exact .inl (keys_modify _)
  · rename_i absent
    have others := List.findIdx?_eq_none_iff.mp absent
    refine .inr ⟨fun isKey => ?_, by rw [List.map_append]; rfl⟩
    obtain ⟨member, isMember, same⟩ := List.mem_map.mp isKey
    have differs := others member isMember
    rw [same] at differs
    simp at differs

theorem nodup_insert (nodup : (members.map Prod.fst).Nodup) :
    ((insert members key node).map Prod.fst).Nodup := by
  rcases @keys_insert members key node with same | ⟨fresh, added⟩
  · rw [same]
    exact nodup
  · rw [added]
    exact List.nodup_append.mpr ⟨nodup, List.nodup_singleton key, by
      intro a isOld b isNew
      rw [List.mem_singleton.mp isNew]
      rintro rfl
      exact fresh isOld⟩

/-- Distinct names are inserted one after the other. -/
theorem insert_fresh (fresh : key ∉ members.map Prod.fst) :
    insert members key node = members ++ [(key, node)] := by
  have absent : (members.findIdx? fun member => member.1 = key) = none := by
    refine List.findIdx?_eq_none_iff.mpr fun member isMember => ?_
    have differs : member.1 ≠ key := fun same => fresh (List.mem_map.mpr ⟨member, isMember, same⟩)
    simpa using differs
  rw [insert, absent]

variable {pairs : List (Text × Node)}

theorem foldl_insert_of_nodup (distinct : ((members ++ pairs).map Prod.fst).Nodup) :
    pairs.foldl (fun members pair => insert members pair.1 pair.2) members = members ++ pairs := by
  induction pairs generalizing members with
  | nil => exact (List.append_nil members).symm
  | cons pair pairs ih =>
    have fresh : pair.1 ∉ members.map Prod.fst := by
      rw [List.map_append, List.nodup_append] at distinct
      intro old
      exact distinct.2.2 pair.1 old pair.1 List.mem_cons_self rfl
    rw [List.foldl_cons, insert_fresh fresh]
    have split : members ++ pair :: pairs = members ++ [(pair.1, pair.2)] ++ pairs := by
      rw [List.append_assoc]
      rfl
    rw [split] at distinct ⊢
    exact ih distinct

theorem nodup_foldl_insert (nodup : (members.map Prod.fst).Nodup) :
    ((pairs.foldl (fun members pair => insert members pair.1 pair.2) members).map
      Prod.fst).Nodup := by
  induction pairs generalizing members with
  | nil => exact nodup
  | cons pair pairs ih => exact ih (nodup_insert nodup)

/-- Merged names stay merged. -/
theorem lastWins_lastWins : lastWins (lastWins pairs) = lastWins pairs :=
  foldl_insert_of_nodup (nodup_foldl_insert List.nodup_nil)

theorem mem_foldl_insert {member : Text × Node}
    (isMember : member ∈ pairs.foldl (fun members pair => insert members pair.1 pair.2) members) :
    member ∈ members ∨ ∃ pair ∈ pairs, member.2 = pair.2 := by
  induction pairs generalizing members with
  | nil => exact .inl isMember
  | cons pair pairs ih =>
    rcases ih isMember with first | ⟨later, isLater, same⟩
    · rcases mem_insert first with old | new
      · exact .inl old
      · exact .inr ⟨pair, List.mem_cons_self, new⟩
    · exact .inr ⟨later, List.mem_cons_of_mem pair isLater, same⟩

/-- Every value of the merged members is a value of the source. -/
theorem mem_lastWins {member : Text × Node} (isMember : member ∈ lastWins pairs) :
    ∃ pair ∈ pairs, member.2 = pair.2 := by
  rcases mem_foldl_insert isMember with none | found
  · cases none
  · exact found

end Merged

/-! ## Rendering -/

theorem compactItems_eq (items : List Node) : compactItems items = items.map compact := by
  induction items with
  | nil => rfl
  | cons item items ih => rw [compactItems, ih, List.map_cons]

theorem compactMembers_eq (members : List (Text × Node)) : compactMembers members =
      members.map fun member => encodeStr member.1 ++ ':' :: compact member.2 := by
  induction members with
  | nil => rfl
  | cons member members ih =>
    obtain ⟨key, node⟩ := member
    rw [compactMembers, ih, List.map_cons]

section Render

variable {level : Nat} {piece : Text} {node : Node}

/-- A node without whitespace around it, as an entry. -/
def bare (node : Node) : Entry := ⟨[], compact node, [], node⟩

/-- An encoded name. -/
def bareName (key : Text) : Name := ⟨[], key.flatMap encodeChar, [], key⟩

theorem blank_nil : Blank [] := fun _ member => nomatch member

theorem bare_blanks (node : Node) : (bare node).Blanks := ⟨blank_nil, blank_nil⟩

theorem bareName_spells (key : Text) : (bareName key).Spells :=
  ⟨blank_nil, body_encode key, blank_nil⟩

theorem bare_spelling (node : Node) : (bare node).spelling = compact node :=
  List.append_nil (compact node)

theorem bareName_spelling (key : Text) : (bareName key).spelling = encodeStr key ++ [':'] := by
  simp [Name.spelling, bareName, encodeStr]

theorem value_items {items : List Node} (values : ∀ item ∈ items, Value level (compact item) item) :
    Value (level + 1) (compact (.array items)) (.array items) := by
  by_cases empty : items = []
  · rw [empty]
    exact .emptyArray blank_nil
  · have spelled : compactItems items = (items.map bare).map Entry.spelling := by
      rw [compactItems_eq, List.map_map]
      exact List.map_congr_left fun item _ => (bare_spelling item).symm
    have same : (items.map bare).map Entry.node = items := by
      rw [List.map_map]
      exact List.map_id items
    have isValue : Value (level + 1) _ (.array ((items.map bare).map Entry.node)) :=
      .array (by simpa using empty)
        (List.forall_mem_map.mpr fun item _ => bare_blanks item)
        (List.forall_mem_map.mpr values)
    rw [same, ← spelled] at isValue
    rw [compact]
    exact isValue

theorem value_members {members : List (Text × Node)} (merged : lastWins members = members)
    (values : ∀ member ∈ members, Value level (compact member.2) member.2) :
    Value (level + 1) (compact (.object members)) (.object members) := by
  by_cases empty : members = []
  · rw [empty]
    exact .emptyObject blank_nil
  · have spelled : compactMembers members =
        (members.map fun member => (bareName member.1, bare member.2)).map fun member =>
          member.1.spelling ++ member.2.spelling := by
      rw [compactMembers_eq, List.map_map]
      refine List.map_congr_left fun member _ => ?_
      change _ = (bareName member.1).spelling ++ (bare member.2).spelling
      rw [bareName_spelling, bare_spelling, List.append_assoc]
      rfl
    have same : (members.map fun member => (bareName member.1, bare member.2)).map
        (fun member => (member.1.decoded, member.2.node)) = members := by
      rw [List.map_map]
      exact List.map_id members
    have isValue : Value (level + 1) _ (.object (lastWins
        ((members.map fun member => (bareName member.1, bare member.2)).map
          fun member => (member.1.decoded, member.2.node)))) :=
      .object (by simpa using empty)
        (List.forall_mem_map.mpr fun member _ => bareName_spells member.1)
        (List.forall_mem_map.mpr fun member _ => bare_blanks member.2)
        (List.forall_mem_map.mpr values)
    rw [same, merged, ← spelled] at isValue
    rw [compact]
    exact isValue

/-- What was read renders as a text for the same value. -/
theorem Value.compact (isValue : Value level piece node) : Value level (compact node) node := by
  induction isValue with
  | null => exact .null
  | true_ => exact .true_
  | false_ => exact .false_
  | number isNumber => exact .number isNumber
  | string => exact .string (body_encode _)
  | emptyArray => exact .emptyArray blank_nil
  | array _ _ _ ih => exact value_items (List.forall_mem_map.mpr ih)
  | emptyObject => exact .emptyObject blank_nil
  | object _ _ _ _ ih =>
    refine value_members lastWins_lastWins fun member isMember => ?_
    obtain ⟨pair, isPair, same⟩ := mem_lastWins isMember
    obtain ⟨found, isFound, rfl⟩ := List.mem_map.mp isPair
    rw [same]
    exact ih found isFound

end Render

/-! ## Paths -/

section Paths

variable {level : Nat} {piece : Text} {node below : Node}

theorem Value.weaken {more : Nat} (isValue : Value level piece node) (shallower : level ≤ more) :
    Value more piece node := by
  induction isValue generalizing more with
  | null => exact .null
  | true_ => exact .true_
  | false_ => exact .false_
  | number isNumber => exact .number isNumber
  | string isBody => exact .string isBody
  | emptyArray isBlank =>
    obtain ⟨more, rfl⟩ := Nat.exists_eq_succ_of_ne_zero (Nat.ne_zero_of_lt shallower)
    exact .emptyArray isBlank
  | array some_one blanks _ ih =>
    obtain ⟨more, rfl⟩ := Nat.exists_eq_succ_of_ne_zero (Nat.ne_zero_of_lt shallower)
    exact .array some_one blanks fun entry member =>
      ih entry member (Nat.le_of_succ_le_succ shallower)
  | emptyObject isBlank =>
    obtain ⟨more, rfl⟩ := Nat.exists_eq_succ_of_ne_zero (Nat.ne_zero_of_lt shallower)
    exact .emptyObject isBlank
  | object some_one names blanks _ ih =>
    obtain ⟨more, rfl⟩ := Nat.exists_eq_succ_of_ne_zero (Nat.ne_zero_of_lt shallower)
    exact .object some_one names blanks fun member isMember =>
      ih member isMember (Nat.le_of_succ_le_succ shallower)

/-- A value that was read from some text. -/
def Node.Read (node : Node) : Prop := ∃ piece, Value maxDepth piece node

theorem Value.items {items : List Node} (isValue : Value level piece (.array items)) :
    ∀ item ∈ items, ∃ piece, Value level piece item := by
  cases isValue with
  | emptyArray => exact fun item member => nomatch member
  | array _ _ values =>
    intro item member
    obtain ⟨entry, isEntry, rfl⟩ := List.mem_map.mp member
    exact ⟨entry.text, (values entry isEntry).weaken (Nat.le_succ _)⟩

theorem Value.members {members : List (Text × Node)}
    (isValue : Value level piece (.object members)) :
    ∀ member ∈ members, ∃ piece, Value level piece member.2 := by
  cases isValue with
  | emptyObject => exact fun member isMember => nomatch isMember
  | object _ _ _ values =>
    intro member isMember
    obtain ⟨pair, isPair, same⟩ := mem_lastWins isMember
    obtain ⟨found, isFound, rfl⟩ := List.mem_map.mp isPair
    rw [same]
    exact ⟨found.2.text, (values found isFound).weaken (Nat.le_succ _)⟩

theorem Node.Read.child {segment : Text} (read : node.Read)
    (found : node.child segment = .ok below) : below.Read := by
  obtain ⟨piece, isValue⟩ := read
  cases node with
  | array items =>
    obtain ⟨at_, _, found⟩ := bind_eq_ok.mp found
    split at found
    · rename_i item isAt
      obtain rfl := Except.ok.inj found
      exact isValue.items item (List.mem_of_getElem? isAt)
    · cases found
  | object members =>
    rw [Node.child] at found
    split at found
    · rename_i member isMember
      cases found
      exact isValue.members member (List.mem_of_find?_eq_some isMember)
    · cases found
  | str | num | bool | null => cases found

theorem Node.Read.foldlM {segments : List Text} (read : node.Read)
    (found : segments.foldlM Node.child node = .ok below) : below.Read := by
  induction segments generalizing node with
  | nil =>
    cases found
    exact read
  | cons segment segments ih =>
    rw [List.foldlM_cons] at found
    obtain ⟨middle, isChild, rest⟩ := bind_eq_ok.mp found
    exact ih (read.child isChild) rest

theorem Node.Read.resolve {path : Text} (read : node.Read)
    (found : resolve node path = .ok below) : below.Read := by
  rw [Json.resolve] at found
  split at found
  · cases found
    exact read
  · exact read.foldlM found

theorem read_of_parse {text : Text} (parsed : parse text = .ok node) : node.Read := by
  obtain ⟨_, inner, _, _, _, _, isValue⟩ := parse_sound parsed
  exact ⟨inner, isValue⟩

/-- A rendered node is read as itself. -/
theorem Node.Read.parse_compact (read : node.Read) : parse (compact node) = .ok node := by
  obtain ⟨piece, isValue⟩ := read
  refine parse_of_spells ⟨[], compact node, [], ?_, blank_nil, blank_nil, isValue.compact⟩
  rw [List.nil_append, List.append_nil]

/-- Two paths with a dot between them. -/
def join (path query : Text) : Text := if path = [] then query else path ++ '.' :: query

theorem resolve_join (root : Node) (path : Text) {query : Text} (some_one : query ≠ []) :
    resolve root (join path query) = (resolve root path >>= fun node => resolve node query) := by
  by_cases isRoot : path = []
  · rw [isRoot, join, if_pos rfl]
    rfl
  · have joined : join path query ≠ [] := by
      rw [join, if_neg isRoot]
      simp
    rw [resolve, if_neg joined, join, if_neg isRoot, List.splitOn_append_cons_self,
      List.foldlM_append]
    rw [resolve, if_neg isRoot]
    refine bind_congr fun node => ?_
    rw [resolve, if_neg some_one]

end Paths

/-! ## The root -/

section Trim

variable {text : Text} {node : Node}

theorem Blank.respell {blank : Text} (isBlank : Blank blank) : respell blank = blank := by
  have kept := isBlank.kept []
  rwa [List.append_nil, respell_nil, List.append_nil] at kept

/-- Whitespace at the end of a text stays as it is. -/
theorem respell_append_blank {blank : Text} (isBlank : Blank blank) (text : Text) :
    respell (text ++ blank) = respell text ++ blank := by
  fun_induction respell text with
  | case1 rest ih => exact congrArg (fun tail => '\\' :: 'u' :: '0' :: tail) ih
  | case2 c rest other ih =>
    have same : respell ('\\' :: c :: (rest ++ blank)) = '\\' :: c :: respell (rest ++ blank) := by
      rw [respell]
      intro tail isU isPlus
      cases rest with
      | nil =>
        have plus : '+' ∈ blank := by
          rw [← List.nil_append blank, isPlus]
          exact List.mem_cons_self
        exact absurd (isBlank '+' plus) (by decide)
      | cons d rest => exact other rest isU (by rw [(List.cons.inj isPlus).1])
    exact same.trans (congrArg (fun tail => '\\' :: c :: tail) ih)
  | case3 c rest _ other ih =>
    by_cases isSlash : c = '\\'
    · -- A lone backslash, and whitespace after it.
      obtain rfl : rest = [] := by
        cases rest with
        | nil => rfl
        | cons d rest => exact absurd rfl (other d rest isSlash)
      subst isSlash
      cases blank with
      | nil => rfl
      | cons d blank =>
        have notU : d ≠ 'u' := by
          rintro rfl
          exact absurd (isBlank 'u' List.mem_cons_self) (by decide)
        have later : Blank blank := fun e member => isBlank e (List.mem_cons_of_mem d member)
        change respell ('\\' :: d :: blank) = '\\' :: d :: blank
        rw [respell_escape notU, later.respell]
    · rw [List.cons_append, respell_cons isSlash, ih]
      rfl
  | case4 => exact isBlank.respell

theorem trim_spec (text : Text) :
    ∃ before after, text = before ++ skipWs text ∧ skipWs text = trim text ++ after ∧
      Blank before ∧ Blank after := by
  obtain ⟨before, isBefore, split⟩ := skipWs_spec text
  obtain ⟨after, isAfter, splitReverse⟩ := skipWs_spec (skipWs text).reverse
  refine ⟨before, after.reverse, split, ?_, isBefore, fun c member =>
    isAfter c (List.mem_reverse.mp member)⟩
  have back := congrArg List.reverse splitReverse
  rwa [List.reverse_reverse, List.reverse_append] at back

theorem skipWs_of_head (visible : ∀ c ∈ text.head?, isWs c = false) : skipWs text = text := by
  cases text with
  | nil => rfl
  | cons c rest => exact skipWs_cons (visible c rfl) rest

theorem skipWs_head (text : Text) : ∀ c ∈ (skipWs text).head?, isWs c = false := by
  intro c head
  have stopped := List.head?_dropWhile_not isWs text
  rw [show List.dropWhile isWs text = skipWs text from rfl, Option.mem_def.mp head] at stopped
  simpa using stopped

/-- A value that closes a container ends in a visible character. -/
def Node.IsContainer : Node → Prop
  | .object _ => True
  | .array _ => True
  | _ => False

theorem Value.ends {level : Nat} {piece : Text} (isValue : Value level piece node)
    (container : node.IsContainer) :
    ∃ front close, piece = front ++ [close] ∧ isWs close = false := by
  cases isValue with
  | null | true_ | false_ | number | string => cases container
  | emptyArray | array => exact ⟨_, ']', rfl, rfl⟩
  | emptyObject | object => exact ⟨_, '}', rfl, rfl⟩

/-- The whitespace around a container is around its trimmed text. -/
theorem Spells.of_blanks {before middle after : Text} (isBefore : Blank before)
    (isAfter : Blank after) (visible : skipWs (middle ++ after) = middle ++ after)
    (container : node.IsContainer) (spells : Spells (before ++ (middle ++ after)) node) :
    Spells middle node := by
  obtain ⟨front, inner, back, split, isFront, isBack, isValue⟩ := spells
  have same : middle ++ after = inner ++ back := by
    have trimmed := congrArg skipWs split
    obtain ⟨c, tail, isHead, seen, _⟩ := isValue.starts
    rw [skipWs_append isBefore, visible, List.append_assoc, skipWs_append isFront, isHead,
      List.cons_append, skipWs_cons seen] at trimmed
    rw [trimmed, isHead]
    rfl
  rcases List.append_eq_append_iff.mp same with ⟨extra, rfl, isExtra⟩ | ⟨extra, rfl, rfl⟩
  · rcases List.eq_nil_or_concat extra with rfl | ⟨init, last, rfl⟩
    · refine ⟨[], middle, [], ?_, blank_nil, blank_nil, ?_⟩
      · rw [List.nil_append, List.append_nil]
      · rwa [List.append_nil] at isValue
    · -- Whitespace cannot be the end of the container.
      obtain ⟨start, close, ended, seen⟩ := isValue.ends container
      rw [List.concat_eq_append, ← List.append_assoc] at ended
      obtain rfl := (List.append_singleton_inj.mp ended).2
      have blank := isAfter last (by simp [isExtra])
      rw [blank] at seen
      cases seen
  · refine ⟨[], inner, extra, rfl, blank_nil, ?_, isValue⟩
    exact fun c member => isBack c (List.mem_append_left after member)

theorem parse_trim (parsed : parse text = .ok node) (container : node.IsContainer) :
    parse (trim text) = .ok node := by
  have spells := parse_sound parsed
  obtain ⟨before, after, split, trimmed, isBefore, isAfter⟩ := trim_spec text
  have inner : respell (skipWs text) = respell (trim text) ++ after := by
    rw [trimmed]
    exact respell_append_blank isAfter (trim text)
  have visible : skipWs (respell (trim text) ++ after) = respell (trim text) ++ after := by
    rw [← inner]
    apply skipWs_of_head
    rw [head_respell]
    exact skipWs_head text
  rw [split, isBefore.kept, inner] at spells
  exact parse_complete (spells.of_blanks isBefore isAfter visible container)

end Trim

/-! ## Composition -/

section Compose

variable {text path query : Text}

theorem isContainer_of_kind {node : Node} (kind : node.kind = "object" ∨ node.kind = "array") :
    node.IsContainer := by
  cases node with
  | object => trivial
  | array => trivial
  | str | num | bool | null => simp [Node.kind] at kind

/-- A container that a path addresses renders as a text that is read as this container. -/
theorem get_container (container : kind text path = .ok "object" ∨ kind text path = .ok "array") :
    ∃ root node inner, parse text = .ok root ∧ resolve root path = .ok node ∧
      get text path = .ok inner ∧ parse inner = .ok node := by
  obtain ⟨root, node, parsed, resolved, isContainer⟩ : ∃ root node, parse text = .ok root ∧
      resolve root path = .ok node ∧ node.IsContainer := by
    have named : ∃ name, kind text path = .ok name ∧ (name = "object" ∨ name = "array") := by
      rcases container with object | array
      · exact ⟨_, object, .inl rfl⟩
      · exact ⟨_, array, .inr rfl⟩
    obtain ⟨name, isKind, isName⟩ := named
    obtain ⟨root, parsed, isKind⟩ := bind_eq_ok.mp isKind
    obtain ⟨node, resolved, isKind⟩ := bind_eq_ok.mp isKind
    cases isKind
    exact ⟨root, node, parsed, resolved, isContainer_of_kind isName⟩
  have rendered : get text path = .ok (render text path node) :=
    bind_eq_ok.mpr ⟨root, parsed, bind_eq_ok.mpr ⟨node, resolved, rfl⟩⟩
  refine ⟨root, node, render text path node, parsed, resolved, rendered, ?_⟩
  have nested := ((read_of_parse parsed).resolve resolved).parse_compact
  by_cases isRoot : path = []
  · rw [isRoot, resolve, if_pos rfl] at resolved
    cases resolved
    have trimmed := parse_trim parsed isContainer
    cases root with
    | object | array => rwa [render, if_pos isRoot]
    | str | num | bool | null => cases isContainer
  · cases node with
    | object | array => rwa [render, if_neg isRoot]
    | str | num | bool | null => cases isContainer

theorem join_ne_nil (path : Text) (some_one : query ≠ []) : join path query ≠ [] := by
  rw [join]
  split
  · exact some_one
  · simp

/-- Below the root, what renders does not depend on the text or the path. -/
theorem render_nested (text other : Text) {path path' : Text} (nested : path ≠ [])
    (nested' : path' ≠ []) (node : Node) : render text path node = render other path' node := by
  cases node with
  | object | array => rw [render, render, if_neg nested, if_neg nested']
  | str | num | bool | null => rfl

/-- A query into a rendered container answers what the joined path answers, errors included, and
the rendered container is valid. -/
theorem queries_compose (container : kind text path = .ok "object" ∨ kind text path = .ok "array")
    (some_one : query ≠ []) : (∃ inner, get text path = .ok inner ∧ valid inner = true) ∧
      get text (join path query) = (get text path >>= fun inner => get inner query) ∧
      kind text (join path query) = (get text path >>= fun inner => kind inner query) ∧
      len text (join path query) = (get text path >>= fun inner => len inner query) := by
  obtain ⟨root, node, inner, parsed, resolved, rendered, parsedInner⟩ := get_container container
  have joined : resolve root (join path query) = resolve node query := by
    rw [resolve_join root path some_one, bind_of_ok resolved]
  refine ⟨⟨inner, rendered, valid_iff_parse.mpr ⟨node, parsedInner⟩⟩, ?_, ?_, ?_⟩
  · rw [bind_of_ok rendered, get, get, bind_of_ok parsed, bind_of_ok parsedInner, joined]
    refine bind_congr fun found => ?_
    rw [render_nested text inner (join_ne_nil path some_one) some_one]
  · rw [bind_of_ok rendered, kind, kind, bind_of_ok parsed, bind_of_ok parsedInner, joined]
  · rw [bind_of_ok rendered, len, len, bind_of_ok parsed, bind_of_ok parsedInner, joined]

/-- In ` {"a":[1]}`, the path `a` and the query `0`. -/
theorem queries_compose_example :
    let text : Text := [' ', '{', '"', 'a', '"', ':', '[', '1', ']', '}']
    (∃ inner, get text ['a'] = .ok inner ∧ valid inner = true) ∧
      get text (join ['a'] ['0']) = (get text ['a'] >>= fun inner => get inner ['0']) ∧
      kind text (join ['a'] ['0']) = (get text ['a'] >>= fun inner => kind inner ['0']) ∧
      len text (join ['a'] ['0']) = (get text ['a'] >>= fun inner => len inner ['0']) :=
  queries_compose (.inr rfl) (by decide)

end Compose

end WolfInterp.Json
