import Mathlib.Data.List.Chain
import Mathlib.Tactic.IntervalCases
import WolfInterp.Lex.Token

/-!
# The history of the line editor

The store keeps the inputs of a session, oldest first: a blank input and the repeat of the newest
one are not recorded, and a full store drops its oldest entry. On disk it is one JSON string a
line, and reading it back pushes the lines again. An entry that ends in a newline, which one pushed
with two newlines at its end does, loses that newline when it is pushed again.
-/

namespace WolfInterp.Repl

open WolfInterp.Lex (Text Unicode)

/-- `str::lines`, after the characters already read of the present line. A carriage return before
the newline is part of the line end. -/
def linesFrom (line : Text) : Text → List Text
  | [] => if line = [] then [] else [line]
  | c :: rest =>
    if c = '\n' then
      (if line.getLast? = some '\r' then line.dropLast else line) :: linesFrom [] rest
    else linesFrom (line ++ [c]) rest

def lines (text : Text) : List Text := linesFrom [] text

theorem linesFrom_line (rest : Text) :
    ∀ line before : Text, '\n' ∉ line → (before ++ line).getLast? ≠ some '\r' →
      linesFrom before (line ++ '\n' :: rest) = (before ++ line) :: lines rest := by
  intro line
  induction line with
  | nil =>
    intro before _ ending
    rw [List.append_nil] at ending ⊢
    simp [linesFrom, lines, ending]
  | cons c line tail =>
    intro before plain ending
    rw [List.mem_cons, not_or] at plain
    have other : c ≠ '\n' := fun same => plain.1 same.symm
    have moved : before ++ c :: line = (before ++ [c]) ++ line := by simp
    rw [moved] at ending ⊢
    rw [← tail (before ++ [c]) plain.2 ending, List.cons_append, linesFrom, if_neg other]

/-- `serde_json::to_string` and `serde_json::from_str` at strings. The text of a string escapes
every control character and ends in its quote. -/
structure LineCodec where
  encode : Text → Text
  decode : Text → Option Text
  decode_encode : ∀ entry, decode (encode entry) = some entry
  encode_plain : ∀ entry, '\n' ∉ encode entry
  encode_quoted : ∀ entry, (encode entry).getLast? = some '"'

/-! ## The codec -/

def hexDigit (value : Nat) : Char :=
  Char.ofNat (if value < 10 then '0'.toNat + value else 'a'.toNat + (value - 10))

/-- One character of a JSON string. -/
def escape (c : Char) : Text :=
  match c with
  | '"' => ['\\', '"']
  | '\\' => ['\\', '\\']
  | '\x08' => ['\\', 'b']
  | '\t' => ['\\', 't']
  | '\n' => ['\\', 'n']
  | '\x0c' => ['\\', 'f']
  | '\r' => ['\\', 'r']
  | c =>
    if c.toNat < 32 then ['\\', 'u', '0', '0', hexDigit (c.toNat / 16), hexDigit (c.toNat % 16)]
    else [c]

def hexValue (c : Char) : Nat :=
  if c.toNat < 'a'.toNat then c.toNat - '0'.toNat else c.toNat - 'a'.toNat + 10

/-- The character a one-letter escape stands for. -/
def unescaped : Char → Option Char
  | '"' => some '"'
  | '\\' => some '\\'
  | 'b' => some '\x08'
  | 't' => some '\t'
  | 'n' => some '\n'
  | 'f' => some '\x0c'
  | 'r' => some '\r'
  | _ => none

/-- The rest of a JSON string, in the spelling `escape` gives it. -/
def decodeBody : Text → Option Text
  | [] => none
  | c :: rest =>
    if c = '"' then if rest = [] then some [] else none
    else if c = '\\' then
      match rest with
      | 'u' :: _ :: _ :: high :: low :: rest =>
        (decodeBody rest).map (Char.ofNat (16 * hexValue high + hexValue low) :: ·)
      | letter :: rest => (unescaped letter).bind fun c => (decodeBody rest).map (c :: ·)
      | [] => none
    else if c.toNat < 32 then none
    else (decodeBody rest).map (c :: ·)

theorem decodeBody_escape (c : Char) (rest : Text) :
    decodeBody (escape c ++ rest) = (decodeBody rest).map (c :: ·) := by
  unfold escape
  split
  iterate 7 rfl
  next quote backslash _ _ _ _ _ =>
    split
    · next control =>
      have spelled : ∀ value < 32, ∀ rest,
          decodeBody (['\\', 'u', '0', '0', hexDigit (value / 16), hexDigit (value % 16)] ++ rest) =
            (decodeBody rest).map (Char.ofNat value :: ·) := by
        intro value small rest
        interval_cases value <;> rfl
      have here := spelled c.toNat control rest
      rwa [Char.ofNat_toNat] at here
    · next plain =>
      rw [List.singleton_append, decodeBody.eq_def]
      dsimp only
      rw [if_neg quote, if_neg backslash, if_neg plain]

theorem escape_plain (c : Char) : '\n' ∉ escape c := by
  unfold escape
  split
  iterate 7 decide
  next _ _ _ _ other _ _ =>
    split
    · next control =>
      have spelled : ∀ value < 32,
          '\n' ∉ ['\\', 'u', '0', '0', hexDigit (value / 16), hexDigit (value % 16)] := by decide
      exact spelled c.toNat control
    · rw [List.mem_singleton]
      exact fun same => other same.symm

/-- The spelling of strings that `serde_json` writes. -/
def jsonLine : LineCodec where
  encode entry := '"' :: entry.flatMap escape ++ ['"']
  decode
    | '"' :: body => decodeBody body
    | _ => none
  decode_encode entry := by
    change decodeBody (entry.flatMap escape ++ ['"']) = some entry
    induction entry with
    | nil => rfl
    | cons c entry tail =>
      rw [List.flatMap_cons, List.append_assoc, decodeBody_escape, tail]
      rfl
  encode_plain entry := by
    intro holds
    rcases List.mem_append.mp holds with body | quote
    · rcases List.mem_cons.mp body with quote | escaped
      · cases quote
      · obtain ⟨c, -, inside⟩ := List.mem_flatMap.mp escaped
        exact escape_plain c inside
    · exact absurd quote (by decide)
  encode_quoted entry := List.getLast?_concat

/-! ## The store -/

/-- The in-memory history the editor and the disk file agree on. -/
structure HistoryStore where
  entries : List Text
  cap : Nat
  deriving DecidableEq

/-- `entry.strip_suffix('\n').unwrap_or(entry)` -/
def stripNewline (entry : Text) : Text :=
  if entry.getLast? = some '\n' then entry.dropLast else entry

/-- `entry.trim().is_empty()` -/
def isBlank (u : Unicode) (entry : Text) : Bool := entry.all u.isWhitespace

namespace HistoryStore

/-- An empty store with the given cap. -/
def new (cap : Nat) : HistoryStore := ⟨[], cap⟩

/-- Record one input. The answer says whether it was recorded. -/
def push (u : Unicode) (store : HistoryStore) (entry : Text) : Bool × HistoryStore :=
  let entry := stripNewline entry
  if isBlank u entry then (false, store)
  else if store.entries.getLast? = some entry then (false, store)
  else
    let entries := store.entries ++ [entry]
    let kept :=
      if entries.length > store.cap then entries.drop (entries.length - store.cap) else entries
    (true, { store with entries := kept })

/-- The on-disk format. -/
def serialize (codec : LineCodec) (store : HistoryStore) : Text :=
  store.entries.flatMap fun entry => codec.encode entry ++ ['\n']

/-- Read the on-disk format. A line that does not parse is skipped. -/
def parse (u : Unicode) (codec : LineCodec) (text : Text) (cap : Nat) : HistoryStore :=
  (lines text).foldl
    (fun store line =>
      match codec.decode line with
      | some entry => (store.push u entry).2
      | none => store)
    (new cap)

/-- The store after a run of pushes. -/
def pushAll (u : Unicode) (store : HistoryStore) (entries : List Text) : HistoryStore :=
  entries.foldl (fun store entry => (store.push u entry).2) store

/-! ## What a push does -/

/-- A blank input and a repeat change nothing. Any other input goes to the end, and the store keeps
its newest entries. -/
theorem push_cases (u : Unicode) (store : HistoryStore) (entry : Text) :
    (store.push u entry).2 = store ∨ isBlank u (stripNewline entry) = false ∧
        store.entries.getLast? ≠ some (stripNewline entry) ∧ (store.push u entry).2 =
          ⟨(store.entries ++ [stripNewline entry]).drop
            ((store.entries ++ [stripNewline entry]).length - store.cap), store.cap⟩ := by
  simp only [push]
  split
  · exact .inl rfl
  next filled =>
    split
    · exact .inl rfl
    next fresh =>
      refine .inr ⟨by simpa using filled, fresh, ?_⟩
      split
      · rfl
      next room =>
        have none_over :
            (store.entries ++ [stripNewline entry]).length - store.cap = 0 := by omega
        rw [none_over, List.drop_zero]

theorem push_cap (u : Unicode) (store : HistoryStore) (entry : Text) :
    (store.push u entry).2.cap = store.cap := by
  rcases push_cases u store entry with same | ⟨-, -, recorded⟩
  · rw [same]
  · rw [recorded]

theorem pushAll_cap (u : Unicode) (entries : List Text) :
    ∀ store : HistoryStore, (store.pushAll u entries).cap = store.cap := by
  induction entries with
  | nil => intro store; rfl
  | cons entry entries tail =>
    intro store
    have step := tail (store.push u entry).2
    rw [push_cap] at step
    exact step

/-- The shape every store has: what a push refuses to record is not in it. -/
structure Kept (u : Unicode) (store : HistoryStore) : Prop where
  filled : ∀ entry ∈ store.entries, isBlank u entry = false
  fresh : store.entries.IsChain (· ≠ ·)
  capped : store.entries.length ≤ store.cap

theorem Kept.new (u : Unicode) (cap : Nat) : (new cap).Kept u :=
  ⟨by simp [HistoryStore.new], List.isChain_nil, Nat.zero_le cap⟩

variable {u : Unicode} {entry : Text}

theorem Kept.push {store : HistoryStore} (kept : store.Kept u) (entry : Text) :
    (store.push u entry).2.Kept u := by
  rcases push_cases u store entry with same | ⟨filled, fresh, recorded⟩
  · rwa [same]
  · rw [recorded]
    refine ⟨fun held holds => ?_, ?_, ?_⟩
    · rcases List.mem_append.mp (List.mem_of_mem_drop holds) with old | new
      · exact kept.filled held old
      · rw [List.mem_singleton.mp new]
        exact filled
    · apply List.IsChain.drop
      apply List.IsChain.append kept.fresh (List.isChain_singleton _)
      intro last isLast first isFirst same
      rw [List.head?_cons, Option.mem_some_iff] at isFirst
      rw [same, ← isFirst] at isLast
      exact fresh isLast
    · rw [List.length_drop]
      simp only [List.length_append, List.length_singleton]
      omega

theorem Kept.pushAll (entries : List Text) :
    ∀ {store : HistoryStore}, store.Kept u → (store.pushAll u entries).Kept u := by
  induction entries with
  | nil => exact fun kept => kept
  | cons entry entries tail => exact fun kept => tail (kept.push entry)

/-! ## Reading back -/

/-- The lines of a serialized store are its encoded entries. -/
theorem lines_serialize (codec : LineCodec) (entries : List Text) (cap : Nat) :
    lines (serialize codec ⟨entries, cap⟩) = entries.map codec.encode := by
  induction entries with
  | nil => rfl
  | cons entry entries tail =>
    have ending : ([] ++ codec.encode entry).getLast? ≠ some '\r' := by
      rw [List.nil_append, codec.encode_quoted]
      decide
    have first := linesFrom_line (serialize codec ⟨entries, cap⟩) (codec.encode entry) []
      (codec.encode_plain entry) ending
    rw [tail] at first
    simpa [serialize, lines, List.append_assoc] using first

/-- Reading a serialized store pushes its entries again. -/
theorem parse_serialize (u : Unicode) (codec : LineCodec) (store : HistoryStore) :
    parse u codec (store.serialize codec) store.cap = (new store.cap).pushAll u store.entries := by
  rw [parse, lines_serialize, pushAll, List.foldl_map]
  simp only [codec.decode_encode]

theorem push_next {before : List Text} {after : List Text} {cap : Nat}
    (kept : (HistoryStore.mk (before ++ entry :: after) cap).Kept u)
    (whole : stripNewline entry = entry) :
    ((HistoryStore.mk before cap).push u entry).2 = ⟨before ++ [entry], cap⟩ := by
  have filled : isBlank u entry = false := kept.filled entry (by simp)
  have fresh : before.getLast? ≠ some entry := by
    intro last
    have apart := (List.isChain_append.mp kept.fresh).2.2
    exact apart entry last entry rfl rfl
  have room : ¬ (before ++ [entry]).length > cap := by
    have capped := kept.capped
    simp only [List.length_append, List.length_cons, List.length_nil] at capped ⊢
    omega
  simp only [push, whole]
  rw [if_neg (by simp [filled]), if_neg fresh, if_neg room]

/-- Pushing the entries of a store again builds it, when no entry loses a newline. -/
theorem pushAll_kept {cap : Nat} (rest : List Text) :
    ∀ before : List Text, (HistoryStore.mk (before ++ rest) cap).Kept u →
      (∀ entry ∈ rest, stripNewline entry = entry) →
      (HistoryStore.mk before cap).pushAll u rest = ⟨before ++ rest, cap⟩ := by
  induction rest with
  | nil =>
    intro before _ _
    rw [List.append_nil]
    rfl
  | cons entry rest tail =>
    intro before kept whole
    have next := push_next kept (whole entry List.mem_cons_self)
    have moved : before ++ entry :: rest = (before ++ [entry]) ++ rest := by simp
    rw [moved] at kept ⊢
    rw [← tail (before ++ [entry]) kept fun held holds => whole held (List.mem_cons_of_mem _ holds),
      ← next]
    rfl

/-! ## What a lost newline does -/

/-- How many characters the entries have together. -/
def weight (entries : List Text) : Nat := (entries.map List.length).sum

theorem weight_append (before after : List Text) :
    weight (before ++ after) = weight before + weight after := by
  rw [weight, List.map_append, List.sum_append]
  rfl

theorem weight_drop_le (count : Nat) (entries : List Text) :
    weight (entries.drop count) ≤ weight entries := by
  have whole := weight_append (entries.take count) (entries.drop count)
  rw [List.take_append_drop] at whole
  omega

theorem pushAll_weight (u : Unicode) (entries : List Text) : ∀ store : HistoryStore,
      weight (store.pushAll u entries).entries ≤
        weight store.entries + weight (entries.map stripNewline) := by
  induction entries with
  | nil => intro store; exact Nat.le_add_right _ _
  | cons entry entries tail =>
    intro store
    have rest := tail (store.push u entry).2
    have first : weight (store.push u entry).2.entries ≤
        weight store.entries + (stripNewline entry).length := by
      rcases push_cases u store entry with same | ⟨-, -, recorded⟩
      · rw [same]
        exact Nat.le_add_right _ _
      · rw [recorded]
        refine (weight_drop_le _ _).trans ?_
        rw [weight_append]
        simp [weight]
    have total : weight ((entry :: entries).map stripNewline) =
        (stripNewline entry).length + weight (entries.map stripNewline) := rfl
    rw [total]
    change weight ((store.push u entry).2.pushAll u entries).entries ≤ _
    omega

theorem stripNewline_le (entry : Text) : (stripNewline entry).length ≤ entry.length := by
  unfold stripNewline
  split
  · rw [List.length_dropLast]
    omega
  · exact le_rfl

/-- Only an entry that ends in a newline is shortened. -/
theorem stripNewline_lt (ends : entry.getLast? = some '\n') :
    (stripNewline entry).length < entry.length := by
  rw [stripNewline, if_pos ends, List.length_dropLast]
  have some_length : 0 < entry.length := by
    cases entry with
    | nil => cases ends
    | cons => exact Nat.succ_pos _
  omega

theorem weight_strip_le (entries : List Text) :
    weight (entries.map stripNewline) ≤ weight entries := by
  induction entries with
  | nil => exact le_rfl
  | cons entry entries tail => exact Nat.add_le_add (stripNewline_le entry) tail

theorem weight_strip_lt {entries : List Text} (holds : entry ∈ entries)
    (ends : entry.getLast? = some '\n') : weight (entries.map stripNewline) < weight entries := by
  obtain ⟨before, after, rfl⟩ := List.append_of_mem holds
  have front := weight_strip_le before
  have back := weight_strip_le after
  have here := stripNewline_lt ends
  rw [List.map_append, weight_append, weight_append]
  change weight (before.map stripNewline) +
    ((stripNewline entry).length + weight (after.map stripNewline)) <
      weight before + (entry.length + weight after)
  omega

/-- What the store keeps of a run is what the run pushed, less a newline. -/
theorem mem_pushAll {held : Text} (entries : List Text) :
    ∀ store : HistoryStore, held ∈ (store.pushAll u entries).entries →
      held ∈ store.entries ∨ ∃ entry ∈ entries, held = stripNewline entry := by
  induction entries with
  | nil => exact fun store holds => .inl holds
  | cons entry entries tail =>
    intro store holds
    rcases tail (store.push u entry).2 holds with earlier | ⟨later, isPushed, same⟩
    · rcases push_cases u store entry with same | ⟨-, -, recorded⟩
      · rw [same] at earlier
        exact .inl earlier
      · rw [recorded] at earlier
        rcases List.mem_append.mp (List.mem_of_mem_drop earlier) with old | new
        · exact .inl old
        · exact .inr ⟨entry, List.mem_cons_self, List.mem_singleton.mp new⟩
    · exact .inr ⟨later, List.mem_cons_of_mem _ isPushed, same⟩

/-- An input with two newlines at its end. -/
def endsTwice (entry : Text) : Prop := (stripNewline entry).getLast? = some '\n'

theorem parse_eq_iff {store : HistoryStore} (codec : LineCodec) (kept : store.Kept u) :
    parse u codec (store.serialize codec) store.cap = store ↔
      ∀ entry ∈ store.entries, entry.getLast? ≠ some '\n' := by
  rw [parse_serialize]
  constructor
  · intro same entry holds ends
    have lost := weight_strip_lt holds ends
    have grown := pushAll_weight u store.entries (new store.cap)
    rw [same] at grown
    have empty : weight (new store.cap).entries = 0 := rfl
    omega
  · intro whole
    apply pushAll_kept store.entries [] kept
    intro entry holds
    rw [stripNewline, if_neg (whole entry holds)]

/-- A store that any run of pushes builds reads back as itself exactly when no entry in it ends in
a newline, and that is so when no input of the run ends in two. -/
theorem parse_serialize_iff (u : Unicode) (codec : LineCodec) (cap : Nat) (inputs : List Text) :
    (parse u codec (((new cap).pushAll u inputs).serialize codec) cap = (new cap).pushAll u inputs ↔
      ∀ entry ∈ ((new cap).pushAll u inputs).entries, entry.getLast? ≠ some '\n') ∧
    ((∀ input ∈ inputs, ¬ endsTwice input) →
      parse u codec (((new cap).pushAll u inputs).serialize codec) cap =
        (new cap).pushAll u inputs) := by
  have kept := (Kept.new u cap).pushAll inputs
  have exact_when := parse_eq_iff codec kept
  rw [pushAll_cap] at exact_when
  refine ⟨exact_when, fun single => exact_when.mpr ?_⟩
  intro entry holds ends
  rcases mem_pushAll inputs (new cap) holds with old | ⟨input, isPushed, same⟩
  · cases old
  · rw [same] at ends
    exact single input isPushed ends

/-- A paste that ends in two newlines loses one of them on disk. -/
theorem paste_not_reread : ¬ ∀ (u : Unicode) (codec : LineCodec) (cap : Nat) (inputs : List Text),
      parse u codec (((new cap).pushAll u inputs).serialize codec) cap =
        (new cap).pushAll u inputs := by
  intro reread
  have same := (parse_eq_iff jsonLine ((Kept.new Unicode.ascii 1000).pushAll
    ["let x = 1\n\n".toList])).mp (reread Unicode.ascii jsonLine 1000 _)
  exact absurd rfl (same "let x = 1\n".toList (by decide))

end HistoryStore

end WolfInterp.Repl
