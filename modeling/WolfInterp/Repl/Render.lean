import Mathlib.Data.List.Lex
import WolfInterp.Eval.Value
import WolfInterp.Lex.Progress
import WolfInterp.Lib.Cuts
import WolfInterp.Lib.Replacing
import WolfInterp.Lib.SortedMap

/-!
# Values as a session shows them

A struct literal at the prompt makes a value of the type's current generation, whose name carries
the generation as a marker. The session shows a value by taking the markers of the current
generations out of its printed text, one type after the other. The text is right when no current
marker occurs outside the names of current structs, and none that occurs there before the type's
own turn stops short of the end of the name.
-/

namespace WolfInterp.Repl

open WolfInterp.Eval (Value Slot RangeElem)
open WolfInterp.Lex (Text Unicode)
open Replacing

/-! ## Printing -/

/-- What one write of the printer puts out: text of its format, the name of a struct, or what a
value reads as. -/
inductive Piece where
  | fixed (text : Text)
  | name (text : Text)
  | word (text : Text)

def Piece.text : Piece → Text
  | fixed text | name text | word text => text

/-- The two formats that are not spelled here: `f64_shortest` and the quoted character. -/
structure Forms where
  float : Nat → Text
  quoted : Char → Text

def digits (value : Nat) : Text := Nat.toDigits 10 value

def signed (value : Int) : Text :=
  if value < 0 then '-' :: digits value.natAbs else digits value.natAbs

/-- An end of a range of characters, which is a code point. -/
def Forms.scalar (forms : Forms) (value : Int) : Text :=
  if 0 ≤ value ∧ value.toNat.isValidChar then forms.quoted (Char.ofNat value.toNat)
  else signed value

def provText : Prov → Text
  | .tag id => "tag#".toList ++ digits id
  | .wildcard => "wildcard".toList

def rawText (ptr : RawPtr) : Text :=
  match ptr.alloc with
  | none => ptr.foreignText.toList
  | some alloc =>
    "*alloc#".toList ++ digits alloc ++ '+' :: signed ptr.offset ++ '@' :: provText ptr.prov

/-- A comma before every item but the first. -/
def between (first : Bool) : List Piece := if first then [] else [.fixed [',', ' ']]

mutual

/-- `fmt::Display for Value`, write by write. -/
def display (forms : Forms) : Value → List Piece
  | .unit => [.fixed ['(', ')']]
  | .bool value => [.word (if value then "true".toList else "false".toList)]
  | .int value _ => [.word (signed value)]
  | .float bits => [.word (forms.float bits)]
  | .char value => [.word [value]]
  | .byte value => [.word (digits value)]
  | .str text _ => [.word text]
  | .tuple items => .fixed ['('] :: (displayItems forms true items ++ [.fixed [')']])
  | .struct name fields _ =>
    .name name :: .fixed [' ', '{'] :: (displayFields forms true fields ++ [.fixed [' ', '}']])
  | .list items _ _ _ => .fixed ['['] :: (displayItems forms true items ++ [.fixed [']']])
  | .map pairs _ => .fixed ['{'] :: (displayPairs forms true pairs ++ [.fixed ['}']])
  | .range start stop elem =>
    match elem with
    | .int _ => [.word (signed start ++ '.' :: '.' :: signed stop)]
    | .char => [.word (forms.scalar start ++ '.' :: '.' :: forms.scalar stop)]
  | .fn name | .module name | .builtin name => [.word name]
  | .closure _ _ _ _ _ _ => [.word "<closure>".toList]
  | .region id generation =>
    [.word ("region#".toList ++ digits id ++ '@' :: digits generation)]
  | .poolRef id => [.word ("pool#".toList ++ digits id)]
  | .handle pool index generation =>
    [.word ("handle#".toList ++ digits pool ++ '[' :: digits index ++
      ']' :: '@' :: digits generation.toNat)]
  | .shared cell => [.word ("shared#".toList ++ digits cell)]
  | .weak cell => [.word ("weak#".toList ++ digits cell)]
  | .raw ptr => [.word (rawText ptr)]
  | .scope id => [.word ("scope#".toList ++ digits id)]
  | .chan id => [.word ("channel#".toList ++ digits id)]
  | .mutexRef id => [.word ("mutex#".toList ++ digits id)]
  | .proc id => [.word ("proc#".toList ++ digits id)]
  | .duration ticks => [.word (digits ticks ++ ['n', 's'])]
  | .error tag payload _ _ =>
    .word tag :: if payload.isEmpty then []
      else .fixed ['('] :: (displayPayload forms true payload ++ [.fixed [')']])

def displayItems (forms : Forms) (first : Bool) : List (Slot Value) → List Piece
  | [] => []
  | ⟨_, value⟩ :: rest => between first ++ (display forms value ++ displayItems forms false rest)

def displayFields (forms : Forms) (first : Bool) : List (Text × Slot Value) → List Piece
  | [] => []
  | (field, ⟨_, value⟩) :: rest =>
    (if first then [] else [.fixed [',']]) ++ .fixed [' '] :: .word field :: .fixed [':', ' '] ::
      (display forms value ++ displayFields forms false rest)

def displayPairs (forms : Forms) (first : Bool) : List (Value × Slot Value) → List Piece
  | [] => []
  | (key, ⟨_, value⟩) :: rest =>
    between first ++ (display forms key ++
      .fixed [':', ' '] :: (display forms value ++ displayPairs forms false rest))

def displayPayload (forms : Forms) (first : Bool) : List Value → List Piece
  | [] => []
  | value :: rest => between first ++ (display forms value ++ displayPayload forms false rest)

end

/-- The characters of the formats. -/
def separators : Text := ['(', ')', '[', ']', '{', '}', ',', ':', ' ']

/-- Between two parts of a printed value stands text of the format. -/
inductive Spaced : List Piece → Prop
  | nil : Spaced []
  | name (text : Text) : Spaced [.name text]
  | word (text : Text) : Spaced [.word text]
  | join {front back : List Piece} {text : Text} : Spaced front → Spaced back → text ≠ [] →
      (∀ c ∈ text, c ∈ separators) → Spaced (front ++ .fixed text :: back)

/-- A text of the format, with at least one character. -/
def isFormat (text : Text) : Bool := !text.isEmpty && text.all separators.contains

theorem Spaced.around {front back : List Piece} {text : Text} (before : Spaced front)
    (behind : Spaced back) (format : isFormat text = true) :
    Spaced (front ++ .fixed text :: back) := by
  obtain ⟨some, all⟩ := Bool.and_eq_true_iff.mp format
  refine .join before behind (fun empty => ?_) fun c among => ?_
  · rw [empty] at some
    cases some
  · exact List.contains_iff_mem.mp (List.all_eq_true.mp all c among)

theorem Spaced.enclose {pieces : List Piece} {before after : Text} (inside : Spaced pieces)
    (opens : isFormat before = true) (closes : isFormat after = true) :
    Spaced (.fixed before :: (pieces ++ [.fixed after])) :=
  Spaced.around .nil (Spaced.around inside .nil closes) opens

/-- What comes behind another part begins with text of the format. -/
theorem Spaced.listed {front pieces : List Piece} {first : Bool} (spaced : Spaced front)
    (start : first = true → front = []) (item : Spaced pieces) :
    Spaced (front ++ (between first ++ pieces)) := by
  cases first with
  | true => rwa [start rfl, between, if_pos rfl]
  | false => exact Spaced.around spaced item rfl

mutual

theorem display_spaced (forms : Forms) : ∀ value : Value, Spaced (display forms value)
  | .unit => Spaced.around .nil .nil rfl
  | .bool _ | .int _ _ | .float _ | .char _ | .byte _ | .str _ _ => .word _
  | .fn _ | .module _ | .builtin _ | .closure _ _ _ _ _ _ => .word _
  | .region _ _ | .poolRef _ | .handle _ _ _ | .shared _ | .weak _ | .raw _ => .word _
  | .scope _ | .chan _ | .mutexRef _ | .proc _ | .duration _ => .word _
  | .range _ _ (.int _) | .range _ _ .char => .word _
  | .tuple items =>
    (displayItems_spaced forms items [] true .nil fun _ => rfl).enclose rfl rfl
  | .list items _ _ _ =>
    (displayItems_spaced forms items [] true .nil fun _ => rfl).enclose rfl rfl
  | .map pairs _ =>
    (displayPairs_spaced forms pairs [] true .nil fun _ => rfl).enclose rfl rfl
  | .struct name fields _ => by
    rw [display]
    have inside := displayFields_spaced forms fields [] true .nil fun _ => rfl
    exact Spaced.around (.name name) (Spaced.around inside .nil rfl)
      rfl
  | .error tag payload _ _ => by
    rw [display]
    split
    · exact .word tag
    · have inside := displayPayload_spaced forms payload [] true .nil fun _ => rfl
      exact Spaced.around (.word tag) (Spaced.around inside .nil rfl)
        rfl

theorem displayItems_spaced (forms : Forms) : ∀ (items : List (Slot Value))
    (front : List Piece) (first : Bool), Spaced front → (first = true → front = []) →
      Spaced (front ++ displayItems forms first items)
  | [], front, _, spaced, _ => by rwa [displayItems, List.append_nil]
  | ⟨_, value⟩ :: rest, _, _, spaced, start =>
    spaced.listed start
      (displayItems_spaced forms rest _ false (display_spaced forms value) (by rintro ⟨⟩))

theorem displayFields_spaced (forms : Forms) : ∀ (fields : List (Text × Slot Value))
    (front : List Piece) (first : Bool), Spaced front → (first = true → front = []) →
      Spaced (front ++ displayFields forms first fields)
  | [], front, _, spaced, _ => by rwa [displayFields, List.append_nil]
  | (field, ⟨_, value⟩) :: rest, front, first, spaced, start => by
    have later :=
      displayFields_spaced forms rest _ false (display_spaced forms value) (by rintro ⟨⟩)
    have entry : Spaced (.fixed [' '] :: .word field :: .fixed [':', ' '] ::
        (display forms value ++ displayFields forms false rest)) :=
      Spaced.around .nil (Spaced.around (.word field) later rfl)
        rfl
    rw [displayFields]
    cases first with
    | true => rwa [start rfl, if_pos rfl]
    | false => exact Spaced.around spaced entry rfl

theorem displayPairs_spaced (forms : Forms) : ∀ (pairs : List (Value × Slot Value))
    (front : List Piece) (first : Bool), Spaced front → (first = true → front = []) →
      Spaced (front ++ displayPairs forms first pairs)
  | [], front, _, spaced, _ => by rwa [displayPairs, List.append_nil]
  | (key, ⟨_, value⟩) :: rest, _, _, spaced, start =>
    spaced.listed start (Spaced.around (display_spaced forms key)
      (displayPairs_spaced forms rest _ false (display_spaced forms value) (by rintro ⟨⟩))
      rfl)

theorem displayPayload_spaced (forms : Forms) : ∀ (payload : List Value)
    (front : List Piece) (first : Bool), Spaced front → (first = true → front = []) →
      Spaced (front ++ displayPayload forms first payload)
  | [], front, _, spaced, _ => by rwa [displayPayload, List.append_nil]
  | value :: rest, _, _, spaced, start =>
    spaced.listed start
      (displayPayload_spaced forms rest _ false (display_spaced forms value) (by rintro ⟨⟩))

end

/-- The text of several writes. -/
def written (pieces : List Piece) : Text := pieces.flatMap Piece.text

/-! ## Generations -/

/-- A generation under its type's name. -/
def marker (entry : Text × Nat) : Text := entry.1 ++ '#' :: digits entry.2

/-- The current generation of each type of a session, in the order of the names. -/
structure Generations (u : Unicode) where
  entries : List (Text × Nat)
  sorted : Lib.SortedMap.Sorted entries
  named : ∀ entry ∈ entries, ∀ c ∈ entry.1, u.isXidContinue c = true

namespace Generations

variable {u : Unicode}

def none_ : Generations u := ⟨[], List.Pairwise.nil, nofun⟩

/-- `install_item` at a struct: the next generation of its name. -/
def install (gens : Generations u) (name : Text) (named : ∀ c ∈ name, u.isXidContinue c = true) :
    Generations u where
  entries := Lib.SortedMap.insert name ((Lib.SortedMap.get name gens.entries).getD 0 + 1)
    gens.entries
  sorted := gens.sorted.insert _ _
  named := by
    intro entry among
    rcases Lib.SortedMap.mem_insert among with rfl | among
    · exact named
    · exact gens.named entry among

def stripCurrentGenerations (gens : Generations u) (text : Text) : Text :=
  gens.entries.foldl (fun text entry => replace (marker entry) entry.1 text) text

def renderValue (forms : Forms) (gens : Generations u) (value : Value) : Text :=
  gens.stripCurrentGenerations (written (display forms value))

/-- The name of a struct as a session means to show it: bare when its generation is current. -/
def surface (gens : Generations u) (name : Text) : Text :=
  match gens.entries.find? fun entry => marker entry = name with
  | some entry => entry.1
  | none => name

def shown (gens : Generations u) : Piece → Text
  | .name name => gens.surface name
  | piece => piece.text

/-- The text of a value is its printed text with the names of its current structs bare. -/
def RendersCurrent (forms : Forms) (gens : Generations u) (value : Value) : Prop :=
  renderValue forms gens value = (display forms value).flatMap gens.shown

/-! ## What stripping does -/

def rules (gens : Generations u) : List (Text × Text) :=
  gens.entries.map fun entry => (marker entry, entry.1)

theorem strip_eq (gens : Generations u) (text : Text) :
    gens.stripCurrentGenerations text = replaceAll gens.rules text := by
  rw [replaceAll, rules, List.foldl_map]
  rfl

variable {c : Char} {entry own : Text × Nat} {text : Text} {pieces : List Piece}

theorem digit_of_mem {value : Nat} (among : c ∈ digits value) : c.isDigit = true :=
  Nat.isDigit_of_mem_toDigits (by decide) (by decide) among

theorem hash_not_mem_digits (value : Nat) : '#' ∉ digits value := fun among =>
  absurd (digit_of_mem among) (by decide)

variable {gens : Generations u}

theorem not_mem_name (among : entry ∈ gens.entries) (ascii : c.toNat < 128)
    (other : (c.isAlpha || c.isDigit || c = '_') = false) : c ∉ entry.1 := by
  intro inside
  have word := gens.named entry among c inside
  rw [Lex.Lexer.isXidContinue_ascii ascii, other] at word
  cases word

theorem hash_not_mem_name (among : entry ∈ gens.entries) : '#' ∉ entry.1 :=
  not_mem_name among (by decide) (by decide)

theorem rules_erase (gens : Generations u) : Erases '#' gens.rules := by
  intro rule among
  obtain ⟨entry, member, rfl⟩ := List.mem_map.mp among
  exact ⟨by simp [marker], hash_not_mem_name member⟩

theorem separator_not_mem_marker (among : entry ∈ gens.entries) (separator : c ∈ separators) :
    c ∉ marker entry := by
  have kinds := List.all_eq_true.mp (rfl : separators.all (fun c => decide (c.toNat < 128) &&
    !(c.isAlpha || c.isDigit || c = '_') && !c.isDigit && c != '#') = true) c separator
  obtain ⟨⟨⟨ascii, plain⟩, noDigit⟩, noHash⟩ := by
    simpa only [Bool.and_eq_true, Bool.not_eq_true', decide_eq_true_eq, bne_iff_ne] using kinds
  rw [marker, List.mem_append, List.mem_cons]
  rintro (inside | hash | inside)
  · exact not_mem_name among ascii plain inside
  · exact noHash hash
  · exact absurd ((digit_of_mem inside).symm.trans noDigit) (by decide)

theorem strip_separator (separator : c ∈ separators) (front back : Text) :
    gens.stripCurrentGenerations (front ++ c :: back) =
      gens.stripCurrentGenerations front ++ c :: gens.stripCurrentGenerations back := by
  rw [strip_eq, strip_eq, strip_eq]
  apply replaceAll_append_cons gens.rules_erase
  intro rule among
  obtain ⟨entry, member, rfl⟩ := List.mem_map.mp among
  exact separator_not_mem_marker member separator

theorem strip_nil : gens.stripCurrentGenerations [] = [] := by
  rw [strip_eq, replaceAll_absent]
  intro rule among found
  rw [List.infix_nil] at found
  exact absurd (gens.rules_erase rule among).1 (by simp [found])

theorem strip_fixed (gens : Generations u) (fixed : ∀ c ∈ text, c ∈ separators) (some_ : text ≠ [])
    (front back : Text) : gens.stripCurrentGenerations (front ++ (text ++ back)) =
      gens.stripCurrentGenerations front ++ (text ++ gens.stripCurrentGenerations back) := by
  induction text generalizing front with
  | nil => exact absurd rfl some_
  | cons c rest induction =>
    rw [List.forall_mem_cons] at fixed
    rw [List.cons_append, strip_separator fixed.1, List.cons_append]
    cases rest with
    | nil => rfl
    | cons d rest =>
      have later := induction fixed.2 (by simp) []
      rw [strip_nil, List.nil_append, List.nil_append] at later
      rw [later]

/-- The printed parts of a value are stripped on their own. -/
theorem strip_written (spaced : Spaced pieces) : gens.stripCurrentGenerations (written pieces) =
      pieces.flatMap fun piece => gens.stripCurrentGenerations piece.text := by
  induction spaced with
  | nil => exact strip_nil
  | name text | word text => simp [written, Piece.text]
  | @join front back text spaced spaced' some_ fixed induction induction' =>
    have alone := gens.strip_fixed fixed some_ [] []
    simp only [strip_nil, List.nil_append, List.append_nil] at alone
    rw [written, List.flatMap_append, List.flatMap_cons] at *
    rw [List.flatMap_append, List.flatMap_cons, ← induction, ← induction']
    have joined := gens.strip_fixed fixed some_ (written front) (written back)
    simpa [Piece.text, alone, written] using joined

/-! ## The names of structs -/

/-- No current marker occurs in the text. -/
def Clear (gens : Generations u) (text : Text) : Prop :=
  ∀ entry ∈ gens.entries, ¬ marker entry <:+: text

/-- The first current marker that occurs in the name of a struct, if one does, ends the name of a
current struct. -/
def Settles (gens : Generations u) (name : Text) : Prop :=
  ∀ entry, gens.entries.find? (fun entry => marker entry <:+: name) = some entry →
    (∃ own ∈ gens.entries, marker own = name) ∧ marker entry <:+ name

/-- A piece of a printed value that comes out as it is meant to be shown. -/
def Comes (gens : Generations u) : Piece → Prop
  | .fixed _ => True
  | .name name => gens.Settles name
  | .word text => gens.Clear text

theorem strip_eq_self : gens.stripCurrentGenerations text = text ↔ gens.Clear text := by
  rw [strip_eq, replaceAll_eq_self gens.rules_erase]
  constructor
  · intro absent entry among
    exact absent (marker entry, entry.1) (List.mem_map_of_mem among)
  · intro clear rule among
    obtain ⟨entry, member, rfl⟩ := List.mem_map.mp among
    exact clear entry member

/-- The name of a current struct loses the first current marker that occurs in it, and keeps the
digits that this one leaves over. -/
theorem strip_own (among : own ∈ gens.entries) :
    ∃ entry rest, gens.entries.find? (fun entry => marker entry <:+: marker own) = some entry ∧
      digits own.2 = digits entry.2 ++ rest ∧ entry.1 <:+ own.1 ∧
        gens.stripCurrentGenerations (marker own) = own.1 ++ rest := by
  have found : (gens.entries.find? fun entry => marker entry <:+: marker own).isSome := by
    rw [List.find?_isSome]
    exact ⟨own, among, by simp⟩
  obtain ⟨entry, found⟩ := Option.isSome_iff_exists.mp found
  obtain ⟨occurs, before, after, split, missed⟩ := List.find?_eq_some_iff_append.mp found
  have member : entry ∈ gens.entries := List.mem_of_find?_eq_some found
  obtain ⟨front, rest, same⟩ := of_decide_eq_true occurs
  have parts : own.1 ++ '#' :: digits own.2 =
      (front ++ entry.1) ++ '#' :: (digits entry.2 ++ rest) := by
    rw [marker, marker] at same
    simp [← same]
  obtain ⟨name, -, number⟩ := (List.append_cons_inj_of_notMem (hash_not_mem_name among)
    (hash_not_mem_digits own.2)).mp parts
  have once : replace (marker entry) entry.1 (marker own) = own.1 ++ rest := by
    have replaced := @replace_once _ _ '#' entry.1 front entry.1 (digits entry.2) rest
      (name ▸ hash_not_mem_name among) (number ▸ hash_not_mem_digits own.2)
    rw [← same, List.append_assoc, name, List.append_assoc]
    exact replaced
  refine ⟨entry, rest, found, number, ⟨front, name.symm⟩, ?_⟩
  rw [strip_eq, ← once]
  have rulesSplit : gens.rules = (before.map fun entry => (marker entry, entry.1)) ++
      (marker entry, entry.1) :: after.map fun entry => (marker entry, entry.1) := by
    rw [rules, split, List.map_append, List.map_cons]
  apply replaceAll_first rulesSplit gens.rules_erase
  · intro rule among found
    obtain ⟨other, member', rfl⟩ := List.mem_map.mp among
    have absent := missed other member'
    simp [found] at absent
  · rw [once, List.mem_append, not_or]
    refine ⟨hash_not_mem_name among, fun inside => hash_not_mem_digits own.2 ?_⟩
    rw [number]
    exact List.mem_append_right _ inside

theorem surface_own (among : own ∈ gens.entries) : gens.surface (marker own) = own.1 := by
  have found : (gens.entries.find? fun entry => marker entry = marker own).isSome := by
    rw [List.find?_isSome]
    exact ⟨own, among, by simp⟩
  obtain ⟨entry, found⟩ := Option.isSome_iff_exists.mp found
  have same : marker entry = marker own := by simpa using List.find?_some found
  have member := List.mem_of_find?_eq_some found
  rw [surface, found]
  exact ((List.append_cons_inj_of_notMem (hash_not_mem_name member)
    (hash_not_mem_digits entry.2)).mp same).1

theorem surface_other {name : Text} (other : ∀ own ∈ gens.entries, marker own ≠ name) :
    gens.surface name = name := by
  have missed : (gens.entries.find? fun entry => marker entry = name) = none := by
    rw [List.find?_eq_none]
    exact fun own among same => other own among (of_decide_eq_true same)
  rw [surface, missed]

theorem surface_cases (gens : Generations u) (name : Text) :
    (∃ own ∈ gens.entries, marker own = name) ∨ gens.surface name = name := by
  by_cases current : ∃ own ∈ gens.entries, marker own = name
  · exact .inl current
  · exact .inr (surface_other fun own among same => current ⟨own, among, same⟩)

/-- What follows a current marker within a current name is empty where the marker ends it. -/
theorem marker_suffix_iff {rest : Text} (among : own ∈ gens.entries)
    (digit : digits own.2 = digits entry.2 ++ rest) (name : entry.1 <:+ own.1) :
    marker entry <:+ marker own ↔ rest = [] := by
  constructor
  · rintro ⟨front, same⟩
    have parts : own.1 ++ '#' :: digits own.2 = (front ++ entry.1) ++ '#' :: digits entry.2 := by
      rw [List.append_assoc]
      exact same.symm
    have ends := ((List.append_cons_inj_of_notMem (hash_not_mem_name among)
      (hash_not_mem_digits own.2)).mp parts).2.2
    simpa [ends] using digit
  · rintro rfl
    obtain ⟨front, whole⟩ := name
    refine ⟨front, ?_⟩
    rw [marker, marker, digit, ← whole, List.append_nil, List.append_assoc]

theorem strip_name_iff (name : Text) :
    gens.stripCurrentGenerations name = gens.surface name ↔ gens.Settles name := by
  by_cases current : ∃ own ∈ gens.entries, marker own = name
  · obtain ⟨own, among, rfl⟩ := current
    obtain ⟨entry, rest, found, digit, inner, stripped⟩ := strip_own among
    rw [stripped, surface_own among, List.append_right_eq_self]
    constructor
    · intro empty entry' found'
      cases Option.eq_some_unique found found'
      exact ⟨⟨own, among, rfl⟩, (marker_suffix_iff among digit inner).mpr empty⟩
    · intro settles
      exact (marker_suffix_iff among digit inner).mp (settles entry found).2
  · have other : ∀ own ∈ gens.entries, marker own ≠ name := fun own among same =>
      current ⟨own, among, same⟩
    rw [surface_other other, strip_eq_self]
    constructor
    · intro clear entry found
      have occurs : marker entry <:+: name := by simpa using List.find?_some found
      exact absurd occurs (clear entry (List.mem_of_find?_eq_some found))
    · intro settles entry among occurs
      have found : (gens.entries.find? fun entry => marker entry <:+: name).isSome := by
        rw [List.find?_isSome]
        exact ⟨entry, among, decide_eq_true occurs⟩
      obtain ⟨first, found⟩ := Option.isSome_iff_exists.mp found
      exact current (settles first found).1

/-! ## Whole values -/

theorem count_additive : Cuts.Additive (List.count '#') := ⟨rfl, fun _ _ => List.count_append⟩

/-- Stripping leaves no more hash signs in a part than it is meant to. -/
theorem count_strip_le (piece : Piece) :
    (gens.stripCurrentGenerations piece.text).count '#' ≤ (gens.shown piece).count '#' := by
  have fewer (text : Text) :
      (gens.stripCurrentGenerations text).count '#' ≤ text.count '#' := by
    rw [strip_eq]
    exact (count_replaceAll gens.rules_erase text).1
  cases piece with
  | fixed text | word text => exact fewer text
  | name name =>
    rcases gens.surface_cases name with ⟨own, among, rfl⟩ | other
    · obtain ⟨entry, rest, -, digit, -, stripped⟩ := strip_own among
      have none_ : '#' ∉ own.1 ++ rest := by
        rw [List.mem_append, not_or]
        refine ⟨hash_not_mem_name among, fun inside => hash_not_mem_digits own.2 ?_⟩
        rw [digit]
        exact List.mem_append_right _ inside
      rw [Piece.text, stripped, List.count_eq_zero.mpr none_]
      exact Nat.zero_le _
    · rw [shown, other]
      exact fewer name

/-- Where the hash signs agree, a part is stripped to what it is meant to be and maybe digits. -/
theorem shown_begins {piece : Piece}
    (same : (gens.stripCurrentGenerations piece.text).count '#' = (gens.shown piece).count '#') :
    gens.shown piece <+: gens.stripCurrentGenerations piece.text := by
  have kept {text : Text}
      (same : (gens.stripCurrentGenerations text).count '#' = text.count '#') :
      text <+: gens.stripCurrentGenerations text := by
    rw [strip_eq] at same ⊢
    rw [replaceAll_of_count gens.rules_erase same]
  cases piece with
  | fixed text | word text => exact kept same
  | name name =>
    rcases gens.surface_cases name with ⟨own, among, rfl⟩ | other
    · obtain ⟨entry, rest, -, -, -, stripped⟩ := strip_own among
      rw [Piece.text, stripped, shown, surface_own among]
      exact List.prefix_append _ _
    · rw [shown, other] at same ⊢
      exact kept same

theorem clear_fixed (spaced : Spaced pieces) (among : .fixed text ∈ pieces) : gens.Clear text := by
  have fixed : ∀ c ∈ text, c ∈ separators := by
    induction spaced with
    | nil => cases among
    | name | word => simp at among
    | join _ _ _ fixed induction induction' =>
      rcases List.mem_append.mp among with among | among
      · exact induction among
      · rcases List.mem_cons.mp among with same | among
        · cases same
          exact fixed
        · exact induction' among
  intro entry _ occurs
  have hash : '#' ∈ separators := fixed '#' (occurs.subset (by simp [marker]))
  exact absurd hash (by decide)

theorem strip_piece_iff (spaced : Spaced pieces) {piece : Piece} (among : piece ∈ pieces) :
    gens.stripCurrentGenerations piece.text = gens.shown piece ↔ gens.Comes piece := by
  cases piece with
  | fixed text => exact iff_of_true (strip_eq_self.mpr (clear_fixed spaced among)) trivial
  | name name => exact strip_name_iff name
  | word text => exact strip_eq_self

/-- A session shows a value as it means to exactly when no current marker occurs in a part of its
text other than the name of a struct, none occurs in the name of a struct that is not current, and
the first that occurs in the name of a current struct is at its end. -/
theorem rendersCurrent_iff (forms : Forms) (gens : Generations u) (value : Value) :
    RendersCurrent forms gens value ↔ ∀ piece ∈ display forms value, gens.Comes piece := by
  have spaced := display_spaced forms value
  rw [RendersCurrent, renderValue, strip_written spaced]
  constructor
  · intro same piece among
    have counts := count_additive.flatMap_eq (fun piece _ => count_strip_le piece)
      (congrArg (List.count '#') same).ge
    have lengths := Cuts.length_additive.flatMap_eq
      (fun piece among => (shown_begins (counts piece among)).length_le)
      (congrArg List.length same).le
    have stripped := (shown_begins (counts piece among)).eq_of_length (lengths piece among)
    exact (strip_piece_iff spaced among).mp stripped.symm
  · intro comes
    exact List.flatMap_congr fun piece among =>
      (strip_piece_iff spaced among).mpr (comes piece among)

/-- A session that defines `Point` once and `MyPoint` twice. -/
def redefined : Generations Unicode.ascii :=
  let named {name : Text} := List.all_eq_true (l := name) (p := Unicode.ascii.isXidContinue)
  ((none_.install "Point".toList (named.mp rfl)).install "MyPoint".toList (named.mp rfl)).install
    "MyPoint".toList (named.mp rfl)

/-- A struct of the first `MyPoint` is shown without its marker. -/
theorem not_rendersCurrent : ¬ ∀ (u : Unicode) (forms : Forms) (gens : Generations u)
    (value : Value), RendersCurrent forms gens value := by
  intro always
  have shown := always Unicode.ascii ⟨digits, fun c => [c]⟩ redefined
    (.struct "MyPoint#1".toList [("x".toList, Slot.live (.bool true))] none)
  rw [RendersCurrent] at shown
  revert shown
  decide

end Generations

end WolfInterp.Repl
