import WolfInterp.Eval.Spills
import WolfInterp.Lib.Replacing

/-!
# The searching methods of `str`

`contains`, `find`, `rfind`, `count`, `split` and `replace` ask the same question of a text, each
by a search of its own. The last three guard an empty needle, which matches nothing for them; for
the first three it matches everywhere.
-/

namespace WolfInterp.Eval

open WolfInterp.Lex (Text bytes)
open Replacing

/-! ## The searches -/

/-- `str::find`: the byte offset of the leftmost match. -/
def find (needle : Text) : Text → Option Nat
  | [] => if needle = [] then some 0 else none
  | c :: rest =>
    if needle <+: c :: rest then some 0 else (find needle rest).map (c.utf8Size + ·)

/-- `str::rfind`: the byte offset of the rightmost match. -/
def rfind (needle : Text) : Text → Option Nat
  | [] => if needle = [] then some 0 else none
  | c :: rest =>
    match rfind needle rest with
    | some offset => some (c.utf8Size + offset)
    | none => if needle <+: c :: rest then some 0 else none

/-- `str::contains`. -/
def contains (needle text : Text) : Bool := needle <:+: text

/-! ## The methods -/

inductive Search where
  | contains | find | rfind | count | split | replace
  deriving DecidableEq

/-- An offset, or the `none` row. -/
def offsetOrNone : Option Nat → Value
  | some offset => .int offset .int
  | none => noneRow

/-- Charge an allocation to the ambient region. -/
def allocate (span : Span) (bytes : Nat) : M RegionId := do
  let machine ← M.get
  match machine.store.charge bytes with
  | .ok (id, store) => do
    M.modify fun machine => { machine with store }
    pure id
  | .error breach => capBreach breach span

/-- A fresh `str`, charged to the ambient region and homed there. -/
def producedStr (text : Text) (span : Span) : M Value := do
  let home ← allocate span
    (Ledger.roundToGrain (Ledger.saturatingAdd Ledger.headerBytes (bytes text)))
  pure (.str text (some home))

/-- A list of views into the receiver. -/
def views (home : Option RegionId) (pieces : List Text) : M Value := do
  let machine ← M.get
  pure (.list (pieces.map fun piece => Slot.live (.str piece home))
    (Ledger.slotCapacity pieces.length) none (some machine.store.current))

/-- A searching method of a `str`. -/
def search (which : Search) (text : Text) (home : Option RegionId) (args : List Value)
    (span : Span) : M Value :=
  match which, args with
  | .contains, .str needle _ :: _ => pure (.bool (contains needle text))
  | .contains, _ => pure (.bool false)
  | .find, .str needle _ :: _ => pure (offsetOrNone (find needle text))
  | .rfind, .str needle _ :: _ => pure (offsetOrNone (rfind needle text))
  | .count, .str needle _ :: _ =>
    pure (.int (if needle = [] then 0 else occurrences needle text) .int)
  | .split, .str sep _ :: _ => views home (if sep = [] then [text] else split sep text)
  | .replace, .str from_ _ :: .str to_ _ :: _ =>
    producedStr (if from_ = [] then text else replace from_ to_ text) span
  | _, _ => M.unsupported

/-! ## One relation -/

theorem find_isSome (needle text : Text) : (find needle text).isSome ↔ needle <:+: text := by
  induction text with
  | nil => by_cases none : needle = [] <;> simp [find, none]
  | cons c rest induction =>
    rw [find, List.infix_cons_iff, ← induction]
    split
    · rename_i found
      exact iff_of_true rfl (.inl found)
    · rename_i missed
      rw [Option.isSome_map, or_iff_right missed]

theorem rfind_isSome (needle text : Text) : (rfind needle text).isSome ↔ needle <:+: text := by
  induction text with
  | nil => by_cases none : needle = [] <;> simp [rfind, none]
  | cons c rest induction =>
    rw [rfind, List.infix_cons_iff, ← induction]
    cases rfind needle rest with
    | some offset => exact iff_of_true rfl (.inr rfl)
    | none =>
      by_cases found : needle <+: c :: rest <;> simp [found]

/-- The first piece ends where the needle is found. -/
theorem bytes_of_find {needle text : Text} (some_ : needle ≠ []) {offset : Nat}
    (found : find needle text = some offset) :
    ∃ first rest, split needle text = first :: rest ∧ bytes first = offset := by
  induction text generalizing offset with
  | nil => simp [find, some_] at found
  | cons c rest induction =>
    rw [find] at found
    split at found
    · rename_i matched
      cases found
      exact ⟨[], _, if_pos matched, rfl⟩
    · rename_i missed
      obtain ⟨later, there, rfl⟩ := Option.map_eq_some_iff.mp found
      obtain ⟨first, others, pieced, rfl⟩ := induction there
      refine ⟨c :: first, others, ?_, List.sum_cons⟩
      change scanFrom needle [[]] _ _ 0 (c :: rest) = _
      rw [scan_miss missed]
      exact congrArg (List.modifyHead (c :: ·)) pieced

/-- The six methods answer by one matching relation: `contains`, `find`, `rfind` and `count` agree
whether there is a match, `split` cuts the text at the matches that `count` counts, the first where
`find` finds one, and `replace` puts its text for them. -/
def OneRelation (machine : Machine) (text : Text) (home : Option RegionId) (needle : Text)
    (from_ : Option RegionId) (span : Span) : Prop :=
  ∃ (hit : Bool) (first last : Option Nat) (count : Nat) (pieces : List Text),
    search .contains text home [.str needle from_] span machine = (.ok (.bool hit), machine) ∧
    search .find text home [.str needle from_] span machine =
      (.ok (offsetOrNone first), machine) ∧
    search .rfind text home [.str needle from_] span machine =
      (.ok (offsetOrNone last), machine) ∧
    search .count text home [.str needle from_] span machine = (.ok (.int count .int), machine) ∧
    search .split text home [.str needle from_] span machine = views home pieces machine ∧
    (∀ to_ region, search .replace text home [.str needle from_, .str to_ region] span machine =
      producedStr (to_.intercalate pieces) span machine) ∧
    (hit = true ↔ first.isSome) ∧ (hit = true ↔ last.isSome) ∧ (hit = true ↔ 0 < count) ∧
    pieces.length = count + 1 ∧ needle.intercalate pieces = text ∧
    ∀ offset ∈ first, ∃ piece ∈ pieces.head?, bytes piece = offset

/-- The searching methods answer by one relation exactly for the needles that are not empty. -/
theorem searching_agrees (machine : Machine) (text : Text) (home : Option RegionId) (needle : Text)
    (from_ : Option RegionId) (span : Span) :
    OneRelation machine text home needle from_ span ↔ needle ≠ [] := by
  constructor
  · rintro ⟨hit, _, _, count, _, contained, _, _, counted, _, _, _, _, agree, _⟩ rfl
    have found : hit = true := by
      cases contained
      exact decide_eq_true List.nil_infix
    have none : (0 : Int) = count := by
      rw [search, if_pos rfl] at counted
      cases counted
      rfl
    have positive := agree.mp found
    omega
  · intro some_
    refine ⟨contains needle text, find needle text, rfind needle text, occurrences needle text,
      split needle text, rfl, rfl, rfl, ?_, ?_, fun to_ region => ?_, ?_, ?_, ?_,
      length_split some_ text, ?_, fun offset found => ?_⟩
    · rw [search, if_neg some_]
      rfl
    · rw [search, if_neg some_]
    · rw [search, if_neg some_, intercalate_split some_]
    · rw [find_isSome, contains, decide_eq_true_iff]
    · rw [rfind_isSome, contains, decide_eq_true_iff]
    · rw [occurrences_pos some_, contains, decide_eq_true_iff]
    · rw [intercalate_split some_, replace_self some_]
    · obtain ⟨first, rest, pieced, size⟩ := bytes_of_find some_ found
      exact ⟨first, by rw [pieced]; rfl, size⟩

/-- An empty needle is contained in every text and occurs in none. -/
theorem empty_needle_disagrees : ¬ ∀ (machine : Machine) (text : Text) (home : Option RegionId)
    (needle : Text) (from_ : Option RegionId) (span : Span),
    OneRelation machine text home needle from_ span := by
  intro claimed
  obtain ⟨hit, _, _, count, _, contained, _, _, counted, _, _, _, _, agree, _⟩ :=
    claimed { store := .new } "abc".toList none [] none ⟨0, 0⟩
  have found : hit = true := by
    cases contained
    rfl
  have none : (0 : Int) = count := by
    cases counted
    rfl
  have positive := agree.mp found
  omega

end WolfInterp.Eval
