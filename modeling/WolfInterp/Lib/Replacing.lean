import Mathlib.Data.List.Infix

/-!
# Replacing a pattern in a text

The occurrences of a pattern are replaced from left to right, each search going on behind the last
one found. An element outside the pattern separates the text: both sides are replaced on their own.
Where every pattern has a mark that its replacement lacks, the marks of a text count what is left
to replace.
-/

namespace Replacing

variable {α : Type*} [DecidableEq α]

/-- Replace the occurrences of a pattern behind the first `skip` elements, which are dropped. -/
def replaceFrom (pattern by_ : List α) : Nat → List α → List α
  | _, [] => []
  | skip + 1, _ :: rest => replaceFrom pattern by_ skip rest
  | 0, c :: rest =>
    if pattern <+: c :: rest then by_ ++ replaceFrom pattern by_ (pattern.length - 1) rest
    else c :: replaceFrom pattern by_ 0 rest

def replace (pattern by_ text : List α) : List α := replaceFrom pattern by_ 0 text

section One

variable {pattern by_ : List α}

theorem replaceFrom_eq (skip : Nat) (text : List α) :
    replaceFrom pattern by_ skip text = replace pattern by_ (text.drop skip) := by
  induction text generalizing skip with
  | nil => cases skip <;> rfl
  | cons c rest induction =>
    cases skip with
    | zero => rfl
    | succ skip => exact induction skip

@[simp]
theorem replace_nil : replace pattern by_ [] = [] := rfl

theorem replace_hit (some_ : pattern ≠ []) (rest : List α) :
    replace pattern by_ (pattern ++ rest) = by_ ++ replace pattern by_ rest := by
  obtain ⟨c, tail, rfl⟩ := List.exists_cons_of_ne_nil some_
  have found : c :: tail <+: c :: (tail ++ rest) := ⟨rest, rfl⟩
  rw [List.cons_append, replace, replaceFrom, if_pos found, replaceFrom_eq]
  simp

theorem replace_miss {c : α} {rest : List α} (missed : ¬ pattern <+: c :: rest) :
    replace pattern by_ (c :: rest) = c :: replace pattern by_ rest := if_neg missed

/-- A text begins with the pattern, or its first element stays. -/
theorem replace_induction {motive : List α → Prop} (some_ : pattern ≠ []) (nil : motive [])
    (hit : ∀ rest, motive rest → motive (pattern ++ rest))
    (miss : ∀ c rest, ¬ pattern <+: c :: rest → motive rest → motive (c :: rest))
    (text : List α) : motive text := by
  induction size : text.length using Nat.strong_induction_on generalizing text with
  | _ size induction =>
    by_cases found : pattern <+: text
    · obtain ⟨rest, rfl⟩ := found
      have shorter := List.length_pos_iff.mpr some_
      rw [List.length_append] at size
      exact hit rest (induction rest.length (by omega) rest rfl)
    · cases text with
      | nil => exact nil
      | cons c rest =>
        rw [List.length_cons] at size
        exact miss c rest found (induction rest.length (by omega) rest rfl)

omit [DecidableEq α] in
theorem prefix_of_append_cons {c : α} {back : List α} (front : List α) (apart : c ∉ pattern)
    (found : pattern <+: front ++ c :: back) : pattern <+: front := by
  rcases List.prefix_or_prefix_of_prefix found (List.prefix_append front (c :: back)) with
    within | ⟨beyond, rfl⟩
  · exact within
  · rw [List.prefix_append_right_inj] at found
    cases beyond with
    | nil => simp
    | cons first beyond =>
      obtain ⟨rfl, -⟩ := List.cons_prefix_cons.mp found
      simp at apart

/-- An element outside the pattern separates what is replaced before it from what is after. -/
theorem replace_append_cons {c : α} (some_ : pattern ≠ []) (apart : c ∉ pattern)
    (front back : List α) : replace pattern by_ (front ++ c :: back) =
      replace pattern by_ front ++ c :: replace pattern by_ back := by
  induction front using replace_induction some_ with
  | nil =>
    rw [replace_nil, List.nil_append, List.nil_append]
    apply replace_miss
    intro found
    exact some_ (List.prefix_nil.mp (prefix_of_append_cons [] apart found))
  | hit rest induction =>
    rw [List.append_assoc, replace_hit some_, replace_hit some_, induction, List.append_assoc]
  | miss first rest missed induction =>
    have still : ¬ pattern <+: first :: (rest ++ c :: back) := fun found =>
      missed (prefix_of_append_cons (first :: rest) apart found)
    rw [List.cons_append, replace_miss still, replace_miss missed, induction, List.cons_append]

theorem replace_absent {text : List α} (absent : ¬ pattern <:+: text) :
    replace pattern by_ text = text := by
  induction text with
  | nil => rfl
  | cons c rest induction =>
    rw [List.infix_cons_iff, not_or] at absent
    rw [replace_miss absent.1, induction absent.2]

end One

/-! ## Marks -/

section Marks

variable {mark : α} {pattern by_ : List α}

/-- No replacement adds a mark, and one of an occurrence takes a mark away. -/
theorem count_replace (marked : mark ∈ pattern) (plain : mark ∉ by_) (text : List α) :
    (replace pattern by_ text).count mark ≤ text.count mark ∧
      (pattern <:+: text → (replace pattern by_ text).count mark < text.count mark) := by
  have some_ : pattern ≠ [] := List.ne_nil_of_mem marked
  induction text using replace_induction some_ with
  | nil => exact ⟨le_refl _, fun found => absurd (List.infix_nil.mp found) some_⟩
  | hit rest induction =>
    have fewer : (replace pattern by_ (pattern ++ rest)).count mark <
        (pattern ++ rest).count mark := by
      have positive := List.count_pos_iff.mpr marked
      have none_ := List.count_eq_zero.mpr plain
      rw [replace_hit some_, List.count_append, List.count_append]
      omega
    exact ⟨fewer.le, fun _ => fewer⟩
  | miss c rest missed induction =>
    rw [replace_miss missed, List.count_cons, List.count_cons]
    refine ⟨Nat.add_le_add_right induction.1 _, fun found => ?_⟩
    have later := (List.infix_cons_iff.mp found).resolve_left missed
    exact Nat.add_lt_add_right (induction.2 later) _

/-- A pattern whose mark is the only one of the text is replaced there and nowhere else. -/
theorem replace_once {front head tail rest : List α} (before : mark ∉ front ++ head)
    (after : mark ∉ tail ++ rest) :
    replace (head ++ mark :: tail) by_ (front ++ (head ++ mark :: tail ++ rest)) =
      front ++ (by_ ++ rest) := by
  have some_ : head ++ mark :: tail ≠ [] := by simp
  induction front with
  | nil =>
    have absent : ¬ head ++ mark :: tail <:+: rest := fun found =>
      after (List.mem_append_right _ (found.subset (by simp)))
    rw [List.nil_append, List.nil_append, replace_hit some_, replace_absent absent]
  | cons c front induction =>
    have before' : mark ∉ front ++ head := fun among => before (List.mem_cons_of_mem _ among)
    have missed : ¬ head ++ mark :: tail <+: c :: (front ++ (head ++ mark :: tail ++ rest)) := by
      rintro ⟨behind, same⟩
      -- The mark of the occurrence would be the mark of the text, which stands further on.
      have split : head ++ mark :: (tail ++ behind) =
          (c :: (front ++ head)) ++ mark :: (tail ++ rest) := by
        simpa using same
      have only := (List.append_cons_inj_of_notMem before after).mp split.symm
      have length := congrArg List.length only.1
      simp only [List.length_cons, List.length_append] at length
      omega
    rw [List.cons_append, replace_miss missed, induction before', List.cons_append]

end Marks

/-! ## Splitting and counting -/

section Splitting

/-- Read a text from left to right: `hit` at an occurrence of the pattern, behind which the reading
goes on, and `miss` at any other element. The first `skip` elements are dropped. -/
def scanFrom {β : Type*} (pattern : List α) (nil : β) (hit : β → β) (miss : α → β → β) :
    Nat → List α → β
  | _, [] => nil
  | skip + 1, _ :: rest => scanFrom pattern nil hit miss skip rest
  | 0, c :: rest =>
    if pattern <+: c :: rest then hit (scanFrom pattern nil hit miss (pattern.length - 1) rest)
    else miss c (scanFrom pattern nil hit miss 0 rest)

/-- The pieces of a text between the occurrences of a pattern. -/
def split (pattern text : List α) : List (List α) :=
  scanFrom pattern [[]] ([] :: ·) (fun c => List.modifyHead (c :: ·)) 0 text

/-- How many occurrences of a pattern do not overlap. -/
def occurrences (pattern text : List α) : Nat :=
  scanFrom pattern 0 (· + 1) (fun _ count => count) 0 text

variable {β : Type*} {pattern : List α} {nil : β} {hit : β → β} {miss : α → β → β}

theorem scanFrom_eq (skip : Nat) (text : List α) : scanFrom pattern nil hit miss skip text =
    scanFrom pattern nil hit miss 0 (text.drop skip) := by
  induction text generalizing skip with
  | nil => cases skip <;> rfl
  | cons c rest induction =>
    cases skip with
    | zero => rfl
    | succ skip => exact induction skip

theorem scan_hit (some_ : pattern ≠ []) (rest : List α) :
    scanFrom pattern nil hit miss 0 (pattern ++ rest) =
      hit (scanFrom pattern nil hit miss 0 rest) := by
  obtain ⟨c, tail, rfl⟩ := List.exists_cons_of_ne_nil some_
  have found : c :: tail <+: c :: (tail ++ rest) := ⟨rest, rfl⟩
  rw [List.cons_append, scanFrom, if_pos found, scanFrom_eq]
  simp

theorem scan_miss {c : α} {rest : List α} (missed : ¬ pattern <+: c :: rest) :
    scanFrom pattern nil hit miss 0 (c :: rest) = miss c (scanFrom pattern nil hit miss 0 rest) :=
  if_neg missed

section

variable (some_ : pattern ≠ [])
include some_

theorem length_split (text : List α) :
    (split pattern text).length = occurrences pattern text + 1 := by
  induction text using replace_induction some_ with
  | nil => rfl
  | hit rest induction =>
    rw [split, occurrences, scan_hit some_, scan_hit some_, List.length_cons]
    exact congrArg (· + 1) induction
  | miss c rest missed induction =>
    rw [split, occurrences, scan_miss missed, scan_miss missed, List.length_modifyHead]
    exact induction

theorem split_ne_nil (text : List α) : split pattern text ≠ [] := by
  apply List.ne_nil_of_length_pos
  rw [length_split some_]
  exact Nat.succ_pos _

/-- To replace a pattern is to put the replacement between the pieces. -/
theorem intercalate_split (by_ text : List α) :
    by_.intercalate (split pattern text) = replace pattern by_ text := by
  induction text using replace_induction some_ with
  | nil => rfl
  | hit rest induction =>
    obtain ⟨piece, pieces, pieced⟩ := List.exists_cons_of_ne_nil (split_ne_nil some_ rest)
    rw [replace_hit some_, ← induction, split, scan_hit some_, ← split, pieced,
      List.intercalate_cons_cons, List.nil_append]
  | miss c rest missed induction =>
    obtain ⟨piece, pieces, pieced⟩ := List.exists_cons_of_ne_nil (split_ne_nil some_ rest)
    rw [replace_miss missed, ← induction, split, scan_miss missed, ← split, pieced]
    cases pieces <;> simp [List.intercalate_cons_cons]

theorem replace_self (text : List α) :
    replace pattern pattern text = text := by
  induction text using replace_induction some_ with
  | nil => rfl
  | hit rest induction => rw [replace_hit some_, induction]
  | miss c rest missed induction => rw [replace_miss missed, induction]

theorem occurrences_pos (text : List α) :
    0 < occurrences pattern text ↔ pattern <:+: text := by
  induction text using replace_induction some_ with
  | nil => simp [occurrences, scanFrom, some_]
  | hit rest =>
    rw [occurrences, scan_hit some_]
    exact iff_of_true (Nat.succ_pos _) (List.prefix_append pattern rest).isInfix
  | miss c rest missed induction =>
    rw [occurrences, scan_miss missed, List.infix_cons_iff, or_iff_right missed]
    exact induction

end

end Splitting

/-! ## Several replacements -/

/-- Every rule in turn over the whole text. -/
def replaceAll (rules : List (List α × List α)) (text : List α) : List α :=
  rules.foldl (fun text rule => replace rule.1 rule.2 text) text

theorem replaceAll_cons (rule : List α × List α) (rules : List (List α × List α)) (text : List α) :
    replaceAll (rule :: rules) text = replaceAll rules (replace rule.1 rule.2 text) := rfl

theorem replaceAll_append (before after : List (List α × List α)) (text : List α) :
    replaceAll (before ++ after) text = replaceAll after (replaceAll before text) :=
  List.foldl_append

theorem replaceAll_absent {rules : List (List α × List α)} {text : List α}
    (absent : ∀ rule ∈ rules, ¬ rule.1 <:+: text) : replaceAll rules text = text := by
  induction rules with
  | nil => rfl
  | cons rule rules induction =>
    rw [replaceAll_cons, replace_absent (absent rule List.mem_cons_self)]
    exact induction fun other among => absent other (List.mem_cons_of_mem _ among)

/-- Every pattern has a mark that its replacement lacks. -/
def Erases (mark : α) (rules : List (List α × List α)) : Prop :=
  ∀ rule ∈ rules, mark ∈ rule.1 ∧ mark ∉ rule.2

section Rules

variable {mark : α} {rules : List (List α × List α)}

section

variable {text : List α} (erases : Erases mark rules)
include erases

theorem replaceAll_append_cons {c : α} (apart : ∀ rule ∈ rules, c ∉ rule.1) (front back : List α) :
    replaceAll rules (front ++ c :: back) =
      replaceAll rules front ++ c :: replaceAll rules back := by
  induction rules generalizing front back with
  | nil => rfl
  | cons rule rules induction =>
    have some_ : rule.1 ≠ [] := List.ne_nil_of_mem (erases rule List.mem_cons_self).1
    rw [replaceAll_cons, replace_append_cons some_ (apart rule List.mem_cons_self)]
    exact induction (fun other among => erases other (List.mem_cons_of_mem _ among))
      (fun other among => apart other (List.mem_cons_of_mem _ among)) _ _

/-- No rule adds a mark, and a rule whose pattern occurs takes one away. -/
theorem count_replaceAll (text : List α) :
    (replaceAll rules text).count mark ≤ text.count mark ∧ (∀ rule ∈ rules, rule.1 <:+: text →
        (replaceAll rules text).count mark < text.count mark) := by
  induction rules generalizing text with
  | nil => exact ⟨le_refl _, nofun⟩
  | cons rule rules induction =>
    have first := count_replace (erases rule List.mem_cons_self).1
      (erases rule List.mem_cons_self).2 text
    have later := induction (fun other among => erases other (List.mem_cons_of_mem _ among))
      (replace rule.1 rule.2 text)
    rw [replaceAll_cons]
    refine ⟨later.1.trans first.1, fun other among found => ?_⟩
    by_cases occurs : rule.1 <:+: text
    · exact later.1.trans_lt (first.2 occurs)
    · rw [replace_absent occurs] at later ⊢
      rcases List.mem_cons.mp among with rfl | among
      · exact absurd found occurs
      · exact later.2 other among found

theorem replaceAll_of_count (same : (replaceAll rules text).count mark = text.count mark) :
    replaceAll rules text = text :=
  replaceAll_absent fun rule among found =>
    absurd same ((count_replaceAll erases text).2 rule among found).ne

/-- The rules leave a text alone exactly when no pattern occurs in it. -/
theorem replaceAll_eq_self :
    replaceAll rules text = text ↔ ∀ rule ∈ rules, ¬ rule.1 <:+: text := by
  refine ⟨fun same rule among found => ?_, replaceAll_absent⟩
  have fewer := (count_replaceAll erases text).2 rule among found
  rw [same] at fewer
  exact lt_irrefl _ fewer

end

/-- Where the first pattern that occurs holds the only mark, one rule acts on the text. -/
theorem replaceAll_first {before after : List (List α × List α)} {rule : List α × List α}
    {text : List α} (split : rules = before ++ rule :: after) (erases : Erases mark rules)
    (absent : ∀ other ∈ before, ¬ other.1 <:+: text)
    (unmarked : mark ∉ replace rule.1 rule.2 text) :
    replaceAll rules text = replace rule.1 rule.2 text := by
  rw [split, replaceAll_append, replaceAll_absent absent, replaceAll_cons]
  apply replaceAll_absent
  intro other among found
  rw [split] at erases
  exact unmarked (found.subset (erases other (by simp [among])).1)

end Rules

end Replacing
