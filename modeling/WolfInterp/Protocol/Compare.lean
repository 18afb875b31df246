import Mathlib.Data.Prod.Lex
import Mathlib.Data.String.Basic
import WolfInterp.Differ.Record

/-!
# The published comparison

Two records of one file are compared verdict by verdict. Against the protocol's clauses the
comparison is strict where rejections at different rungs agree, blind to what a trapping program
wrote, and counts repeated warnings.
-/

namespace WolfInterp.Protocol.Compare

open Differ (Diagnostic ObservationRecord Phase Verdict)

/-! ## The comparison -/

/-- A warning: its code and its span. -/
abbrev Warning := String ×ₗ (Nat ×ₗ Nat)

/-- An observation record with its warnings. -/
structure Record extends ObservationRecord where
  warnings : Option (List Warning)

inductive Class where
  | soundnessCandidate | verdictMismatch | spanOrCodeMismatch | stdoutMismatch
  deriving DecidableEq

/-- What a side said, as far as the report renders it. -/
inductive Side where
  | record (verdict : Verdict) (phase : Phase)
  | diagnostic (first : Option Diagnostic)
  | stdout (sha256 : Option String)
  | warnings (sorted : List Warning)

structure Divergence where
  file : String
  cls : Class
  a : Side
  b : Side
  detail : String

/-- The divergence with its sides swapped, as a finding about another file name. -/
def Divergence.swap (file : String) (divergence : Divergence) : Divergence :=
  { divergence with file, a := divergence.b, b := divergence.a }

namespace Record

variable (record : Record)

def render : Side := .record record.verdict record.phaseReached

/-- The file a diagnostic names, the entry as `none`. -/
def fileOf (diagnostic : Diagnostic) : Option String :=
  match diagnostic.file with
  | none | some 0 => none
  | some index => some ((record.files.bind (·[index]?)).getD s!"<file index {index}>")

/-- What two first errors are compared by. -/
def firstError : Option (String × (Nat × Nat) × Option String) :=
  record.firstRejection.map fun first => (first.code, first.span, record.fileOf first)

/-- A rejection at one of the rungs through `mem`. -/
def rejectsEarly : Bool :=
  (record.verdict matches .fail _) && record.phaseReached.depth ≤ Phase.mem.depth

end Record

/-- `unsupported` on either side, and `pass` against `pass` or a dynamic verdict. -/
def excused : Verdict → Verdict → Bool
  | .unsupported, _ | _, .unsupported | .pass, .pass => true
  | .pass, other | other, .pass => other.ran
  | _, _ => false

/-- Both first errors are there and agree. -/
def firstErrorsAgree (a b : Record) : Bool :=
  a.firstError.isSome && a.firstError = b.firstError

def sorted (warnings : List Warning) : List Warning := warnings.insertionSort (· ≤ ·)

def warningsDetail : String :=
  "both sides carry the warnings array and the sorted \x7bcode, span\x7d sets differ " ++
    "([proto.cmp.warn])"

def warningDivergence (a b : Record) : Option Divergence :=
  match a.warnings, b.warnings with
  | some wa, some wb =>
    if sorted wa ≠ sorted wb then
      some ⟨a.file, .spanOrCodeMismatch, .warnings (sorted wa), .warnings (sorted wb),
        warningsDetail⟩
    else none
  | _, _ => none

/-- Compares two observation records of the same file at the same rung. -/
def compare (a b : Record) : Option Divergence :=
  if excused a.verdict b.verdict then none
  else if a.verdict.isUb ≠ b.verdict.isUb then
    some ⟨a.file, .soundnessCandidate, a.render, b.render,
      "one side reports UB where the other runs defined"⟩
  else if a.phaseReached ≠ b.phaseReached ∨ a.verdict ≠ b.verdict then
    some ⟨a.file, .verdictMismatch, a.render, b.render, "phase_reached or verdict differ"⟩
  else if a.rejectsEarly ∧ !firstErrorsAgree a b then
    some ⟨a.file, .spanOrCodeMismatch, .diagnostic a.firstRejection, .diagnostic b.firstRejection,
      "the first diagnostic's code or span differs"⟩
  else if (a.verdict matches .exit _) ∧ a.stdoutSha256 ≠ b.stdoutSha256 then
    some ⟨a.file, .stdoutMismatch, .stdout a.stdoutSha256, .stdout b.stdoutSha256,
      "stdout hashes differ"⟩
  else warningDivergence a b

/-! ## The protocol's equality -/

/-- Both carry the array: the sets of warnings agree. -/
def WarningsAgree (a b : Record) : Prop :=
  ∀ wa wb, a.warnings = some wa → b.warnings = some wb → ∀ warning, warning ∈ wa ↔ warning ∈ wb

/-- The warnings agree with their multiplicities. -/
def WarningsMatch (a b : Record) : Prop :=
  ∀ wa wb, a.warnings = some wa → b.warnings = some wb → wa.Perm wb

/-- The comparison of two records with one verdict, at the rung they reached. -/
def OutcomesAgree (a b : Record) : Prop :=
  match a.verdict with
  | .fail _ => firstErrorsAgree a b ∨
      a.phaseReached = b.phaseReached ∧ Phase.mem.depth < a.phaseReached.depth
  | .exit _ => a.phaseReached = b.phaseReached ∧ a.stdoutSha256 = b.stdoutSha256
  | .trap _ => a.phaseReached = b.phaseReached ∧
      ∀ digest other, a.stdoutSha256 = some digest → b.stdoutSha256 = some other → digest = other
  | _ => a.phaseReached = b.phaseReached

/-- What the clauses under `[proto.cmp]` call equal. -/
def Agree (a b : Record) : Prop :=
  excused a.verdict b.verdict ∨
    a.verdict = b.verdict ∧ OutcomesAgree a b ∧ WarningsAgree a b

/-- The pairs the comparison misjudges: one rejection at two rungs, two outputs before one trap,
and records that differ in nothing but how often they repeat a warning. -/
def Misjudged (a b : Record) : Prop :=
  excused a.verdict b.verdict = false ∧ a.verdict = b.verdict ∧
    (a.phaseReached ≠ b.phaseReached ∧ OutcomesAgree a b ∧ WarningsAgree a b ∨
      a.phaseReached = b.phaseReached ∧ (a.verdict matches .trap _) ∧ ¬ OutcomesAgree a b ∧
        WarningsMatch a b ∨
      a.phaseReached = b.phaseReached ∧ OutcomesAgree a b ∧ WarningsAgree a b ∧
        ¬ WarningsMatch a b)

theorem excused_comm (first second : Verdict) : excused first second = excused second first := by
  cases first <;> cases second <;> rfl

theorem firstErrorsAgree_comm (a b : Record) : firstErrorsAgree a b = firstErrorsAgree b a := by
  unfold firstErrorsAgree
  grind

theorem sorted_eq_iff {first second : List Warning} :
    sorted first = sorted second ↔ first.Perm second := by
  have before : (sorted first).Perm first := List.perm_insertionSort _ first
  have after : (sorted second).Perm second := List.perm_insertionSort _ second
  constructor
  · intro same
    exact before.symm.trans (same ▸ after)
  · intro perm
    exact List.Perm.eq_of_sortedLE List.sortedLE_insertionSort List.sortedLE_insertionSort
      (before.trans (perm.trans after.symm))

theorem warningDivergence_eq_none {a b : Record} :
    warningDivergence a b = none ↔ WarningsMatch a b := by
  unfold warningDivergence WarningsMatch
  cases a.warnings with
  | none => simp
  | some wa =>
    cases b.warnings with
    | none => simp
    | some wb =>
      simp only [Option.some.injEq, ite_eq_right_iff, reduceCtorEq, imp_false, ne_eq,
        not_not, sorted_eq_iff]
      constructor
      · rintro perm _ _ rfl rfl
        exact perm
      · intro perm
        exact perm _ _ rfl rfl

theorem warningDivergence_swap (a b : Record) :
    warningDivergence b a = (warningDivergence a b).map (.swap b.file) := by
  unfold warningDivergence
  cases a.warnings with
  | none => cases b.warnings <;> rfl
  | some wa =>
    cases b.warnings with
    | none => rfl
    | some wb =>
      by_cases same : sorted wa = sorted wb
      · simp only [same, ne_eq, not_true, if_false, Option.map_none]
      · simp only [ne_eq, same, Ne.symm same, not_false_eq_true, if_true, Option.map_some]
        rfl

/-- What the comparison passes over, clause by clause. -/
def Passes (a b : Record) : Prop :=
  a.verdict.isUb = b.verdict.isUb ∧ (a.phaseReached = b.phaseReached ∧ a.verdict = b.verdict) ∧
    (a.rejectsEarly → firstErrorsAgree a b) ∧
    ((a.verdict matches .exit _) → a.stdoutSha256 = b.stdoutSha256) ∧ WarningsMatch a b

theorem ite_some_eq_none {test : Prop} [Decidable test] {found : Divergence}
    {rest : Option Divergence} :
    (if test then some found else rest) = none ↔ ¬ test ∧ rest = none := by
  by_cases holds : test <;> simp [holds]

theorem compare_eq_none {a b : Record} :
    compare a b = none ↔ excused a.verdict b.verdict ∨ Passes a b := by
  rw [compare, Passes]
  by_cases skip : excused a.verdict b.verdict
  · simp only [skip, if_true, true_or]
  rw [if_neg skip, or_iff_right skip]
  simp only [ite_some_eq_none, warningDivergence_eq_none, ne_eq, not_not, not_or, not_and,
    Bool.not_eq_true', Bool.not_eq_false]

/-- One test of the comparison, made from the other side. -/
theorem ite_some_swap {test test' : Prop} [Decidable test] [Decidable test'] {file : String}
    {found found' : Divergence} {rest rest' : Option Divergence} (same : test' ↔ test)
    (sides : found' = found.swap file) (later : ¬ test → rest' = rest.map (.swap file)) :
    (if test' then some found' else rest') =
      (if test then some found else rest).map (.swap file) := by
  by_cases holds : test
  · rw [if_pos holds, if_pos (same.mpr holds), sides, Option.map_some]
  · rw [if_neg holds, if_neg (mt same.mp holds), later holds]

/-- The comparison is symmetric. -/
theorem compare_swap (a b : Record) : compare b a = (compare a b).map (.swap b.file) := by
  rw [compare, compare, excused_comm b.verdict]
  by_cases skip : excused a.verdict b.verdict
  · rw [if_pos skip, if_pos skip, Option.map_none]
  rw [if_neg skip, if_neg skip]
  refine ite_some_swap ne_comm rfl fun _ => ?_
  refine ite_some_swap (or_congr ne_comm ne_comm) rfl fun rung => ?_
  obtain ⟨phase, verdict⟩ := not_or.mp rung
  have phase := not_not.mp phase
  have verdict := not_not.mp verdict
  have early : b.rejectsEarly = a.rejectsEarly := by
    rw [Record.rejectsEarly, Record.rejectsEarly, phase, verdict]
  refine ite_some_swap (by rw [early, firstErrorsAgree_comm]) rfl fun _ => ?_
  exact ite_some_swap (by rw [verdict, ne_comm]) rfl fun _ => warningDivergence_swap a b

/-! ## Exactness -/

theorem WarningsMatch.agree {a b : Record} (same : WarningsMatch a b) : WarningsAgree a b :=
  fun _ _ first second _ => (same _ _ first second).mem_iff

/-- At one rung and verdict, the comparison passes over the records if their outcomes agree, or
whatever was written before a trap, and their warnings match. -/
theorem passes_iff {a b : Record} (verdict : a.verdict = b.verdict)
    (phase : a.phaseReached = b.phaseReached) : Passes a b ↔
      ((a.verdict matches .trap _) ∨ OutcomesAgree a b) ∧ WarningsMatch a b := by
  unfold Passes OutcomesAgree Record.rejectsEarly
  rw [← verdict]
  cases a.verdict with
  | fail code => simp [phase, imp_iff_not_or, or_comm]
  | _ => simp [phase]

/-- The comparison is symmetric, and answers no divergence exactly if the protocol calls the
records equal, but for the misjudged pairs. -/
theorem compare_exact (a b : Record) : ((compare a b = none ↔ Agree a b) ↔ ¬ Misjudged a b) ∧
      compare b a = (compare a b).map (.swap b.file) := by
  refine ⟨?_, compare_swap a b⟩
  rw [compare_eq_none, Agree, Misjudged]
  cases skip : excused a.verdict b.verdict with
  | true => simp
  | false =>
    by_cases verdict : a.verdict = b.verdict
    · by_cases phase : a.phaseReached = b.phaseReached
      · have passes := passes_iff verdict phase
        have only : WarningsMatch a b → WarningsAgree a b := WarningsMatch.agree
        generalize ((a.verdict matches .trap _) : Bool) = trap at *
        simp only [verdict, phase, passes]
        clear * - only
        grind
      · have stopped : ¬ Passes a b := fun passes => phase passes.2.1.1
        simp only [verdict, phase, stopped]
        grind
    · have stopped : ¬ Passes a b := fun passes => verdict passes.2.1.2
      simp [verdict, stopped]

/-- Two programs that trap alike after different output. -/
def trapping (stdout : String) : Record :=
  ⟨⟨"main.lin", .run, none, [], .trap .overflow, some stdout, []⟩, none⟩

/-- The comparison calls them equal, the protocol does not. -/
theorem trapOutputs_inexact : ¬ ((compare (trapping "0a") (trapping "0b") = none ↔
      Agree (trapping "0a") (trapping "0b")) ∧ compare (trapping "0b") (trapping "0a") =
          (compare (trapping "0a") (trapping "0b")).map (.swap "main.lin")) := by
  rintro ⟨exact, -⟩
  rcases exact.mp rfl with skip | ⟨-, outcomes, -⟩
  · cases skip
  · have same := outcomes.2 _ _ rfl rfl
    exact absurd same (by decide)

end WolfInterp.Protocol.Compare
