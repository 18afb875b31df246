import WolfInterp.Sched.State

/-!
# Observation records

What `conform-run` writes about one program, as far as two records are compared, and the ladder of
phases that a record's claims are about.
-/

namespace WolfInterp.Differ

open Sched (TrapKind)

/-! ## The phase ladder -/

/-- A rung of the phase ladder. -/
inductive Phase where
  | none | lex | parse | resolve | typecheck | mem | wir | run
  deriving DecidableEq

namespace Phase

/-- Every rung, shallowest first. -/
def ladder : List Phase := [.none, .lex, .parse, .resolve, .typecheck, .mem, .wir, .run]

def asStr : Phase → String
  | .none => "none"
  | .lex => "lex"
  | .parse => "parse"
  | .resolve => "resolve"
  | .typecheck => "typecheck"
  | .mem => "mem"
  | .wir => "wir"
  | .run => "run"

/-- The place of a rung on the ladder. -/
def depth : Phase → Nat
  | .none => 0
  | .lex => 1
  | .parse => 2
  | .resolve => 3
  | .typecheck => 4
  | .mem => 5
  | .wir => 6
  | .run => 7

theorem depth_injective {rung rung' : Phase} (same : rung.depth = rung'.depth) : rung = rung' := by
  cases rung <;> cases rung' <;> first | rfl | cases same

/-- The rungs below a rung come before it on the ladder. -/
theorem ladder_split (rung : Phase) : ∃ before after, ladder = before ++ rung :: after ∧
      ∀ shallower ∈ before, shallower.depth < rung.depth := by
  refine ⟨ladder.take rung.depth, ladder.drop (rung.depth + 1), ?_, ?_⟩
  · cases rung <;> rfl
  · cases rung <;> decide

end Phase

/-! ## Records -/

/-- The program's outcome. -/
inductive Verdict where
  | pass
  | fail (code : String)
  | exit (status : UInt8)
  | trap (kind : TrapKind)
  | ub (anchor : String)
  | unsupported
  deriving DecidableEq

def Verdict.toString : Verdict → String
  | .pass => "pass"
  | .fail code => s!"fail({code})"
  | .exit status => s!"exit({status.toNat})"
  | .trap kind => s!"trap({kind.asStr})"
  | .ub anchor => s!"ub({anchor})"
  | .unsupported => "unsupported"

/-- The verdicts of a program that was run. -/
def Verdict.ran : Verdict → Bool
  | .exit _ | .trap _ | .ub _ => true
  | _ => false

def Verdict.isUb : Verdict → Bool
  | .ub _ => true
  | _ => false

structure Diagnostic where
  code : String
  span : Nat × Nat
  severity : String
  /-- The index of the diagnostic's file in the record's table. -/
  file : Option Nat
  deriving DecidableEq

/-- One observation record: the fields that comparison reads. -/
structure ObservationRecord where
  file : String
  phaseReached : Phase
  files : Option (List String)
  diagnostics : List Diagnostic
  verdict : Verdict
  stdoutSha256 : Option String
  /-- The `x-` keys; a value that is not a string is kept as `none`. -/
  extensions : List (String × Option String)

namespace ObservationRecord

variable (record : ObservationRecord)

/-- The diagnostic that carries a `fail` verdict: the first that is not a warning. -/
def firstRejection : Option Diagnostic :=
  record.diagnostics.find? fun diagnostic => diagnostic.severity ≠ "warning"

/-- The file a rejection's span is an offset into: `none` for the entry, which is also index 0. -/
def rejectionFile : Option String := do
  let diagnostic ← record.firstRejection
  match diagnostic.file with
  | none | some 0 => none
  | some index =>
    some ((record.files.bind (·[index]?)).getD s!"<file index {index} outside the table>")

def render : String := s!"{record.verdict.toString}@{record.phaseReached.asStr}"

end ObservationRecord

end WolfInterp.Differ
