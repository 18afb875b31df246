import WolfInterp.Differ.Record

/-!
# The deep comparison

Two records of one program are compared rung by rung, by what each claims about the rung. A
comparison without findings is clean, and retires the waiver of the file. It is evidence of one
outcome exactly where no statement of either record is overlooked.
-/

namespace WolfInterp.Differ

open Sched (TrapKind)

/-! ## Findings -/

/-- Divergences that have been filed: file, id and summary. -/
def filedDivergences : List (String × String × String) :=
  [("faults/assert_msg_effect_fails.lu", "DIV-2026-027",
    "the assert message's rendering: this machine prints the failing assert's message as one " ++
    "stdout line before the trap (\"m\"), which [conf.trap.assert] permits; the row's stdout " ++
    "pins the dropped rendering (wolf-lang#556)"),
   ("faults/assert_msg_name_fails.lu", "DIV-2026-027",
    "the assert message's rendering: this machine prints the failing assert's message as one " ++
    "stdout line before the trap (\"boom\"), which [conf.trap.assert] permits; the row's " ++
    "stdout pins the dropped rendering (wolf-lang#556)"),
   ("conc/atomic_race_plain.lu", "DIV-2026-028",
    "a data race on non-atomic memory: this machine detects it and traps race, which " ++
    "[conc.mm.race.3] permits; the row's `check: pass` promises only that it compiles and " ++
    "cannot spell the permitted detection (wolf-lang#603)")]

/-- The filing of a file. -/
def filed (file : String) : Option (String × String) :=
  (filedDivergences.find? fun entry => file.endsWith entry.1).map Prod.snd

/-- Divergence classes, descending in severity. -/
inductive DeepClass where
  | soundnessCandidate | verdict | spanOrCode | stdout | protocol | timeout
  deriving DecidableEq

structure DeepDivergence where
  file : String
  cls : DeepClass
  a : String
  b : String
  rung : Option Phase
  detail : String
  filed : Option String

inductive Side where
  | interp | counterparty
  deriving DecidableEq

/-- A gap between the two sides that is no divergence. -/
inductive LedgerEntry where
  | unsupported (file : String) (side : Side) (phase : Phase) (reason : String)
  | rejectsBeyond (file : String) (side : Side) (phase : Phase) (code : String)
  | runUnmatched (file : String) (verdict : String)

structure FileComparison where
  divergence : Option DeepDivergence
  ledger : List LedgerEntry

/-- Whether a comparison is evidence that the file compares clean. -/
def FileComparison.comparedClean (comparison : FileComparison) : Bool :=
  comparison.divergence.isNone && comparison.ledger.isEmpty

/-! ## Claims -/

/-- What one record claims about one rung. -/
inductive Claim where
  | passed
  | rejected (code : String) (diagnostic : Option Diagnostic)
  | ran (verdict : Verdict)
  | silent

/-- The rungs that this interpreter performs. -/
def interpPerforms (rung : Phase) : Bool := rung ∈ [.lex, .parse, .resolve, .run]

/-- The compiler's pipeline is contiguous. -/
def counterpartyPerforms (_ : Phase) : Bool := true

def claim (record : ObservationRecord) (rung : Phase) (performs : Phase → Bool) : Claim :=
  if !performs rung || rung = .none then .silent
  else
    match record.verdict with
    | .fail code =>
      if rung = record.phaseReached then .rejected code record.firstRejection
      else if rung.depth < record.phaseReached.depth then .passed
      else .silent
    | .pass => if rung.depth ≤ record.phaseReached.depth then .passed else .silent
    | .unsupported => if rung.depth < record.phaseReached.depth then .passed else .silent
    | .exit _ | .trap _ | .ub _ =>
      if rung = .run then .ran record.verdict
      else if rung.depth < record.phaseReached.depth then .passed
      else .silent

/-! ## The comparison -/

section Compare

variable (a b : ObservationRecord)

def divergence (cls : DeepClass) (rung : Phase) (detail : String) : DeepDivergence :=
  { file := a.file, cls, a := a.render, b := b.render, rung := some rung, detail
    filed := (filed a.file).map Prod.fst }

def debugSpan (span : Nat × Nat) : String := s!"[{span.1}, {span.2}]"

def debugDigest : Option String → String
  | none => "None"
  | some digest => s!"Some({digest.quote})"

/-- `exit` compares the output digests, `trap` where both records have one. -/
def comparableStdout : Verdict → Bool
  | .exit _ => true
  | .trap _ => a.stdoutSha256.isSome && b.stdoutSha256.isSome
  | _ => false

def stdoutDetail : Verdict → String
  | .trap _ =>
    "same trap kind, different output bytes before the fault (wolf-lang#216: the clause " ++
    "compares `trap` by kind only; this is the widening proposed there, and it can only add rows)"
  | _ =>
    "same exit status, different output bytes (byte-exact, no normalization — any needed " ++
    "normalization is a spec bug about underspecified output)"

/-- Two outcomes of a run. -/
def compareRun (va vb : Verdict) : Option DeepDivergence :=
  if va.isUb ≠ vb.isUb then
    some (divergence a b .soundnessCandidate .run
      ("one side reports UB where the other runs defined ([proto.record.ub]); output bytes on " ++
       "such programs are never compared"))
  else if va ≠ vb then some (divergence a b .verdict .run "run outcomes differ")
  else if comparableStdout a b va && a.stdoutSha256 ≠ b.stdoutSha256 then
    some { divergence a b .stdout .run (stdoutDetail va) with
      a := debugDigest a.stdoutSha256, b := debugDigest b.stdoutSha256 }
  else none

/-- What the walk does at a rung: it goes on to the next, or is over with its findings. -/
inductive Turn where
  | onward
  | stop (divergence : Option DeepDivergence) (entries : List LedgerEntry)

def place (diagnostic : Option Diagnostic) : String :=
  (diagnostic.map fun diagnostic => s!" at {debugSpan diagnostic.span}").getD ""

/-- Both records reject at a rung. -/
def compareRejections (rung : Phase) (codeA codeB : String) (diagA diagB : Option Diagnostic) :
    Turn :=
  let spanA := diagA.map Diagnostic.span
  let spanB := diagB.map Diagnostic.span
  if codeA ≠ codeB ∨ spanA ≠ spanB ∨ a.rejectionFile ≠ b.rejectionFile then
    let within (file : Option String) := (file.map fun file => s!" in {file}").getD ""
    .stop (some { divergence a b .spanOrCode rung
        "both reject here; the first diagnostic's code or span differs" with
      a := s!"{codeA}@{debugSpan (spanA.getD (0, 0))}{within a.rejectionFile}"
      b := s!"{codeB}@{debugSpan (spanB.getD (0, 0))}{within b.rejectionFile}" }) []
  else .stop none []

/-- One rung of the walk. -/
def compareAt (sourceHasUnsafe : Bool) (rung : Phase) : Turn :=
  match claim a rung interpPerforms, claim b rung counterpartyPerforms with
  | .silent, .silent | .passed, .passed => .onward
  | .rejected code diagnostic, .passed | .rejected code diagnostic, .ran _ =>
    .stop (some (divergence a b .verdict rung
      (s!"interp rejects at {rung.asStr} with {code}{place diagnostic} where the " ++
       s!"counterparty's record claims {rung.asStr} completed"))) []
  | .passed, .rejected code diagnostic | .ran _, .rejected code diagnostic =>
    .stop (some (divergence a b .verdict rung
      (s!"counterparty rejects at {rung.asStr} with {code}{place diagnostic} where this " ++
       s!"machine's record claims {rung.asStr} completed"))) []
  | .rejected codeA diagA, .rejected codeB diagB =>
    compareRejections a b rung codeA codeB diagA diagB
  | .rejected code _, .silent => .stop none [.rejectsBeyond a.file .interp rung code]
  | .silent, .rejected code _ => .stop none [.rejectsBeyond a.file .counterparty rung code]
  | .ran va, .ran vb => .stop (compareRun a b va vb) []
  | .ran (.ub anchor), .silent =>
    if !sourceHasUnsafe && (match b.verdict with | .fail _ => false | _ => true) then
      .stop (some (divergence a b .soundnessCandidate .run
        ("the oracle reports UB in an unsafe-free program the counterparty accepts as far as " ++
         "it checks — is04's `zero UB in safe code`, cross-implementation " ++
         "([proto.record.ub])"))) []
    else .stop none [.runUnmatched a.file (Verdict.ub anchor).toString]
  | .ran verdict, .silent => .stop none [.runUnmatched a.file verdict.toString]
  | .silent, .ran _ => .stop none []
  | .passed, .silent | .silent, .passed => .onward
  | .ran verdict, .passed => .stop none [.runUnmatched a.file verdict.toString]
  | .passed, .ran _ => .stop none []

/-- The walk up the ladder, to the first rung where it stops. -/
def walk (sourceHasUnsafe : Bool) : List Phase → Option DeepDivergence × List LedgerEntry
  | [] => (none, [])
  | rung :: deeper =>
    match compareAt a b sourceHasUnsafe rung with
    | .onward => walk sourceHasUnsafe deeper
    | .stop divergence entries => (divergence, entries)

/-- `unsupported` is a ledger entry on either side. -/
def unsupportedEntry (record : ObservationRecord) (side : Side) : List LedgerEntry :=
  match record.verdict with
  | .unsupported =>
    let reason := ((record.extensions.lookup "x-unsupported").join).getD "no reason given"
    [.unsupported a.file side record.phaseReached reason]
  | _ => []

/-- Two rejections with one code, span and file agree on whatever rungs they stand. -/
def sameFirstDiagnostic : Bool :=
  match a.verdict, b.verdict, a.firstRejection, b.firstRejection with
  | .fail codeA, .fail codeB, some da, some db =>
    codeA = codeB && da.code = db.code && da.span = db.span &&
      a.rejectionFile = b.rejectionFile
  | _, _, _, _ => false

/-- `a` is this interpreter's record, `b` the counterparty's. -/
def compareDeep (sourceHasUnsafe : Bool) : FileComparison :=
  let ledger := unsupportedEntry a a .interp ++ unsupportedEntry a b .counterparty
  if sameFirstDiagnostic a b then { divergence := none, ledger }
  else
    let (divergence, entries) := walk a b sourceHasUnsafe Phase.ladder
    { divergence, ledger := ledger ++ entries }

end Compare

/-! ## The rung that decides -/

section Walk

variable {a b : ObservationRecord} {sourceHasUnsafe : Bool} {rung : Phase}

/-- A claim that ends the walk. -/
def Claim.decides : Claim → Bool
  | .rejected _ _ | .ran _ => true
  | .passed | .silent => false

/-- The rung a record's verdict is about: where it rejects, or the run. -/
def ObservationRecord.decidingRung (record : ObservationRecord) : Option Phase :=
  match record.verdict with
  | .fail _ => some record.phaseReached
  | .exit _ | .trap _ | .ub _ => some .run
  | .pass | .unsupported => none

theorem claim_decides {record : ObservationRecord} {performs : Phase → Bool}
    (decides : (claim record rung performs).decides = true) :
    record.decidingRung = some rung ∧ performs rung = true ∧ rung ≠ .none := by
  rw [claim] at decides
  split at decides
  · cases decides
  · rename_i heard
    simp only [Bool.or_eq_true, Bool.not_eq_true', decide_eq_true_eq, not_or,
      Bool.not_eq_false] at heard
    refine ⟨?_, heard⟩
    rw [ObservationRecord.decidingRung]
    split at decides
    · split at decides
      · rename_i verdict here
        rw [verdict, here]
      · split at decides <;> cases decides
    · split at decides <;> cases decides
    · split at decides <;> cases decides
    all_goals
      rename_i verdict
      rw [verdict]
      split at decides
      · rename_i here
        rw [here]
      · split at decides <;> cases decides

theorem compareAt_onward (weak : (claim a rung interpPerforms).decides = false)
    (weak' : (claim b rung counterpartyPerforms).decides = false) :
    compareAt a b sourceHasUnsafe rung = .onward := by
  rw [compareAt]
  cases left : claim a rung interpPerforms with
  | rejected | ran =>
    rw [left] at weak
    cases weak
  | passed | silent =>
    cases right : claim b rung counterpartyPerforms with
    | rejected | ran =>
      rw [right] at weak'
      cases weak'
    | passed | silent => rfl

/-- A walk goes on past a rung that neither verdict is about, or that is not performed. -/
theorem onward_of_undecided
    (undecided : a.decidingRung = some rung → interpPerforms rung = true → rung = .none)
    (undecided' : b.decidingRung = some rung → rung = .none) :
    compareAt a b sourceHasUnsafe rung = .onward := by
  apply compareAt_onward
  · refine Bool.eq_false_iff.mpr fun decides => ?_
    obtain ⟨about, performs, real⟩ := claim_decides decides
    exact real (undecided about performs)
  · refine Bool.eq_false_iff.mpr fun decides => ?_
    obtain ⟨about, -, real⟩ := claim_decides decides
    exact real (undecided' about)

theorem walk_append_onward {before after : List Phase}
    (onward : ∀ rung ∈ before, compareAt a b sourceHasUnsafe rung = .onward) :
    walk a b sourceHasUnsafe (before ++ after) = walk a b sourceHasUnsafe after := by
  induction before with
  | nil => rfl
  | cons rung before induction =>
    have here := onward rung List.mem_cons_self
    rw [List.cons_append, walk, here]
    exact induction fun deeper member => onward deeper (List.mem_cons_of_mem _ member)

theorem walk_of_onward (onward : ∀ rung, compareAt a b sourceHasUnsafe rung = .onward) :
    walk a b sourceHasUnsafe Phase.ladder = (none, []) := by
  have walked := @walk_append_onward a b sourceHasUnsafe Phase.ladder [] fun rung _ => onward rung
  rw [List.append_nil] at walked
  rw [walked, walk]

/-- The first rung that decides ends the walk. -/
theorem walk_of_stop {divergence : Option DeepDivergence} {entries : List LedgerEntry}
    (onward : ∀ shallower : Phase, shallower.depth < rung.depth →
      compareAt a b sourceHasUnsafe shallower = .onward)
    (stop : compareAt a b sourceHasUnsafe rung = .stop divergence entries) :
    walk a b sourceHasUnsafe Phase.ladder = (divergence, entries) := by
  obtain ⟨before, after, ladder, shallow⟩ := rung.ladder_split
  rw [ladder, walk_append_onward fun shallower member =>
    onward shallower (shallow shallower member),
    walk, stop]

end Walk

/-! ## What a clean comparison is evidence of -/

section Clean

variable {a b : ObservationRecord} {sourceHasUnsafe : Bool}

/-- Two rejections whose first errors have one code, one span and one file. -/
structure SameRejection (a b : ObservationRecord) : Prop where
  code : a.firstRejection.map Diagnostic.code = b.firstRejection.map Diagnostic.code
  span : a.firstRejection.map Diagnostic.span = b.firstRejection.map Diagnostic.span
  file : a.rejectionFile = b.rejectionFile

/-- Both records carry the same outcome. -/
def SameOutcome (a b : ObservationRecord) : Prop :=
  match a.verdict, b.verdict with
  | .exit status, .exit status' => status = status' ∧ a.stdoutSha256 = b.stdoutSha256
  | .trap kind, .trap kind' => kind = kind'
  | .ub _, .ub _ | .pass, .pass => True
  | .fail code, .fail code' => code = code' ∧ SameRejection a b
  | _, _ => False

/-- A rejection at a rung that its side is not asked about. -/
def unheard (performs : Phase → Bool) (record : ObservationRecord) : Bool :=
  !performs record.phaseReached || record.phaseReached = .none

/-- The statements that the walk overlooks: a run where this machine only passed, a rejection at a
rung that the rejecting side is not asked about, where the other side passed, ran or rejected
likewise, and a diagnostic whose code is not its verdict's. -/
def Overlooked (a b : ObservationRecord) : Prop :=
  match a.verdict, b.verdict with
  | .pass, .exit _ | .pass, .trap _ | .pass, .ub _ => True
  | .pass, .fail _ => unheard counterpartyPerforms b = true
  | .fail _, .pass | .fail _, .exit _ | .fail _, .trap _ | .fail _, .ub _ =>
    unheard interpPerforms a = true
  | .fail code, .fail code' =>
    (unheard interpPerforms a = true ∧ unheard counterpartyPerforms b = true ∧
      (code ≠ code' ∨ ¬ SameRejection a b)) ∨
    (unheard interpPerforms a = false ∧ a.phaseReached = b.phaseReached ∧ code = code' ∧
      a.firstRejection.map Diagnostic.span = b.firstRejection.map Diagnostic.span ∧
      a.rejectionFile = b.rejectionFile ∧
      a.firstRejection.map Diagnostic.code ≠ b.firstRejection.map Diagnostic.code)
  | _, _ => False

variable {performs : Phase → Bool} {record : ObservationRecord} {code : String}

theorem unheard_eq_false (heard : unheard performs record = false) :
    performs record.phaseReached = true ∧ record.phaseReached ≠ .none := by
  simp only [unheard, Bool.or_eq_false_iff, Bool.not_eq_false', decide_eq_false_iff_not] at heard
  exact heard

/-- The claim of a rejection at its own rung. -/
theorem claim_of_fail (fails : record.verdict = .fail code)
    (heard : unheard performs record = false) :
    claim record record.phaseReached performs = .rejected code record.firstRejection := by
  obtain ⟨performed, real⟩ := unheard_eq_false heard
  rw [claim, fails]
  simp only [performed, real, Bool.not_true, decide_false, Bool.or_self, Bool.false_eq_true,
    if_false, if_true]

/-- The claim of a run at the run. -/
theorem claim_of_ran (ran : record.verdict.ran = true) (performed : performs .run = true) :
    claim record .run performs = .ran record.verdict := by
  rw [claim]
  cases verdict : record.verdict with
  | pass | fail | unsupported =>
    rw [verdict] at ran
    cases ran
  | exit | trap | ub => simp [performed]

theorem decidingRung_of_ran (ran : record.verdict.ran = true) :
    record.decidingRung = some .run := by
  rw [ObservationRecord.decidingRung]
  cases verdict : record.verdict with
  | pass | fail | unsupported =>
    rw [verdict] at ran
    cases ran
  | exit | trap | ub => rfl

theorem decidingRung_of_fail (fails : record.verdict = .fail code) :
    record.decidingRung = some record.phaseReached := by
  rw [ObservationRecord.decidingRung, fails]

theorem decidingRung_of_pass (passes : record.verdict = .pass) : record.decidingRung = none := by
  rw [ObservationRecord.decidingRung, passes]

/-- No verdict is about a rung below one that is above neither verdict's. -/
theorem onward_below {rung : Phase}
    (left : ∀ about, a.decidingRung = some about → interpPerforms about = true → about ≠ .none →
      rung.depth ≤ about.depth)
    (right : ∀ about, b.decidingRung = some about → about ≠ .none → rung.depth ≤ about.depth)
    (shallower : Phase) (below : shallower.depth < rung.depth) :
    compareAt a b sourceHasUnsafe shallower = .onward := by
  refine onward_of_undecided (fun about performed => ?_) fun about => ?_
  · by_contra real
    have deep := left shallower about performed real
    omega
  · by_contra real
    have deep := right shallower about real
    omega

theorem sameFirstDiagnostic_of_fail {code' : String} (fails : a.verdict = .fail code)
    (fails' : b.verdict = .fail code') (same : sameFirstDiagnostic a b = true) :
    code = code' ∧ SameRejection a b := by
  rw [sameFirstDiagnostic, fails, fails'] at same
  cases left : a.firstRejection with
  | none => simp [left] at same
  | some da =>
    cases right : b.firstRejection with
    | none => simp [left, right] at same
    | some db =>
      simp only [left, right, Bool.and_eq_true, decide_eq_true_eq] at same
      obtain ⟨⟨⟨codes, code_eq⟩, span_eq⟩, file_eq⟩ := same
      exact ⟨codes, by rw [left, right, Option.map_some, Option.map_some, code_eq],
        by rw [left, right, Option.map_some, Option.map_some, span_eq], file_eq⟩

theorem not_sameFirstDiagnostic
    (not_both : (∀ code, a.verdict ≠ .fail code) ∨ ∀ code, b.verdict ≠ .fail code) :
    sameFirstDiagnostic a b = false := by
  rw [sameFirstDiagnostic]
  split
  · rename_i codeA codeB _ _ fails fails' _ _
    rcases not_both with left | right
    · exact absurd fails (left _)
    · exact absurd fails' (right _)
  · rfl

/-- A comparison is clean exactly if neither side is unsupported and the walk finds nothing, or is
not taken. -/
theorem comparedClean_iff : (compareDeep a b sourceHasUnsafe).comparedClean = true ↔
      a.verdict ≠ .unsupported ∧ b.verdict ≠ .unsupported ∧ (sameFirstDiagnostic a b = false →
          walk a b sourceHasUnsafe Phase.ladder = (none, [])) := by
  have entries (record : ObservationRecord) (side : Side) :
      unsupportedEntry a record side = [] ↔ record.verdict ≠ .unsupported := by
    rw [unsupportedEntry]
    cases record.verdict <;> simp
  rw [compareDeep, FileComparison.comparedClean]
  cases same : sameFirstDiagnostic a b with
  | true =>
    simp only [if_true, Option.isNone_none, Bool.true_and, List.isEmpty_iff,
      List.append_eq_nil_iff, entries]
    simp
  | false =>
    obtain ⟨divergence, found⟩ := walk a b sourceHasUnsafe Phase.ladder
    simp only [Bool.false_eq_true, if_false, Bool.and_eq_true, Option.isNone_iff_eq_none,
      List.isEmpty_iff, List.append_eq_nil_iff, entries, Prod.mk.injEq, forall_const]
    grind

/-- A turn that ends the walk with a finding. -/
def Turn.finds : Turn → Prop
  | .onward => False
  | .stop divergence entries => divergence = none → entries ≠ []

theorem finds_ite (condition : Bool) {turn turn' : Turn} (finds : turn.finds)
    (finds' : turn'.finds) : (if condition then turn else turn').finds := by
  cases condition with
  | true => exact finds
  | false => exact finds'

theorem not_clean_of_finds {rung : Phase}
    (onward : ∀ shallower : Phase, shallower.depth < rung.depth →
      compareAt a b sourceHasUnsafe shallower = .onward)
    (finds : (compareAt a b sourceHasUnsafe rung).finds) :
    walk a b sourceHasUnsafe Phase.ladder ≠ (none, []) := by
  cases turn : compareAt a b sourceHasUnsafe rung with
  | onward =>
    rw [turn] at finds
    cases finds
  | stop divergence entries =>
    rw [turn] at finds
    rw [walk_of_stop onward turn]
    intro clean
    cases clean
    exact finds rfl rfl

/-- A rejection against anything but a rejection is a finding. -/
theorem finds_of_rejected {rung : Phase} {diagnostic : Option Diagnostic}
    (rejects : claim a rung interpPerforms = .rejected code diagnostic)
    (other : b.decidingRung = some rung → b.verdict.ran = true) :
    (compareAt a b sourceHasUnsafe rung).finds := by
  rw [compareAt, rejects]
  cases right : claim b rung counterpartyPerforms with
  | passed | ran => nofun
  | silent => nofun
  | rejected code' diagnostic' =>
    have decides : (claim b rung counterpartyPerforms).decides = true := by
      rw [right]
      rfl
    have ran := other (claim_decides decides).1
    rw [claim] at right
    split at right
    · cases right
    · cases verdict : b.verdict with
      | pass | fail | unsupported =>
        rw [verdict] at ran
        cases ran
      | exit | trap | ub =>
        simp only [verdict] at right
        split at right
        · cases right
        · split at right <;> cases right

theorem finds_of_rejected' {rung : Phase} {diagnostic : Option Diagnostic}
    (rejects : claim b rung counterpartyPerforms = .rejected code diagnostic)
    (other : ∀ code' diagnostic', claim a rung interpPerforms ≠ .rejected code' diagnostic') :
    (compareAt a b sourceHasUnsafe rung).finds := by
  rw [compareAt, rejects]
  cases left : claim a rung interpPerforms with
  | passed | ran => nofun
  | silent => nofun
  | rejected code' diagnostic' => exact absurd left (other code' diagnostic')

/-- A run of this machine against anything but a run is a finding. -/
theorem finds_of_ran {verdict : Verdict} (ran : claim a .run interpPerforms = .ran verdict)
    (other : (claim b .run counterpartyPerforms).decides = false) :
    (compareAt a b sourceHasUnsafe .run).finds := by
  rw [compareAt, ran]
  cases right : claim b .run counterpartyPerforms with
  | rejected | ran =>
    rw [right] at other
    cases other
  | passed => nofun
  | silent =>
    cases verdict with
    | ub anchor =>
      exact finds_ite _ nofun nofun
    | pass | fail | exit | trap | unsupported => nofun

/-- A run of the counterparty that this machine says nothing about ends the walk in silence. -/
theorem clean_of_ran (undecided : a.decidingRung = none ∨ unheard interpPerforms a = true)
    (fails : a.verdict.ran = false) (ran : b.verdict.ran = true) :
    walk a b sourceHasUnsafe Phase.ladder = (none, []) := by
  have quiet (rung : Phase) : (claim a rung interpPerforms).decides = false := by
    refine Bool.eq_false_iff.mpr fun decides => ?_
    obtain ⟨about, performed, real⟩ := claim_decides decides
    rcases undecided with none | unasked
    · rw [none] at about
      cases about
    · cases verdict : a.verdict with
      | fail code =>
        obtain rfl := Option.eq_some_unique (decidingRung_of_fail verdict) about
        simp only [unheard, performed, real, Bool.not_true, decide_false, Bool.or_self] at unasked
        cases unasked
      | pass | unsupported => simp [ObservationRecord.decidingRung, verdict] at about
      | exit | trap | ub =>
        rw [verdict] at fails
        cases fails
  have below (shallower : Phase) (less : shallower.depth < Phase.run.depth) :
      compareAt a b sourceHasUnsafe shallower = .onward := by
    refine compareAt_onward (quiet shallower) (Bool.eq_false_iff.mpr fun decides => ?_)
    obtain ⟨about, -, -⟩ := claim_decides decides
    obtain rfl := Option.eq_some_unique (decidingRung_of_ran ran) about
    omega
  have stop : compareAt a b sourceHasUnsafe .run = .stop none [] := by
    have weak := quiet .run
    rw [compareAt, claim_of_ran ran rfl]
    cases left : claim a .run interpPerforms with
    | passed | silent => rfl
    | rejected | ran =>
      rw [left] at weak
      cases weak
  exact walk_of_stop below stop

theorem depth_le_run (rung : Phase) : rung.depth ≤ Phase.run.depth := by
  cases rung <;> decide

/-- A verdict about a run is about no other rung. -/
theorem le_of_ran (ran : record.verdict.ran = true) (rung : Phase) (about : Phase)
    (decides : record.decidingRung = some about) : rung.depth ≤ about.depth := by
  obtain rfl := Option.eq_some_unique (decidingRung_of_ran ran) decides
  exact depth_le_run rung

theorem not_rejected_of_ran (not_fail : ∀ code, record.verdict ≠ .fail code) (rung : Phase)
    (code : String) (diagnostic : Option Diagnostic) :
    claim record rung performs ≠ .rejected code diagnostic := by
  intro rejects
  rw [claim] at rejects
  split at rejects
  · cases rejects
  · cases verdict : record.verdict with
    | fail code => exact not_fail code verdict
    | pass | unsupported =>
      simp only [verdict] at rejects
      split at rejects <;> cases rejects
    | exit | trap | ub =>
      simp only [verdict] at rejects
      split at rejects
      · cases rejects
      · split at rejects <;> cases rejects

/-- A rejection that its side is asked about is compared with everything. -/
theorem finding_of_fail_left (fails : a.verdict = .fail code)
    (heard : unheard interpPerforms a = false) (other : ∀ code, b.verdict ≠ .fail code) :
    walk a b sourceHasUnsafe Phase.ladder ≠ (none, []) := by
  have not_fail (about : Phase) (decides : b.decidingRung = some about) : b.verdict.ran = true := by
    cases verdict : b.verdict with
    | fail code => exact absurd verdict (other code)
    | pass | unsupported => simp [ObservationRecord.decidingRung, verdict] at decides
    | exit | trap | ub => rfl
  refine not_clean_of_finds (onward_below ?_ ?_)
    (finds_of_rejected (claim_of_fail fails heard) (not_fail _))
  · intro about decides _ _
    obtain rfl := Option.eq_some_unique (decidingRung_of_fail fails) decides
    exact Nat.le_refl _
  · intro about decides _
    exact le_of_ran (not_fail about decides) _ about decides

theorem finding_of_fail_right (fails : b.verdict = .fail code)
    (heard : unheard counterpartyPerforms b = false) (other : ∀ code, a.verdict ≠ .fail code) :
    walk a b sourceHasUnsafe Phase.ladder ≠ (none, []) := by
  refine not_clean_of_finds (onward_below ?_ ?_)
    (finds_of_rejected' (claim_of_fail fails heard) fun code' diagnostic' =>
      not_rejected_of_ran other _ code' diagnostic')
  · intro about decides _ _
    cases verdict : a.verdict with
    | fail code => exact absurd verdict (other code)
    | pass | unsupported => simp [ObservationRecord.decidingRung, verdict] at decides
    | exit | trap | ub => exact le_of_ran (by rw [verdict]; rfl) _ about decides
  · intro about decides _
    obtain rfl := Option.eq_some_unique (decidingRung_of_fail fails) decides
    exact Nat.le_refl _

/-- A run of this machine that the counterparty says nothing about is a finding. -/
theorem finding_of_ran (ran : a.verdict.ran = true) (other : b.verdict.ran = false) :
    walk a b sourceHasUnsafe Phase.ladder ≠ (none, []) := by
  by_cases rejects : (∃ code, b.verdict = .fail code) ∧ unheard counterpartyPerforms b = false
  · obtain ⟨⟨code, fails⟩, heard⟩ := rejects
    refine finding_of_fail_right fails heard fun code' fails' => ?_
    rw [fails'] at ran
    cases ran
  · have weak (rung : Phase) : (claim b rung counterpartyPerforms).decides = false := by
      refine Bool.eq_false_iff.mpr fun decides => ?_
      obtain ⟨about, performed, real⟩ := claim_decides decides
      cases verdict : b.verdict with
      | fail code =>
        obtain rfl := Option.eq_some_unique (decidingRung_of_fail verdict) about
        refine rejects ⟨⟨code, verdict⟩, ?_⟩
        simp only [unheard, performed, real, Bool.not_true, decide_false, Bool.or_self]
      | pass | unsupported => simp [ObservationRecord.decidingRung, verdict] at about
      | exit | trap | ub =>
        rw [verdict] at other
        cases other
    refine not_clean_of_finds (fun shallower below => compareAt_onward ?_ (weak shallower))
      (finds_of_ran (claim_of_ran ran rfl) (weak .run))
    refine Bool.eq_false_iff.mpr fun decides => ?_
    have le := le_of_ran ran .run shallower (claim_decides decides).1
    omega

/-- Two runs are compared by their outcomes. -/
theorem sameOutcome_of_ran (ran : a.verdict.ran = true) (ran' : b.verdict.ran = true)
    (clean : walk a b sourceHasUnsafe Phase.ladder = (none, [])) : SameOutcome a b := by
  have stop : compareAt a b sourceHasUnsafe .run =
      .stop (compareRun a b a.verdict b.verdict) [] := by
    rw [compareAt, claim_of_ran ran rfl, claim_of_ran ran' rfl]
  have walked := walk_of_stop (onward_below (fun about decides _ _ => le_of_ran ran _ about decides)
    fun about decides _ => le_of_ran ran' _ about decides) stop
  have agree : compareRun a b a.verdict b.verdict = none :=
    (Prod.mk.inj (walked.symm.trans clean)).1
  by_cases ub : a.verdict.isUb ≠ b.verdict.isUb
  · rw [compareRun, if_pos ub] at agree
    cases agree
  · by_cases same : a.verdict = b.verdict
    · rw [compareRun, if_neg ub, if_neg (not_not.mpr same)] at agree
      rw [SameOutcome, ← same]
      cases verdict : a.verdict with
      | pass | fail | unsupported =>
        rw [verdict] at ran
        cases ran
      | exit status =>
        refine ⟨rfl, ?_⟩
        rw [verdict] at agree
        simpa [comparableStdout] using agree
      | trap kind => rfl
      | ub anchor => exact trivial
    · rw [compareRun, if_neg ub, if_pos same] at agree
      cases agree

/-- The rung of a rejection that is asked about is below every other one that is. -/
theorem le_of_fail (fails : record.verdict = .fail code) {rung : Phase}
    (le : rung.depth ≤ record.phaseReached.depth) (about : Phase)
    (decides : record.decidingRung = some about) : rung.depth ≤ about.depth := by
  obtain rfl := Option.eq_some_unique (decidingRung_of_fail fails) decides
  exact le

/-- A rejection is claimed at no other rung than its own. -/
theorem claim_ne_rejected (fails : record.verdict = .fail code) {rung : Phase}
    (other : rung ≠ record.phaseReached ∨ unheard performs record = true) (code' : String)
    (diagnostic : Option Diagnostic) : claim record rung performs ≠ .rejected code' diagnostic := by
  intro rejects
  have decides : (claim record rung performs).decides = true := by
    rw [rejects]
    rfl
  obtain ⟨about, performed, real⟩ := claim_decides decides
  obtain rfl := Option.eq_some_unique (decidingRung_of_fail fails) about
  rcases other with distinct | unasked
  · exact distinct rfl
  · simp only [unheard, performed, real, Bool.not_true, decide_false, Bool.or_self] at unasked
    cases unasked

/-- What two rejections with different first diagnostics are found to be. -/
theorem clean_of_fail_fail {code' : String} (fails : a.verdict = .fail code)
    (fails' : b.verdict = .fail code') : walk a b sourceHasUnsafe Phase.ladder = (none, []) ↔
      (unheard interpPerforms a = true ∧ unheard counterpartyPerforms b = true) ∨
      (unheard interpPerforms a = false ∧ a.phaseReached = b.phaseReached ∧ code = code' ∧
        a.firstRejection.map Diagnostic.span = b.firstRejection.map Diagnostic.span ∧
        a.rejectionFile = b.rejectionFile) := by
  cases heard : unheard interpPerforms a with
  | true =>
    cases heard' : unheard counterpartyPerforms b with
    | true =>
      simp only [true_and, Bool.true_eq_false, false_and, or_false, iff_true]
      refine walk_of_onward fun rung => onward_of_undecided (fun about performed => ?_) ?_
      · obtain rfl := Option.eq_some_unique (decidingRung_of_fail fails) about
        by_contra real
        simp only [unheard, performed, real, Bool.not_true, decide_false, Bool.or_self] at heard
        cases heard
      · intro about
        obtain rfl := Option.eq_some_unique (decidingRung_of_fail fails') about
        simpa [unheard, counterpartyPerforms] using heard'
    | false =>
      simp only [Bool.false_eq_true, and_false, Bool.true_eq_false, false_and, or_false,
        iff_false]
      refine not_clean_of_finds (onward_below ?_ ?_) (finds_of_rejected'
        (claim_of_fail fails' heard') (claim_ne_rejected fails (.inr heard)))
      · intro about decides performed real
        obtain rfl := Option.eq_some_unique (decidingRung_of_fail fails) decides
        simp only [unheard, performed, real, Bool.not_true, decide_false, Bool.or_self] at heard
        cases heard
      · exact fun about decides _ => le_of_fail fails' (Nat.le_refl _) about decides
  | false =>
    simp only [Bool.false_eq_true, false_and, true_and, false_or]
    have real := (unheard_eq_false heard).2
    rcases Nat.lt_trichotomy a.phaseReached.depth b.phaseReached.depth with
      below | same | above
    · have distinct : a.phaseReached ≠ b.phaseReached := fun same => by
        rw [same] at below
        omega
      simp only [distinct, false_and, iff_false]
      refine not_clean_of_finds (onward_below ?_ ?_)
        (finds_of_rejected (claim_of_fail fails heard) fun about => ?_)
      · exact fun about decides _ _ => le_of_fail fails (Nat.le_refl _) about decides
      · exact fun about decides _ => le_of_fail fails' (Nat.le_of_lt below) about decides
      · exact absurd (Option.eq_some_unique (decidingRung_of_fail fails') about).symm
          distinct
    · have same := Phase.depth_injective same
      have heard' : unheard counterpartyPerforms b = false := by
        rw [unheard, ← same]
        simpa [counterpartyPerforms] using real
      have turn : compareAt a b sourceHasUnsafe a.phaseReached =
          compareRejections a b a.phaseReached code code' a.firstRejection b.firstRejection := by
        have right := claim_of_fail fails' heard'
        rw [← same] at right
        rw [compareAt, claim_of_fail fails heard, right]
      simp only [same, true_and]
      have below := @onward_below a b sourceHasUnsafe a.phaseReached
        (fun about decides _ _ => le_of_fail fails (Nat.le_refl _) about decides)
        (fun about decides _ => le_of_fail fails' (Nat.le_of_eq (congrArg Phase.depth same)) about
          decides)
      rw [compareRejections] at turn
      split at turn
      · rename_i differ
        rw [walk_of_stop below turn]
        simp only [Prod.mk.injEq, reduceCtorEq, false_and, false_iff]
        rintro ⟨codes, spans, files⟩
        rcases differ with code | span | file
        · exact code codes
        · exact span spans
        · exact file files
      · rename_i agree
        rw [walk_of_stop below turn]
        simpa using agree
    · have distinct : a.phaseReached ≠ b.phaseReached := fun same => by
        rw [same] at above
        omega
      simp only [distinct, false_and, iff_false]
      by_cases heard' : unheard counterpartyPerforms b = true
      · -- The counterparty's rejection is at no rung.
        have nowhere : b.phaseReached = .none := by
          simpa [unheard, counterpartyPerforms] using heard'
        refine not_clean_of_finds (onward_below ?_ ?_)
          (finds_of_rejected (claim_of_fail fails heard) fun about => ?_)
        · exact fun about decides _ _ => le_of_fail fails (Nat.le_refl _) about decides
        · intro about decides real
          obtain rfl := Option.eq_some_unique (decidingRung_of_fail fails') decides
          exact absurd nowhere real
        · exact absurd (Option.eq_some_unique (decidingRung_of_fail fails') about).symm
            distinct
      · refine not_clean_of_finds (onward_below ?_ ?_) (finds_of_rejected'
          (claim_of_fail fails' (Bool.eq_false_iff.mpr heard'))
          (claim_ne_rejected fails (.inl (Ne.symm distinct))))
        · exact fun about decides _ _ => le_of_fail fails (Nat.le_of_lt above) about decides
        · exact fun about decides _ => le_of_fail fails' (Nat.le_refl _) about decides

/-- Where one side does not reject, a comparison is clean exactly if the walk finds nothing. -/
theorem comparedClean_iff_walk (supported : a.verdict ≠ .unsupported)
    (supported' : b.verdict ≠ .unsupported)
    (not_both : (∀ code, a.verdict ≠ .fail code) ∨ ∀ code, b.verdict ≠ .fail code) :
    (compareDeep a b sourceHasUnsafe).comparedClean = true ↔
      walk a b sourceHasUnsafe Phase.ladder = (none, []) := by
  rw [comparedClean_iff, not_sameFirstDiagnostic not_both]
  simp only [ne_eq, supported, not_false_eq_true, supported', true_and, forall_const]

theorem clean_of_unasked (fails : a.verdict = .fail code)
    (unasked : unheard interpPerforms a = true) (passes : b.verdict = .pass) :
    walk a b sourceHasUnsafe Phase.ladder = (none, []) := by
  refine walk_of_onward fun rung => onward_of_undecided (fun about performed => ?_) fun about => ?_
  · obtain rfl := Option.eq_some_unique (decidingRung_of_fail fails) about
    by_contra real
    simp only [unheard, performed, real, Bool.not_true, decide_false, Bool.or_self] at unasked
    cases unasked
  · rw [decidingRung_of_pass passes] at about
    cases about

theorem clean_of_unasked' (fails : b.verdict = .fail code)
    (unasked : unheard counterpartyPerforms b = true) (passes : a.verdict = .pass) :
    walk a b sourceHasUnsafe Phase.ladder = (none, []) := by
  refine walk_of_onward fun rung => onward_of_undecided (fun about => ?_) fun about => ?_
  · rw [decidingRung_of_pass passes] at about
    cases about
  · obtain rfl := Option.eq_some_unique (decidingRung_of_fail fails) about
    simpa [unheard, counterpartyPerforms] using unasked

/-- A comparison that is clean means one outcome, exactly where nothing is overlooked. -/
theorem clean_means_same_iff (a b : ObservationRecord) (sourceHasUnsafe : Bool) :
    ((compareDeep a b sourceHasUnsafe).comparedClean = true → SameOutcome a b) ↔
      ¬ Overlooked a b := by
  -- The verdicts of a pair decide which lemma says what the walk finds.
  cases left : a.verdict with
  | unsupported =>
    simp [comparedClean_iff, Overlooked, left]
  | exit status | trap kind | ub anchor =>
    have ran : a.verdict.ran = true := by
      rw [left]
      rfl
    have supported : a.verdict ≠ .unsupported := by
      rw [left]
      exact Verdict.noConfusion
    have no_fail (code : String) : a.verdict ≠ .fail code := by
      rw [left]
      exact Verdict.noConfusion
    have nothing : ¬ Overlooked a b := by simp [Overlooked, left]
    refine iff_of_true (fun clean => ?_) nothing
    have supported' := (comparedClean_iff.mp clean).2.1
    rw [comparedClean_iff_walk supported supported' (.inl no_fail)] at clean
    cases ran' : b.verdict.ran with
    | true => exact sameOutcome_of_ran ran ran' clean
    | false => exact absurd clean (finding_of_ran ran ran')
  | pass =>
    have supported : a.verdict ≠ .unsupported := by
      rw [left]
      exact Verdict.noConfusion
    have no_fail (code : String) : a.verdict ≠ .fail code := by
      rw [left]
      exact Verdict.noConfusion
    cases right : b.verdict with
    | unsupported => simp [comparedClean_iff, Overlooked, left, right]
    | pass => simp [SameOutcome, Overlooked, left, right]
    | exit | trap | ub =>
      have supported' : b.verdict ≠ .unsupported := by
        rw [right]
        exact Verdict.noConfusion
      have clean := @clean_of_ran a b sourceHasUnsafe (.inl (decidingRung_of_pass left))
        (by rw [left]; rfl) (by rw [right]; rfl)
      rw [comparedClean_iff_walk supported supported' (.inl no_fail)]
      simp [SameOutcome, Overlooked, left, right, clean]
    | fail code =>
      have supported' : b.verdict ≠ .unsupported := by
        rw [right]
        exact Verdict.noConfusion
      rw [comparedClean_iff_walk supported supported' (.inl no_fail)]
      simp only [SameOutcome, Overlooked, left, right, imp_false, not_iff_not]
      constructor
      · intro clean
        by_contra heard
        exact finding_of_fail_right right (Bool.eq_false_iff.mpr heard) no_fail clean
      · exact fun unasked => clean_of_unasked' right unasked left
  | fail code =>
    have supported : a.verdict ≠ .unsupported := by
      rw [left]
      exact Verdict.noConfusion
    cases right : b.verdict with
    | unsupported => simp [comparedClean_iff, Overlooked, left, right]
    | pass | exit | trap | ub =>
      have supported' : b.verdict ≠ .unsupported := by
        rw [right]
        exact Verdict.noConfusion
      have no_fail (code : String) : b.verdict ≠ .fail code := by
        rw [right]
        exact Verdict.noConfusion
      rw [comparedClean_iff_walk supported supported' (.inr no_fail)]
      simp only [SameOutcome, Overlooked, left, right, imp_false, not_iff_not]
      constructor
      · intro clean
        by_contra heard
        exact finding_of_fail_left left (Bool.eq_false_iff.mpr heard) no_fail clean
      · intro unasked
        first
        | exact clean_of_unasked left unasked right
        | exact clean_of_ran (.inr unasked) (by rw [left]; rfl) (by rw [right]; rfl)
    | fail code' =>
      have supported' : b.verdict ≠ .unsupported := by
        rw [right]
        exact Verdict.noConfusion
      rw [comparedClean_iff, clean_of_fail_fail left right]
      simp only [SameOutcome, Overlooked, left, right]
      cases same : sameFirstDiagnostic a b with
      | true =>
        obtain ⟨rfl, agree⟩ := sameFirstDiagnostic_of_fail left right same
        have code := agree.code
        simp [agree, code]
      | false =>
        have rejection : SameRejection a b ↔
            a.firstRejection.map Diagnostic.code = b.firstRejection.map Diagnostic.code ∧
            a.firstRejection.map Diagnostic.span = b.firstRejection.map Diagnostic.span ∧
            a.rejectionFile = b.rejectionFile :=
          ⟨fun ⟨codes, spans, files⟩ => ⟨codes, spans, files⟩,
            fun ⟨codes, spans, files⟩ => ⟨codes, spans, files⟩⟩
        simp only [ne_eq, reduceCtorEq, not_false_eq_true, true_and, forall_const, rejection]
        grind

/-- A pass where the counterparty ran: the comparison is clean, and means nothing. -/
theorem clean_means_same_fails : ¬ ∀ (a b : ObservationRecord) (sourceHasUnsafe : Bool),
      (compareDeep a b sourceHasUnsafe).comparedClean = true → SameOutcome a b := by
  intro means
  exact means ⟨"hello.lu", .run, none, [], .pass, none, []⟩
    ⟨"hello.lu", .run, none, [], .exit 0, some "00", []⟩ false rfl

end Clean

end WolfInterp.Differ
