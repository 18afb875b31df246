import Mathlib.Data.List.Destutter
import WolfInterp.Lex.Token

/-!
# Warning suppression

The lint walk collects the findings and the `#[allow]` regions of all files, the regions without
their files, and matches them afterwards by code and byte offsets.
-/

namespace WolfInterp.Statics.Suppression

/-! ## Collection -/

structure Ident where
  name : String
  span : Lex.Span

inductive AttrArg where
  | nested (path : List Ident)
  | literal

inductive AttrInput where
  | args (args : List AttrArg)
  | literal

structure Attr where
  path : List Ident
  input : Option AttrInput

structure Warning where
  code : String
  span : Lex.Span
  deriving DecidableEq

structure Allow where
  code : String
  region : Lex.Span

/-- The codes that `#[allow]` recognises. -/
def registered : List String :=
  ["w0301", "w0302", "w0303", "w0304", "w0305", "w0306", "w0307", "w0308", "w0309", "w0310",
    "w0311", "w0312", "w0313", "w0314", "w0315", "w0316", "w0401", "w0402", "w0601", "w0602",
    "w0603", "w0604", "w0801", "w1001", "w1002", "w1003", "w1101", "w1102", "w1301", "w1302",
    "e0802"]

/-- Equality up to ASCII case. -/
def sameCode (code other : String) : Bool :=
  code.toList.map Char.toLower = other.toList.map Char.toLower

def isRegistered (code : String) : Bool := registered.any (sameCode · code)

/-- What one argument of an `#[allow]` registers or warns about. -/
def allowArg (region : Lex.Span) : AttrArg → List (Allow ⊕ Warning)
  | .nested [code] =>
    if isRegistered code.name then [.inl ⟨code.name, region⟩] else [.inr ⟨"W0302", code.span⟩]
  | _ => []

/-- What an attribute of a declaration registers or warns about. -/
def attributeNotes (region : Lex.Span) (attr : Attr) : List (Allow ⊕ Warning) :=
  match attr.path, attr.input with
  | [name], input =>
    if name.name ≠ "allow" then []
    else match input with
      | none => [.inr ⟨"W0303", name.span⟩]
      | some (.args args) => args.flatMap (allowArg region)
      | some .literal => []
  | _, _ => []

/-- One source file, with the attributed nodes the walk passes, what its other rules warn about, and
the binders that spell a variant in scope. -/
structure SourceUnit where
  file : String
  fromStd : Bool
  annotated : List (List Attr × Lex.Span)
  warned : List Warning
  binderVariants : List Lex.Span

namespace SourceUnit

variable (unit : SourceUnit)

def attributes : List (Allow ⊕ Warning) :=
  unit.annotated.flatMap fun (attrs, region) => attrs.flatMap (attributeNotes region)

def allows : List Allow := unit.attributes.filterMap Sum.getLeft?

/-- The standard library is exempt, but for its binders. -/
def findings : List (Warning × String) :=
  let warned :=
    if unit.fromStd then [] else unit.attributes.filterMap Sum.getRight? ++ unit.warned
  (warned ++ unit.binderVariants.map (Warning.mk "W0801")).map (·, unit.file)

end SourceUnit

/-- The files of all modules, and the findings about the shape of modules. -/
structure Program where
  units : List SourceUnit
  shapes : List (Warning × String)

namespace Program

variable (program : Program)

def findings : List (Warning × String) :=
  program.units.flatMap SourceUnit.findings ++ program.shapes

def allows : List Allow := program.units.flatMap SourceUnit.allows

/-! ## Suppression -/

def suppressed (warning : Warning) : Bool :=
  program.allows.any fun allow =>
    sameCode allow.code warning.code && allow.region.start ≤ warning.span.start &&
      warning.span.stop ≤ allow.region.stop

def attributed : List (Warning × String) :=
  program.findings.filter fun (warning, _) => !program.suppressed warning

/-- The order of the wire array: by span, then by code. -/
def before (first second : Warning × String) : Bool :=
  first.1.span.start < second.1.span.start || first.1.span.start = second.1.span.start &&
    (first.1.span.stop < second.1.span.stop ||
      first.1.span.stop = second.1.span.stop && first.1.code ≤ second.1.code)

/-- The warnings, one for each pair of a span and a code, with a file each. -/
def warnings : List (Warning × String) :=
  (program.attributed.mergeSort before).destutter fun first second => first.1 ≠ second.1

end Program

/-! ## What is suppressed -/

/-- The attribute is an `#[allow]` with this argument. -/
def Attr.Lists (attr : Attr) (named : Ident) : Prop :=
  ∃ name args, attr.path = [name] ∧ name.name = "allow" ∧ attr.input = some (.args args) ∧
    AttrArg.nested [named] ∈ args

/-- In one of the files an `#[allow]` names the warning's code, on a declaration around its span. -/
def AllowedIn (program : Program) (files : String → Prop) (warning : Warning) : Prop :=
  ∃ unit ∈ program.units, files unit.file ∧ ∃ node ∈ unit.annotated,
    (∃ attr ∈ node.1, ∃ named, attr.Lists named ∧ sameCode named.name warning.code) ∧
      node.2.start ≤ warning.span.start ∧ warning.span.stop ≤ node.2.stop

/-- A finding is suppressed if and only if an `#[allow]` of its own file covers it. -/
def Local (program : Program) : Prop :=
  ∀ finding ∈ program.findings,
    (program.suppressed finding.1 ↔ AllowedIn program (· = finding.2) finding.1)

theorem isRegistered_of_same {code other : String} (same : sameCode code other) :
    isRegistered code = isRegistered other := by
  simp only [sameCode, decide_eq_true_eq] at same
  simp [isRegistered, sameCode, same]

theorem mem_allowArg {region : Lex.Span} {arg : AttrArg} {allow : Allow} :
    .inl allow ∈ allowArg region arg ↔
      ∃ named, arg = .nested [named] ∧ isRegistered named.name ∧ allow = ⟨named.name, region⟩ := by
  unfold allowArg
  split
  · split <;> simp_all
  · simp_all

theorem mem_attributeNotes {region : Lex.Span} {attr : Attr} {allow : Allow} :
    .inl allow ∈ attributeNotes region attr ↔
      ∃ named, attr.Lists named ∧ isRegistered named.name ∧ allow = ⟨named.name, region⟩ := by
  obtain ⟨path, input⟩ := attr
  match path, input with
  | [], _ | _ :: _ :: _, _ => simp [attributeNotes, Attr.Lists]
  | [name], none =>
    by_cases named : name.name = "allow" <;> simp [attributeNotes, Attr.Lists, named]
  | [name], some .literal =>
    by_cases named : name.name = "allow" <;> simp [attributeNotes, Attr.Lists, named]
  | [name], some (.args args) =>
    by_cases named : name.name = "allow"
    · simp [attributeNotes, Attr.Lists, named, mem_allowArg]
    · simp [attributeNotes, Attr.Lists, named]

theorem mem_allows {program : Program} {allow : Allow} : allow ∈ program.allows ↔
    ∃ unit ∈ program.units, ∃ node ∈ unit.annotated, ∃ attr ∈ node.1, ∃ named,
      attr.Lists named ∧ isRegistered named.name ∧ allow = ⟨named.name, node.2⟩ := by
  simp [Program.allows, SourceUnit.allows, SourceUnit.attributes, mem_attributeNotes]

/-- Suppression asks for a registered code and for an `#[allow]` of any file. -/
theorem suppressed_iff {program : Program} {warning : Warning} : program.suppressed warning ↔
    isRegistered warning.code ∧ AllowedIn program (fun _ => True) warning := by
  simp only [Program.suppressed, List.any_eq_true, Bool.and_eq_true, decide_eq_true_eq]
  constructor
  · rintro ⟨_, member, ⟨same, starts⟩, stops⟩
    obtain ⟨unit, among, node, inside, attr, of_, named, lists, known, rfl⟩ := mem_allows.mp member
    exact ⟨isRegistered_of_same same ▸ known, unit, among, trivial, node, inside,
      ⟨attr, of_, named, lists, same⟩, starts, stops⟩
  · rintro ⟨known, unit, among, -, node, inside, ⟨attr, of_, named, lists, same⟩, starts, stops⟩
    have known' := (isRegistered_of_same same).trans known
    exact ⟨_, mem_allows.mpr ⟨unit, among, node, inside, attr, of_, named, lists, known', rfl⟩,
      ⟨same, starts⟩, stops⟩

/-- Merging the entries of a warning loses none. -/
theorem exists_destutter (entries : List (Warning × String)) (warning : Warning) :
    (∃ file, (warning, file) ∈ entries.destutter fun first second => first.1 ≠ second.1) ↔
      ∃ file, (warning, file) ∈ entries := by
  cases entries with
  | nil => simp
  | cons first rest =>
    rw [List.destutter_cons']
    induction rest generalizing first with
    | nil => simp
    | cons second rest induction =>
      rw [List.destutter'_cons]
      split
      · simp only [List.mem_cons, exists_or] at induction ⊢
        rw [induction]
      · have same : first.1 = second.1 := by simp_all
        rw [induction]
        grind

/-- A warning is reported if a finding of it is left. -/
theorem reported_iff (program : Program) (warning : Warning) :
    (∃ file, (warning, file) ∈ program.warnings) ↔
      ¬ program.suppressed warning ∧ ∃ file, (warning, file) ∈ program.findings := by
  rw [Program.warnings, exists_destutter]
  simp [Program.attributed, (List.mergeSort_perm _ _).mem_iff, and_comm]

/-- The suppressed findings are those that are not reported. Suppression is local if no `#[allow]`
of another file covers a finding that none of its own does, and none of its own names a code that is
not registered. -/
theorem suppression_local_iff (program : Program) :
    (∀ warning, (∃ file, (warning, file) ∈ program.warnings) ↔
      ¬ program.suppressed warning ∧ ∃ file, (warning, file) ∈ program.findings) ∧
    (Local program ↔ ∀ finding ∈ program.findings,
      (AllowedIn program (· = finding.2) finding.1 → isRegistered finding.1.code) ∧
      (isRegistered finding.1.code → AllowedIn program (· ≠ finding.2) finding.1 →
        AllowedIn program (· = finding.2) finding.1)) := by
  refine ⟨reported_iff program, forall₂_congr fun finding _ => ?_⟩
  have anywhere : AllowedIn program (fun _ => True) finding.1 ↔
      AllowedIn program (· = finding.2) finding.1 ∨
        AllowedIn program (· ≠ finding.2) finding.1 := by
    simp only [AllowedIn, ← exists_or, true_and]
    grind
  rw [suppressed_iff, anywhere]
  grind

/-- A file with an `#[allow]` before a declaration, and a finding at offsets of the declaration in
another file. -/
def strayAllow : Program where
  units :=
    [⟨"a.lu", false, [([⟨[⟨"allow", ⟨2, 7⟩⟩], some (.args [.nested [⟨"w0313", ⟨8, 13⟩⟩]])⟩],
        ⟨16, 138⟩)], [], []⟩,
      ⟨"b.lu", false, [], [⟨"W0313", ⟨20, 23⟩⟩], []⟩]
  shapes := []

theorem strayAllow_escapes : ¬ Local strayAllow := by
  intro holds
  have finding := holds (⟨"W0313", ⟨20, 23⟩⟩, "b.lu") (by decide)
  have suppressed : strayAllow.suppressed ⟨"W0313", ⟨20, 23⟩⟩ = true := by decide
  obtain ⟨unit, among, own, node, inside, -⟩ := finding.mp suppressed
  simp [strayAllow] at among own inside
  grind

end WolfInterp.Statics.Suppression
