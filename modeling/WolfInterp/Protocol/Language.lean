import WolfInterp.Protocol.Schema

/-!
# What the validator accepts

The validator reads raw JSON and the wire types are written as JSON. Each check of a part is
answered by the type of that part: it does not complain exactly about what is written for a
well-formed value of the type.
-/

namespace WolfInterp.Protocol

open Lib.SortedMap
open Differ (Phase Verdict)

/-! ## The checks of one value -/

variable {pointer name base : String} {value : Value} {members : List (String × Value)}

theorem checkString_eq_nil {check : String → List SchemaError} :
    checkString pointer value check = [] ↔ ∃ text, value = .string text ∧ check text = [] := by
  cases value <;> simp [checkString, Value.asStr]

theorem checkNonEmpty_eq_nil :
    checkNonEmpty pointer value = [] ↔ ∃ text, value = .string text ∧ text ≠ "" := by
  simp [checkNonEmpty, checkString_eq_nil]

theorem checkMember_eq_nil {check : Value → List SchemaError} :
    checkMember members name check = [] ↔
      ∀ value, get name members = some value → check value = [] := by
  unfold checkMember
  split <;> simp_all

theorem checkRequired_eq_nil {check : String → Value → List SchemaError} {accepts : Value → Prop}
    (exact : ∀ pointer value, check pointer value = [] ↔ accepts value) :
    checkRequired base members name check = [] ↔
      ∃ value, get name members = some value ∧ accepts value := by
  unfold checkRequired
  split <;> simp_all

theorem checkItems_eq_nil {items : List Value} {check : String → Value → List SchemaError}
    {accepts : Value → Prop}
    (exact : ∀ pointer, ∀ item ∈ items, check pointer item = [] ↔ accepts item) :
    checkItems base items check = [] ↔ ∀ item ∈ items, accepts item := by
  simp only [checkItems, List.flatMap_eq_nil_iff, Prod.forall]
  constructor
  · intro all item among
    obtain ⟨index, place⟩ := List.mem_iff_getElem?.mp among
    exact (exact _ item among).mp (all item index (List.mem_zipIdx_iff_getElem?.mpr place))
  · intro all item index place
    have among := List.mem_of_getElem? (List.mem_zipIdx_iff_getElem?.mp place)
    exact (exact _ item among).mpr (all item among)

theorem checkKnown_eq_nil {names : List String} {fields : List (String × Value)}
    {complaint : String → SchemaError} :
    checkKnown names fields complaint = [] ↔ ∀ entry ∈ fields, entry.1 ∈ names := by
  simp [checkKnown]

theorem asU64_eq_some {n : UInt64} : value.asU64 = some n ↔ value = encodeU64 n := by
  unfold Value.asU64 encodeU64
  split <;> simp_all

theorem asArray_eq_some {items : List Value} :
    value.asArray = some items ↔ value = .array items := by
  cases value <;> simp [Value.asArray]

theorem validateSpan_eq_nil :
    validateSpan pointer value = [] ↔ ∃ span, value = encodeSpan span ∧ span.1 ≤ span.2 := by
  constructor
  · intro quiet
    unfold validateSpan at quiet
    split at quiet
    · cases quiet
    · rename_i start stop shape
      split at quiet
      · cases quiet
      · cases quiet
      · rename_i first last left right
        split at quiet
        · cases quiet
        · rename_i ordered
          refine ⟨(first, last), ?_, UInt64.not_lt.mp ordered⟩
          rw [asArray_eq_some.mp shape, asU64_eq_some.mp left, asU64_eq_some.mp right]
          rfl
    · cases quiet
  · rintro ⟨⟨first, last⟩, rfl, ordered⟩
    have forward : ¬ last < first := UInt64.not_lt.mpr ordered
    simp [validateSpan, encodeSpan, encodeU64, Value.asArray, Value.asU64, forward]

theorem checkRequired_nonEmpty : checkRequired base members name checkNonEmpty = [] ↔
      ∃ text, get name members = some (.string text) ∧ text ≠ "" := by
  have exact := fun pointer value => @checkNonEmpty_eq_nil pointer value
  rw [checkRequired_eq_nil exact]
  grind

theorem checkRequired_span : checkRequired base members name validateSpan = [] ↔
      ∃ span, get name members = some (encodeSpan span) ∧ span.1 ≤ span.2 := by
  have exact := fun pointer value => @validateSpan_eq_nil pointer value
  rw [checkRequired_eq_nil exact]
  grind

/-! ## Diagnostics and warnings -/

/-- A `file` index of a diagnostic against the length of the record's table. -/
def IndexesFile : Option UInt64 → Option Nat → Prop
  | none, none => True
  | some index, some count => index.toNat < count
  | _, _ => False

structure Diagnostic.WellFormed (files : Option Nat) (diagnostic : Diagnostic) : Prop where
  code : diagnostic.code ≠ ""
  severity : diagnostic.severity ≠ ""
  span : diagnostic.span.1 ≤ diagnostic.span.2
  file : IndexesFile diagnostic.file files

structure Warning.WellFormed (warning : Warning) : Prop where
  code : warning.code ≠ ""
  span : warning.span.1 ≤ warning.span.2

theorem validateFileIndex_eq_nil {files : Option Nat} {value : Option Value} :
    validateFileIndex pointer files value = [] ↔
      ∃ file : Option UInt64, value = file.map encodeU64 ∧ IndexesFile file files := by
  constructor
  · intro quiet
    unfold validateFileIndex at quiet
    split at quiet
    · split at quiet
      · cases quiet
      · cases quiet
      · rename_i index count number
        split at quiet
        · cases quiet
        · rename_i within
          exact ⟨some index, by rw [asU64_eq_some.mp number]; rfl, not_le.mp within⟩
    · split at quiet
      · cases quiet
      · rename_i absent
        refine ⟨none, rfl, ?_⟩
        cases files with
        | none => trivial
        | some count => simp at absent
  · rintro ⟨file, rfl, indexes⟩
    cases file <;> cases files <;>
      simp_all [IndexesFile, validateFileIndex, encodeU64, Value.asU64]

theorem get_objectOf (distinct : (members.map Prod.fst).Nodup) (key : String) :
    get key (extend [] members) = get key members := by
  rw [get_extend, get_reverse distinct, get_nil, Option.or_none]

theorem mem_of_objectOf {entry : String × Value} (among : entry ∈ extend [] members) :
    entry ∈ members :=
  (mem_extend among).resolve_left List.not_mem_nil

/-- An object that agrees with a list of members on the only names either of them has is the object
of those members. -/
theorem eq_objectOf {entries : List (String × Value)} {names : List String}
    (sorted : Sorted entries) (distinct : (members.map Prod.fst).Nodup)
    (known : ∀ entry ∈ entries, entry.1 ∈ names) (written : ∀ entry ∈ members, entry.1 ∈ names)
    (agree : ∀ name ∈ names, get name entries = get name members) :
    entries = extend [] members := by
  refine sorted.ext (Sorted.extend List.Pairwise.nil members) fun key => ?_
  rw [get_objectOf distinct]
  by_cases named : key ∈ names
  · exact agree key named
  · rw [get_eq_none.mpr, get_eq_none.mpr]
    · rintro entry among rfl
      exact named (written entry among)
    · rintro entry among rfl
      exact named (known entry among)

section Members

variable (diagnostic : Diagnostic) (warning : Warning)

theorem Diagnostic.distinct : (diagnostic.members.map Prod.fst).Nodup := by
  obtain ⟨code, span, severity, file⟩ := diagnostic
  cases file <;> simp [Diagnostic.members, skipNone]

theorem Diagnostic.names : ∀ entry ∈ diagnostic.members,
    entry.1 ∈ ["code", "span", "severity", "file"] := by
  simp [Diagnostic.members, skipNone]

theorem Diagnostic.get_members : get "code" diagnostic.members = some (.string diagnostic.code) ∧
      get "span" diagnostic.members = some (encodeSpan diagnostic.span) ∧
      get "severity" diagnostic.members = some (.string diagnostic.severity) ∧
      get "file" diagnostic.members = diagnostic.file.map encodeU64 := by
  obtain ⟨code, span, severity, file⟩ := diagnostic
  cases file <;> simp [Diagnostic.members, skipNone, get_cons]

theorem Warning.distinct : (warning.members.map Prod.fst).Nodup := by
  simp [Warning.members]

theorem Warning.names : ∀ entry ∈ warning.members, entry.1 ∈ ["code", "span"] := by
  simp [Warning.members]

theorem Warning.get_members : get "code" warning.members = some (.string warning.code) ∧
      get "span" warning.members = some (encodeSpan warning.span) := by
  simp [Warning.members, get_cons]

end Members

/-- The diagnostic check accepts exactly what is written for a well-formed diagnostic. -/
theorem validateDiagnostic_eq_nil {files : Option Nat} {item : Value} (keyed : item.Keyed) :
    validateDiagnostic files base item = [] ↔
      ∃ diagnostic : Diagnostic, item = diagnostic.encode ∧ diagnostic.WellFormed files := by
  constructor
  · intro quiet
    cases keyed with
    | object fields sorted within =>
      simp only [validateDiagnostic, Value.asObject, List.append_eq_nil_iff, checkKnown_eq_nil,
        validateFileIndex_eq_nil, checkRequired_nonEmpty, checkRequired_span] at quiet
      obtain ⟨⟨⟨⟨known, file, fileAt, indexes⟩, code, codeAt, codeText⟩,
        severity, severityAt, severityText⟩, span, spanAt, ordered⟩ := quiet
      let diagnostic : Diagnostic := ⟨code, span, severity, file⟩
      refine ⟨diagnostic, ?_, codeText, severityText, ordered, indexes⟩
      have same := eq_objectOf sorted diagnostic.distinct known diagnostic.names ?_
      · rw [Diagnostic.encode, objectOf, ← same]
      · obtain ⟨code, span, severity, file⟩ := diagnostic.get_members
        simp [codeAt, spanAt, severityAt, fileAt, code, span, severity, file, diagnostic]
    | _ => simp [validateDiagnostic, Value.asObject] at quiet
  · rintro ⟨diagnostic, rfl, code, severity, span, file⟩
    have read := get_objectOf diagnostic.distinct
    have known : ∀ entry ∈ extend [] diagnostic.members,
        entry.1 ∈ ["code", "span", "severity", "file"] :=
      fun entry among => diagnostic.names entry (mem_of_objectOf among)
    obtain ⟨codeAt, spanAt, severityAt, fileAt⟩ := diagnostic.get_members
    simp only [validateDiagnostic, Diagnostic.encode, objectOf, Value.asObject,
      List.append_eq_nil_iff, checkKnown_eq_nil, validateFileIndex_eq_nil,
      checkRequired_nonEmpty, checkRequired_span, read, codeAt, spanAt, severityAt, fileAt]
    exact ⟨⟨⟨⟨known, _, rfl, file⟩, _, rfl, code⟩, _, rfl, severity⟩, _, rfl, span⟩

/-- The warning check accepts exactly what is written for a well-formed warning. -/
theorem validateWarning_eq_nil {item : Value} (keyed : item.Keyed) :
    validateWarning base item = [] ↔
      ∃ warning : Warning, item = warning.encode ∧ warning.WellFormed := by
  constructor
  · intro quiet
    cases keyed with
    | object fields sorted within =>
      simp only [validateWarning, Value.asObject, List.append_eq_nil_iff, checkKnown_eq_nil,
        checkRequired_nonEmpty, checkRequired_span] at quiet
      obtain ⟨⟨known, code, codeAt, codeText⟩, span, spanAt, ordered⟩ := quiet
      let warning : Warning := ⟨code, span⟩
      refine ⟨warning, ?_, codeText, ordered⟩
      have same := eq_objectOf sorted warning.distinct known warning.names ?_
      · rw [Warning.encode, objectOf, ← same]
      · obtain ⟨code, span⟩ := warning.get_members
        simp [codeAt, spanAt, code, span, warning]
    | _ => simp [validateWarning, Value.asObject] at quiet
  · rintro ⟨warning, rfl, code, span⟩
    have read := get_objectOf warning.distinct
    have known : ∀ entry ∈ extend [] warning.members, entry.1 ∈ ["code", "span"] :=
      fun entry among => warning.names entry (mem_of_objectOf among)
    obtain ⟨codeAt, spanAt⟩ := warning.get_members
    simp only [validateWarning, Warning.encode, objectOf, Value.asObject, List.append_eq_nil_iff,
      checkKnown_eq_nil, checkRequired_nonEmpty, checkRequired_span, read, codeAt, spanAt]
    exact ⟨⟨known, _, rfl, code⟩, _, rfl, span⟩

/-! ## The parts are read back -/

theorem Diagnostic.decode_encode (diagnostic : Diagnostic) :
    Diagnostic.decode diagnostic.encode = some diagnostic := by
  have read := get_objectOf diagnostic.distinct
  obtain ⟨codeAt, spanAt, severityAt, fileAt⟩ := diagnostic.get_members
  simp only [Diagnostic.decode, Diagnostic.encode, objectOf, Value.asObject, Option.bind_eq_bind,
    Option.bind_some, read, codeAt, spanAt, severityAt, fileAt]
  obtain ⟨code, span, severity, file⟩ := diagnostic
  cases file <;> rfl

theorem Warning.decode_encode (warning : Warning) :
    Warning.decode warning.encode = some warning := by
  have read := get_objectOf warning.distinct
  obtain ⟨codeAt, spanAt⟩ := warning.get_members
  simp only [Warning.decode, Warning.encode, objectOf, Value.asObject, Option.bind_eq_bind,
    Option.bind_some, read, codeAt, spanAt]
  rfl

/-- An array written item by item is read item by item. -/
theorem arrayOf_map {α : Type} {encode : α → Value} {decode : Value → Option α}
    (back : ∀ x, decode (encode x) = some x) (items : List α) :
    arrayOf decode (.array (items.map encode)) = some items := by
  have whole : (items.map encode).mapM decode = some items := by
    induction items with
    | nil => rfl
    | cons item rest ih => simp [List.mapM_cons, back, ih]
  exact whole

end WolfInterp.Protocol
