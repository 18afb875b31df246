import WolfInterp.Protocol.Language

/-!
# The validator and the wire types

The members of an object stand for a record when each field is found under its name. What stands for
a record is decoded as that record, and the validator accepts it exactly if the record is well
formed; an accepted value stands for a record whenever its `trap_message` is a text.
-/

namespace WolfInterp.Protocol

open Lib.SortedMap
open Differ (Phase Verdict)

/-- The members of an object stand for a record, whose verdict is written in the words given. -/
structure Holds (members : List (String × Value)) (record : ObservationRecord) (verdict : String) :
    Prop where
  protocol : get "protocol" members = some (encodeU64 record.protocol)
  implName : get "impl" members = some (.string record.implName)
  implVersion : get "impl_version" members = some (.string record.implVersion)
  commit : get "commit" members = some (.string record.commit)
  file : get "file" members = some (.string record.file)
  phaseReached : get "phase_reached" members = some (.string record.phaseReached.asStr)
  seeded : get "seeded" members = some (.bool record.seeded)
  files : get "files" members = record.files.map fun files => .array (files.map .string)
  diagnostics : get "diagnostics" members =
    some (.array (record.diagnostics.map Diagnostic.encode))
  warnings : get "warnings" members =
    record.warnings.map fun warnings => .array (warnings.map Warning.encode)
  verdict : get "verdict" members = some (.string verdict)
  trapMessage : nullable (get "trap_message" members) = nullable (record.trapMessage.map .string)
  stdoutSha256 : nullable (get "stdout_sha256" members) =
    nullable (record.stdoutSha256.map .string)
  stdoutInline : nullable (get "stdout_inline" members) =
    nullable (record.stdoutInline.map .string)
  extensions : extensionsOf members = record.extensions

/-- The records that may be sent, their verdict aside. -/
structure ObservationRecord.WellFormed (record : ObservationRecord) : Prop where
  protocol : record.protocol = protocolVersion
  implName : record.implName ≠ ""
  implVersion : record.implVersion ≠ ""
  commit : record.commit ≠ ""
  file : record.file ≠ ""
  files : ∀ files ∈ record.files, files ≠ [] ∧ ∀ path ∈ files, path ≠ ""
  diagnostics : ∀ diagnostic ∈ record.diagnostics,
    diagnostic.WellFormed (record.files.map List.length)
  warnings : ∀ warnings ∈ record.warnings, ∀ warning ∈ warnings, warning.WellFormed
  stdoutSha256 : ∀ digest ∈ record.stdoutSha256, isSha256 digest
  stdoutInline : ∀ output ∈ record.stdoutInline,
    output.utf8ByteSize ≤ stdoutInlineLimit ∧ record.stdoutSha256.isSome
  extensions : ∀ entry ∈ record.extensions, announced entry.1 ∧ ¬ entry.2.isNull

variable {members : List (String × Value)} {record : ObservationRecord} {verdict : String}

/-! ## Decoding what stands for a record -/

variable {entry : Option Value} {name : String} {value : Value} {check : Value → List SchemaError}
  {field : Option String}

section

variable {α : Type} {encode : α → Value} {decode : Value → Option α}
  (back : ∀ x, decode (encode x) = some x) (there : ∀ x, encode x ≠ .null)
include back there

theorem optional_of_nullable {value : Option α}
    (same : nullable entry = nullable (value.map encode)) : optional decode entry = some value := by
  cases value with
  | none =>
    obtain _ | entry := entry
    · rfl
    · have null : entry = .null := same
      rw [null]
      rfl
  | some x =>
    obtain _ | entry := entry
    · exact absurd same.symm (there x)
    · have written : entry = encode x := same
      have present := there x
      rw [written]
      unfold optional
      split
      · contradiction
      · rename_i null
        exact absurd (Option.some.inj null) present
      · rename_i shape
        rw [← Option.some.inj shape, back]
        rfl

theorem optional_of_map (value : Option α) :
    optional decode (value.map encode) = some value :=
  optional_of_nullable back there rfl

end

theorem optional_asStr {text : Option String}
    (same : nullable entry = nullable (text.map .string)) :
    optional Value.asStr entry = some text := by
  have back : ∀ text, Value.asStr (.string text) = some text := fun _ => rfl
  exact optional_of_nullable back (by simp) same

theorem Holds.decode (holds : Holds members record verdict)
    (read : Verdict.fromStr verdict = .ok record.verdict) (keyed : (Value.object members).Keyed) :
    ObservationRecord.decode ⟨.object members, keyed⟩ = some record := by
  have phase : decodePhase (.string record.phaseReached.asStr) = some record.phaseReached :=
    Phase.parseStr_asStr record.phaseReached
  have outcome : decodeVerdict (.string verdict) = some record.verdict := by
    simp [decodeVerdict, Value.asStr, read, Except.toOption]
  have texts : ∀ files : List String,
      arrayOf Value.asStr (.array (files.map .string)) = some files :=
    arrayOf_map fun _ => rfl
  have files : optional (arrayOf Value.asStr) (get "files" members) = some record.files := by
    rw [holds.files]
    exact optional_of_map texts (by simp) record.files
  have warnings : optional (arrayOf Warning.decode) (get "warnings" members) =
      some record.warnings := by
    rw [holds.warnings]
    exact optional_of_map (arrayOf_map Warning.decode_encode) (by simp) record.warnings
  have message : optional Value.asStr (get "trap_message" members) = some record.trapMessage :=
    optional_asStr holds.trapMessage
  have digest : optional Value.asStr (get "stdout_sha256" members) = some record.stdoutSha256 :=
    optional_asStr holds.stdoutSha256
  have output : optional Value.asStr (get "stdout_inline" members) = some record.stdoutInline :=
    optional_asStr holds.stdoutInline
  have extensions := holds.extensions
  simp only [ObservationRecord.decode, Option.bind_eq_bind, Option.bind_some, holds.protocol,
    holds.implName, holds.implVersion, holds.commit, holds.file, holds.phaseReached, holds.seeded,
    holds.diagnostics, holds.verdict, files, warnings, message, digest, output, phase, outcome,
    arrayOf_map Diagnostic.decode_encode]
  simp only [Value.asU64, encodeU64, Value.asStr, Value.asBool, Option.bind_some, extensions]
  rfl

/-! ## Validating what stands for a record -/

theorem mem_fieldNames {key : String} :
    key ∈ fieldNames ↔ key ∈ requiredFields ∨ key ∈ optionalFields := by
  simp only [fieldNames, requiredFields, optionalFields, List.mem_cons, List.not_mem_nil, or_false]
  grind

theorem validateExtension_eq_nil {entry : String × Value} : validateExtension entry = [] ↔
      (entry.1 ∉ fieldNames → announced entry.1 ∧ ¬ entry.2.isNull) := by
  obtain ⟨key, value⟩ := entry
  rw [mem_fieldNames, validateExtension]
  split
  · simp_all
  · split
    · simp_all
    · split <;> simp_all

theorem extensions_quiet : members.flatMap validateExtension = [] ↔
    ∀ entry ∈ extensionsOf members, announced entry.1 ∧ ¬ entry.2.isNull := by
  simp only [List.flatMap_eq_nil_iff, validateExtension_eq_nil, extensionsOf, List.mem_filter,
    decide_eq_true_eq, and_imp]

theorem checkMember_of_some (there : get name members = some value) :
    checkMember members name check = check value := by
  simp [checkMember, there]

theorem checkMember_of_map {α : Type} {encode : α → Value} {field : Option α}
    (there : get name members = field.map encode) :
    checkMember members name check = [] ↔ ∀ x ∈ field, check (encode x) = [] := by
  rw [checkMember_eq_nil, there]
  cases field <;> simp

theorem checkItems_map {α : Type} {base : String} {encode : α → Value} {items : List α}
    {check : String → Value → List SchemaError} {accepts : α → Prop}
    (exact : ∀ pointer x, check pointer (encode x) = [] ↔ accepts x) :
    checkItems base (items.map encode) check = [] ↔ ∀ x ∈ items, accepts x := by
  have item : ∀ pointer, ∀ item ∈ items.map encode,
      check pointer item = [] ↔ check "" item = [] := by
    intro pointer item among
    obtain ⟨x, _, rfl⟩ := List.mem_map.mp among
    rw [exact, exact]
  rw [checkItems_eq_nil item, List.forall_mem_map]
  exact forall₂_congr fun x _ => exact "" x

theorem validateFiles_texts {files : List String} :
    validateFiles (.array (files.map .string)) = [] ↔ files ≠ [] ∧ ∀ path ∈ files, path ≠ "" := by
  have exact : ∀ pointer path, checkNonEmpty pointer (.string path) = [] ↔ path ≠ "" := by
    simp [checkNonEmpty_eq_nil]
  simp only [validateFiles, Value.asArray, List.append_eq_nil_iff, checkItems_map exact]
  simp

theorem keyed_extend {entries : List (String × Value)} (within : ∀ entry ∈ entries, entry.2.Keyed) :
    (objectOf entries).Keyed :=
  .object _ (Sorted.extend List.Pairwise.nil entries)
    fun entry among => within entry (mem_of_objectOf among)

theorem keyed_encodeSpan (span : UInt64 × UInt64) : (encodeSpan span).Keyed := by
  refine .array _ fun item among => ?_
  simp only [List.mem_cons, List.not_mem_nil, or_false] at among
  rcases among with rfl | rfl <;> exact .number _

theorem Diagnostic.keyed (diagnostic : Diagnostic) : diagnostic.encode.Keyed := by
  apply keyed_extend
  obtain ⟨code, span, severity, file⟩ := diagnostic
  cases file <;>
    simp [Diagnostic.members, skipNone, keyed_encodeSpan, Value.Keyed.string, encodeU64,
      Value.Keyed.number]

theorem Warning.keyed (warning : Warning) : warning.encode.Keyed := by
  apply keyed_extend
  simp [Warning.members, keyed_encodeSpan, Value.Keyed.string]

/-- What is written for a diagnostic determines it. -/
theorem Diagnostic.encode_injective {diagnostic diagnostic' : Diagnostic}
    (same : diagnostic.encode = diagnostic'.encode) : diagnostic = diagnostic' := by
  rw [← Option.some_inj, ← Diagnostic.decode_encode, same, Diagnostic.decode_encode]

theorem Warning.encode_injective {warning warning' : Warning}
    (same : warning.encode = warning'.encode) : warning = warning' := by
  rw [← Option.some_inj, ← Warning.decode_encode, same, Warning.decode_encode]

theorem validateDiagnostic_encode {files : Option Nat} (pointer : String)
    (diagnostic : Diagnostic) :
    validateDiagnostic files pointer diagnostic.encode = [] ↔ diagnostic.WellFormed files := by
  rw [validateDiagnostic_eq_nil diagnostic.keyed]
  constructor
  · rintro ⟨other, same, formed⟩
    rwa [Diagnostic.encode_injective same]
  · exact fun formed => ⟨diagnostic, rfl, formed⟩

theorem validateWarning_encode (pointer : String) (warning : Warning) :
    validateWarning pointer warning.encode = [] ↔ warning.WellFormed := by
  rw [validateWarning_eq_nil warning.keyed]
  constructor
  · rintro ⟨other, same, formed⟩
    rwa [Warning.encode_injective same]
  · exact fun formed => ⟨warning, rfl, formed⟩

theorem checkMember_nullable (there : nullable (get name members) = nullable (field.map .string)) :
    (checkMember members name fun value => if value.isNull then [] else check value) = [] ↔
      ∀ text ∈ field, check (.string text) = [] := by
  unfold checkMember
  cases found : get name members <;> cases field <;>
    simp_all [nullable, Value.isNull]

theorem hasMember_nullable (there : nullable (get name members) = nullable (field.map .string)) :
    hasMember members name = field.isSome := by
  unfold hasMember
  cases found : get name members <;> cases field <;> simp_all [nullable, Value.isNull]

theorem Holds.stdout (holds : Holds members record verdict) : validateStdout members = [] ↔
    (∀ digest ∈ record.stdoutSha256, isSha256 digest) ∧ ∀ output ∈ record.stdoutInline,
        output.utf8ByteSize ≤ stdoutInlineLimit ∧ record.stdoutSha256.isSome := by
  unfold validateStdout
  rw [List.append_eq_nil_iff, List.append_eq_nil_iff, checkMember_nullable holds.stdoutSha256,
    checkMember_nullable holds.stdoutInline, hasMember_nullable holds.stdoutSha256,
    hasMember_nullable holds.stdoutInline]
  simp only [checkString, Value.asStr]
  cases record.stdoutSha256 <;> cases record.stdoutInline <;> simp

theorem fileCount_map (files : Option (List String)) :
    fileCount (files.map fun files => .array (files.map .string)) = files.map List.length := by
  cases files <;> simp [fileCount, Value.asArray]

theorem required_quiet : (requiredFields.flatMap fun field => if (get field members).isSome then []
      else [(⟨s!"/{field}", "required field is missing"⟩ : SchemaError)]) = [] ↔
    ∀ field ∈ requiredFields, (get field members).isSome := by
  rw [List.flatMap_eq_nil_iff]
  refine forall₂_congr fun field _ => ?_
  split <;> simp_all

theorem Holds.required (holds : Holds members record verdict) :
    ∀ field ∈ requiredFields, (get field members).isSome := by
  simp [requiredFields, holds.protocol, holds.implName, holds.implVersion, holds.commit,
    holds.file, holds.phaseReached, holds.seeded, holds.diagnostics, holds.verdict]

/-- The validator accepts what stands for a record exactly if the record is well formed and its
verdict is written in legal words. -/
theorem Holds.violations (holds : Holds members record verdict) : violations members = [] ↔
      record.WellFormed ∧ ∃ legal, Verdict.fromStr verdict = .ok legal := by
  have names : (["impl", "impl_version", "commit", "file"].flatMap fun field =>
      checkMember members field (checkNonEmpty s!"/{field}")) = [] ↔
        record.implName ≠ "" ∧ record.implVersion ≠ "" ∧ record.commit ≠ "" ∧ record.file ≠ "" := by
    simp [checkMember_of_some, holds.implName, holds.implVersion, holds.commit, holds.file,
      checkNonEmpty_eq_nil]
  have files : checkMember members "files" validateFiles = [] ↔
      ∀ files ∈ record.files, files ≠ [] ∧ ∀ path ∈ files, path ≠ "" := by
    rw [checkMember_of_map holds.files]
    simp only [validateFiles_texts]
  have diagnostics : checkMember members "diagnostics"
      (validateDiagnostics (fileCount (get "files" members))) = [] ↔
        ∀ diagnostic ∈ record.diagnostics,
          diagnostic.WellFormed (record.files.map List.length) := by
    rw [checkMember_of_some holds.diagnostics, holds.files, fileCount_map]
    simp only [validateDiagnostics, Value.asArray]
    exact checkItems_map validateDiagnostic_encode
  have warnings : checkMember members "warnings" validateWarnings = [] ↔
      ∀ warnings ∈ record.warnings, ∀ warning ∈ warnings, warning.WellFormed := by
    rw [checkMember_of_map holds.warnings]
    simp only [validateWarnings, Value.asArray, checkItems_map validateWarning_encode]
  have extensions : members.flatMap validateExtension = [] ↔
      ∀ entry ∈ record.extensions, announced entry.1 ∧ ¬ entry.2.isNull := by
    rw [extensions_quiet, holds.extensions]
  have protocol : checkMember members "protocol" validateProtocol = [] ↔
      record.protocol = protocolVersion := by
    simp [checkMember_of_some holds.protocol, validateProtocol, encodeU64, Value.asU64]
  simp only [Protocol.violations, List.append_eq_nil_iff, required_quiet, names, files, diagnostics,
    warnings, extensions, protocol, holds.stdout, checkMember_of_some holds.phaseReached,
    checkMember_of_some holds.seeded, checkMember_of_some holds.verdict, checkString, Value.asStr,
    Phase.parseStr_asStr, Value.isBoolean, if_true]
  constructor
  · rintro
      ⟨⟨⟨⟨⟨⟨⟨⟨⟨⟨_, extensions⟩, protocol⟩, implName, implVersion, commit, file⟩, _⟩, _⟩, legal⟩,
      files⟩, diagnostics⟩, warnings⟩, stdoutSha256, stdoutInline⟩
    refine ⟨{ protocol, implName, implVersion, commit, file, files, diagnostics, warnings
              stdoutSha256, stdoutInline, extensions }, ?_⟩
    split at legal
    · exact ⟨_, ‹_›⟩
    · cases legal
  · rintro ⟨formed, legal, read⟩
    simp only [read]
    exact ⟨⟨⟨⟨⟨⟨⟨⟨⟨⟨holds.required, formed.extensions⟩, formed.protocol⟩, formed.implName,
      formed.implVersion, formed.commit, formed.file⟩, trivial⟩, trivial⟩, trivial⟩,
      formed.files⟩, formed.diagnostics⟩, formed.warnings⟩, formed.stdoutSha256,
      formed.stdoutInline⟩

/-! ## What is accepted stands for a record -/

/-- A `trap_message` that is absent, null or a text. -/
def MessageText (members : List (String × Value)) : Prop :=
  ∀ value, get "trap_message" members = some value → value = .null ∨ ∃ text, value = .string text

theorem exists_of_quiet {accepts : Value → Prop} (exact : ∀ value, check value = [] → accepts value)
    (there : (get name members).isSome) (quiet : checkMember members name check = []) :
    ∃ value, get name members = some value ∧ accepts value := by
  obtain ⟨value, found⟩ := Option.isSome_iff_exists.mp there
  exact ⟨value, found, exact value (checkMember_eq_nil.mp quiet value found)⟩

theorem nullable_text
    (message : ∀ value, entry = some value → value = .null ∨ ∃ text, value = .string text) :
    ∃ field : Option String, nullable entry = nullable (field.map .string) := by
  cases entry with
  | none => exact ⟨none, rfl⟩
  | some value =>
    rcases message value rfl with rfl | ⟨text, rfl⟩
    · exact ⟨none, rfl⟩
    · exact ⟨some text, rfl⟩

/-- Items that are each written for something are written for a list. -/
theorem items_written {α : Type} {encode : α → Value} {base : String} {items : List Value}
    {check : String → Value → List SchemaError} (quiet : checkItems base items check = [])
    (exact : ∀ pointer, ∀ item ∈ items, check pointer item = [] → ∃ x, item = encode x) :
    ∃ xs : List α, items = xs.map encode := by
  have written : ∀ item ∈ items, ∃ x, item = encode x := by
    intro item among
    obtain ⟨index, place⟩ := List.mem_iff_getElem?.mp among
    refine exact _ item among (List.flatMap_eq_nil_iff.mp quiet (item, index) ?_)
    exact List.mem_zipIdx_iff_getElem?.mpr place
  clear quiet exact
  induction items with
  | nil => exact ⟨[], rfl⟩
  | cons item rest ih =>
    obtain ⟨⟨x, rfl⟩, tail⟩ := List.forall_mem_cons.mp written
    obtain ⟨xs, rfl⟩ := ih tail
    exact ⟨x :: xs, rfl⟩

theorem validateFiles_written {entry : Value} (quiet : validateFiles entry = []) :
    ∃ files : List String, entry = .array (files.map .string) := by
  unfold validateFiles at quiet
  split at quiet
  · cases quiet
  · rename_i items shape
    obtain ⟨_, items⟩ := List.append_eq_nil_iff.mp quiet
    obtain ⟨files, rfl⟩ := items_written items fun pointer item _ quiet =>
      (checkNonEmpty_eq_nil.mp quiet).imp fun _ => And.left
    exact ⟨files, asArray_eq_some.mp shape⟩

theorem keyed_items {items : List Value} (keyed : (Value.array items).Keyed) :
    ∀ item ∈ items, item.Keyed := by
  cases keyed with
  | array _ within => exact within

theorem validateDiagnostics_written {files : Option Nat} {entry : Value} (keyed : entry.Keyed)
    (quiet : validateDiagnostics files entry = []) :
    ∃ diagnostics : List Diagnostic, entry = .array (diagnostics.map Diagnostic.encode) := by
  unfold validateDiagnostics at quiet
  split at quiet
  · cases quiet
  · rename_i items shape
    rw [asArray_eq_some.mp shape] at keyed ⊢
    obtain ⟨diagnostics, rfl⟩ := items_written quiet fun pointer item among quiet =>
      ((validateDiagnostic_eq_nil (keyed_items keyed item among)).mp quiet).imp fun _ => And.left
    exact ⟨diagnostics, rfl⟩

theorem validateWarnings_written {entry : Value} (keyed : entry.Keyed)
    (quiet : validateWarnings entry = []) :
    ∃ warnings : List Warning, entry = .array (warnings.map Warning.encode) := by
  unfold validateWarnings at quiet
  split at quiet
  · cases quiet
  · rename_i items shape
    rw [asArray_eq_some.mp shape] at keyed ⊢
    obtain ⟨warnings, rfl⟩ := items_written quiet fun pointer item among quiet =>
      ((validateWarning_eq_nil (keyed_items keyed item among)).mp quiet).imp fun _ => And.left
    exact ⟨warnings, rfl⟩

theorem checkMember_written {α : Type} {encode : α → Value}
    (quiet : checkMember members name check = [])
    (exact : ∀ value, get name members = some value → check value = [] → ∃ x, value = encode x) :
    ∃ field : Option α, get name members = field.map encode := by
  cases found : get name members with
  | none => exact ⟨none, rfl⟩
  | some value =>
    obtain ⟨x, rfl⟩ := exact value found (checkMember_eq_nil.mp quiet value found)
    exact ⟨some x, rfl⟩

theorem validateProtocol_written (quiet : validateProtocol value = []) :
    value = encodeU64 protocolVersion := by
  unfold validateProtocol at quiet
  split at quiet
  · rename_i version number
    split at quiet
    · rename_i same
      rw [asU64_eq_some.mp number, same]
    · cases quiet
  · cases quiet

theorem nullable_written {check : String → List SchemaError} {pointer : String}
    (quiet : (checkMember members name fun value =>
      if value.isNull then [] else checkString pointer value check) = []) :
    ∃ field : Option String, nullable (get name members) = nullable (field.map .string) := by
  apply nullable_text
  intro value found
  have accepted := checkMember_eq_nil.mp quiet value found
  cases value with
  | null => exact .inl rfl
  | string text => exact .inr ⟨text, rfl⟩
  | _ => simp [Value.isNull, checkString, Value.asStr] at accepted

/-- An object that the validator accepts stands for a record, if its `trap_message` is a text. -/
theorem holds_of_quiet (keyed : (Value.object members).Keyed) (quiet : violations members = [])
    (message : MessageText members) : ∃ record verdict,
      Holds members record verdict ∧ Verdict.fromStr verdict = .ok record.verdict := by
  obtain ⟨sorted, within⟩ : Sorted members ∧ ∀ entry ∈ members, entry.2.Keyed := by
    cases keyed with
    | object _ sorted within => exact ⟨sorted, within⟩
  simp only [violations, List.append_eq_nil_iff, required_quiet] at quiet
  obtain ⟨⟨⟨⟨⟨⟨⟨⟨⟨⟨required, _⟩, protocol⟩, names⟩, phase⟩, seeded⟩, legal⟩, files⟩, diagnostics⟩,
    warnings⟩, stdout⟩ := quiet
  simp only [List.flatMap_eq_nil_iff] at names
  have there : ∀ field ∈ requiredFields, (get field members).isSome := required
  have name : ∀ field ∈ ["impl", "impl_version", "commit", "file"],
      ∃ text, get field members = some (.string text) := by
    intro field among
    have required : field ∈ requiredFields := by
      revert field
      decide
    obtain ⟨value, found, text, rfl, _⟩ := exists_of_quiet (fun _ => checkNonEmpty_eq_nil.mp)
      (there field required) (names field among)
    exact ⟨text, found⟩
  obtain ⟨_, protocolAt, rfl⟩ :=
    exists_of_quiet (fun _ => validateProtocol_written) (there "protocol" (by decide)) protocol
  obtain ⟨implName, implNameAt⟩ := name "impl" (by decide)
  obtain ⟨implVersion, implVersionAt⟩ := name "impl_version" (by decide)
  obtain ⟨commit, commitAt⟩ := name "commit" (by decide)
  obtain ⟨file, fileAt⟩ := name "file" (by decide)
  obtain ⟨rung, rungAt⟩ : ∃ rung : Phase,
      get "phase_reached" members = some (.string rung.asStr) := by
    obtain ⟨value, found⟩ := Option.isSome_iff_exists.mp (there "phase_reached" (by decide))
    obtain ⟨text, rfl, read⟩ := checkString_eq_nil.mp (checkMember_eq_nil.mp phase value found)
    split at read
    · rename_i rung parsed
      exact ⟨rung, by rw [found, Phase.asStr_of_parseStr parsed]⟩
    · cases read
  obtain ⟨flag, flagAt⟩ : ∃ flag, get "seeded" members = some (.bool flag) := by
    obtain ⟨value, found⟩ := Option.isSome_iff_exists.mp (there "seeded" (by decide))
    have accepted := checkMember_eq_nil.mp seeded value found
    cases value with
    | bool flag => exact ⟨flag, found⟩
    | _ => simp [Value.isBoolean] at accepted
  obtain ⟨verdict, outcome, verdictAt, read⟩ : ∃ verdict outcome,
      get "verdict" members = some (.string verdict) ∧ Verdict.fromStr verdict = .ok outcome := by
    obtain ⟨value, found⟩ := Option.isSome_iff_exists.mp (there "verdict" (by decide))
    obtain ⟨text, rfl, read⟩ := checkString_eq_nil.mp (checkMember_eq_nil.mp legal value found)
    split at read
    · exact ⟨text, _, found, ‹_›⟩
    · cases read
  obtain ⟨table, tableAt⟩ := checkMember_written files fun _ _ => validateFiles_written
  obtain ⟨_, listAt, diagnostics, rfl⟩ : ∃ value, get "diagnostics" members = some value ∧
      ∃ diagnostics : List Diagnostic, value = .array (diagnostics.map Diagnostic.encode) := by
    obtain ⟨value, found⟩ := Option.isSome_iff_exists.mp (there "diagnostics" (by decide))
    exact ⟨value, found, validateDiagnostics_written (within _ (mem_of_get found))
      (checkMember_eq_nil.mp diagnostics value found)⟩
  obtain ⟨warnings, warningsAt⟩ := checkMember_written warnings fun value found =>
    validateWarnings_written (within _ (mem_of_get found))
  simp only [validateStdout, List.append_eq_nil_iff] at stdout
  obtain ⟨digest, digestAt⟩ := nullable_written stdout.1.1
  obtain ⟨output, outputAt⟩ := nullable_written stdout.1.2
  obtain ⟨words, wordsAt⟩ := nullable_text message
  let record : ObservationRecord := {
    protocol := protocolVersion, implName, implVersion, commit, file, phaseReached := rung
    seeded := flag, files := table, diagnostics, warnings, verdict := outcome
    trapMessage := words, stdoutSha256 := digest, stdoutInline := output
    extensions := extensionsOf members
    sorted := sorted_extensionsOf sorted
    keyed := fun entry among => within entry (List.mem_filter.mp among).1 }
  exact ⟨record, verdict, {
    protocol := protocolAt, implName := implNameAt, implVersion := implVersionAt
    commit := commitAt, file := fileAt, phaseReached := rungAt, seeded := flagAt
    files := tableAt, diagnostics := listAt, warnings := warningsAt, verdict := verdictAt
    trapMessage := wordsAt, stdoutSha256 := digestAt, stdoutInline := outputAt
    extensions := rfl }, read⟩

/-! ## What a record is written as -/

theorem get_skipNone (key name : String) (value : Option Value) :
    get key (skipNone name value) = if name = key then value else none := by
  cases value <;> simp [skipNone, get_cons]

namespace ObservationRecord

variable (record : ObservationRecord)

theorem fields_named : ∀ entry ∈ record.fields, entry.1 ∈ fieldNames := by
  simp only [fields, skipNone, List.forall_mem_append, List.forall_mem_map]
  simp [fieldNames]

theorem fields_distinct : (record.fields.map Prod.fst).Nodup := by
  have skip : ∀ name value, ((skipNone name value).map Prod.fst).Sublist [name] := by
    intro name value
    cases value <;> simp [skipNone]
  have names : (record.fields.map Prod.fst).Sublist fieldNames := by
    simp only [fields, List.map_append]
    refine ((((((List.Sublist.refl _).append (skip "files" _)).append (.refl _)).append
      (skip "warnings" _)).append (.refl _)).append (skip "trap_message" _)).append (.refl _)
  exact names.nodup (by decide)

/-- What the fields are written as, each under its name. -/
theorem get_fields : get "protocol" record.fields = some (encodeU64 record.protocol) ∧
    get "impl" record.fields = some (.string record.implName) ∧
    get "impl_version" record.fields = some (.string record.implVersion) ∧
    get "commit" record.fields = some (.string record.commit) ∧
    get "file" record.fields = some (.string record.file) ∧
    get "phase_reached" record.fields = some (.string record.phaseReached.asStr) ∧
    get "seeded" record.fields = some (.bool record.seeded) ∧
    get "files" record.fields = (record.files.map fun files => .array (files.map .string)) ∧
    get "diagnostics" record.fields = some (.array (record.diagnostics.map Diagnostic.encode)) ∧
    get "warnings" record.fields =
      (record.warnings.map fun warnings => .array (warnings.map Warning.encode)) ∧
    get "verdict" record.fields = some (.string record.verdict.toString) ∧
    get "trap_message" record.fields = record.trapMessage.map .string ∧
    get "stdout_sha256" record.fields = some (nullable (record.stdoutSha256.map .string)) ∧
    get "stdout_inline" record.fields = some (nullable (record.stdoutInline.map .string)) := by
  simp [fields, get_append, get_skipNone, get_cons]

end ObservationRecord

/-- Extension keys are announced, so no extension has the name of a field. -/
theorem not_field_of_announced {key : String} (announces : announced key) : key ∉ fieldNames := by
  intro named
  have plain : ∀ key ∈ fieldNames, announced key = false := by decide
  rw [plain key named] at announces
  cases announces

section Written

variable (extensions : ∀ entry ∈ record.extensions, entry.1 ∉ fieldNames)
include extensions

theorem members_distinct : ((record.fields ++ record.extensions).map Prod.fst).Nodup := by
  rw [List.map_append, List.nodup_append']
  refine ⟨record.fields_distinct, record.sorted.nodup, ?_⟩
  rintro key field extension
  obtain ⟨entry, among, rfl⟩ := List.mem_map.mp field
  obtain ⟨entry', among', same⟩ := List.mem_map.mp extension
  exact extensions entry' among' (same ▸ record.fields_named entry among)

theorem get_written (key : String) : get key (extend [] (record.fields ++ record.extensions)) =
      if key ∈ fieldNames then get key record.fields else get key record.extensions := by
  rw [get_objectOf (members_distinct extensions), get_append]
  split
  · rename_i named
    have absent : get key record.extensions = none := by
      apply get_eq_none.mpr
      rintro entry among rfl
      exact extensions entry among named
    rw [absent, Option.or_none]
  · rename_i unnamed
    have absent : get key record.fields = none := by
      apply get_eq_none.mpr
      rintro entry among rfl
      exact unnamed (record.fields_named entry among)
    rw [absent, Option.none_or]

theorem holds_written :
    Holds (extend [] (record.fields ++ record.extensions)) record record.verdict.toString := by
  have read : ∀ key ∈ fieldNames,
      get key (extend [] (record.fields ++ record.extensions)) = get key record.fields := by
    intro key named
    rw [get_written extensions, if_pos named]
  obtain ⟨protocol, implName, implVersion, commit, file, phaseReached, seeded, files, diagnostics,
    warnings, verdict, trapMessage, stdoutSha256, stdoutInline⟩ := record.get_fields
  have rest : extensionsOf (extend [] (record.fields ++ record.extensions)) =
      record.extensions := by
    refine (sorted_extensionsOf (Sorted.extend List.Pairwise.nil _)).ext record.sorted fun key => ?_
    rw [extensionsOf, get_filter key (fun name => decide (name ∉ fieldNames)),
      get_written extensions]
    by_cases named : key ∈ fieldNames
    · have absent : get key record.extensions = none := by
        apply get_eq_none.mpr
        rintro entry among rfl
        exact extensions entry among named
      simp [named, absent]
    · simp [named]
  have field : ∀ {key : String} {value : Option Value}, key ∈ fieldNames →
      get key record.fields = value →
        get key (extend [] (record.fields ++ record.extensions)) = value :=
    fun named written => (read _ named).trans written
  exact {
    protocol := field (by decide) protocol, implName := field (by decide) implName
    implVersion := field (by decide) implVersion, commit := field (by decide) commit
    file := field (by decide) file, phaseReached := field (by decide) phaseReached
    seeded := field (by decide) seeded, files := field (by decide) files
    diagnostics := field (by decide) diagnostics, warnings := field (by decide) warnings
    verdict := field (by decide) verdict
    trapMessage := congrArg nullable (field (by decide) trapMessage)
    stdoutSha256 := congrArg nullable (field (by decide) stdoutSha256) |>.trans rfl
    stdoutInline := congrArg nullable (field (by decide) stdoutInline) |>.trans rfl
    extensions := rest }

end Written

/-! ## What an accepted value is written back as -/

/-- A member that is absent is written as null. -/
def fillAbsent (name : String) (members : List (String × Value)) : List (String × Value) :=
  if (get name members).isSome then members else insert name .null members

/-- A member that is null is not written. -/
def dropNull (name : String) (members : List (String × Value)) : List (String × Value) :=
  if (get name members).any Value.isNull then erase name members else members

/-- An object with both members for the program's output, and no null `trap_message`. -/
def completed (members : List (String × Value)) : List (String × Value) :=
  fillAbsent "stdout_sha256" (fillAbsent "stdout_inline" (dropNull "trap_message" members))

theorem get_fillAbsent (key name : String) (members : List (String × Value)) :
    get key (fillAbsent name members) =
      if name = key then some (nullable (get name members)) else get key members := by
  unfold fillAbsent
  split
  · rename_i there
    obtain ⟨value, found⟩ := Option.isSome_iff_exists.mp there
    split
    · rename_i same
      rw [← same, found]
      rfl
    · rfl
  · rename_i absent
    rw [get_insert, Option.not_isSome_iff_eq_none.mp absent]
    rfl

theorem get_dropNull (key name : String) (members : List (String × Value)) :
    get key (dropNull name members) =
      if name = key then (get name members).filter (!·.isNull) else get key members := by
  unfold dropNull
  cases found : get name members with
  | none => grind
  | some value =>
    rw [Option.any_some, Option.filter_some]
    cases null : value.isNull <;> by_cases same : name = key
    · simp [← same, found]
    · simp [same]
    · simp [← same, get_erase]
    · simp [same, get_erase, Ne.symm same]

theorem sorted_completed (sorted : Sorted members) : Sorted (completed members) := by
  have fill : ∀ {members : List (String × Value)} (name : String), Sorted members →
      Sorted (fillAbsent name members) := by
    intro members name sorted
    unfold fillAbsent
    split
    · exact sorted
    · exact sorted.insert name .null
  apply fill
  apply fill
  unfold dropNull
  split
  · exact sorted.filter _
  · exact sorted

theorem get_completed (key : String) (members : List (String × Value)) :
    get key (completed members) =
      if key = "stdout_sha256" ∨ key = "stdout_inline" then some (nullable (get key members))
      else if key = "trap_message" then (get key members).filter (!·.isNull)
      else get key members := by
  simp only [completed, get_fillAbsent, get_dropNull]
  by_cases digest : key = "stdout_sha256"
  · simp [digest]
  · by_cases output : key = "stdout_inline"
    · simp [output]
    · by_cases message : key = "trap_message" <;>
        simp [digest, output, message, Ne.symm digest, Ne.symm output, eq_comm]

theorem filter_of_nullable (same : nullable entry = nullable (field.map .string)) :
    entry.filter (!·.isNull) = field.map .string := by
  cases entry <;> cases field <;> simp_all [nullable, Value.isNull]

/-- What stands for a record is, completed, what the record is written as. -/
theorem Holds.encode (holds : Holds members record record.verdict.toString)
    (sorted : Sorted members) : record.encode = .object (completed members) := by
  have extensions : ∀ entry ∈ record.extensions, entry.1 ∉ fieldNames := by
    rw [← holds.extensions]
    intro entry among
    simpa [extensionsOf] using (List.mem_filter.mp among).2
  refine congrArg Value.object ?_
  refine (Sorted.extend List.Pairwise.nil _).ext (sorted_completed sorted) fun key => ?_
  rw [get_written extensions, get_completed]
  by_cases named : key ∈ fieldNames
  · rw [if_pos named]
    revert key
    obtain ⟨protocol, implName, implVersion, commit, file, phaseReached, seeded, files, diagnostics,
      warnings, verdict, trapMessage, stdoutSha256, stdoutInline⟩ := record.get_fields
    simp only [fieldNames, List.forall_mem_cons, protocol, implName, implVersion, commit, file,
      phaseReached, seeded, files, diagnostics, warnings, verdict, trapMessage, stdoutSha256,
      stdoutInline, holds.protocol, holds.implName, holds.implVersion, holds.commit, holds.file,
      holds.phaseReached, holds.seeded, holds.files, holds.diagnostics, holds.warnings,
      holds.verdict, filter_of_nullable holds.trapMessage, holds.stdoutSha256, holds.stdoutInline]
    simp
  · rw [if_neg named]
    have unread : ¬ (key = "stdout_sha256" ∨ key = "stdout_inline") ∧ key ≠ "trap_message" := by
      constructor
      · rintro (rfl | rfl) <;> exact named (by decide)
      · rintro rfl
        exact named (by decide)
    rw [if_neg unread.1, if_neg unread.2, ← holds.extensions, extensionsOf,
      get_filter key (fun name => decide (name ∉ fieldNames))]
    simp [named]

/-! ## One language -/

theorem validate_eq_ok :
    validate value = .ok () ↔ ∃ members, value = .object members ∧ violations members = [] := by
  unfold validate
  cases value <;> simp [Value.asObject]
  split <;> simp_all

/-- A value the validator accepts is decoded when its `trap_message` is a text, and is written back
completed when its status is in canonical decimal; and the encoding of a record with announced
extensions is accepted exactly if the record is well formed and its verdict legal. -/
theorem validator_agrees :
    (∀ value : Json, validate value.1 = .ok () → ∃ members, value.1 = .object members ∧
      (MessageText members →
        (∀ verdict, get "verdict" members = some (.string verdict) → PlainVerdict verdict) →
          ∃ record, ObservationRecord.decode value = some record ∧
            record.encode = .object (completed members))) ∧
    ∀ record : ObservationRecord, (∀ entry ∈ record.extensions, announced entry.1) →
      (validate record.encode = .ok () ↔ record.WellFormed ∧ Verdict.Legal record.verdict) := by
  constructor
  · rintro ⟨value, keyed⟩ accepted
    obtain ⟨members, rfl, quiet⟩ := validate_eq_ok.mp accepted
    refine ⟨members, rfl, fun message plain => ?_⟩
    obtain ⟨record, verdict, holds, read⟩ := holds_of_quiet keyed quiet message
    have words := toString_of_fromStr (plain verdict holds.verdict) read
    have sorted : Sorted members := by
      cases keyed with
      | object _ sorted _ => exact sorted
    refine ⟨record, holds.decode read keyed, ?_⟩
    rw [← words] at holds
    exact holds.encode sorted
  · intro record announces
    have unnamed : ∀ entry ∈ record.extensions, entry.1 ∉ fieldNames :=
      fun entry among => not_field_of_announced (announces entry among)
    have holds := holds_written unnamed
    obtain ⟨reads, refuses⟩ := fromStr_toString record.verdict
    have legal : (∃ legal, Verdict.fromStr record.verdict.toString = .ok legal) ↔
        Verdict.Legal record.verdict := by
      constructor
      · rintro ⟨legal, read⟩
        by_contra illegal
        obtain ⟨message, refused⟩ := refuses illegal
        rw [read] at refused
        cases refused
      · exact fun legal => ⟨_, reads legal⟩
    rw [← legal, ← holds.violations, validate_eq_ok]
    constructor
    · rintro ⟨members, same, quiet⟩
      rw [ObservationRecord.encode, objectOf, Value.object.injEq] at same
      rwa [same]
    · exact fun quiet => ⟨_, rfl, quiet⟩

/-- A record of a program that ran to completion and wrote nothing. -/
def quietRecord (protocol : UInt64) : ObservationRecord where
  protocol := protocol
  implName := "wolf-interp"
  implVersion := "0.1.40"
  commit := "abc1234"
  file := "corpus/hello.lu"
  phaseReached := .run
  seeded := false
  files := none
  diagnostics := []
  warnings := none
  verdict := .exit 0
  trapMessage := none
  stdoutSha256 := none
  stdoutInline := none
  extensions := []
  sorted := List.Pairwise.nil
  keyed := by simp

/-- The same record without the two members for its output. -/
def withoutOutput : List (String × Value) :=
  [("commit", .string "abc1234"), ("diagnostics", .array []), ("file", .string "corpus/hello.lu"),
    ("impl", .string "wolf-interp"), ("impl_version", .string "0.1.40"),
    ("phase_reached", .string "run"), ("protocol", .number (.posInt 1)), ("seeded", .bool false),
    ("verdict", .string "exit(0)")]

theorem keyed_withoutOutput : (Value.object withoutOutput).Keyed := by
  refine .object _ ?_ ?_
  · unfold Sorted withoutOutput
    decide
  · have empty : (Value.array []).Keyed := .array _ (by simp)
    simp only [withoutOutput, List.forall_mem_cons]
    exact ⟨.string _, empty, .string _, .string _, .string _, .string _, .number _, .bool _,
      .string _, by simp⟩

theorem holds_withoutOutput : Holds withoutOutput (quietRecord 1) "exit(0)" := by
  constructor <;> simp [withoutOutput, get_cons, quietRecord, nullable, encodeU64, extensionsOf,
    fieldNames, Phase.asStr]

theorem quietRecord_wellFormed : (quietRecord 1).WellFormed := by
  constructor <;> simp [quietRecord, protocolVersion]

theorem validate_withoutOutput : validate (.object withoutOutput) = .ok () := by
  refine validate_eq_ok.mpr
    ⟨_, rfl, holds_withoutOutput.violations.mpr ⟨quietRecord_wellFormed, ?_⟩⟩
  exact ⟨_, (fromStr_toString (.exit 0)).1 trivial⟩

/-- Absent output members come back as null, and a record of another protocol version is refused. -/
theorem validator_disagrees : (∃ value : Json, validate value.1 = .ok () ∧
      ¬ ∃ record, ObservationRecord.decode value = some record ∧ record.encode = value.1) ∧
    ∃ record : ObservationRecord, (record.implName ≠ "" ∧ record.implVersion ≠ "" ∧
        record.commit ≠ "" ∧ record.file ≠ "" ∧ record.files = none ∧ record.diagnostics = [] ∧
        record.warnings = none ∧ record.extensions = []) ∧ validate record.encode ≠ .ok () := by
  have exit : Verdict.fromStr "exit(0)" = .ok (.exit 0) := (fromStr_toString (.exit 0)).1 trivial
  refine ⟨⟨⟨.object withoutOutput, keyed_withoutOutput⟩, validate_withoutOutput, ?_⟩,
    quietRecord 2, by simp [quietRecord], ?_⟩
  · rintro ⟨record, read, written⟩
    rw [holds_withoutOutput.decode exit keyed_withoutOutput] at read
    cases read
    have read := congrArg (fun value => value.asObject.bind (get "stdout_sha256")) written
    have bare : ∀ entry ∈ (quietRecord 1).extensions, entry.1 ∉ fieldNames := by simp [quietRecord]
    rw [ObservationRecord.encode, objectOf] at read
    simp [Value.asObject, get_written bare, fieldNames, (quietRecord 1).get_fields, withoutOutput,
      get_cons] at read
  · intro accepted
    obtain ⟨members, same, quiet⟩ := validate_eq_ok.mp accepted
    rw [ObservationRecord.encode, objectOf, Value.object.injEq] at same
    have bare : ∀ entry ∈ (quietRecord 2).extensions, entry.1 ∉ fieldNames := by simp [quietRecord]
    have holds := holds_written bare
    rw [← same] at quiet
    have version := (holds.violations.mp quiet).1.protocol
    simp [quietRecord, protocolVersion] at version

theorem validator_agrees_quiet :
    (∃ record, ObservationRecord.decode ⟨.object withoutOutput, keyed_withoutOutput⟩ = some record ∧
      record.encode = .object (completed withoutOutput)) ∧
    validate (quietRecord 1).encode = .ok () := by
  constructor
  · obtain ⟨members, same, agrees⟩ := validator_agrees.1
      ⟨.object withoutOutput, keyed_withoutOutput⟩ validate_withoutOutput
    obtain rfl := Value.object.inj same
    refine agrees ?_ ?_
    · intro value found
      simp [withoutOutput, get_cons] at found
    · intro verdict found
      obtain rfl : "exit(0)" = verdict := by simpa [withoutOutput, get_cons] using found
      exact plain_toString (.exit 0)
  · exact (validator_agrees.2 (quietRecord 1) (by simp [quietRecord])).mpr
      ⟨quietRecord_wellFormed, trivial⟩

end WolfInterp.Protocol
