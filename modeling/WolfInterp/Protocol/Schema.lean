import WolfInterp.Protocol.Record

/-!
# The record validator

The checks of an observation record over raw JSON. Every check answers the list of its complaints,
each located by a JSON pointer, and a record is accepted when no check complains.
-/

namespace WolfInterp.Protocol

open Lib.SortedMap
open Differ (Phase Verdict)

/-- The only protocol version this implementation speaks. -/
def protocolVersion : UInt64 := 1

/-- The fields marked required, in spec order. -/
def requiredFields : List String :=
  ["protocol", "impl", "impl_version", "commit", "file", "phase_reached", "seeded", "diagnostics",
    "verdict"]

/-- Fields that are optional, but reserved. -/
def optionalFields : List String :=
  ["stdout_sha256", "stdout_inline", "warnings", "trap_message", "files"]

/-- Inline output is included up to so many bytes. -/
def stdoutInlineLimit : Nat := 4096

/-- One reason a record is not valid, located by JSON pointer. -/
structure SchemaError where
  pointer : String
  message : String
  deriving DecidableEq

def kindOf : Value → String
  | .null => "null"
  | .bool _ => "a boolean"
  | .number _ => "a number"
  | .string _ => "a string"
  | .array _ => "an array"
  | .object _ => "an object"

/-- The check of a value that must be a string. -/
def checkString (pointer : String) (value : Value) (check : String → List SchemaError) :
    List SchemaError :=
  match value.asStr with
  | some text => check text
  | none => [⟨pointer, s!"expected a string, found {kindOf value}"⟩]

def checkNonEmpty (pointer : String) (value : Value) : List SchemaError :=
  checkString pointer value fun text =>
    if text.isEmpty then [⟨pointer, "must not be empty"⟩] else []

/-- The check of a member that is there. -/
def checkMember (members : List (String × Value)) (name : String)
    (check : Value → List SchemaError) : List SchemaError :=
  match get name members with
  | some value => check value
  | none => []

/-- The check of a member that must be there. -/
def checkRequired (base : String) (members : List (String × Value)) (name : String)
    (check : String → Value → List SchemaError) : List SchemaError :=
  match get name members with
  | some value => check s!"{base}/{name}" value
  | none => [⟨s!"{base}/{name}", "required field is missing"⟩]

/-- The checks of an array's items, each at its index. -/
def checkItems (base : String) (items : List Value) (check : String → Value → List SchemaError) :
    List SchemaError :=
  items.zipIdx.flatMap fun (item, index) => check s!"{base}/{index}" item

/-- The complaints about an object's members outside a list of names. -/
def checkKnown (names : List String) (fields : List (String × Value))
    (complaint : String → SchemaError) : List SchemaError :=
  (fields.filter fun entry => entry.1 ∉ names).map fun entry => complaint entry.1

def validateSpan (pointer : String) (span : Value) : List SchemaError :=
  match span.asArray with
  | none => [⟨pointer, s!"expected a two-element byte-offset span, found {kindOf span}"⟩]
  | some [start, stop] => match start.asU64, stop.asU64 with
      | none, _ =>
        [⟨s!"{pointer}/0", s!"expected a non-negative byte offset, found {kindOf start}"⟩]
      | some _, none =>
        [⟨s!"{pointer}/1", s!"expected a non-negative byte offset, found {kindOf stop}"⟩]
      | some first, some last =>
        if last < first then
          [⟨pointer, s!"span start {first.toNat} is past its end {last.toNat}"⟩]
        else []
  | some bounds => [⟨pointer, s!"a span is [start, end); found {bounds.length} element(s)"⟩]

/-- The file table's complaints. -/
def validateFiles (entry : Value) : List SchemaError :=
  match entry.asArray with
  | none =>
    [⟨"/files", s!"expected an array of package-relative paths, found {kindOf entry}"⟩]
  | some items =>
    (if items.isEmpty then
      [⟨"/files",
        "a file table is present only when it indexes something; the entry is index 0"⟩]
    else []) ++ checkItems "/files" items checkNonEmpty

/-- How many entries a diagnostic's `file` may index: `none` when there is no table. -/
def fileCount : Option Value → Option Nat
  | none => none
  | some entry => match entry.asArray with
      | none => some 0
      | some items => some items.length

/-- The `file` of a diagnostic against the record's table. -/
def validateFileIndex (pointer : String) (files : Option Nat) : Option Value → List SchemaError
  | some file => match file.asU64, files with
      | none, _ => [⟨pointer, s!"expected an integer index into `files`, found {kindOf file}"⟩]
      | some _, none => [⟨pointer, "a `file` index with no `files` table indexes nothing"⟩]
      | some index, some count =>
        if count ≤ index.toNat then
          [⟨pointer, s!"index {index.toNat} is past the end of `files` ({count} entries)"⟩]
        else []
  | none =>
    if files.isSome then
      [⟨pointer, "the record carries `files`, so every diagnostic carries a `file` index"⟩]
    else []

def validateDiagnostic (files : Option Nat) (base : String) (item : Value) : List SchemaError :=
  match item.asObject with
  | none => [⟨base, s!"expected an object, found {kindOf item}"⟩]
  | some fields =>
    (checkKnown ["code", "span", "severity", "file"] fields fun key =>
      ⟨s!"{base}/{key}", "a protocol diagnostic carries only `code`, `span`, `severity` " ++
        "and, in a multi-file record, `file` (messages are never part of the protocol)"⟩) ++
    validateFileIndex s!"{base}/file" files (get "file" fields) ++
    checkRequired base fields "code" checkNonEmpty ++
    checkRequired base fields "severity" checkNonEmpty ++
    checkRequired base fields "span" validateSpan

def validateDiagnostics (files : Option Nat) (entry : Value) : List SchemaError :=
  match entry.asArray with
  | none => [⟨"/diagnostics", s!"expected an array, found {kindOf entry}"⟩]
  | some items => checkItems "/diagnostics" items (validateDiagnostic files)

def validateWarning (base : String) (item : Value) : List SchemaError :=
  match item.asObject with
  | none => [⟨base, s!"expected an object, found {kindOf item}"⟩]
  | some fields =>
    (checkKnown ["code", "span"] fields fun key =>
      ⟨s!"{base}/{key}", "a warning observation carries only `code` and `span` — " ++
        "severity is not repeated ([proto.record.warn])"⟩) ++
    checkRequired base fields "code" checkNonEmpty ++
    checkRequired base fields "span" validateSpan

def validateWarnings (entry : Value) : List SchemaError :=
  match entry.asArray with
  | none => [⟨"/warnings",
      s!"expected an array of \x7bcode, span\x7d entries, found {kindOf entry}"⟩]
  | some items => checkItems "/warnings" items validateWarning

def isHexDigit (c : Char) : Bool :=
  c.isDigit || 'a' ≤ c && c ≤ 'f' || 'A' ≤ c && c ≤ 'F'

/-- A digest as the protocol writes it. -/
def isSha256 (text : String) : Bool :=
  text.utf8ByteSize = 64 && text.toList.all isHexDigit

/-- A member that is there and not null. -/
def hasMember (members : List (String × Value)) (name : String) : Bool :=
  (get name members).any (!·.isNull)

def validateStdout (members : List (String × Value)) : List SchemaError :=
  (checkMember members "stdout_sha256" fun value =>
    if value.isNull then []
    else checkString "/stdout_sha256" value fun text =>
      if isSha256 text then []
      else [⟨"/stdout_sha256", "expected a 64-character hex sha256 digest"⟩]) ++
  (checkMember members "stdout_inline" fun value =>
    if value.isNull then []
    else checkString "/stdout_inline" value fun text =>
      if stdoutInlineLimit < text.utf8ByteSize then
        [⟨"/stdout_inline", s!"inline stdout is capped at {stdoutInlineLimit} bytes; " ++
          s!"found {text.utf8ByteSize}"⟩]
      else []) ++
  if hasMember members "stdout_inline" ∧ ¬ hasMember members "stdout_sha256" then
    [⟨"/stdout_sha256",
      "required whenever the program wrote output (`stdout_inline` is present)"⟩]
  else []

/-- Extensions must announce themselves. -/
def announced (key : String) : Bool := "x-".toList.isPrefixOf key.toList

/-- The complaint about a member that is no field. -/
def validateExtension : String × Value → List SchemaError
  | (key, entry) =>
    if key ∈ requiredFields ∨ key ∈ optionalFields then []
    else if ¬ announced key then
      [⟨s!"/{key}", "unknown field; implementation extensions must begin with `x-`"⟩]
    else if entry.isNull then [⟨s!"/{key}", "extension key is null"⟩]
    else []

def validateProtocol (protocol : Value) : List SchemaError :=
  match protocol.asU64 with
  | some version =>
    if version = protocolVersion then []
    else [⟨"/protocol", s!"unsupported protocol version {version.toNat}; " ++
      s!"this implementation speaks {protocolVersion.toNat}"⟩]
  | none => [⟨"/protocol",
      s!"expected the integer {protocolVersion.toNat}, found {kindOf protocol}"⟩]

/-- Every complaint about a record's members. -/
def violations (object : List (String × Value)) : List SchemaError :=
  (requiredFields.flatMap fun field =>
    if (get field object).isSome then [] else [⟨s!"/{field}", "required field is missing"⟩]) ++
  object.flatMap validateExtension ++
  checkMember object "protocol" validateProtocol ++
  (["impl", "impl_version", "commit", "file"].flatMap fun field =>
    checkMember object field (checkNonEmpty s!"/{field}")) ++
  (checkMember object "phase_reached" fun entry =>
    checkString "/phase_reached" entry fun text => match Phase.parseStr text with
      | some _ => []
      | none => [⟨"/phase_reached", s!"`{text}` is not a rung of the canonical phase ladder"⟩]) ++
  (checkMember object "seeded" fun entry =>
    if entry.isBoolean then [] else [⟨"/seeded", s!"expected a boolean, found {kindOf entry}"⟩]) ++
  (checkMember object "verdict" fun entry =>
    checkString "/verdict" entry fun text => match Verdict.fromStr text with
      | .ok _ => []
      | .error message => [⟨"/verdict", message⟩]) ++
  checkMember object "files" validateFiles ++
  checkMember object "diagnostics" (validateDiagnostics (fileCount (get "files" object))) ++
  checkMember object "warnings" validateWarnings ++
  validateStdout object

/-- Validates one observation record, answering every violation found. -/
def validate (value : Value) : Except (List SchemaError) Unit :=
  match value.asObject with
  | none => .error [⟨"", s!"an observation record is a JSON object, found {kindOf value}"⟩]
  | some object => match violations object with
      | [] => .ok ()
      | errors => .error errors

end WolfInterp.Protocol
