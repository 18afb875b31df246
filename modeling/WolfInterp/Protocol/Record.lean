import WolfInterp.Lib.SortedMap
import WolfInterp.Protocol.Verdict
import Mathlib.Data.String.Basic

/-!
# Records and their JSON

The wire types of the differential protocol, and the JSON values they are written as and read from.
The encoder and the decoder are the derived ones: one member for each field, an absent or null
member for an empty optional field, and the extension keys beside the fields.
-/

namespace WolfInterp.Protocol

open Lib.SortedMap
open Differ (Phase Verdict)

/-! ## JSON values -/

/-- A JSON number: a non-negative integer, a negative one, or a finite float by its bits. -/
inductive Number where
  | posInt (value : UInt64)
  | negInt (value : Int64)
  | float (bits : UInt64)
  deriving DecidableEq

/-- A JSON value; an object's members stand in the order of their keys. -/
inductive Value where
  | null
  | bool (value : Bool)
  | number (value : Number)
  | string (text : String)
  | array (items : List Value)
  | object (members : List (String × Value))

namespace Value

/-- Every object within a value has its members in strict key order. -/
inductive Keyed : Value → Prop
  | null : Keyed null
  | bool (value : Bool) : Keyed (bool value)
  | number (value : Number) : Keyed (number value)
  | string (text : String) : Keyed (string text)
  | array (items : List Value) (within : ∀ item ∈ items, Keyed item) : Keyed (array items)
  | object (members : List (String × Value)) (sorted : Sorted members)
      (within : ∀ entry ∈ members, Keyed entry.2) : Keyed (object members)

def asU64 : Value → Option UInt64
  | .number (.posInt value) => some value
  | _ => none

def asStr : Value → Option String
  | .string text => some text
  | _ => none

def asBool : Value → Option Bool
  | .bool value => some value
  | _ => none

def asArray : Value → Option (List Value)
  | .array items => some items
  | _ => none

def asObject : Value → Option (List (String × Value))
  | .object members => some members
  | _ => none

def isNull : Value → Bool
  | .null => true
  | _ => false

def isBoolean : Value → Bool
  | .bool _ => true
  | _ => false

end Value

/-- A JSON value as the reader builds it. -/
abbrev Json := { value : Value // value.Keyed }

/-! ## Wire types -/

/-- A protocol diagnostic. -/
structure Diagnostic where
  code : String
  /-- Byte-offset half-open span. -/
  span : UInt64 × UInt64
  severity : String
  /-- The index into the record's `files` of the file the span is an offset into. -/
  file : Option UInt64
  deriving DecidableEq

/-- One warning observation. -/
structure Warning where
  code : String
  span : UInt64 × UInt64
  deriving DecidableEq

/-- One observation record. -/
structure ObservationRecord where
  protocol : UInt64
  implName : String
  implVersion : String
  commit : String
  file : String
  phaseReached : Phase
  seeded : Bool
  files : Option (List String)
  diagnostics : List Diagnostic
  warnings : Option (List Warning)
  verdict : Verdict
  trapMessage : Option String
  stdoutSha256 : Option String
  stdoutInline : Option String
  /-- The extension keys, in key order. -/
  extensions : List (String × Value)
  sorted : Sorted extensions
  keyed : ∀ entry ∈ extensions, entry.2.Keyed

/-! ## Encoding -/

def encodeU64 (value : UInt64) : Value := .number (.posInt value)

def encodeSpan (span : UInt64 × UInt64) : Value := .array [encodeU64 span.1, encodeU64 span.2]

/-- The object of a list of members, put in one after the other. -/
def objectOf (members : List (String × Value)) : Value := .object (extend [] members)

/-- A member that is written only when there is a value for it. -/
def skipNone (name : String) (value : Option Value) : List (String × Value) :=
  value.toList.map fun value => (name, value)

/-- A member that is null when there is no value for it. -/
def nullable (value : Option Value) : Value := value.getD .null

def Diagnostic.members (diagnostic : Diagnostic) : List (String × Value) :=
  [("code", .string diagnostic.code), ("span", encodeSpan diagnostic.span),
    ("severity", .string diagnostic.severity)] ++
    skipNone "file" (diagnostic.file.map encodeU64)

def Diagnostic.encode (diagnostic : Diagnostic) : Value := objectOf diagnostic.members

def Warning.members (warning : Warning) : List (String × Value) :=
  [("code", .string warning.code), ("span", encodeSpan warning.span)]

def Warning.encode (warning : Warning) : Value := objectOf warning.members

namespace ObservationRecord

/-- The members of a record that its fields write. -/
def fields (record : ObservationRecord) : List (String × Value) :=
  [("protocol", encodeU64 record.protocol), ("impl", .string record.implName),
    ("impl_version", .string record.implVersion), ("commit", .string record.commit),
    ("file", .string record.file), ("phase_reached", .string record.phaseReached.asStr),
    ("seeded", .bool record.seeded)] ++
  skipNone "files" (record.files.map fun files => .array (files.map .string)) ++
  [("diagnostics", .array (record.diagnostics.map Diagnostic.encode))] ++
  skipNone "warnings" (record.warnings.map fun warnings => .array (warnings.map Warning.encode)) ++
  [("verdict", .string record.verdict.toString)] ++
  skipNone "trap_message" (record.trapMessage.map .string) ++
  [("stdout_sha256", nullable (record.stdoutSha256.map .string)),
    ("stdout_inline", nullable (record.stdoutInline.map .string))]

def encode (record : ObservationRecord) : Value := objectOf (record.fields ++ record.extensions)

end ObservationRecord

/-! ## Decoding -/

/-- A field that is absent or null when it is empty. -/
def optional {α : Type} (decode : Value → Option α) : Option Value → Option (Option α)
  | none | some .null => some none
  | some value => (decode value).map some

def decodeSpan : Value → Option (UInt64 × UInt64)
  | .array [start, stop] => do return (← start.asU64, ← stop.asU64)
  | _ => none

def arrayOf {α : Type} (decode : Value → Option α) (value : Value) : Option (List α) := do
  (← value.asArray).mapM decode

/-- Unknown members of a diagnostic are passed over. -/
def Diagnostic.decode (value : Value) : Option Diagnostic := do
  let members ← value.asObject
  let code ← (← get "code" members).asStr
  let span ← decodeSpan (← get "span" members)
  let severity ← (← get "severity" members).asStr
  let file ← optional Value.asU64 (get "file" members)
  return { code, span, severity, file }

def Warning.decode (value : Value) : Option Warning := do
  let members ← value.asObject
  let code ← (← get "code" members).asStr
  let span ← decodeSpan (← get "span" members)
  return { code, span }

/-- The names of a record's fields; any other member is an extension. -/
def fieldNames : List String :=
  ["protocol", "impl", "impl_version", "commit", "file", "phase_reached", "seeded", "files",
    "diagnostics", "warnings", "verdict", "trap_message", "stdout_sha256", "stdout_inline"]

def decodeVerdict (value : Value) : Option Verdict := do
  (Verdict.fromStr (← value.asStr)).toOption

def decodePhase (value : Value) : Option Phase := do
  Phase.parseStr (← value.asStr)

/-- The members that are no fields. -/
def extensionsOf (members : List (String × Value)) : List (String × Value) :=
  members.filter fun entry => entry.1 ∉ fieldNames

theorem sorted_extensionsOf {members : List (String × Value)} (sorted : Sorted members) :
    Sorted (extensionsOf members) :=
  sorted.filter _

def ObservationRecord.decode : Json → Option ObservationRecord
  | ⟨.object members, keyed⟩ => do
    let protocol ← (← get "protocol" members).asU64
    let implName ← (← get "impl" members).asStr
    let implVersion ← (← get "impl_version" members).asStr
    let commit ← (← get "commit" members).asStr
    let file ← (← get "file" members).asStr
    let phaseReached ← decodePhase (← get "phase_reached" members)
    let seeded ← (← get "seeded" members).asBool
    let files ← optional (arrayOf Value.asStr) (get "files" members)
    let diagnostics ← arrayOf Diagnostic.decode (← get "diagnostics" members)
    let warnings ← optional (arrayOf Warning.decode) (get "warnings" members)
    let verdict ← decodeVerdict (← get "verdict" members)
    let trapMessage ← optional Value.asStr (get "trap_message" members)
    let stdoutSha256 ← optional Value.asStr (get "stdout_sha256" members)
    let stdoutInline ← optional Value.asStr (get "stdout_inline" members)
    return {
      protocol, implName, implVersion, commit, file, phaseReached, seeded, files, diagnostics
      warnings, verdict, trapMessage, stdoutSha256, stdoutInline
      extensions := extensionsOf members
      sorted := by cases keyed with | object _ sorted _ => exact sorted_extensionsOf sorted
      keyed := by
        cases keyed with
        | object _ _ within => exact fun entry among => within entry (List.mem_filter.mp among).1 }
  | _ => none

end WolfInterp.Protocol
