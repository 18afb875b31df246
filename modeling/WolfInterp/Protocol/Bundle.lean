import WolfInterp.Lib.Fallible
import WolfInterp.Protocol.Agreement
import WolfInterp.Protocol.Directives

/-!
# Opening a bundle

A manifest names files with their hashes, and a digest of the listing of these. Opening a bundle
checks both and reads the expected records from their well-known name, which the manifest need not
name. The listing has a line for each file and reads back where no path holds a newline.
-/

namespace WolfInterp.Protocol.Bundle

open Fallible
open Lib.SortedMap
open WolfInterp.Lex (Text)
open Repl (lines)

/-- Why a bundle is refused. -/
inductive Refusal where
  | unread (path : String)
  | notJson
  | schemaVersion (found : Option UInt64)
  | noPin
  | noFiles
  | tampered (path got want : String)
  | root (computed declared : String)
  | recordNotJson (index : Nat)
  | recordInvalid (index : Nat) (errors : List SchemaError)
  | recordUnread (index : Nat)

structure VerifiedBundle where
  pin : String
  bundleSha256 : String
  expected : List ObservationRecord

def bundleSchema : UInt64 := 1

def recordsPath : String := "expected/records.jsonl"

def required {α : Type} (refusal : Refusal) : Option α → Except Refusal α
  | some value => .ok value
  | none => .error refusal

/-- The member of an object under a name. -/
def member (name : String) (value : Value) : Option Value := value.asObject.bind (get name)

/-- The sorted list of `hash  path` lines. -/
def listing (hashes : List (String × String)) : Text :=
  hashes.flatMap fun entry => entry.2.toList ++ ' ' :: ' ' :: entry.1.toList ++ ['\n']

section Opening

/- A directory gives the bytes under a name, and `Path::join` names a path. -/
variable {Name : Type} (join : String → Name) (hex : ByteArray → String)
  (fromStr : Text → Option Json) (root : Name → Option ByteArray)

def rootHash (hashes : List (String × String)) : String :=
  hex (String.ofList (listing hashes)).toUTF8

def readToString (path : String) : Option Text :=
  (root (join path)).bind fun bytes => (String.fromUTF8? bytes).map String.toList

/-- Hash the files of a manifest. -/
def verifyFiles (hashes : List (String × String)) :
    List (String × Value) → Except Refusal (List (String × String))
  | [] => .ok hashes
  | (path, want) :: files => do
    let bytes ← required (.unread path) (root (join path))
    if hex bytes = want.asStr.getD "" then verifyFiles (insert path (hex bytes) hashes) files
    else .error (.tampered path (hex bytes) (want.asStr.getD ""))

/-- The pin and the digest of a manifest that holds of the directory. -/
def verify (manifest : Value) : Except Refusal (String × String) :=
  let version := (member "bundle_schema" manifest).bind Value.asU64
  if version ≠ some bundleSchema then .error (.schemaVersion version) else do
    let pin ← required .noPin ((member "pin" manifest).bind Value.asStr)
    let files ← required .noFiles ((member "files" manifest).bind Value.asObject)
    let hashes ← verifyFiles join hex root [] files
    let declared := ((member "bundle_sha256" manifest).bind Value.asStr).getD ""
    if rootHash hex hashes ≠ declared then .error (.root (rootHash hex hashes) declared)
    else return (pin, rootHash hex hashes)

def readRecord (entry : Text × Nat) : Except Refusal ObservationRecord := do
  let value ← required (.recordNotJson entry.2) (fromStr entry.1)
  match validate value.1 with
  | .ok () => required (.recordUnread entry.2) (ObservationRecord.decode value)
  | .error errors => .error (.recordInvalid entry.2 errors)

def readRecords (text : Text) : Except Refusal (List ObservationRecord) :=
  (lines text).zipIdx.mapM (readRecord fromStr)

def openBundle : Except Refusal VerifiedBundle := do
  let text ← required (.unread "MANIFEST.json") (readToString join root "MANIFEST.json")
  let manifest ← required .notJson (fromStr text)
  let (pin, bundleSha256) ← verify join hex root manifest.1
  let text ← required (.unread recordsPath) (readToString join root recordsPath)
  return { pin, bundleSha256, expected := ← readRecords fromStr text }

/-- The paths the manifest lists. -/
def listedPaths : List String :=
  ((((readToString join root "MANIFEST.json").bind fromStr).bind fun manifest =>
    (member "files" manifest.1).bind Value.asObject).getD []).map Prod.fst

/-- The bytes of a path the manifest lists. -/
def listed (path : String) : Option ByteArray :=
  if path ∈ listedPaths join fromStr root then root (join path) else none

variable {join hex fromStr root} {bundle : VerifiedBundle}

theorem required_eq_ok {α : Type} {refusal : Refusal} {given : Option α} {value : α} :
    required refusal given = .ok value ↔ given = some value := by
  cases given <;> simp [required]

theorem readToString_of_bytes {path text : String} (holds : root (join path) = some text.toUTF8) :
    readToString join root path = some text.toList := by
  rw [readToString, holds, Option.bind_some, String.fromUTF8?, String.toUTF8_eq_toByteArray,
    dif_pos text.isValidUTF8]
  rfl

/-! ## What opening checks -/

theorem openBundle_eq_ok : openBundle join hex fromStr root = .ok bundle ↔
    ∃ text manifest records, readToString join root "MANIFEST.json" = some text ∧
      fromStr text = some manifest ∧
      verify join hex root manifest.1 = .ok (bundle.pin, bundle.bundleSha256) ∧
      readToString join root recordsPath = some records ∧
      readRecords fromStr records = .ok bundle.expected := by
  simp only [openBundle, bind_eq_ok, required_eq_ok]
  constructor
  · rintro
      ⟨text, read, manifest, parsed, ⟨pin, digest⟩, holds, records, found, expected, reads, same⟩
    cases same
    exact ⟨text, manifest, records, read, parsed, holds, found, reads⟩
  · rintro ⟨text, manifest, records, read, parsed, holds, found, reads⟩
    exact ⟨text, read, manifest, parsed, _, holds, records, found, _, reads, rfl⟩

/-- Every listed file was read and has its hash in the listing. -/
theorem verifyFiles_spec {out : List (String × String)} (files : List (String × Value)) :
    ∀ hashes, Sorted hashes → verifyFiles join hex root hashes files = .ok out →
      Sorted out ∧ ∀ path, get path out =
        if path ∈ files.map Prod.fst then (root (join path)).map hex else get path hashes := by
  induction files with
  | nil =>
    intro hashes sorted runs
    cases runs
    simpa using sorted
  | cons file files ih =>
    obtain ⟨name, want⟩ := file
    intro hashes sorted runs
    obtain ⟨bytes, read, runs⟩ := bind_eq_ok.mp runs
    rw [required_eq_ok] at read
    split at runs
    · obtain ⟨out_sorted, holds⟩ := ih _ (sorted.insert _ _) runs
      refine ⟨out_sorted, fun path => ?_⟩
      simp only [holds, get_insert, List.map_cons, List.mem_cons]
      grind
    · cases runs

theorem verify_eq_ok {manifest : Value} {pin digest : String}
    (holds : verify join hex root manifest = .ok (pin, digest)) :
    ∃ files hashes, (member "files" manifest).bind Value.asObject = some files ∧
      verifyFiles join hex root [] files = .ok hashes ∧ digest = rootHash hex hashes := by
  rw [verify] at holds
  split at holds
  · cases holds
  · simp only [bind_eq_ok, required_eq_ok] at holds
    obtain ⟨pin, -, files, named, hashes, hashed, ending⟩ := holds
    split at ending
    · cases ending
    · cases ending
      exact ⟨files, hashes, named, hashed, rfl⟩

theorem verifyFiles_congr {other : Name → Option ByteArray} (files : List (String × Value))
    (same : ∀ file ∈ files, other (join file.1) = root (join file.1)) : ∀ hashes,
      verifyFiles join hex other hashes files = verifyFiles join hex root hashes files := by
  induction files with
  | nil => exact fun _ => rfl
  | cons file files ih =>
    rw [List.forall_mem_cons] at same
    intro hashes
    simp only [verifyFiles, same.1, ih same.2]

theorem verify_congr {other : Name → Option ByteArray} {manifest : Value}
    (same : ∀ files, (member "files" manifest).bind Value.asObject = some files →
      ∀ file ∈ files, other (join file.1) = root (join file.1)) :
    verify join hex other manifest = verify join hex root manifest := by
  rw [verify, verify]
  cases named : (member "files" manifest).bind Value.asObject with
  | none => rfl
  | some files =>
    have named : required .noFiles (some files) = .ok files := rfl
    simp only [bind_of_ok named, verifyFiles_congr files (same files ‹_›)]

theorem listedPaths_eq {text : Text} {manifest : Json} {files : List (String × Value)}
    (read : readToString join root "MANIFEST.json" = some text)
    (parsed : fromStr text = some manifest)
    (named : (member "files" manifest.1).bind Value.asObject = some files) :
    listedPaths join fromStr root = files.map Prod.fst := by
  simp [listedPaths, read, parsed, named]

/-- A bundle's digest is of the hashes of its listed files. -/
theorem exists_hashes (opens : openBundle join hex fromStr root = .ok bundle) :
    ∃ hashes, Sorted hashes ∧ bundle.bundleSha256 = rootHash hex hashes ∧
      ∀ path, get path hashes = (listed join fromStr root path).map hex := by
  obtain ⟨text, manifest, -, read, parsed, holds, -⟩ := openBundle_eq_ok.mp opens
  obtain ⟨files, hashes, named, hashed, digest⟩ := verify_eq_ok holds
  obtain ⟨sorted, got⟩ := verifyFiles_spec files [] List.Pairwise.nil hashed
  refine ⟨hashes, sorted, digest, fun path => ?_⟩
  rw [got, listed, listedPaths_eq read parsed named]
  split <;> rfl

/-- What a line of the listing needs to read back. -/
def Lined (entry : String × String) : Prop :=
  '\n' ∉ entry.1.toList ∧ ∀ c ∈ entry.2.toList, c ≠ ' ' ∧ c ≠ '\n'

theorem splitOnce_listing {entry : String × String} (lined : Lined entry)
    (rest : List (String × String)) : splitOnce '\n' (listing (entry :: rest)) =
      some (entry.2.toList ++ ' ' :: ' ' :: entry.1.toList, listing rest) := by
  have absent : '\n' ∉ entry.2.toList ++ ' ' :: ' ' :: entry.1.toList := by
    simpa using ⟨fun among => (lined.2 _ among).2 rfl, lined.1⟩
  rw [← splitOnce_append absent]
  simp [listing]

theorem listing_injective {hashes : List (String × String)}
    (lined : ∀ entry ∈ hashes, Lined entry) :
    ∀ hashes', (∀ entry ∈ hashes', Lined entry) → listing hashes = listing hashes' →
      hashes = hashes' := by
  induction hashes with
  | nil =>
    intro hashes' _ same
    cases hashes' with
    | nil => rfl
    | cons entry rest => simp [listing] at same
  | cons entry rest ih =>
    intro hashes' lined' same
    cases hashes' with
    | nil => simp [listing] at same
    | cons entry' rest' =>
      rw [List.forall_mem_cons] at lined lined'
      have blank {entry : String × String} (lined : Lined entry) : ' ' ∉ entry.2.toList :=
        fun among => (lined.2 _ among).1 rfl
      have cut := congrArg (splitOnce '\n') same
      rw [splitOnce_listing lined.1, splitOnce_listing lined'.1, Option.some_inj,
        Prod.mk_inj] at cut
      have parts := congrArg (splitOnce ' ') cut.1
      rw [splitOnce_append (blank lined.1), splitOnce_append (blank lined'.1)] at parts
      simp only [Option.some_inj, Prod.mk_inj, List.cons_inj_right, String.toList_inj] at parts
      rw [ih lined.2 rest' lined'.2 cut.2, Prod.ext parts.2 parts.1]

variable (join hex fromStr root) in
/-- The manifest lists paths of one line. -/
def Plain : Prop := ∀ path ∈ listedPaths join fromStr root, '\n' ∉ path.toList

variable (join hex fromStr root) in
/-- A bundle with the same digest lists the same files and expects the same records. -/
def Identified (bundle : VerifiedBundle) : Prop :=
  ∀ other bundle', openBundle join hex fromStr other = .ok bundle' → Plain join fromStr other →
    bundle'.bundleSha256 = bundle.bundleSha256 →
      (∀ path, listed join fromStr other path = listed join fromStr root path) ∧
        bundle'.expected = bundle.expected

section Named

variable (injective : Function.Injective hex)
  (words : ∀ bytes, ∀ c ∈ (hex bytes).toList, c ≠ ' ' ∧ c ≠ '\n')
include injective words

/-- The digest identifies the listed files. -/
theorem listed_of_digest {other : Name → Option ByteArray} {bundle' : VerifiedBundle}
    (opens : openBundle join hex fromStr root = .ok bundle) (plain : Plain join fromStr root)
    (opens' : openBundle join hex fromStr other = .ok bundle') (plain' : Plain join fromStr other)
    (same : bundle'.bundleSha256 = bundle.bundleSha256) (path : String) :
    listed join fromStr other path = listed join fromStr root path := by
  have lined {root : Name → Option ByteArray} {hashes : List (String × String)}
      (plain : Plain join fromStr root) (sorted : Sorted hashes)
      (got : ∀ path, get path hashes = (listed join fromStr root path).map hex) :
      ∀ entry ∈ hashes, Lined entry := by
    intro entry among
    have found := sorted.get_eq_some.mpr among
    rw [got, Option.map_eq_some_iff] at found
    obtain ⟨bytes, reads, hashed⟩ := found
    rw [listed, Option.ite_none_right_eq_some] at reads
    exact ⟨plain _ reads.1, hashed ▸ words bytes⟩
  obtain ⟨hashes, sorted, digest, got⟩ := exists_hashes opens
  obtain ⟨hashes', sorted', digest', got'⟩ := exists_hashes opens'
  rw [digest, digest', rootHash, rootHash] at same
  have texts := String.toByteArray_inj.mp (injective same)
  have lists := listing_injective (lined plain' sorted' got') hashes (lined plain sorted got)
    (String.ofList_injective texts)
  apply Option.map_injective injective
  rw [← got, ← got', lists]

/-- The digest of a bundle whose paths are plain identifies it exactly if the records' file is
listed. -/
theorem identified_iff (apart : join "MANIFEST.json" ≠ join recordsPath)
    {text : String} {record : ObservationRecord}
    (reads : readRecords fromStr text.toList = .ok [record])
    (opens : openBundle join hex fromStr root = .ok bundle) (plain : Plain join fromStr root) :
    Identified join hex fromStr root bundle ↔
      ∃ path ∈ listedPaths join fromStr root, join path = join recordsPath := by
  obtain ⟨manifestText, manifest, records, read, parsed, holds, found, expects⟩ :=
    openBundle_eq_ok.mp opens
  constructor
  · intro identified
    by_contra unlisted
    -- The records' file can be swapped for one that reads as other records.
    obtain ⟨swapped, expected, reads, differs⟩ : ∃ swapped expected,
        readRecords fromStr (String.toList swapped) = .ok expected ∧
          expected ≠ bundle.expected := by
      by_cases none : bundle.expected = []
      · exact ⟨text, _, reads, by simp [none]⟩
      · exact ⟨"", [], rfl, Ne.symm none⟩
    obtain ⟨other, holds_swapped, elsewhere⟩ : ∃ other : Name → Option ByteArray,
        other (join recordsPath) = some swapped.toUTF8 ∧
          ∀ name ≠ join recordsPath, other name = root name := by
      classical
      exact ⟨Function.update root _ _, Function.update_self .., fun _ =>
        (Function.update_of_ne · ..)⟩
    have read' : readToString join other "MANIFEST.json" = some manifestText := by
      rw [← read, readToString, readToString, elsewhere _ apart]
    have lists : listedPaths join fromStr other = listedPaths join fromStr root := by
      rw [listedPaths, read', listedPaths, read]
    have stays : verify join hex other manifest.1 = verify join hex root manifest.1 := by
      refine verify_congr fun files named file among =>
        elsewhere _ fun same => unlisted ⟨file.1, ?_, same⟩
      rw [listedPaths_eq read parsed named]
      exact List.mem_map_of_mem among
    have found' : readToString join other recordsPath = some swapped.toList :=
      readToString_of_bytes holds_swapped
    refine differs (identified other ⟨bundle.pin, bundle.bundleSha256, expected⟩ ?_ ?_ rfl).2
    · exact openBundle_eq_ok.mpr ⟨_, _, _, read', parsed, stays ▸ holds, found', reads⟩
    · rwa [Plain, lists]
  · rintro ⟨path, lists, same⟩ other bundle' opens' plain' digest
    have files := listed_of_digest injective words opens plain opens' plain' digest
    refine ⟨files, ?_⟩
    obtain ⟨-, -, records', -, -, -, found', expects'⟩ := openBundle_eq_ok.mp opens'
    have held := files path
    have bytes : other (join recordsPath) = root (join recordsPath) := by
      rw [listed, listed, if_pos lists, same] at held
      obtain ⟨bytes, there, -⟩ := Option.bind_eq_some_iff.mp found
      grind
    rw [readToString, bytes, ← readToString, found, Option.some_inj] at found'
    rw [← found', expects] at expects'
    exact (Except.ok.inj expects').symm

end Named

end Opening

/-! ## Two bundles with one digest -/

def emptyDigest : String := "e3b0c44298fc1c149afbf4c8996fb92427ae41e4649b934ca495991b7852b855"

/-- An injective digest in printing characters, which is the real one of no bytes. -/
def digits (bytes : ByteArray) : String :=
  String.ofList (emptyDigest.toList ++
    bytes.data.toList.map fun byte => Char.ofNat (byte.toNat + 48))

theorem toNat_digit (byte : UInt8) : (Char.ofNat (byte.toNat + 48)).toNat = byte.toNat + 48 := by
  have small := byte.toNat_lt
  rw [Char.ofNat, dif_pos (.inl (by omega))]
  rfl

theorem digits_injective : Function.Injective digits := by
  intro bytes bytes' same
  refine ByteArray.ext (Array.toList_inj.mp (List.map_injective_iff.mpr ?_
    (List.append_cancel_left (String.ofList_injective same))))
  intro byte byte' same
  have codes := congrArg Char.toNat same
  rw [toNat_digit, toNat_digit] at codes
  exact UInt8.toNat_inj.mp (by omega)

theorem digits_words (bytes : ByteArray) : ∀ c ∈ (digits bytes).toList, c ≠ ' ' ∧ c ≠ '\n' := by
  intro c among
  rw [digits, String.toList_ofList, List.mem_append, List.mem_map] at among
  rcases among with fixed | ⟨byte, -, rfl⟩
  · revert c
    exact List.all_iff_forall_prop.mp (by decide)
  · constructor <;> intro same <;> simpa [toNat_digit] using congrArg Char.toNat same

def emptyManifest : String :=
  "\x7b\"bundle_schema\":1,\"bundle_sha256\":\"" ++ emptyDigest ++
    "\",\"files\":\x7b\x7d,\"pin\":\"abc1234\"\x7d"

/-- The manifest of no files. -/
def manifest : Json where
  val := .object [("bundle_schema", .number (.posInt 1)), ("bundle_sha256", .string emptyDigest),
    ("files", .object []), ("pin", .string "abc1234")]
  property := by
    have empty : (Value.object []).Keyed := .object _ .nil nofun
    refine .object _ (by unfold Sorted; decide) ?_
    simp only [List.forall_mem_cons]
    exact ⟨.number _, .string _, empty, .string _, nofun⟩

def quietLine : String :=
  "\x7b\"commit\":\"abc1234\",\"diagnostics\":[],\"file\":\"corpus/hello.lu\"," ++
  "\"impl\":\"wolf-interp\",\"impl_version\":\"0.1.40\",\"phase_reached\":\"run\"," ++
  "\"protocol\":1,\"seeded\":false,\"verdict\":\"exit(0)\"\x7d"

/-- Reading the two texts. -/
def readText (text : Text) : Option Json :=
  if text = emptyManifest.toList then some manifest
  else if text = quietLine.toList then some ⟨.object withoutOutput, keyed_withoutOutput⟩
  else none

/-- The bundle that lists no file. -/
def unlisting (records name : String) : Option ByteArray :=
  if name = "MANIFEST.json" then some emptyManifest.toUTF8
  else if name = recordsPath then some records.toUTF8
  else none

theorem opens_unlisting (records : String) (expected : List ObservationRecord)
    (reads : readRecords readText records.toList = .ok expected) :
    openBundle id digits readText (unlisting records) = .ok ⟨"abc1234", emptyDigest, expected⟩ :=
  openBundle_eq_ok.mpr ⟨_, manifest, _, readToString_of_bytes rfl, if_pos rfl, rfl,
    readToString_of_bytes rfl, reads⟩

theorem reads_quiet : readRecords readText (quietLine ++ "\n").toList = .ok [quietRecord 1] := by
  have read : readRecord readText (quietLine.toList, 0) = .ok (quietRecord 1) := by
    have exit : Verdict.fromStr "exit(0)" = .ok (.exit 0) := (fromStr_toString (.exit 0)).1 trivial
    rw [readRecord, readText, if_neg (mt String.toList_inj.mp (by decide)), if_pos rfl]
    simp only [required, bind_of_ok rfl, validate_withoutOutput,
      holds_withoutOutput.decode exit keyed_withoutOutput]
  rw [readRecords, String.toList_append, lines,
    show "\n".toList = ['\n'] from rfl,
    Repl.linesFrom_line [] _ [] (by decide +kernel) (by decide +kernel)]
  rw [List.zipIdx_cons, List.mapM_cons, List.nil_append, bind_of_ok read]
  rfl

/-- Two bundles that list no file have one digest, whatever records they expect. -/
theorem digest_swaps_records : ¬ ∀ hex fromStr (root other : String → Option ByteArray)
    bundle bundle', Function.Injective hex → openBundle id hex fromStr root = .ok bundle →
      openBundle id hex fromStr other = .ok bundle' →
        bundle'.bundleSha256 = bundle.bundleSha256 →
          (∀ path, listed id fromStr other path = listed id fromStr root path) ∧
            bundle'.expected = bundle.expected := by
  intro identifies
  have none := opens_unlisting "" [] rfl
  have one := opens_unlisting _ _ reads_quiet
  have same := (identifies digits readText _ _ _ _ digits_injective none one rfl).2
  cases same

theorem identified_iff_unlisting : ¬ Identified id digits readText (unlisting "")
    ⟨"abc1234", emptyDigest, []⟩ := by
  intro identified
  have lists : listedPaths id readText (unlisting "") = [] := by
    have read : readToString id (unlisting "") "MANIFEST.json" = some emptyManifest.toList :=
      readToString_of_bytes rfl
    have parsed : readText emptyManifest.toList = some manifest := if_pos rfl
    rw [listedPaths_eq read parsed rfl]
    rfl
  obtain ⟨path, among, -⟩ := (identified_iff digits_injective digits_words (by decide) reads_quiet
    (opens_unlisting _ _ rfl) (by simp [Plain, lists])).mp identified
  simp [lists] at among

end WolfInterp.Protocol.Bundle
