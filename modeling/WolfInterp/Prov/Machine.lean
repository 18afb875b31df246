import Mathlib.Data.List.AList
import Mathlib.Data.List.Dedup
import Mathlib.Data.List.Sort
import WolfInterp.Lib.Execution
import WolfInterp.Region.Store

/-!
# The provenance machine

Allocations with their borrow trees, the place table, and the access check. An index the source
would panic on answers `none`. Tag and allocation ids are positions in two tables that only grow.
-/

namespace WolfInterp

abbrev AllocId := Nat
abbrev TagId := Nat

/-- One row of the closed enumeration of undefined behavior. -/
inductive UbRow where
  | p1 | p2 | p3 | p4 | p5 | p6 | l1 | l2 | l3 | l4 | t1 | t2 | c1
  deriving DecidableEq

/-- One finding: the row, the two spans, the text and the borrow tree at the violation. -/
structure UbFinding where
  row : UbRow
  span : Span
  tagSpan : Option Span
  message : String
  tree : List String
  deriving DecidableEq

/-- A tag's permission at one byte. -/
inductive Perm where
  | reserved
  | active
  | frozen
  | disabled
  deriving DecidableEq

/-- How a permission prints. -/
def Perm.text : Perm → String
  | .reserved => "Reserved"
  | .active => "Active"
  | .frozen => "Frozen"
  | .disabled => "Disabled"

/-- What a pointer value carries. -/
inductive Prov where
  | tag (id : TagId)
  | wildcard
  deriving DecidableEq

/-- A raw pointer value. Without an allocation the offset is the address word itself. -/
structure RawPtr where
  alloc : Option AllocId
  offset : Int
  prov : Prov
  elem : Nat
  deriving DecidableEq

/-- How a raw pointer without an allocation prints. -/
def RawPtr.foreignText (ptr : RawPtr) : String :=
  if ptr.offset = 0 then "*null"
  else
    let digits := String.ofList (Nat.toDigits 16 (ptr.offset % 2 ^ 128).toNat)
    s!"*addr 0x{digits}"

/-- Where an allocation came from, which decides who kills it. -/
inductive Origin where
  | hostC
  | place
  deriving DecidableEq

/-- One allocation and the tags of its borrow tree. -/
structure Alloc where
  id : AllocId
  size : Nat
  init : List Bool
  live : Bool
  origin : Origin
  owner : Option RegionId
  root : TagId
  tags : List TagId
  exposed : List TagId
  label : String
  span : Span
  deriving DecidableEq

/-- One node of a borrow tree, with one permission for each byte of its allocation. -/
structure Tag where
  id : TagId
  alloc : AllocId
  parent : Option TagId
  perms : List Perm
  isProtected : Bool
  label : String
  span : Span
  deriving DecidableEq

/-- An `assume noalias` assertion in force. -/
structure Assumption where
  ranges : List (Option AllocId × Int × Int)
  span : Span
  deriving DecidableEq

/-- How memory is being touched. -/
inductive AccessKind where
  | read
  | write
  deriving DecidableEq

/-- How an access prints. -/
def AccessKind.text : AccessKind → String
  | .read => "read"
  | .write => "write"

/-- How a retag creates its child. -/
inductive RetagKind where
  | mutable
  | shared
  deriving DecidableEq

/-- The permission a new child has everywhere. -/
def RetagKind.perm : RetagKind → Perm
  | .mutable => .reserved
  | .shared => .frozen

/-- The place table: the tag that the accesses of a place go through. -/
abbrev Places := AList fun _ : String => AllocId × TagId

/-- The provenance forest. `dirty` lists the allocations the next prune revisits. -/
structure Provenance where
  allocs : List Alloc := []
  tags : List Tag := []
  places : Places := ∅
  assumptions : List Assumption := []
  regionDead : List RegionId := []
  dirty : List AllocId := []

namespace Provenance

/-- The machine before its first operation. -/
def new : Provenance := {}

/-- Queue an allocation for the next prune, unless it was the last one queued. -/
def pushDirty (dirty : List AllocId) (alloc : AllocId) : List AllocId :=
  if dirty.getLast? = some alloc then dirty else dirty ++ [alloc]

def markDirty (prov : Provenance) (alloc : AllocId) : Provenance :=
  { prov with dirty := pushDirty prov.dirty alloc }

/-- Queue the allocation of a binding that was displaced. -/
def markDisplaced (prov : Provenance) (displaced : Option (AllocId × TagId)) : Provenance :=
  match displaced with
  | some (was, _) => prov.markDirty was
  | none => prov

def parent (prov : Provenance) (id : TagId) : Option TagId := (prov.tags[id]?).bind Tag.parent

def isProtected (prov : Provenance) (id : TagId) : Bool :=
  (prov.tags[id]?).elim false Tag.isProtected

/-- The permission of a tag at one byte. -/
def permAt (prov : Provenance) (id : TagId) (off : Nat) : Option Perm :=
  (prov.tags[id]?).bind fun tag => tag.perms[off]?

/-- The tags of an allocation's borrow tree. -/
def treeTags (prov : Provenance) (id : AllocId) : List TagId :=
  (prov.allocs[id]?).elim [] Alloc.tags

/-! ## Creation -/

/-- Append an allocation whose tree is one root tag. -/
def newAlloc (prov : Provenance) (size : Nat) (origin : Origin) (owner : Option RegionId)
    (label : String) (span : Span) (rootPerm : Perm) : AllocId × Provenance :=
  let id := prov.allocs.length
  let root := prov.tags.length
  (id, { prov with
    tags := prov.tags ++
      [{ id := root, alloc := id, parent := none, perms := List.replicate size rootPerm,
         isProtected := false, label := s!"{label}#root", span }]
    allocs := prov.allocs ++
      [{ id, size, init := List.replicate size false, live := true, origin, owner, root,
         tags := [root], exposed := [], label, span }] })

/-- A host allocation, whose root tag is exposed from the start. -/
def hostAlloc (prov : Provenance) (size : Nat) (owner : RegionId) (span : Span) :
    RawPtr × Provenance :=
  let root := prov.tags.length
  let (id, prov) := prov.newAlloc size .hostC (some owner) s!"c.malloc({size})" span .active
  ({ alloc := some id, offset := 0, prov := .tag root, elem := 1 },
    { prov with
      allocs := prov.allocs.modify id fun alloc =>
        { alloc with exposed := alloc.exposed ++ [root] } })

/-- Change every permission of the listed tags. -/
def setTree (update : Perm → Perm) (targets : List TagId) (tags : List Tag) : List Tag :=
  targets.foldl
    (fun tags target => tags.modify target fun tag => { tag with perms := tag.perms.map update })
    tags

/-- `c.free`: the whole tree is disabled. Answers false for a pointer it cannot free. -/
def hostFree (prov : Provenance) (ptr : RawPtr) : Bool × Provenance :=
  match ptr.alloc with
  | none => (false, prov)
  | some id =>
    match prov.allocs[id]? with
    | none => (false, prov)
    | some alloc =>
      if alloc.live = false ∨ alloc.origin ≠ .hostC ∨ ptr.offset ≠ 0 then (false, prov)
      else
        (true, { prov with
          allocs := prov.allocs.modify id fun alloc => { alloc with live := false }
          tags := setTree (fun _ => .disabled) alloc.tags prov.tags })

/-! ## The place table -/

def place (prov : Provenance) (key : String) : Option (AllocId × TagId) := prov.places.lookup key

/-- The storage behind a place, created initialized on first use. -/
def placeAlloc (prov : Provenance) (key : String) (owner : Option RegionId) (span : Span) :
    (AllocId × TagId) × Provenance :=
  match prov.place key with
  | some found => (found, prov)
  | none =>
    let root := prov.tags.length
    let (id, prov) := prov.newAlloc 1 .place owner s!"place `{key}`" span .active
    ((id, root), { prov with
      allocs := prov.allocs.modify id fun alloc =>
        { alloc with init := alloc.init.map fun _ => true }
      places := prov.places.insert key (id, root) })

/-- Bind a place and answer what it was bound to. -/
def rebindPlace (prov : Provenance) (key : String) (alloc : AllocId) (tag : TagId) :
    Option (AllocId × TagId) × Provenance :=
  let was := prov.place key
  (was, ({ prov with places := prov.places.insert key (alloc, tag) }).markDisplaced was)

/-- Bind a place to an existing allocation and tag. -/
def bindPlace (prov : Provenance) (key : String) (alloc : AllocId) (tag : TagId) : Provenance :=
  (prov.rebindPlace key alloc tag).2

/-- Restore a binding taken by `rebindPlace`. -/
def restorePlace (prov : Provenance) (key : String) (previous : Option (AllocId × TagId)) :
    Provenance :=
  let was := prov.place key
  let places := match previous with
    | some entry => prov.places.insert key entry
    | none => prov.places.erase key
  ({ prov with places }).markDisplaced was

/-- `str::strip_prefix`. -/
def stripPrefix : List Char → List Char → Option (List Char)
  | [], text => some text
  | _ :: _, [] => none
  | want :: wanted, char :: text => if want = char then stripPrefix wanted text else none

/-- The part of the text before its first colon, when it has one. -/
def beforeColon : List Char → Option (List Char)
  | [] => none
  | char :: text => if char = ':' then some [] else (beforeColon text).map (char :: ·)

/-- The digits of a number, most significant first, refused as soon as the word overflows. -/
def parseDigits : Nat → List Char → Option Nat
  | value, [] => some value
  | value, char :: text =>
    if char.isDigit then
      let next := value * 10 + (char.toNat - '0'.toNat)
      if next < 2 ^ 64 then parseDigits next text else none
    else none

/-- `str::parse::<usize>`: an optional plus sign and at least one digit. -/
def parseWord : List Char → Option Nat
  | [] => none
  | '+' :: [] => none
  | '+' :: text => parseDigits 0 text
  | text => parseDigits 0 text

/-- Does a place key survive dropping `task`'s frames from `frame` on? -/
def outlives (task frame : Nat) (key : String) : Bool :=
  let taskPrefix := s!"t{task}:"
  match ((stripPrefix taskPrefix.toList key.toList).bind beforeColon).bind parseWord with
  | none => true
  | some index => index < frame

/-- The bindings whose keys satisfy `keep`. -/
def keepPlaces (keep : String → Bool) (places : Places) : Places :=
  ⟨places.entries.filter fun entry => keep entry.1,
    List.NodupKeys.sublist List.filter_sublist places.nodupKeys⟩

/-- Forget every place of `task`'s frame `frame` and deeper. -/
def dropFrame (prov : Provenance) (task frame : Nat) : Provenance :=
  { prov with
    places := keepPlaces (outlives task frame) prov.places
    dirty := (prov.places.entries.filter fun entry => !outlives task frame entry.1).foldl
      (fun dirty entry => pushDirty dirty entry.2.1) prov.dirty }

/-! ## Pruning -/

/-- The tags some place is bound to. -/
def bound (prov : Provenance) : List TagId := prov.places.entries.map fun entry => entry.2.2

/-- Must a tag of a tree stay in it? -/
def mustKeep (prov : Provenance) (alloc : Alloc) (tags : List TagId) (tag : TagId) : Bool :=
  tag = alloc.root || prov.isProtected tag || (tags.filterMap prov.parent).contains tag ||
    prov.bound.contains tag || alloc.exposed.contains tag

/-- Drop tags until nothing more falls off. Every round but the last drops a tag, so as many
rounds as there are tags suffice. -/
def pruneTree (prov : Provenance) (alloc : Alloc) : Nat → List TagId → List TagId
  | 0, tags => tags
  | fuel + 1, tags =>
    let keep := tags.filter (prov.mustKeep alloc tags)
    if keep.length = tags.length then tags else pruneTree prov alloc fuel keep

/-- Prune the listed allocations. -/
def pruneAll (prov : Provenance) : List AllocId → List Alloc → Option (List Alloc)
  | [], allocs => some allocs
  | index :: rest, allocs =>
    match allocs[index]? with
    | none => none
    | some alloc =>
      let tags := prov.pruneTree alloc (alloc.tags.length + 1) alloc.tags
      pruneAll prov rest (allocs.set index { alloc with tags })

/-- Drop the tags of the queued allocations that nothing reaches any more. -/
def prune (prov : Provenance) : Option Provenance :=
  (prov.pruneAll (prov.dirty.insertionSort (· ≤ ·)).dedup prov.allocs).map fun allocs =>
    { prov with allocs, dirty := [] }

/-! ## Retags, protectors, exposure and regions -/

/-- Mint a child tag. -/
def retag (prov : Provenance) (alloc : AllocId) (parent : TagId) (kind : RetagKind)
    (isProtected : Bool) (label : String) (span : Span) : Option (TagId × Provenance) :=
  (prov.allocs[alloc]?).map fun entry =>
    let id := prov.tags.length
    let grown : Provenance := { prov with
      tags := prov.tags ++
        [{ id, alloc, parent := some parent, perms := List.replicate entry.size kind.perm,
           isProtected, label, span }]
      allocs := prov.allocs.modify alloc fun entry =>
        { entry with tags := entry.tags ++ [id] } }
    (id, grown.markDirty alloc)

/-- Retag a place for a call. -/
def retagPlace (prov : Provenance) (key : String) (kind : RetagKind) (isProtected : Bool)
    (span : Span) : Option ((AllocId × TagId) × Provenance) :=
  let ((alloc, parent), prov) := prov.placeAlloc key none span
  (prov.retag alloc parent kind isProtected s!"`{key}`" span).map fun (child, prov) =>
    ((alloc, child), prov)

/-- End a protection extent. -/
def unprotect (prov : Provenance) (tag : TagId) : Provenance :=
  match prov.tags[tag]? with
  | none => prov
  | some entry =>
    if entry.isProtected = false then prov
    else
      ({ prov with
        tags := prov.tags.modify tag fun entry => { entry with isProtected := false } }).markDirty
        entry.alloc

/-- A pointer becomes an integer: its tag is exposed. -/
def expose (prov : Provenance) (ptr : RawPtr) : Provenance :=
  match ptr.alloc, ptr.prov with
  | some alloc, .tag tag =>
    { prov with
      allocs := prov.allocs.modify alloc fun entry =>
        if tag ∈ entry.exposed then entry
        else { entry with exposed := entry.exposed ++ [tag] } }
  | _, _ => prov

/-- The tags of every allocation that one of the regions owns. -/
def ownedTags (prov : Provenance) (regions : List RegionId) : List TagId :=
  (prov.allocs.filter fun alloc => alloc.owner.any fun owner => regions.contains owner).flatMap
    Alloc.tags

/-- Freeing regions disables every tag tree they own. -/
def regionFreed (prov : Provenance) (regions : List RegionId) : Provenance :=
  { prov with
    regionDead := regions.foldl
      (fun dead region => if region ∈ dead then dead else dead ++ [region]) prov.regionDead
    tags := setTree (fun _ => .disabled) (prov.ownedTags regions) prov.tags }

/-- A freeze moves every permission that is not disabled to frozen. -/
def freezePerm (perm : Perm) : Perm := if perm = .disabled then .disabled else .frozen

/-- Freezing regions freezes every tag tree they own. -/
def regionFrozen (prov : Provenance) (regions : List RegionId) : Provenance :=
  { prov with tags := setTree freezePerm (prov.ownedTags regions) prov.tags }

/-- Mark a range initialized without writing it. -/
def initRange (prov : Provenance) (ptr : RawPtr) (len : Nat) : Provenance :=
  match ptr.alloc with
  | none => prov
  | some id =>
    let lo := ptr.offset.toNat
    { prov with
      allocs := prov.allocs.modify id fun alloc =>
        { alloc with
          init := alloc.init.mapIdx fun off done => done || decide (lo ≤ off ∧ off < lo + len) } }

/-! ## The borrow tree as text -/

/-- The permissions of one tag in one word, a panic when it has none. -/
def squashed (perms : List Perm) : Option String :=
  match perms with
  | [] => none
  | first :: _ =>
    some (if perms.all (· = first) then first.text else "|".intercalate (perms.map Perm.text))

def isExposed (prov : Provenance) (alloc : AllocId) (tag : TagId) : Bool :=
  (prov.allocs[alloc]?).any fun entry => entry.exposed.contains tag

/-- The lines of a subtree. -/
def render (prov : Provenance) : Nat → TagId → Nat → Option (List String)
  | 0, _, _ => some []
  | fuel + 1, tag, depth =>
    match prov.tags[tag]? with
    | none => some []
    | some entry => do
      let indent := String.join (List.replicate depth "  ")
      let perms ← squashed entry.perms
      let guarded := if entry.isProtected then " PROTECTED" else ""
      let shown := if prov.isExposed entry.alloc entry.id then " exposed" else ""
      let line := s!"{indent}tag#{entry.id} {entry.label} {perms}{guarded}{shown}"
      let children := (prov.treeTags entry.alloc).filter fun child =>
        prov.parent child = some tag
      let below ← children.mapM fun child => prov.render fuel child (depth + 1)
      return line :: below.flatten

/-- The borrow tree of one allocation. -/
def tree (prov : Provenance) (alloc : AllocId) : Option (List String) :=
  match prov.allocs[alloc]? with
  | none => some []
  | some entry => do
    let life := if entry.live then "live" else "FREED"
    let owned := entry.owner.elim "" fun owner => s!", owned by region #{owner}"
    let head := s!"alloc#{alloc} `{entry.label}` {entry.size} byte(s), {life}{owned}"
    let lines ← prov.render (prov.tags.length + 1) entry.root 1
    return head :: lines

/-- A finding that carries the tree of an allocation. -/
def report (prov : Provenance) (alloc : AllocId) (row : UbRow) (span : Span)
    (tagSpan : Option Span) (message : String) : Option UbFinding :=
  (prov.tree alloc).map fun tree => ({ row, span, tagSpan, message, tree } : UbFinding)

/-! ## `assume noalias` -/

/-- The first pair of ranges that overlap in one allocation. -/
def overlapping :
    List (Option AllocId × Int × Int) → Option (AllocId × (Int × Int) × (Int × Int))
  | [] => none
  | range :: rest =>
    match range.1, rest.find? fun other =>
        decide (range.1 = other.1 ∧ range.2.1 < other.2.2 ∧ other.2.1 < range.2.2) with
    | some alloc, some other => some (alloc, range.2, other.2)
    | _, _ => overlapping rest

/-- Assert that the pointed-to ranges do not overlap. -/
def assumeNoalias (prov : Provenance) (ptrs : List RawPtr) (span : Span) :
    Option (Except UbFinding Unit × Provenance) :=
  let ranges := ptrs.map fun ptr => (ptr.alloc, ptr.offset, ptr.offset + (ptr.elem : Int))
  match overlapping ranges with
  | some (alloc, (lo, hi), (otherLo, otherHi)) =>
    (prov.report alloc .p5 span ((prov.allocs[alloc]?).map Alloc.span)
      (s!"`assume noalias` asserts these ranges are disjoint, and alloc#{alloc}[{lo}..{hi}) " ++
        s!"overlaps alloc#{alloc}[{otherLo}..{otherHi}) — the assertion is false")).map
      fun finding => (.error finding, prov)
  | none => some (.ok (), { prov with assumptions := prov.assumptions ++ [{ ranges, span }] })

/-! ## The access check -/

/-- Climb from `current` to `node`, comparing before each step: at most `fuel` steps up. -/
def walkUp (prov : Provenance) (node : TagId) : Nat → TagId → Option Bool
  | fuel, current =>
    if current = node then some true
    else match fuel with
      | 0 => some false
      | fuel + 1 =>
        match prov.tags[current]? with
        | none => none
        | some tag =>
          match tag.parent with
          | none => some false
          | some parent => walkUp prov node fuel parent

/-- Is `node` the accessing tag or one of its ancestors? -/
def isChildAccess (prov : Provenance) (node through : TagId) : Option Bool :=
  prov.walkUp node prov.tags.length through

/-- The three ways an access can break the permission of one tag. -/
inductive Breach where
  | frozenWrite
  | disabledAccess
  | protectedWrite
  deriving DecidableEq

def Breach.row : Breach → UbRow
  | .frozenWrite => .p2
  | .disabledAccess => .p1
  | .protectedWrite => .p1

def Breach.message (breach : Breach) (kind : AccessKind) (node : TagId) (label : String)
    (alloc : AllocId) (off : Nat) : String :=
  match breach with
  | .frozenWrite =>
    s!"write through tag#{node} ({label}), which is Frozen at alloc#{alloc}[{off}] — " ++
      "a `read`-mode borrow is immutable for its whole extent"
  | .disabledAccess =>
    let access := kind.text
    s!"{access} through tag#{node} ({label}), which is Disabled at alloc#{alloc}[{off}]"
  | .protectedWrite =>
    s!"foreign write at alloc#{alloc}[{off}] while tag#{node} ({label}) is PROTECTED for a " ++
      "call's extent — the protector makes the invalidation UB at the write rather than at " ++
      "a later use"

/-- The transition table: the permission after an access, `none` when it stays. -/
def transition (current : Perm) (child : Bool) (kind : AccessKind) (isProtected : Bool) :
    Except Breach (Option Perm) :=
  match current, child, kind with
  | .reserved, true, .read => .ok none
  | .reserved, true, .write => .ok (some .active)
  | .active, true, _ => .ok none
  | .frozen, true, .read => .ok none
  | .frozen, true, .write => .error .frozenWrite
  | .disabled, true, _ => .error .disabledAccess
  | .reserved, false, .read => .ok none
  | .active, false, .read => .ok (some .frozen)
  | .frozen, false, .read => .ok none
  | .disabled, false, .read => .ok none
  | .disabled, false, .write => .ok none
  | _, false, .write => if isProtected then .error .protectedWrite else .ok (some .disabled)

/-- One permission change: a tag, a byte and the new permission. -/
abbrev Change := TagId × Nat × Perm

/-- The changes of one tag at the listed bytes, or the first breach among them. -/
def planBytes (prov : Provenance) (alloc : AllocId) (node : TagId) (tag : Tag) (child : Bool)
    (kind : AccessKind) (span : Span) : List Nat → Option (Except UbFinding (List Change))
  | [] => some (.ok [])
  | off :: offs =>
    match tag.perms[off]? with
    | none => none
    | some current =>
      match transition current child kind tag.isProtected with
      | .error breach =>
        (prov.report tag.alloc breach.row span (some tag.span)
          (breach.message kind node tag.label alloc off)).map .error
      | .ok next =>
        (planBytes prov alloc node tag child kind span offs).map fun rest =>
          rest.map fun changes => (next.toList.map fun perm => (node, off, perm)) ++ changes

/-- The changes of the listed tags, or the first breach among them. -/
def planTags (prov : Provenance) (alloc : AllocId) (through : TagId) (offs : List Nat)
    (kind : AccessKind) (span : Span) : List TagId → Option (Except UbFinding (List Change))
  | [] => some (.ok [])
  | node :: nodes =>
    match prov.isChildAccess node through, prov.tags[node]? with
    | some child, some tag =>
      match prov.planBytes alloc node tag child kind span offs with
      | none => none
      | some (.error finding) => some (.error finding)
      | some (.ok changes) =>
        (planTags prov alloc through offs kind span nodes).map fun rest =>
          rest.map fun later => changes ++ later
    | _, _ => none

/-- The bytes `lo..hi`. -/
def bytes (lo hi : Nat) : List Nat := List.range' lo (hi - lo)

/-- One access through one tag, against the whole tree. -/
def plan (prov : Provenance) (alloc : AllocId) (through : TagId) (lo hi : Nat)
    (kind : AccessKind) (span : Span) : Option (Except UbFinding (List Change)) :=
  prov.planTags alloc through (bytes lo hi) kind span (prov.treeTags alloc)

/-- Carry out a plan. -/
def commit (prov : Provenance) (changes : List Change) : Provenance :=
  { prov with
    tags := changes.foldl
      (fun tags change => tags.modify change.1 fun tag =>
        { tag with perms := tag.perms.set change.2.1 change.2.2 })
      prov.tags }

/-- The first exposed tag whose plan goes through, or the first finding. -/
def resolve (prov : Provenance) (alloc : AllocId) (lo hi : Nat) (kind : AccessKind) (span : Span) :
    List TagId → Option UbFinding → Option (Except (Option UbFinding) (List Change))
  | [], first => some (.error first)
  | candidate :: rest, first =>
    match prov.plan alloc candidate lo hi kind span with
    | none => none
    | some (.ok changes) => some (.ok changes)
    | some (.error finding) => resolve prov alloc lo hi kind span rest (some (first.getD finding))

/-- The permission check of an access that is in bounds: the tag's plan, or an exposed tag's. -/
def checkTree (prov : Provenance) (alloc : AllocId) (entry : Alloc) (ptr : RawPtr) (lo hi : Nat)
    (kind : AccessKind) (span : Span) : Option (Except UbFinding Provenance) :=
  let access := kind.text
  match ptr.prov with
  | .tag tag =>
    (prov.plan alloc tag lo hi kind span).map fun answer => answer.map prov.commit
  | .wildcard =>
    if entry.live = false then
      (prov.report alloc .l2 span (some entry.span)
        s!"{access} through an exposed pointer into alloc#{alloc}, which was freed").map .error
    else match prov.resolve alloc lo hi kind span entry.exposed none with
      | none => none
      | some (.ok changes) => some (.ok (prov.commit changes))
      | some (.error (some finding)) => some (.error finding)
      | some (.error none) =>
        (prov.report alloc .p1 span (some entry.span)
          (s!"{access} at alloc#{alloc}[{lo}] through a wildcard, and the allocation has no " ++
            "exposed tag for it to resolve to")).map .error

/-- The initialization check, which comes after the permissions have moved. -/
def checkInit (prov : Provenance) (alloc : AllocId) (entry : Alloc) (lo hi : Nat)
    (kind : AccessKind) (span : Span) : Option (Except UbFinding Unit × Provenance) :=
  match kind with
  | .read =>
    match (bytes lo hi).find? fun off => entry.init[off]? ≠ some true with
    | some off =>
      (prov.report alloc .l1 span (some entry.span)
        s!"read of alloc#{alloc}[{off}], which nothing has written").map
        fun finding => (.error finding, prov)
    | none => some (.ok (), prov)
  | .write =>
    some (.ok (), { prov with
      allocs := prov.allocs.modify alloc fun entry =>
        { entry with
          init := entry.init.mapIdx fun off done => done || decide (lo ≤ off ∧ off < hi) } })

/-- One memory access, checked for bounds, ownership, permissions and initialization. -/
def access (prov : Provenance) (ptr : RawPtr) (len : Nat) (kind : AccessKind) (span : Span) :
    Option (Except UbFinding Unit × Provenance) :=
  let access := kind.text
  match ptr.alloc with
  | none =>
    let address := ptr.foreignText
    let message :=
      if ptr.offset = 0 then s!"{access} through a null raw pointer"
      else s!"{access} through {address}, an address no allocation owns: foreign memory, " ++
        "which a hosted target does not define ([mem.prov.device])"
    some (.error { row := .l2, span, tagSpan := none, message, tree := [] }, prov)
  | some alloc =>
    match prov.allocs[alloc]? with
    | none =>
      let message := s!"{access} through a raw pointer into no allocation"
      some (.error { row := .l2, span, tagSpan := none, message, tree := [] }, prov)
    | some entry =>
      let offset := ptr.offset
      let size := entry.size
      let lo := ptr.offset.toNat
      let hi := lo + len
      if offset < 0 ∨ (size : Int) < offset + (len : Int) then
        (prov.report alloc .p3 span (some entry.span)
          s!"{access} of {len} byte(s) at alloc#{alloc}[{offset}], which holds {size}").map
          fun finding => (.error finding, prov)
      else match entry.owner.filter fun owner => prov.regionDead.contains owner with
        | some owner =>
          (prov.report alloc .p4 span (some entry.span)
            (s!"{access} at alloc#{alloc}[{lo}], whose owning region #{owner} was freed " ++
              "wholesale")).map
            fun finding => (.error finding, prov)
        | none =>
          match prov.checkTree alloc entry ptr lo hi kind span with
          | none => none
          | some (.error finding) => some (.error finding, prov)
          | some (.ok next) => next.checkInit alloc entry lo hi kind span

/-- One access of a place; a place no borrow ever named has no obligations. -/
def accessPlace (prov : Provenance) (key : String) (kind : AccessKind) (span : Span) :
    Option (Except UbFinding Unit × Provenance) :=
  match prov.place key with
  | none => some (.ok (), prov)
  | some (alloc, tag) =>
    prov.access { alloc := some alloc, offset := 0, prov := .tag tag, elem := 1 } 1 kind span

end Provenance

/-! ## The operations as data -/

/-- Every operation of the machine. -/
inductive ProvOp where
  | hostAlloc (size : Nat) (owner : RegionId) (span : Span)
  | hostFree (ptr : RawPtr)
  | bindPlace (key : String) (alloc : AllocId) (tag : TagId)
  | rebindPlace (key : String) (alloc : AllocId) (tag : TagId)
  | restorePlace (key : String) (previous : Option (AllocId × TagId))
  | dropFrame (task frame : Nat)
  | prune
  | retag (alloc : AllocId) (parent : TagId) (kind : RetagKind) (isProtected : Bool)
      (label : String) (span : Span)
  | retagPlace (key : String) (kind : RetagKind) (isProtected : Bool) (span : Span)
  | unprotect (tag : TagId)
  | expose (ptr : RawPtr)
  | regionFreed (regions : List RegionId)
  | regionFrozen (regions : List RegionId)
  | initRange (ptr : RawPtr) (len : Nat)
  | assumeNoalias (ptrs : List RawPtr) (span : Span)
  | access (ptr : RawPtr) (len : Nat) (kind : AccessKind) (span : Span)
  | accessPlace (key : String) (kind : AccessKind) (span : Span)

/-- What an operation answers. -/
inductive ProvAnswer where
  | done
  | pointer (ptr : RawPtr)
  | freed (answer : Bool)
  | binding (was : Option (AllocId × TagId))
  | child (alloc : AllocId) (tag : TagId)
  | verdict (answer : Except UbFinding Unit)

namespace Provenance

/-- Perform one operation. -/
def perform (prov : Provenance) : ProvOp → Option (ProvAnswer × Provenance)
  | .hostAlloc size owner span =>
    let (ptr, next) := prov.hostAlloc size owner span
    some (.pointer ptr, next)
  | .hostFree ptr =>
    let (answer, next) := prov.hostFree ptr
    some (.freed answer, next)
  | .bindPlace key alloc tag => some (.done, prov.bindPlace key alloc tag)
  | .rebindPlace key alloc tag =>
    let (was, next) := prov.rebindPlace key alloc tag
    some (.binding was, next)
  | .restorePlace key previous => some (.done, prov.restorePlace key previous)
  | .dropFrame task frame => some (.done, prov.dropFrame task frame)
  | .prune => prov.prune.map fun next => (.done, next)
  | .retag alloc parent kind isProtected label span =>
    (prov.retag alloc parent kind isProtected label span).map fun (tag, next) =>
      (.child alloc tag, next)
  | .retagPlace key kind isProtected span =>
    (prov.retagPlace key kind isProtected span).map fun ((alloc, tag), next) =>
      (.child alloc tag, next)
  | .unprotect tag => some (.done, prov.unprotect tag)
  | .expose ptr => some (.done, prov.expose ptr)
  | .regionFreed regions => some (.done, prov.regionFreed regions)
  | .regionFrozen regions => some (.done, prov.regionFrozen regions)
  | .initRange ptr len => some (.done, prov.initRange ptr len)
  | .assumeNoalias ptrs span =>
    (prov.assumeNoalias ptrs span).map fun (answer, next) => (.verdict answer, next)
  | .access ptr len kind span =>
    (prov.access ptr len kind span).map fun (answer, next) => (.verdict answer, next)
  | .accessPlace key kind span =>
    (prov.accessPlace key kind span).map fun (answer, next) => (.verdict answer, next)

/-- The machine without its answers. -/
def step : Provenance → ProvOp → Option Provenance := Execution.silence perform

end Provenance

end WolfInterp
