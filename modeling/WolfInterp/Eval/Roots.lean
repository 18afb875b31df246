import WolfInterp.Eval.Extents
import WolfInterp.Eval.Storage

/-!
# Where held accesses start

A held access names its place by a frame number and a name, and a name denotes its innermost, newest
binding. The machine of frames and blocks below keeps beside every held access the binding its path
started at. A later access meets one that starts at another binding exactly when a binding has been
declared under the name of a held access of its frame, or a block has ended while an access from
before it was on a binding of the block.
-/

namespace WolfInterp.Eval

open Execution
open WolfInterp.Lex (Text)

/-! ## The machine -/

/-- Where a path starts: a binding, numbered by its declaration, or a module item. -/
inductive Root where
  | binding (number : Nat)
  | item (name : Text)
  deriving DecidableEq

/-- The bindings of a block, newest first, and how many accesses were held when it was entered. -/
structure Block where
  bindings : List (Text × Nat) := []
  held : Nat := 0

/-- A held access and where its path started. -/
abbrev Hold := Held × Root

/-- A path that `place_of` makes: it names every index. -/
abbrev Place := { path : Path // Proj.unknownIndex ∉ path.projections }

/-- The frames of an evaluator, the innermost first, each as its blocks, the innermost first, with
the initialized items and the accesses held, the newest last. -/
structure Activity where
  frames : List (List Block) := []
  items : List Text := []
  marks : List Hold := []
  nextCall : CallId := 0
  born : Nat := 0

inductive Act where
  | openFrame
  | closeFrame
  | openBlock
  | closeBlock
  | declare (name : Text)
  | initialize_ (name : Text)
  | openCall
  /-- A claim, a lend, a borrow or a loop's hold on a place. -/
  | hold (place : Place) (access : Access) (span : Span) (why : HeldWhy) (reach : Reach)
  /-- The pending claim of a `mut` receiver, or of a field of its view set, which asks nothing. -/
  | receive (place : Place) (span : Span) (call : CallId)
  /-- A capture that a closure was lent with, at the start of its body. -/
  | capture (name : Text) (span : Span)
  | enter (call : CallId)
  | withdraw (call : CallId) (path : Path)
  | release (count : Nat)

/-- The innermost, newest binding of a name. -/
def bindingIn (name : Text) : List Block → Option Nat
  | [] => none
  | block :: rest =>
    match entryOf (· = name) block.bindings with
    | some number => some number
    | none => bindingIn name rest

namespace Activity

/-- The accesses held, without where they started. -/
def set (state : Activity) : AccessSet :=
  { held := state.marks.map Prod.fst, nextCall := state.nextCall }

/-- Where a path starts now. -/
def root (state : Activity) (path : Path) : Option Root :=
  match path.frame with
  | none => if path.base ∈ state.items then some (.item path.base) else none
  | some own => ((fromEnd own state.frames).bind (bindingIn path.base)).map .binding

/-- The first held access that meets a new one. -/
def meeting (state : Activity) (path : Path) (access : Access) (reach : Reach) : Option Hold :=
  state.marks.find? fun mark => mark.1.meets path access reach

/-- Hold an access open on a path that starts somewhere. -/
def push (state : Activity) (held : Held) : Option Activity :=
  (state.root held.path).map fun root => { state with marks := state.marks ++ [(held, root)] }

/-- One step of the evaluator. A hold that meets a held access is refused. -/
def step (state : Activity) : Act → Option Activity
  | .openFrame => some { state with frames := [{}] :: state.frames }
  | .closeFrame =>
    match state.frames with
    | [] => none
    | _ :: outer => some { state with
        frames := outer
        marks := state.marks.filter fun mark => !mark.1.path.inFrame outer.length }
  | .openBlock =>
    match state.frames with
    | [] => none
    | blocks :: outer =>
      some { state with frames := ({ held := state.marks.length } :: blocks) :: outer }
  | .closeBlock =>
    match state.frames with
    | (block :: blocks) :: outer => some { state with
        frames := blocks :: outer
        marks := state.marks.take (state.marks.length - (state.marks.length - block.held)) }
    | _ => none
  | .declare name =>
    match state.frames with
    | (block :: blocks) :: outer => some { state with
        frames :=
          ({ block with bindings := (name, state.born) :: block.bindings } :: blocks) :: outer
        born := state.born + 1 }
    | _ => none
  | .initialize_ name => some { state with items := name :: state.items }
  | .openCall => some { state with nextCall := state.nextCall + 1 }
  | .hold place access span why reach =>
    match state.meeting place.1 access reach with
    | some _ => none
    | none => state.push ⟨place.1, access, span, why⟩
  | .receive place span call => state.push ⟨place.1, .exclusive, span, .pending call⟩
  | .capture name span =>
    state.push ⟨Path.local_ (state.frames.length - 1) name, .exclusive, span, .call⟩
  | .enter call => some { state with
      marks := state.marks.map fun mark =>
        if mark.1.why = .pending call then ({ mark.1 with why := .call }, mark.2) else mark }
  | .withdraw call path => some { state with
      marks := state.marks.eraseP fun mark => mark.1.why = .pending call && mark.1.path = path }
  | .release count =>
    some { state with marks := state.marks.take (state.marks.length - count) }

/-- The access set that a step leaves, by the operations of access sets. -/
def accesses (state : Activity) : Act → AccessSet
  | .closeFrame => state.set.releaseFrame (state.frames.length - 1)
  | .closeBlock =>
    match state.frames with
    | (block :: _) :: _ => state.set.release (state.set.held.length - block.held)
    | _ => state.set
  | .openCall => state.set.openCall.2
  | .hold place access span why _ => state.set.push ⟨place.1, access, span, why⟩
  | .receive place span call => state.set.push ⟨place.1, .exclusive, span, .pending call⟩
  | .capture name span =>
    state.set.push ⟨Path.local_ (state.frames.length - 1) name, .exclusive, span, .call⟩
  | .enter call => state.set.enterCall call
  | .withdraw call path => state.set.withdraw call path
  | .release count => state.set.release count
  | .openFrame | .openBlock | .declare _ | .initialize_ _ => state.set

theorem conflictAs_set (state : Activity) (path : Path) (access : Access) (reach : Reach) :
    state.set.conflictAs path access reach = (state.meeting path access reach).map Prod.fst := by
  rw [AccessSet.conflictAs, set, List.find?_map]
  rfl

theorem push_eq_some {state next : Activity} {held : Held} :
    state.push held = some next ↔
      ∃ root, state.root held.path = some root ∧
        next = { state with marks := state.marks ++ [(held, root)] } := by
  rw [push, Option.map_eq_some_iff]
  exact exists_congr fun root => and_congr_right fun _ => eq_comm

/-- What a step does to the accesses held does not depend on where they started. -/
theorem set_step {state next : Activity} {act : Act} (stepped : step state act = some next) :
    next.set = state.accesses act := by
  cases act with
  | closeFrame =>
    rw [step] at stepped
    split at stepped
    · cases stepped
    next outer isFrames =>
      cases stepped
      rw [accesses, isFrames, AccessSet.releaseFrame, set, set, List.filter_map]
      rfl
  | closeBlock =>
    rw [step] at stepped
    split at stepped
    next isFrames =>
      cases stepped
      rw [accesses, isFrames]
      simp [AccessSet.release, set, List.map_take]
    · cases stepped
  | openBlock | declare =>
    rw [step] at stepped
    split at stepped
    all_goals cases stepped
    all_goals rfl
  | openFrame | initialize_ | openCall =>
    cases stepped
    rfl
  | hold place access span why reach =>
    rw [step] at stepped
    split at stepped
    · cases stepped
    · obtain ⟨root, -, rfl⟩ := push_eq_some.mp stepped
      simp [accesses, AccessSet.push, set]
  | receive | capture =>
    obtain ⟨root, -, rfl⟩ := push_eq_some.mp stepped
    simp [accesses, AccessSet.push, set]
  | enter call =>
    cases stepped
    simp only [accesses, AccessSet.enterCall, set, List.map_map, AccessSet.mk.injEq, and_true]
    apply List.map_congr_left
    intro mark _
    dsimp only [Function.comp_apply]
    split <;> rfl
  | withdraw call path =>
    cases stepped
    rw [accesses, AccessSet.withdraw, set, set, List.eraseP_map]
    rfl
  | release count =>
    cases stepped
    simp [accesses, AccessSet.release, set, List.map_take]

/-! ## What conflicts -/

/-- What a later access meets started at the same binding, and one path is a prefix of the other. -/
def ByStorage (state : Activity) : Prop :=
  ∀ (place : Place) access reach mark, state.meeting place.1 access reach = some mark →
    state.root place.1 = some mark.2 ∧
      (mark.1.path.projections <+: place.1.projections ∨
        place.1.projections <+: mark.1.path.projections)

/-- An access whose path starts at no held access's binding is never refused. -/
theorem ByStorage.free {state : Activity} (met : ByStorage state) (place : Place)
    (apart : ∀ mark ∈ state.marks, state.root place.1 ≠ some mark.2) (access : Access)
    (reach : Reach) : state.set.conflictAs place.1 access reach = none := by
  rw [conflictAs_set, Option.map_eq_none_iff]
  cases found : state.meeting place.1 access reach with
  | none => rfl
  | some mark =>
    exact absurd (met place access reach mark found).1
      (apart mark (List.mem_of_find?_eq_some found))

/-- A binding is not declared under the name of a held access of its frame, and the end of a block
leaves no access held that started at a binding of the block. -/
def Unshadowed (state : Activity) : Act → Prop
  | .declare name =>
    ∀ mark ∈ state.marks,
      mark.1.path.frame = some (state.frames.length - 1) → mark.1.path.base ≠ name
  | .closeBlock =>
    match state.frames with
    | (block :: _) :: _ =>
      ∀ mark ∈ state.marks.take block.held, ∀ entry ∈ block.bindings,
        mark.2 ≠ .binding entry.2
    | _ => True
  | _ => True

def numbersOf (blocks : List Block) : List Nat :=
  blocks.flatMap fun block => block.bindings.map Prod.snd

/-- The bindings of all frames. -/
def numbers (state : Activity) : List Nat := state.frames.flatMap numbersOf

/-- The invariant. -/
structure Sound (state : Activity) : Prop where
  distinct : state.numbers.Nodup
  born : ∀ number ∈ state.numbers, number < state.born
  rooted : ∀ mark ∈ state.marks, state.root mark.1.path = some mark.2
  named : ∀ mark ∈ state.marks, .unknownIndex ∉ mark.1.path.projections

end Activity

theorem Proj.eq_of_mayEqual {one two : Proj} (same : one.mayEqual two = true)
    (named : one ≠ .unknownIndex) (named' : two ≠ .unknownIndex) : one = two := by
  cases one <;> cases two <;> simp_all [mayEqual]

theorem eq_of_along {one two : List Proj}
    (along : List.Forall₂ (fun one two => Proj.mayEqual one two = true) one two)
    (named : .unknownIndex ∉ one) (named' : .unknownIndex ∉ two) : one = two := by
  induction along with
  | nil => rfl
  | @cons one two ones twos here _ induction =>
    rw [List.mem_cons, not_or] at named named'
    rw [Proj.eq_of_mayEqual here (Ne.symm named.1) (Ne.symm named'.1),
      induction named.2 named'.2]

/-- Among paths that name every index, one that covers another is a prefix of it. -/
theorem Path.Covers.isPrefix {path other : Path} (covers : path.Covers other)
    (named : .unknownIndex ∉ path.projections) (named' : .unknownIndex ∉ other.projections) :
    path.projections <+: other.projections := by
  obtain ⟨front, rest, split, along⟩ := covers
  rw [split, List.mem_append, not_or] at named'
  rw [split, eq_of_along along named named'.1]
  exact List.prefix_append front rest

theorem mem_of_entryOf {name : Text} {number : Nat} :
    ∀ {bindings : List (Text × Nat)}, entryOf (· = name) bindings = some number →
      (name, number) ∈ bindings := by
  intro bindings
  induction bindings with
  | nil => nofun
  | cons entry rest induction =>
    obtain ⟨other, first⟩ := entry
    intro found
    rw [entryOf] at found
    split at found
    next same =>
      cases found
      rw [of_decide_eq_true same]
      exact List.mem_cons_self
    · exact List.mem_cons_of_mem _ (induction found)

namespace Activity

section Roots

variable {state : Activity} {path : Path}

/-- Where a path starts depends on its frame and its name alone. -/
theorem root_congr {other : Path} (frame : other.frame = path.frame)
    (base : other.base = path.base) :
    state.root other = state.root path := by
  rw [root, root, frame, base]

theorem mem_numbersOf {name : Text} {number : Nat} :
    ∀ {blocks : List Block}, bindingIn name blocks = some number → number ∈ numbersOf blocks := by
  intro blocks
  induction blocks with
  | nil => nofun
  | cons block rest induction =>
    intro found
    rw [bindingIn] at found
    rw [numbersOf, List.flatMap_cons, List.mem_append]
    split at found
    next number' here =>
      cases found
      exact .inl (List.mem_map_of_mem (f := Prod.snd) (mem_of_entryOf here))
    · exact .inr (induction found)

/-- A binding that a path starts at is one of its frame. -/
theorem mem_numbers {number : Nat} (starts : state.root path = some (.binding number)) :
    number ∈ state.numbers := by
  rw [root] at starts
  split at starts
  · split at starts <;> cases starts
  · obtain ⟨found, isFound, same⟩ := Option.map_eq_some_iff.mp starts
    cases same
    obtain ⟨blocks, isBlocks, inside⟩ := Option.bind_eq_some_iff.mp isFound
    exact List.mem_flatMap.mpr ⟨blocks, mem_of_fromEnd isBlocks, mem_numbersOf inside⟩

theorem root_item (framed : path.frame = none) {frames : List (List Block)} :
    ({ state with frames } : Activity).root path = state.root path := by
  rw [root, root, framed]

section

variable {blocks : List Block} {outer : List (List Block)} (frames : state.frames = blocks :: outer)
include frames

/-- A change of the innermost frame moves no path of another frame. -/
theorem root_outer {own : Nat} {blocks' : List Block} (framed : path.frame = some own)
    (other : own ≠ outer.length) :
    ({ state with frames := blocks' :: outer } : Activity).root path = state.root path := by
  rw [root, root, framed, frames]
  simp only [fromEnd, if_neg other]

theorem root_inner (framed : path.frame = some outer.length) :
    state.root path = (bindingIn path.base blocks).map .binding := by
  rw [root, framed, frames]
  simp [fromEnd]

end

end Roots

/-! ## Every step -/

/-- What a held access meets started where the held one did. -/
theorem Sound.byStorage {state : Activity} (sound : Sound state) : ByStorage state := by
  intro place access reach mark met
  have among := List.mem_of_find?_eq_some met
  have meets := List.find?_some met
  rw [Held.meets, Bool.and_eq_true, Bool.and_eq_true, Path.conflictsWith_iff] at meets
  obtain ⟨frame, base, covers⟩ := meets.1.2
  refine ⟨(root_congr frame.symm base.symm).trans (sound.rooted mark among), ?_⟩
  have named := sound.named mark among
  rcases covers with covers | covers
  · exact .inl (covers.isPrefix named place.2)
  · exact .inr (covers.isPrefix place.2 named)

/-- An exclusive access to a held path's whole base meets an access held on that base. -/
theorem met_at_base {state : Activity} {mark : Hold} (among : mark ∈ state.marks) :
    ∃ met, state.meeting { mark.1.path with projections := [] } .exclusive .access = some met ∧
      met ∈ state.marks ∧ met.1.path.frame = mark.1.path.frame ∧
        met.1.path.base = mark.1.path.base := by
  have meets : mark.1.meets { mark.1.path with projections := [] } .exclusive .access = true := by
    rw [Held.meets, Path.conflictsWith]
    cases mark.1.why <;> simp
  have found :
    (state.meeting { mark.1.path with projections := [] } .exclusive .access).isSome := by
    rw [meeting, List.find?_isSome]
    exact ⟨mark, among, meets⟩
  obtain ⟨met, found⟩ := Option.isSome_iff_exists.mp found
  have meets := List.find?_some found
  rw [Held.meets, Bool.and_eq_true, Bool.and_eq_true, Path.conflictsWith_iff] at meets
  exact ⟨met, found, List.mem_of_find?_eq_some found, meets.1.2.1, meets.1.2.2.1⟩

/-- Where accesses are met by storage, the base of a held access still starts where the held
accesses on it did. -/
theorem ByStorage.rooted {before after : Activity} (sound : Sound before) (met : ByStorage after)
    {mark : Hold} (among : mark ∈ after.marks) (kept : ∀ mark ∈ after.marks, mark ∈ before.marks) :
    after.root mark.1.path = some mark.2 := by
  obtain ⟨first, found, member, frame, base⟩ := met_at_base among
  have here := (met ⟨{ mark.1.path with projections := [] }, by simp⟩ _ _ _ found).1
  have same := (root_congr frame base).symm.trans (sound.rooted first (kept first member))
  rw [sound.rooted mark (kept mark among)] at same
  rw [same]
  exact here

theorem numbers_cons {state : Activity} {blocks : List Block} {outer : List (List Block)}
    (frames : state.frames = blocks :: outer) :
    state.numbers = numbersOf blocks ++ outer.flatMap numbersOf := by
  rw [numbers, frames, List.flatMap_cons]

theorem numbersOf_cons (block : Block) (blocks : List Block) :
    numbersOf (block :: blocks) = block.bindings.map Prod.snd ++ numbersOf blocks :=
  List.flatMap_cons

/-- A binding declared under the name of a held access hides where that access started, and a block
that leaves an access held on a binding of its own takes the binding away. -/
theorem unshadowed_of_byStorage {state next : Activity} {act : Act} (sound : Sound state)
    (stepped : step state act = some next) (met : ByStorage next) : Unshadowed state act := by
  cases act with
  | declare name =>
    intro mark among framed base
    rw [step] at stepped
    split at stepped
    next block blocks outer frames =>
      cases stepped
      rw [frames] at framed
      have here := met.rooted sound among fun _ holds => holds
      rw [root_inner rfl (by simpa using framed)] at here
      have found : bindingIn mark.1.path.base
          ({ block with bindings := (name, state.born) :: block.bindings } :: blocks) =
            some state.born := by
        simp [bindingIn, entryOf, base]
      rw [found, Option.map_some, Option.some_inj] at here
      have before := sound.rooted mark among
      rw [← here] at before
      exact absurd (sound.born _ (mem_numbers before)) (Nat.lt_irrefl _)
    · cases stepped
  | closeBlock =>
    rw [step] at stepped
    split at stepped
    next block blocks outer frames =>
      cases stepped
      rw [Unshadowed, frames]
      intro mark among entry inside same
      have still : mark ∈ state.marks.take
          (state.marks.length - (state.marks.length - block.held)) := by
        rw [List.mem_take_iff_getElem] at among ⊢
        obtain ⟨index, bound, isMark⟩ := among
        exact ⟨index, by omega, isMark⟩
      have here := met.rooted sound still fun _ holds => List.mem_of_mem_take holds
      rw [same] at here
      have later := mem_numbers here
      have distinct := sound.distinct
      rw [numbers_cons frames, numbersOf_cons, List.append_assoc] at distinct
      exact (List.disjoint_of_nodup_append distinct) (List.mem_map_of_mem inside) later
    · cases stepped
  | openFrame | closeFrame | openBlock | initialize_ | openCall | hold | receive | capture | enter
  | withdraw | release => trivial

section Steps

variable {state : Activity} {marks : List Hold} {blocks : List Block} {outer : List (List Block)}

section

variable (sound : Sound state)
include sound

/-- A step that leaves the frames and the items alone and adds no mark keeps the invariant. -/
theorem Sound.of_marks {nextCall : CallId}
    (from_ : ∀ mark ∈ marks, ∃ before ∈ state.marks,
      before.1.path = mark.1.path ∧ before.2 = mark.2) :
    Sound { state with marks, nextCall } := by
  refine ⟨sound.distinct, sound.born, fun mark among => ?_, fun mark among => ?_⟩
  · obtain ⟨before, holds, path, root⟩ := from_ mark among
    rw [← path, ← root]
    exact sound.rooted before holds
  · obtain ⟨before, holds, path, -⟩ := from_ mark among
    rw [← path]
    exact sound.named before holds

theorem Sound.of_subset (fewer : marks ⊆ state.marks) :
    Sound { state with marks } :=
  sound.of_marks fun mark among => ⟨mark, fewer among, rfl, rfl⟩

theorem Sound.push {next : Activity} {held : Held}
    (named : .unknownIndex ∉ held.path.projections) (pushed : state.push held = some next) :
    Sound next := by
  obtain ⟨root, starts, rfl⟩ := push_eq_some.mp pushed
  refine ⟨sound.distinct, sound.born, fun mark among => ?_, fun mark among => ?_⟩
  · rcases List.mem_append.mp among with old | new
    · exact sound.rooted mark old
    · rw [List.mem_singleton.mp new]
      exact starts
  · rcases List.mem_append.mp among with old | new
    · exact sound.named mark old
    · rw [List.mem_singleton.mp new]
      exact named

/-- A change of the innermost frame that binds the held names as before keeps the invariant. -/
theorem Sound.reframe {blocks' : List Block} {born : Nat}
    (frames : state.frames = blocks :: outer) (fewer : marks ⊆ state.marks)
    (distinct : (numbersOf blocks' ++ outer.flatMap numbersOf).Nodup)
    (young : ∀ number ∈ numbersOf blocks' ++ outer.flatMap numbersOf, number < born)
    (same : ∀ mark ∈ marks, mark.1.path.frame = some outer.length →
      bindingIn mark.1.path.base blocks' = bindingIn mark.1.path.base blocks) :
    Sound { state with frames := blocks' :: outer, marks, born } := by
  refine ⟨distinct, young, fun mark among => ?_, fun mark among => sound.named mark (fewer among)⟩
  have before := sound.rooted mark (fewer among)
  rw [← before]
  change ({ state with frames := blocks' :: outer } : Activity).root mark.1.path = _
  cases framed : mark.1.path.frame with
  | none => exact root_item framed
  | some own =>
    by_cases inner : own = outer.length
    · subst inner
      rw [root_inner frames framed, root_inner rfl framed, same mark among framed]
    · exact root_outer frames framed inner

theorem Sound.openFrame :
    Sound { state with frames := [{}] :: state.frames } := by
  refine ⟨sound.distinct, sound.born, fun mark among => ?_, sound.named⟩
  have before := sound.rooted mark among
  rw [← before, root, root]
  split
  · rfl
  next own framed =>
    rw [root, framed] at before
    obtain ⟨number, found, -⟩ := Option.map_eq_some_iff.mp before
    obtain ⟨blocks, isBlocks, -⟩ := Option.bind_eq_some_iff.mp found
    have bound : own < state.frames.length := fromEnd_isSome.mp (by rw [isBlocks]; rfl)
    rw [fromEnd, if_neg (by omega)]

/-- The frame that a path of an outer frame starts in outlives the innermost frame. -/
theorem Sound.closeFrame {blocks : List Block} {outer : List (List Block)}
    (frames : state.frames = blocks :: outer) :
    Sound { state with
      frames := outer
      marks := state.marks.filter fun mark => !mark.1.path.inFrame outer.length } := by
  have inner := numbers_cons frames
  refine ⟨?_, fun number among => ?_, fun mark among => ?_, fun mark among => ?_⟩
  · exact (inner ▸ sound.distinct).of_append_right
  · exact sound.born number (by rw [inner]; exact List.mem_append_right _ among)
  · obtain ⟨holds, apart⟩ := List.mem_filter.mp among
    have before := sound.rooted mark holds
    rw [Path.inFrame] at apart
    rw [← before, root, root]
    split
    next framed => simp [framed] at apart
    next own framed =>
      have below : own < outer.length := by simpa [framed] using apart
      rw [frames, fromEnd, if_neg (by omega)]
  · exact sound.named mark (List.mem_filter.mp among).1

theorem Sound.openBlock {held : Nat} (frames : state.frames = blocks :: outer) :
    Sound { state with frames := ({ held } :: blocks) :: outer } := by
  have inner := numbers_cons frames
  have distinct := sound.distinct
  have born := sound.born
  rw [inner] at distinct born
  exact sound.reframe frames (fun _ holds => holds) distinct born fun _ _ _ => rfl

theorem Sound.closeBlock {block : Block}
    (frames : state.frames = (block :: blocks) :: outer) (fewer : marks ⊆ state.marks)
    (left : ∀ mark ∈ marks, ∀ entry ∈ block.bindings, mark.2 ≠ .binding entry.2) :
    Sound { state with frames := blocks :: outer, marks } := by
  have inner := numbers_cons frames
  rw [numbersOf_cons, List.append_assoc] at inner
  refine sound.reframe frames fewer (inner ▸ sound.distinct).of_append_right
    (fun number among => sound.born number (by rw [inner]; exact List.mem_append_right _ among))
    fun mark among framed => ?_
  have before := sound.rooted mark (fewer among)
  rw [root_inner frames framed] at before
  cases found : entryOf (· = mark.1.path.base) block.bindings with
  | some number =>
    rw [bindingIn, found, Option.map_some, Option.some_inj] at before
    exact absurd before.symm (left mark among _ (mem_of_entryOf found))
  | none =>
    symm
    rw [bindingIn, found]

theorem Sound.declare {block : Block} {name : Text}
    (frames : state.frames = (block :: blocks) :: outer)
    (fresh : ∀ mark ∈ state.marks, mark.1.path.frame = some outer.length →
      mark.1.path.base ≠ name) :
    Sound { state with
      frames := ({ block with bindings := (name, state.born) :: block.bindings } :: blocks) :: outer
      born := state.born + 1 } := by
  have inner := numbers_cons frames
  have young : ∀ number ∈ numbersOf (block :: blocks) ++ outer.flatMap numbersOf,
      number < state.born := inner ▸ sound.born
  have more : numbersOf ({ block with bindings := (name, state.born) :: block.bindings } ::
      blocks) = state.born :: numbersOf (block :: blocks) := by
    rw [numbersOf_cons, numbersOf_cons]
    rfl
  refine sound.reframe frames (fun _ holds => holds) ?_ ?_ fun mark among framed => ?_
  · rw [more, List.cons_append, List.nodup_cons]
    exact ⟨fun old => Nat.lt_irrefl _ (young _ old), inner ▸ sound.distinct⟩
  · intro number among
    rw [more, List.cons_append, List.mem_cons] at among
    rcases among with rfl | old
    · exact Nat.lt_succ_self _
    · exact (young number old).trans (Nat.lt_succ_self _)
  · rw [bindingIn, bindingIn, entryOf, if_neg]
    simpa using (fresh mark among framed).symm

/-- A step under the condition keeps the invariant. -/
theorem Sound.step {next : Activity} {act : Act}
    (stepped : step state act = some next) (clear : Unshadowed state act) : Sound next := by
  cases act with
  | openFrame =>
    cases stepped
    exact sound.openFrame
  | closeFrame =>
    rw [Activity.step] at stepped
    split at stepped
    · cases stepped
    next frames =>
      cases stepped
      exact sound.closeFrame frames
  | openBlock =>
    rw [Activity.step] at stepped
    split at stepped
    · cases stepped
    next frames =>
      cases stepped
      exact sound.openBlock frames
  | closeBlock =>
    rw [Activity.step] at stepped
    split at stepped
    next frames =>
      cases stepped
      rw [Unshadowed, frames] at clear
      refine sound.closeBlock frames (List.take_subset _ _) fun mark among => clear mark ?_
      exact List.take_subset_take_left _ (by omega) among
    · cases stepped
  | declare name =>
    rw [Activity.step] at stepped
    split at stepped
    next frames =>
      cases stepped
      rw [Unshadowed, frames] at clear
      exact sound.declare frames clear
    · cases stepped
  | initialize_ name =>
    cases stepped
    refine ⟨sound.distinct, sound.born, fun mark among => ?_, sound.named⟩
    have before := sound.rooted mark among
    rw [root] at before ⊢
    split at before
    · split at before
      next holds => rw [if_pos (List.mem_cons_of_mem _ holds), before]
      · cases before
    · exact before
  | openCall =>
    cases stepped
    exact sound.of_marks fun mark among => ⟨mark, among, rfl, rfl⟩
  | hold place access span why reach =>
    rw [Activity.step] at stepped
    split at stepped
    · cases stepped
    · exact sound.push place.2 stepped
  | receive place => exact sound.push place.2 stepped
  | capture name span => exact sound.push (by simp [Path.local_]) stepped
  | enter call =>
    cases stepped
    refine sound.of_marks fun mark among => ?_
    obtain ⟨before, holds, rfl⟩ := List.mem_map.mp among
    refine ⟨before, holds, ?_⟩
    split
    · exact ⟨rfl, rfl⟩
    · exact ⟨rfl, rfl⟩
  | withdraw call path =>
    cases stepped
    exact sound.of_subset List.eraseP_subset
  | release count =>
    cases stepped
    exact sound.of_subset (List.take_subset _ _)

end

end Steps

theorem sound_initial : Sound {} := ⟨List.nodup_nil, nofun, nofun, nofun⟩

/-- In a run every access that meets a held one starts at the held one's binding and is a prefix of
it or the other way round, exactly when no binding is declared under the name of a held access of
its frame and no block ends with an access left on a binding of its own. -/
theorem byStorage_iff (acts : List Act) :
    Always step ByStorage {} acts ↔ Guarded step Unshadowed {} acts :=
  always_iff_guarded_of sound_initial (fun _ sound => sound.byStorage)
    (fun _ _ _ sound stepped met => unshadowed_of_byStorage sound stepped met)
    fun _ _ _ sound stepped clear => sound.step stepped clear

def xsPlace : Place := ⟨Path.local_ 0 "xs".toList, by decide⟩

/-- `for x in xs { let xs = [x] … }`, up to the inner binding. -/
def shadowedLoop : List Act :=
  [.openFrame, .declare "xs".toList, .hold xsPlace .shared ⟨0, 1⟩ .iteration .access, .openBlock,
    .declare "x".toList, .openBlock, .declare "xs".toList]

/-- A push to the inner list meets the loop's hold on the outer one. -/
theorem not_byStorage : ¬ ∀ acts : List Act, Always step ByStorage {} acts := by
  intro always
  have runs : ((exec step {} shadowedLoop).map fun state =>
      (state.root xsPlace.1, (state.meeting xsPlace.1 .exclusive .access).map Prod.snd)) =
        some (some (.binding 2), some (.binding 0)) := by
    decide
  obtain ⟨state, run, both⟩ := Option.map_eq_some_iff.mp runs
  obtain ⟨starts, met⟩ := Prod.mk.inj both
  obtain ⟨mark, met, other⟩ := Option.map_eq_some_iff.mp met
  have byStorage := always shadowedLoop shadowedLoop [] state (List.append_nil _).symm run
  have same := starts.symm.trans (byStorage xsPlace .exclusive .access mark met).1
  rw [other] at same
  cases same

instance (state : Activity) (act : Act) : Decidable (Unshadowed state act) := by
  unfold Unshadowed
  repeat' split
  all_goals infer_instance

/-- No access is refused whose path starts at no held access's binding. -/
def FreeApart (state : Activity) : Prop :=
  ∀ place : Place, (∀ mark ∈ state.marks, state.root place.1 ≠ some mark.2) → ∀ access reach,
    state.set.conflictAs place.1 access reach = none

/-- Every step changes the accesses held as the operations of access sets do, and no run without
shadowing refuses an access that starts elsewhere. -/
theorem apart_free {acts : List Act} (clear : Guarded step Unshadowed {} acts) :
    Always step FreeApart {} acts ∧
      ∀ state act next, step state act = some next → next.set = state.accesses act := by
  refine ⟨fun front rest state split run place apart => ?_, fun _ _ _ => set_step⟩
  have sound := always_of_guarded Sound Unshadowed sound_initial
    (fun _ _ _ sound clear stepped => sound.step stepped clear) clear front rest state split run
  exact sound.byStorage.free place apart

theorem apart_free_loop : Always step FreeApart {} (shadowedLoop.take 6) :=
  (apart_free (by decide)).1

end Activity

end WolfInterp.Eval
