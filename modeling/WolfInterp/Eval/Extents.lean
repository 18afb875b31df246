import WolfInterp.Eval.Access

/-!
# Extents of held accesses

The evaluator holds accesses for the extents of calls, of blocks with the borrows bound in them, of
loops and of frames, and extents nest. A `mut` argument's claim is pending until its call is
entered. The end of a frame drops every held access of the frame and of the globals, those that
enclosing extents hold included, and the ends of the enclosing extents count what they release.
-/

namespace WolfInterp.Eval

open Execution
open WolfInterp.Lex (Text)

/-! ## What conflicts -/

/-- A path covers another: it is a prefix of it, up to steps that may be the same. -/
def Path.Covers (path other : Path) : Prop :=
  ∃ front rest, other.projections = front ++ rest ∧
    List.Forall₂ (fun one two => Proj.mayEqual one two = true) path.projections front

/-- Two paths overlap: they have one base, and one covers the other. -/
def Path.Overlaps (path other : Path) : Prop :=
  path.frame = other.frame ∧ path.base = other.base ∧ (path.Covers other ∨ other.Covers path)

theorem Proj.mayEqual_comm (one two : Proj) : one.mayEqual two = two.mayEqual one := by
  cases one <;> cases two <;> simp [Proj.mayEqual, eq_comm]

theorem all_zip_iff {α : Type} {rel : α → α → Bool} (comm : ∀ a b, rel a b = rel b a) :
    ∀ one two : List α, ((one.zip two).all fun (a, b) => rel a b) = true ↔
      (∃ front rest, two = front ++ rest ∧ List.Forall₂ (fun a b => rel a b = true) one front) ∨
        ∃ front rest, one = front ++ rest ∧ List.Forall₂ (fun a b => rel a b = true) two front := by
  intro one
  induction one with
  | nil => exact fun two => ⟨fun _ => .inl ⟨[], two, rfl, .nil⟩, fun _ => rfl⟩
  | cons a one tail =>
    intro two
    cases two with
    | nil => exact ⟨fun _ => .inr ⟨[], a :: one, rfl, .nil⟩, fun _ => rfl⟩
    | cons b two =>
      rw [List.zip_cons_cons, List.all_cons, Bool.and_eq_true, tail two]
      constructor
      · rintro ⟨here, ⟨front, rest, rfl, along⟩ | ⟨front, rest, rfl, along⟩⟩
        · exact .inl ⟨b :: front, rest, rfl, .cons here along⟩
        · exact .inr ⟨a :: front, rest, rfl, .cons ((comm b a).trans here) along⟩
      · rintro (⟨front, rest, split, along⟩ | ⟨front, rest, split, along⟩)
        · cases along with
          | cons here along =>
            cases split
            exact ⟨here, .inl ⟨_, rest, rfl, along⟩⟩
        · cases along with
          | cons here along =>
            cases split
            exact ⟨(comm a b).trans here, .inr ⟨_, rest, rfl, along⟩⟩

/-- Paths conflict exactly when they overlap. -/
theorem Path.conflictsWith_iff {path other : Path} :
    path.conflictsWith other = true ↔ path.Overlaps other := by
  rw [conflictsWith, Bool.and_eq_true, Bool.and_eq_true, all_zip_iff Proj.mayEqual_comm]
  simp only [decide_eq_true_eq]
  exact ⟨fun ⟨⟨one, two⟩, three⟩ => ⟨one, two, three⟩, fun ⟨one, two, three⟩ => ⟨⟨one, two⟩, three⟩⟩

/-- Two accesses conflict: their paths overlap and one of them is exclusive. -/
def Held.Conflicts (held other : Held) : Prop :=
  (held.access = .exclusive ∨ other.access = .exclusive) ∧ held.path.Overlaps other.path

/-- A held access is in effect unless its call is not entered yet. -/
def Held.InEffect (held : Held) : Prop := ∀ call, held.why ≠ .pending call

/-! ## The machine -/

/-- What the evaluator has open. A call knows its id, whether it is entered, how many accesses its
end releases and the claims on its receiver, which its entry withdraws. A block and a loop know how
many accesses were held before, and so does a frame, which also has a number. -/
inductive Extent where
  | call (id : CallId) (entered : Bool) (held : Nat) (receivers : List Path)
  | block (depth : Nat)
  | frame (number depth : Nat)
  deriving DecidableEq

def Extent.isFrame : Extent → Bool
  | .frame _ _ => true
  | _ => false

/-- The access set and the open extents, innermost first. -/
structure Nest where
  set : AccessSet
  extents : List Extent
  deriving DecidableEq

inductive NestOp where
  /-- An argument list begins. -/
  | openCall
  /-- A `(mut …)` receiver is claimed for the call. -/
  | receive (path : Path) (span : Span)
  /-- A `mut` argument. -/
  | claim (path : Path) (span : Span)
  /-- A place passed `read`. -/
  | lend (path : Path) (span : Span)
  | enter
  | finish
  /-- A signal leaves the argument list. -/
  | abandon
  | openBlock
  /-- A `for` loop over a container place. -/
  | openLoop (path : Path) (span : Span)
  | borrow (path : Path) (access : Access) (span : Span)
  | close
  | openFrame
  /-- A capture that a closure was lent with, at the start of its body. -/
  | capture (base : Text) (span : Span)
  | closeFrame

namespace Nest

/-- Push an access that meets none of those held. -/
def pushAs (set : AccessSet) (held : Held) (reach : Reach) : Option AccessSet :=
  match set.conflictAs held.path held.access reach with
  | some _ => none
  | none => some (set.push held)

/-- Withdraw the claims on a receiver, in their order. -/
def withdrawAll (id : CallId) (receivers : List Path) (set : AccessSet) : AccessSet :=
  receivers.foldl (fun set path => set.withdraw id path) set

/-- One step of the evaluator. A push that meets a held access is refused, and so is what does not
nest: the end of an extent that is not the innermost one, an argument of a call already entered, or
a borrow outside a block. -/
def step (nest : Nest) (op : NestOp) : Option Nest :=
  let set := nest.set
  match op, nest.extents with
  | .openCall, extents => some ⟨set.openCall.2, .call set.openCall.1 false 0 [] :: extents⟩
  | .receive path span, .call id false 0 receivers :: extents => do
    let set ← pushAs set ⟨path, .exclusive, span, .pending id⟩ .access
    some ⟨set, .call id false 0 (receivers ++ [path]) :: extents⟩
  | .claim path span, .call id false held receivers :: extents => do
    let set ← pushAs set ⟨path, .exclusive, span, .pending id⟩ .access
    some ⟨set, .call id false (held + 1) receivers :: extents⟩
  | .lend path span, .call id false held receivers :: extents => do
    let set ← pushAs set ⟨path, .shared, span, .call⟩ (.lend id)
    some ⟨set, .call id false (held + 1) receivers :: extents⟩
  | .enter, .call id false held receivers :: extents =>
    some ⟨(withdrawAll id receivers set).enterCall id, .call id true held [] :: extents⟩
  | .finish, .call _ true held _ :: extents => some ⟨set.release held, extents⟩
  | .abandon, .call id false held receivers :: extents =>
    some ⟨withdrawAll id receivers (set.release held), extents⟩
  | .openBlock, extents => some ⟨set, .block set.held.length :: extents⟩
  | .openLoop path span, extents => do
    let depth := set.held.length
    let set ← pushAs set ⟨path, .shared, span, .iteration⟩ .access
    some ⟨set, .block depth :: extents⟩
  | .borrow path access span, .block depth :: extents => do
    let set ← pushAs set ⟨path, access, span, .borrow⟩ .borrow
    some ⟨set, .block depth :: extents⟩
  | .close, .block depth :: extents => some ⟨set.release (set.held.length - depth), extents⟩
  | .openFrame, extents =>
    some ⟨set, .frame (extents.countP Extent.isFrame) set.held.length :: extents⟩
  | .capture base span, .frame number depth :: extents => do
    let set ← pushAs set ⟨Path.local_ number base, .exclusive, span, .call⟩ .access
    some ⟨set, .frame number depth :: extents⟩
  | .closeFrame, .frame number _ :: extents => some ⟨set.releaseFrame number, extents⟩
  | _, _ => none

/-- Nothing is held and nothing is open. -/
def initial : Nest := ⟨{}, []⟩

/-- No two accesses in effect conflict. -/
def Exclusive (nest : Nest) : Prop :=
  nest.set.held.Pairwise fun one two => one.InEffect → two.InEffect → ¬ one.Conflicts two

/-- The end of a frame drops nothing that an enclosing extent holds. -/
def KeepsOuter (nest : Nest) (op : NestOp) : Prop :=
  match op, nest.extents with
  | .closeFrame, .frame number depth :: _ =>
    ∀ held ∈ nest.set.held.take depth, held.path.inFrame number = false
  | _, _ => True

/-! ## What is held where -/

/-- The accesses an extent holds, after those that the ones around it hold. -/
def Owns : Extent → List Held → List Held → Prop
  | .call id false held receivers, _, own =>
    ∃ claims args, own = claims ++ args ∧ claims.map Held.path = receivers ∧
      (∀ one ∈ claims, one.why = .pending id) ∧ args.length = held ∧
      (∀ one ∈ own, one.why = .pending id ∧ one.access = .exclusive ∨ one.InEffect) ∧
      own.Pairwise fun one two => ¬ one.Conflicts two
  | .call _ true held receivers, _, own =>
    receivers = [] ∧ own.length = held ∧ ∀ one ∈ own, one.InEffect
  | .block depth, outer, own => outer.length = depth ∧ ∀ one ∈ own, one.InEffect
  | .frame number depth, outer, own =>
    outer.length = depth ∧ ∀ one ∈ own, one.InEffect ∧ one.path.inFrame number = true

/-- What is held is what the open extents hold, the innermost one last. -/
inductive Laid : List Extent → List Held → Prop where
  | nil : Laid [] []
  | cons {extent : Extent} {extents : List Extent} {outer own : List Held} : Laid extents outer →
      Owns extent outer own → Laid (extent :: extents) (outer ++ own)

/-- The ids of the open calls, innermost first. -/
def ids (extents : List Extent) : List CallId :=
  extents.filterMap fun
    | .call id _ _ _ => some id
    | _ => none

/-- An access that conflicts with an earlier one is a read, and waits for nothing: the earlier one
is pending. -/
def Waits (one two : Held) : Prop :=
  one.Conflicts two → (∃ call, one.why = .pending call) ∧ two.access = .shared

/-- The invariant. -/
structure Sound (nest : Nest) : Prop where
  laid : Laid nest.extents nest.set.held
  waits : nest.set.held.Pairwise Waits
  older : (ids nest.extents).Pairwise (· > ·)
  given : ∀ id ∈ ids nest.extents, id ≤ nest.set.nextCall

theorem Laid.cons_inv {extent : Extent} {extents : List Extent} {held : List Held}
    (laid : Laid (extent :: extents) held) :
    ∃ outer own, held = outer ++ own ∧ Laid extents outer ∧ Owns extent outer own := by
  cases laid with
  | cons laid owns => exact ⟨_, _, rfl, laid, owns⟩

/-- A pending access belongs to an open call, and is exclusive. -/
theorem Laid.pending {extents : List Extent} {held : List Held} (laid : Laid extents held)
    {one : Held} {call : CallId} (holds : one ∈ held) (pending : one.why = .pending call) :
    call ∈ ids extents ∧ one.access = .exclusive := by
  induction laid with
  | nil => cases holds
  | @cons extent extents outer own _ owns earlier =>
    rcases List.mem_append.mp holds with old | new
    · obtain ⟨open_, exclusive⟩ := earlier old
      refine ⟨?_, exclusive⟩
      cases extent with
      | call => exact List.mem_cons_of_mem _ open_
      | block | frame => exact open_
    · cases extent with
      | call id entered count receivers =>
        cases entered with
        | true => exact absurd pending (owns.2.2 one new call)
        | false =>
          obtain ⟨-, -, -, -, -, -, kinds, -⟩ := owns
          rcases kinds one new with ⟨same, exclusive⟩ | effect
          · rw [pending, HeldWhy.pending.injEq] at same
            rw [same]
            exact ⟨List.mem_cons_self, exclusive⟩
          · exact absurd pending (effect call)
      | block => exact absurd pending (owns.2 one new call)
      | frame => exact absurd pending ((owns.2 one new).1 call)

/-! ## Pushes -/

/-- A push adds an access that meets none of those held. -/
theorem pushAs_eq_some {set after : AccessSet} {held : Held} {reach : Reach}
    (pushed : pushAs set held reach = some after) :
    after = set.push held ∧ ∀ one ∈ set.held, one.meets held.path held.access reach = false := by
  unfold pushAs at pushed
  split at pushed
  · cases pushed
  next free =>
    cases pushed
    refine ⟨rfl, fun one holds => ?_⟩
    simpa using List.find?_eq_none.mp free one holds

/-- What a new access conflicts with and does not meet is a pending claim that it only reads, other
than by a borrow or a lend into the claim's own call. -/
theorem pending_of_free {one two : Held} {reach : Reach} (conflicts : one.Conflicts two)
    (free : one.meets two.path two.access reach = false) :
    ∃ call, one.why = .pending call ∧ two.access = .shared ∧ reach ≠ .borrow ∧
      reach ≠ .lend call := by
  obtain ⟨strong, overlaps⟩ := conflicts
  have touches : (one.access = .exclusive || two.access = .exclusive : Bool) = true := by
    simpa using strong
  rw [Held.meets, touches, Path.conflictsWith_iff.mpr overlaps] at free
  cases why : one.why with
  | call | borrow | iteration => simp [why] at free
  | pending call =>
    simp only [why, Bool.and_true, Bool.true_and, Bool.or_eq_false_iff,
      decide_eq_false_iff_not] at free
    refine ⟨call, rfl, ?_, ?_, ?_⟩
    · cases access : two.access with
      | shared => rfl
      | exclusive => exact absurd access free.1
    · rintro rfl
      exact absurd free.2 (by simp)
    · rintro rfl
      exact absurd free.2 (by simp)

section Pushes

variable {set : AccessSet} {two : Held} {reach : Reach}

theorem waits_push (waits : set.held.Pairwise Waits)
    (free : ∀ one ∈ set.held, one.meets two.path two.access reach = false) :
    (set.push two).held.Pairwise Waits := by
  refine List.pairwise_append.mpr ⟨waits, List.pairwise_singleton _ _, fun one holds _ new => ?_⟩
  rw [List.mem_singleton.mp new]
  intro conflicts
  obtain ⟨call, pending, shared, -⟩ := pending_of_free conflicts (free one holds)
  exact ⟨⟨call, pending⟩, shared⟩

/-- Two accesses that one call holds do not conflict, since a claim is exclusive and a lend goes to
the call itself. -/
theorem apart_push {id : CallId} {outer own : List Held} (held : set.held = outer ++ own)
    (kinds : ∀ one ∈ own, one.why = .pending id ∧ one.access = .exclusive ∨ one.InEffect)
    (apart : own.Pairwise fun one two => ¬ one.Conflicts two)
    (free : ∀ one ∈ set.held, one.meets two.path two.access reach = false)
    (own_reach : two.access = .exclusive ∨ reach = .lend id) :
    (own ++ [two]).Pairwise fun one two => ¬ one.Conflicts two := by
  refine List.pairwise_append.mpr ⟨apart, List.pairwise_singleton _ _, fun one holds _ new => ?_⟩
  rw [List.mem_singleton.mp new]
  intro conflicts
  have among : one ∈ set.held := by rw [held]; exact List.mem_append_right _ holds
  obtain ⟨call, pending, shared, -, foreign⟩ := pending_of_free conflicts (free one among)
  rcases own_reach with exclusive | lent
  · rw [exclusive] at shared
    cases shared
  · rcases kinds one holds with ⟨same, -⟩ | effect
    · rw [pending, HeldWhy.pending.injEq] at same
      rw [lent, same] at foreign
      exact foreign rfl
    · exact effect call pending

end Pushes

/-! ## Releases -/

theorem take_append_of_length {α : Type} {outer own : List α} {count : Nat}
    (length : own.length = count) :
    (outer ++ own).take ((outer ++ own).length - count) = outer := by
  have whole : (outer ++ own).length - count = outer.length := by
    rw [List.length_append]
    omega
  rw [whole, List.take_left]

variable {outer : List Held}

/-- Withdrawing a call's receiver claims takes the first accesses the call holds. -/
theorem withdrawAll_eq {id : CallId} (foreign : ∀ one ∈ outer, one.why ≠ .pending id)
    (args : List Held) (nextCall : CallId) :
    ∀ claims : List Held, (∀ one ∈ claims, one.why = .pending id) →
      withdrawAll id (claims.map Held.path) ⟨outer ++ (claims ++ args), nextCall⟩ =
        ⟨outer ++ args, nextCall⟩ := by
  intro claims
  induction claims with
  | nil => exact fun _ => rfl
  | cons claim claims tail =>
    intro pending
    have first : (AccessSet.mk (outer ++ (claim :: claims ++ args)) nextCall).withdraw id
        claim.path = ⟨outer ++ (claims ++ args), nextCall⟩ := by
      unfold AccessSet.withdraw
      rw [List.eraseP_append_right _ fun one holds => by simp [foreign one holds]]
      have hit : claim.why = .pending id := pending claim List.mem_cons_self
      simp [hit]
    rw [List.map_cons, withdrawAll, List.foldl_cons, first]
    exact tail fun one holds => pending one (List.mem_cons_of_mem _ holds)

/-- The claims of a call take effect where they stand. -/
theorem enterCall_held (set : AccessSet) {id : CallId} {own : List Held}
    (held : set.held = outer ++ own) (foreign : ∀ one ∈ outer, one.why ≠ .pending id) :
    (set.enterCall id).held = outer ++ own.map fun one =>
      if one.why = .pending id then { one with why := .call } else one := by
  have same : ∀ one ∈ outer,
      (if one.why = .pending id then { one with why := .call } else one) = one :=
    fun one holds => if_neg (foreign one holds)
  change set.held.map _ = _
  rw [held, List.map_append, List.append_cancel_right_eq, List.map_congr_left same, List.map_id']

/-- Releasing a frame drops what the frame owns and keeps the rest, when the rest is not below
it. -/
theorem releaseFrame_held {set : AccessSet} {number : Nat} {own : List Held}
    (held : set.held = outer ++ own) (kept : ∀ one ∈ outer, one.path.inFrame number = false)
    (dropped : ∀ one ∈ own, one.path.inFrame number = true) :
    (set.releaseFrame number).held = outer := by
  unfold AccessSet.releaseFrame
  rw [held, List.filter_append, List.filter_eq_self.mpr fun one holds => by simp [kept one holds],
    List.filter_eq_nil_iff.mpr fun one holds => by simp [dropped one holds], List.append_nil]

/-! ## Every step keeps the invariant -/

section Steps

variable {set : AccessSet} {extent : Extent} {extents : List Extent} {after : AccessSet}
  {id : CallId} {count depth : Nat} {receivers : List Path}

/-- Pushing onto the innermost extent, when it is owned as before with the new access at the end. -/
theorem sound_push {two : Held} {reach : Reach} {extent' : Extent}
    (sound : Sound ⟨set, extent :: extents⟩) (pushed : pushAs set two reach = some after)
    (sameId : ids (extent' :: extents) = ids (extent :: extents))
    (owns : ∀ outer own, set.held = outer ++ own → Owns extent outer own →
      Owns extent' outer (own ++ [two])) : Sound ⟨after, extent' :: extents⟩ := by
  obtain ⟨rfl, free⟩ := pushAs_eq_some pushed
  obtain ⟨outer, own, held, laid, owned⟩ := sound.laid.cons_inv
  refine ⟨?_, waits_push sound.waits free, ?_, ?_⟩
  · change Laid (extent' :: extents) (set.held ++ [two])
    rw [held, List.append_assoc]
    exact .cons laid (owns outer own held owned)
  · rw [sameId]
    exact sound.older
  · rw [sameId]
    exact sound.given

/-- Ending the innermost extent, when what it owns goes and the rest stays. -/
theorem sound_pop (sound : Sound ⟨set, extent :: extents⟩)
    (released : ∀ outer own, set.held = outer ++ own → Laid extents outer →
      Owns extent outer own → after.held = outer) (same : after.nextCall = set.nextCall) :
    Sound ⟨after, extents⟩ := by
  obtain ⟨outer, own, held, laid, owned⟩ := sound.laid.cons_inv
  have rest := released outer own held laid owned
  have among : List.Sublist (ids extents) (ids (extent :: extents)) := by
    cases extent with
    | call => exact List.sublist_cons_self _ _
    | block | frame => exact List.Sublist.refl _
  refine ⟨?_, ?_, sound.older.sublist among, fun id holds => ?_⟩
  · rw [rest]
    exact laid
  · rw [rest]
    exact sound.waits.sublist (by rw [held]; exact List.sublist_append_left outer own)
  · rw [same]
    exact sound.given id (among.subset holds)

/-- The id of the innermost call is no other call's, so no outer access is pending for it. -/
theorem Sound.foreign {entered : Bool}
    (sound : Sound ⟨set, .call id entered count receivers :: extents⟩) {outer : List Held}
    (laid : Laid extents outer) : ∀ one ∈ outer, one.why ≠ .pending id := by
  intro one holds pending
  obtain ⟨open_, -⟩ := laid.pending holds pending
  have older := List.rel_of_pairwise_cons sound.older open_
  exact Nat.lt_irrefl id older

theorem sound_open (sound : Sound ⟨set, extents⟩) (isDepth : depth = set.held.length) :
    Sound ⟨set, .block depth :: extents⟩ := by
  refine ⟨?_, sound.waits, sound.older, sound.given⟩
  have laid : Laid (.block depth :: extents) (set.held ++ []) :=
    .cons sound.laid ⟨isDepth.symm, nofun⟩
  rwa [List.append_nil] at laid

theorem sound_openFrame (number : Nat) (sound : Sound ⟨set, extents⟩) :
    Sound ⟨set, .frame number set.held.length :: extents⟩ := by
  refine ⟨?_, sound.waits, sound.older, sound.given⟩
  have laid : Laid (.frame number set.held.length :: extents) (set.held ++ []) :=
    .cons sound.laid ⟨rfl, nofun⟩
  rwa [List.append_nil] at laid

theorem sound_openCall (sound : Sound ⟨set, extents⟩) :
    Sound ⟨set.openCall.2, .call set.openCall.1 false 0 [] :: extents⟩ := by
  have given : ∀ id ∈ ids extents, id ≤ set.nextCall := sound.given
  refine ⟨?_, sound.waits, ?_, ?_⟩
  · have laid : Laid (.call set.openCall.1 false 0 [] :: extents) (set.held ++ []) :=
      .cons sound.laid ⟨[], [], rfl, rfl, nofun, rfl, nofun, .nil⟩
    rwa [List.append_nil] at laid
  · refine List.pairwise_cons.mpr ⟨fun id holds => ?_, sound.older⟩
    exact Nat.lt_succ_of_le (given id holds)
  · intro id holds
    rcases List.mem_cons.mp holds with rfl | older
    · exact Nat.le_refl _
    · exact (given id older).trans (Nat.le_succ _)

/-- A claim or a lend of the innermost call. -/
theorem sound_argument {two : Held} {reach : Reach}
    (sound : Sound ⟨set, .call id false count receivers :: extents⟩)
    (pushed : pushAs set two reach = some after)
    (kind : two.why = .pending id ∧ two.access = .exclusive ∨ two.InEffect)
    (own_reach : two.access = .exclusive ∨ reach = .lend id) :
    Sound ⟨after, .call id false (count + 1) receivers :: extents⟩ := by
  refine sound_push sound pushed rfl fun outer own held owned => ?_
  obtain ⟨claims, args, rfl, paths, pending, length, kinds, apart⟩ := owned
  refine ⟨claims, args ++ [two], (List.append_assoc _ _ _), paths, pending, ?_, ?_, ?_⟩
  · rw [List.length_append, length]
    rfl
  · intro one holds
    rcases List.mem_append.mp holds with old | new
    · exact kinds one old
    · rwa [List.mem_singleton.mp new]
  · exact apart_push held kinds apart (pushAs_eq_some pushed).2 own_reach

/-- A claim on the receiver of the innermost call, before its arguments. -/
theorem sound_receive {path : Path} {span : Span}
    (sound : Sound ⟨set, .call id false 0 receivers :: extents⟩)
    (pushed : pushAs set ⟨path, .exclusive, span, .pending id⟩ .access = some after) :
    Sound ⟨after, .call id false 0 (receivers ++ [path]) :: extents⟩ := by
  refine sound_push sound pushed rfl fun outer own held owned => ?_
  obtain ⟨claims, args, rfl, paths, pending, length, kinds, apart⟩ := owned
  obtain rfl := List.length_eq_zero_iff.mp length
  refine ⟨claims ++ [⟨path, .exclusive, span, .pending id⟩], [], by simp, ?_, ?_, rfl, ?_, ?_⟩
  · rw [List.map_append, paths]
    rfl
  · intro one holds
    rcases List.mem_append.mp holds with old | new
    · exact pending one old
    · rw [List.mem_singleton.mp new]
  · intro one holds
    rcases List.mem_append.mp holds with old | new
    · exact kinds one old
    · rw [List.mem_singleton.mp new]
      exact .inl ⟨rfl, rfl⟩
  · exact apart_push held kinds apart (pushAs_eq_some pushed).2 (.inl rfl)

/-- Only the claims of the call itself change, and within one call nothing conflicts. -/
theorem sound_enter (sound : Sound ⟨set, .call id false count receivers :: extents⟩) :
    Sound ⟨(withdrawAll id receivers set).enterCall id, .call id true count [] :: extents⟩ := by
  obtain ⟨outer, own, held, laid, claims, args, rfl, rfl, pending, length, kinds, apart⟩ :=
    sound.laid.cons_inv
  have foreign := sound.foreign laid
  have isSet : set = ⟨outer ++ (claims ++ args), set.nextCall⟩ := by
    cases set
    exact congrArg (AccessSet.mk · _) held
  have withdrawn : withdrawAll id (claims.map Held.path) set = ⟨outer ++ args, set.nextCall⟩ := by
    rw [isSet]
    exact withdrawAll_eq foreign args set.nextCall claims pending
  have waits : (outer ++ (claims ++ args)).Pairwise Waits := held ▸ sound.waits
  rw [withdrawn]
  have entered := enterCall_held ⟨outer ++ args, set.nextCall⟩ rfl foreign
  refine ⟨?_, ?_, sound.older, sound.given⟩
  · change Laid _ (AccessSet.enterCall ⟨outer ++ args, set.nextCall⟩ id).held
    rw [entered]
    refine .cons laid ⟨rfl, by rw [List.length_map]; exact length, fun one holds => ?_⟩
    obtain ⟨before, among, rfl⟩ := List.mem_map.mp holds
    intro call
    split
    · nofun
    next effective =>
      rcases kinds before (List.mem_append_right _ among) with ⟨same, -⟩ | effect
      · exact absurd same effective
      · exact effect call
  · change (AccessSet.enterCall ⟨outer ++ args, set.nextCall⟩ id).held.Pairwise Waits
    rw [entered]
    obtain ⟨among, -, across⟩ := List.pairwise_append.mp waits
    have conflicts_iff : ∀ one two : Held,
        one.Conflicts (if two.why = .pending id then { two with why := .call } else two) ↔
          one.Conflicts two := by
      intro one two
      split
      · exact Iff.rfl
      · exact Iff.rfl
    refine List.pairwise_append.mpr ⟨among, List.pairwise_map.mpr ?_, ?_⟩
    · refine ((List.pairwise_append.mp apart).2.1).imp fun {one two} free conflicts => ?_
      rw [conflicts_iff] at conflicts
      refine absurd ?_ free
      split at conflicts
      · exact conflicts
      · exact conflicts
    · intro one holds two' isEntered conflicts
      obtain ⟨two, argument, rfl⟩ := List.mem_map.mp isEntered
      rw [conflicts_iff] at conflicts
      have waiting := across one holds two (List.mem_append_right _ argument) conflicts
      refine ⟨waiting.1, ?_⟩
      split
      · exact waiting.2
      · exact waiting.2

theorem sound_finish (sound : Sound ⟨set, .call id true count receivers :: extents⟩) :
    Sound ⟨set.release count, extents⟩ := by
  refine sound_pop sound (fun outer own held _ owned => ?_) rfl
  change set.held.take (set.held.length - count) = outer
  rw [held]
  exact take_append_of_length owned.2.1

theorem sound_abandon (sound : Sound ⟨set, .call id false count receivers :: extents⟩) :
    Sound ⟨withdrawAll id receivers (set.release count), extents⟩ := by
  have both : ∀ outer own, set.held = outer ++ own → Laid extents outer →
      Owns (.call id false count receivers) outer own →
      withdrawAll id receivers (set.release count) = ⟨outer, set.nextCall⟩ := by
    rintro outer own held laid ⟨claims, args, rfl, rfl, pending, length, -⟩
    have released : set.release count = ⟨outer ++ (claims ++ []), set.nextCall⟩ := by
      unfold AccessSet.release
      rw [held, ← List.append_assoc, take_append_of_length length, List.append_nil]
    rw [released, withdrawAll_eq (sound.foreign laid) [] set.nextCall claims pending,
      List.append_nil]
  obtain ⟨outer, own, held, laid, owned⟩ := sound.laid.cons_inv
  refine sound_pop sound (fun outer own held laid owned => ?_) ?_
  · rw [both outer own held laid owned]
  · rw [both outer own held laid owned]

theorem sound_close (sound : Sound ⟨set, .block depth :: extents⟩) :
    Sound ⟨set.release (set.held.length - depth), extents⟩ := by
  refine sound_pop sound (fun outer own held _ owned => ?_) rfl
  change set.held.take (set.held.length - (set.held.length - depth)) = outer
  obtain ⟨rfl, -⟩ := owned
  rw [held]
  have length : own.length = (outer ++ own).length - outer.length := by
    rw [List.length_append]
    omega
  exact take_append_of_length length

theorem sound_closeFrame {number : Nat} (sound : Sound ⟨set, .frame number depth :: extents⟩)
    (keeps : ∀ held ∈ set.held.take depth, held.path.inFrame number = false) :
    Sound ⟨set.releaseFrame number, extents⟩ := by
  refine sound_pop sound (fun outer own held _ owned => ?_) rfl
  obtain ⟨rfl, inside⟩ := owned
  rw [held, List.take_left] at keeps
  exact releaseFrame_held held keeps fun one holds => (inside one holds).2

end Steps

theorem sound_step {nest after : Nest} {op : NestOp} (sound : Sound nest)
    (keeps : KeepsOuter nest op)
    (stepped : step nest op = some after) : Sound after := by
  obtain ⟨set, extents⟩ := nest
  unfold step at stepped
  split at stepped
  · cases stepped
    exact sound_openCall sound
  · obtain ⟨pushed, isPushed, rest⟩ := Option.bind_eq_some_iff.mp stepped
    cases rest
    next same => cases same; exact sound_receive sound isPushed
  · obtain ⟨pushed, isPushed, rest⟩ := Option.bind_eq_some_iff.mp stepped
    cases rest
    next same => cases same; exact sound_argument sound isPushed (.inl ⟨rfl, rfl⟩) (.inl rfl)
  · obtain ⟨pushed, isPushed, rest⟩ := Option.bind_eq_some_iff.mp stepped
    cases rest
    next same => cases same; exact sound_argument sound isPushed (.inr nofun) (.inr rfl)
  · cases stepped
    next same => cases same; exact sound_enter sound
  · cases stepped
    next same => cases same; exact sound_finish sound
  · cases stepped
    next same => cases same; exact sound_abandon sound
  · cases stepped
    exact sound_open sound rfl
  · obtain ⟨pushed, isPushed, rest⟩ := Option.bind_eq_some_iff.mp stepped
    cases rest
    refine sound_push (sound_open sound rfl) isPushed rfl fun outer own held owned => ?_
    refine ⟨owned.1, fun one holds => ?_⟩
    rcases List.mem_append.mp holds with old | new
    · exact owned.2 one old
    · rw [List.mem_singleton.mp new]
      nofun
  · obtain ⟨pushed, isPushed, rest⟩ := Option.bind_eq_some_iff.mp stepped
    cases rest
    next same =>
      cases same
      refine sound_push sound isPushed rfl fun outer own held owned => ?_
      refine ⟨owned.1, fun one holds => ?_⟩
      rcases List.mem_append.mp holds with old | new
      · exact owned.2 one old
      · rw [List.mem_singleton.mp new]
        nofun
  · cases stepped
    next same => cases same; exact sound_close sound
  · cases stepped
    exact sound_openFrame _ sound
  · obtain ⟨pushed, isPushed, rest⟩ := Option.bind_eq_some_iff.mp stepped
    cases rest
    next same =>
      cases same
      refine sound_push sound isPushed rfl fun outer own held owned => ?_
      refine ⟨owned.1, fun one holds => ?_⟩
      rcases List.mem_append.mp holds with old | new
      · exact owned.2 one old
      · rw [List.mem_singleton.mp new]
        exact ⟨nofun, by simp [Path.inFrame, Path.local_]⟩
  · cases stepped
    next same => cases same; exact sound_closeFrame sound keeps
  · cases stepped

theorem sound_initial : Sound initial := ⟨.nil, .nil, .nil, nofun⟩

theorem Sound.exclusive {nest : Nest} (sound : Sound nest) : Exclusive nest := by
  refine sound.waits.imp fun {one two} waits effective _ conflicts => ?_
  obtain ⟨⟨call, pending⟩, -⟩ := waits conflicts
  exact effective call pending

/-- In a run of nested extents whose frames end without dropping what an enclosing extent holds, no
two accesses in effect ever conflict. -/
theorem nest_exclusive (ops : List NestOp) (keeps : Guarded step KeepsOuter initial ops) :
    Always step Exclusive initial ops := by
  intro front rest nest split run
  have sound := inv_of_guarded Sound KeepsOuter sound_initial
    (fun _ _ _ sound keeps stepped => sound_step sound keeps stepped) (keeps.left split) run
  exact sound.exclusive

/-- `f(mut g, mut ys, { for y in ys { tick() } 0 })` up to the entry of `f`. -/
def globalClaim (global : Path) : List NestOp :=
  let ys := Path.local_ 0 "ys".toList
  [.openFrame, .openBlock, .openCall, .claim global ⟨0, 1⟩, .claim ys ⟨1, 2⟩,
    .openBlock, .openLoop ys ⟨2, 3⟩, .openBlock,
    .openCall, .enter, .openFrame, .openBlock, .close, .closeFrame, .finish,
    .close, .close, .close, .enter]

def keepsOuter (nest : Nest) (op : NestOp) : Bool :=
  match op, nest.extents with
  | .closeFrame, .frame number depth :: _ =>
    (nest.set.held.take depth).all fun held => !held.path.inFrame number
  | _, _ => true

theorem keepsOuter_iff {nest : Nest} {op : NestOp} :
    keepsOuter nest op = true ↔ KeepsOuter nest op := by
  unfold keepsOuter KeepsOuter
  split
  · simp [List.all_eq_true]
  · simp

/-- Do the steps of a run keep what enclosing extents hold? -/
def runKeeps : Nest → List NestOp → Bool
  | _, [] => true
  | nest, op :: ops =>
    match step nest op with
    | some after => keepsOuter nest op && runKeeps after ops
    | none => true

theorem guarded_of_runKeeps {ops : List NestOp} : ∀ {nest : Nest}, runKeeps nest ops = true →
    Guarded step KeepsOuter nest ops := by
  induction ops with
  | nil => exact fun _ => guarded_nil _ _
  | cons op ops tail =>
    intro nest keeps
    refine guarded_cons_iff.mpr fun after stepped => ?_
    rw [runKeeps, stepped, Bool.and_eq_true] at keeps
    exact ⟨keepsOuter_iff.mp keeps.1, tail keeps.2⟩

/-- With a local in the global's place the claim and the loop's hold end as they nest. -/
theorem nest_exclusive_local :
    Guarded step KeepsOuter initial (globalClaim (Path.local_ 0 "g".toList)) ∧
      Always step Exclusive initial (globalClaim (Path.local_ 0 "g".toList)) :=
  have keeps : Guarded step KeepsOuter initial (globalClaim (Path.local_ 0 "g".toList)) :=
    guarded_of_runKeeps (by decide)
  ⟨keeps, nest_exclusive _ keeps⟩

/-- The loop's hold outlives the loop, since the call in its body dropped the global's claim. -/
theorem nest_not_exclusive : ¬ ∀ ops : List NestOp, Always step Exclusive initial ops := by
  intro claimed
  let global : Path := { frame := none, base := "g".toList, projections := [] }
  let ys := Path.local_ 0 "ys".toList
  have run : (exec step initial (globalClaim global)).map (fun nest => nest.set.held) =
      some [⟨ys, .exclusive, ⟨1, 2⟩, .call⟩, ⟨ys, .shared, ⟨2, 3⟩, .iteration⟩] := by
    decide
  obtain ⟨nest, ran, held⟩ := Option.map_eq_some_iff.mp run
  have exclusive := claimed (globalClaim global) (globalClaim global) [] nest
    (List.append_nil _).symm ran
  unfold Exclusive at exclusive
  rw [held] at exclusive
  have apart := List.rel_of_pairwise_cons exclusive List.mem_cons_self
  have same : ys.Overlaps ys := Path.conflictsWith_iff.mp (by decide)
  exact apart nofun nofun ⟨.inl rfl, same⟩

end Nest

end WolfInterp.Eval
