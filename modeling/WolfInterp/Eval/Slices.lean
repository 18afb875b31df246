import WolfInterp.Eval.Index
import WolfInterp.Eval.Ints
import WolfInterp.Lex.Bodies
import WolfInterp.Lib.Cuts

/-!
# Slices

`x[a..b]` on a `str` or a `List`, under both origins, and `s.get` of a range, which answers `none`
where the slice traps. A `str` is cut at byte offsets, a `List` at positions.
-/

namespace WolfInterp.Eval

open WolfInterp.Lex (Text bytes dropBytes)
open Cuts

/-! ## The source -/

/-- A computed `i128`: out of range it is a panic in a build with overflow checks, and wraps in one
without. -/
def wide (checks : Bool) (value : Int) : Except Signal Int :=
  if Carried value then .ok value else if checks then .error .panic else .ok (wrapCarrier value)

/-- The type of a range's elements. -/
def rangeTy (ty : IntTy) : IntTy := if ty.literal then IntTy.int else ty

/-- A range value; an inclusive end is one past, under checked arithmetic. -/
def rangeValue (inclusive : Bool) (lo hi : Value) : Option Value :=
  match lo, hi with
  | .int start ty, .int stop _ =>
    if inclusive then
      match checked (rangeTy ty) (fit (stop + 1)) with
      | some (.int stop _) => some (.range start stop (.int (rangeTy ty)))
      | _ => none
    else some (.range start stop (.int (rangeTy ty)))
  | _, _ => none

/-- An endpoint of a slice: a position, or one counted from the end. -/
inductive Endpoint (α : Type) where
  | plain (position : α)
  | fromEnd (count : α)

def Endpoint.map {α β : Type} (f : α → β) : Endpoint α → Endpoint β
  | .plain position => .plain (f position)
  | .fromEnd count => .fromEnd (f count)

/-- The length that a `^n` endpoint counts back from. -/
def sliceLenOf : Value → Option Int
  | .str text _ => some (bytes text)
  | .tuple items => some items.length
  | .list items _ _ _ => some items.length
  | _ => none

/-- The position of an endpoint, and whether it was counted from the end. -/
def evalIndexEndpoint (checks : Bool) (len : Option Int) :
    Endpoint Value → Except Signal (Int × Bool)
  | .fromEnd (.int n _) =>
    match len with
    | none => .error .unsupported
    | some len => return (← wide checks (len - n), true)
  | .plain (.int v _) => .ok (v, false)
  | _ => .error .unsupported

/-- The exclusive end that a resolved end stands for. -/
def exclusiveEnd (checks : Bool) (len : Int) (stop : Option Int) (inclusive : Bool) :
    Except Signal Int :=
  match stop with
  | none => .ok len
  | some e => if inclusive then wide checks (e + 1) else .ok e

/-- `&s[from..to]`; none where an offset is no boundary of characters. -/
def subText (text : Text) (from_ to_ : Nat) : Option Text := do
  let tail ← dropBytes from_ text
  let rest ← dropBytes to_ text
  return tail.take (tail.length - rest.length)

def firstMoved (items : List (Slot Value)) : Option Span :=
  items.findSome? fun slot => match slot.state with
    | .moved at_ => some at_
    | .live => none

/-- The slice of a value by resolved positions; a new list is homed in the ambient region. -/
def slice (checks : Bool) (ambient : RegionId) (target : Value) (start stop : Option Int)
    (inclusive : Bool) (span : Span) : Except Signal Value :=
  match target with
  | .str text home => do
    let from_ := start.getD 0
    let to_ ← exclusiveEnd checks (bytes text) stop inclusive
    if from_ < 0 ∨ bytes text < to_ ∨ to_ < from_ then .error (.trap { kind := .bounds, span })
    else match subText text from_.toNat to_.toNat with
      | some piece => .ok (.str piece home)
      | none => .error (.trap { kind := .bounds, span })
  | .list items _ elem _ => do
    let from_ := start.getD 0
    let to_ ← exclusiveEnd checks items.length stop inclusive
    if from_ < 0 ∨ items.length < to_ ∨ to_ < from_ then
      .error (.trap { kind := .bounds, span })
    else
      let piece := (items.drop from_.toNat).take (to_.toNat - from_.toNat)
      match firstMoved piece with
      | some at_ => .error (.trap { kind := .useAfterMove, span, secondary := some at_ })
      | none => .ok (.list piece (Ledger.slotCapacity piece.length) elem (some ambient))
  | _ => .error .unsupported

/-- Under origin 1 a plain start lowers by one; one counted from the end is resolved already. -/
def lowerStart (start : Option (Int × Bool)) (span : Span) : Except Signal (Option Int) :=
  match start with
  | some (v, false) => some <$> originShift v span
  | some (v, true) => .ok (some v)
  | none => .ok none

/-- Under origin 1 a plain end is the exclusive end already. -/
def lowerEnd (stop : Option (Int × Bool)) (inclusive : Bool) : Option Int × Bool :=
  match stop with
  | some (v, false) => (some v, false)
  | some (v, true) => (some v, inclusive)
  | none => (none, inclusive)

/-- A slice whose endpoints are read. -/
def lowerSlice (checks : Bool) (ambient : RegionId) (origin : Nat) (target : Value)
    (start stop : Option (Endpoint Value)) (inclusive : Bool) (span : Span) :
    Except Signal Value := do
  let len := sliceLenOf target
  let start ← start.mapM (evalIndexEndpoint checks len)
  let stop ← stop.mapM (evalIndexEndpoint checks len)
  if origin = 1 then
    let start0 ← lowerStart start span
    let (end0, incl0) := lowerEnd stop inclusive
    slice checks ambient target start0 end0 incl0 span
  else slice checks ambient target (start.map Prod.fst) (stop.map Prod.fst) inclusive span

/-- A container with a moved part traps before its slice is read. -/
def evalSlice (checks : Bool) (ambient : RegionId) (origin : Nat) (target : Value)
    (start stop : Option (Endpoint Value)) (inclusive : Bool) (span : Span) : M Value := do
  checkWhole target span
  M.ofExcept (lowerSlice checks ambient origin target start stop inclusive span)

/-- `s.get` of resolved positions. -/
def strGet (checks : Bool) (text : Text) (home : Option RegionId) (start stop : Option Int)
    (inclusive : Bool) : Except Signal Value := do
  let from_ := start.getD 0
  let to_ ← exclusiveEnd checks (bytes text) stop inclusive
  if from_ < 0 ∨ bytes text < to_ ∨ to_ < from_ then return noneRow
  else match subText text from_.toNat to_.toNat with
    | some piece => return .str piece home
    | none => return noneRow

/-- `s.get(a..b)` with the range in place; the origin is no matter. -/
def getInPlace (checks : Bool) (text : Text) (home : Option RegionId)
    (start stop : Option (Endpoint Value)) (inclusive : Bool) : Except Signal Value := do
  let len := some (bytes text : Int)
  let start ← start.mapM (evalIndexEndpoint checks len)
  let stop ← stop.mapM (evalIndexEndpoint checks len)
  strGet checks text home (start.map Prod.fst) (stop.map Prod.fst) inclusive

/-- `s.get(r)` of a value. -/
def getRange (checks : Bool) (text : Text) (home : Option RegionId) (arg : Value) :
    Except Signal Value :=
  match arg with
  | .range start stop _ => strGet checks text home (some start) (some stop) false
  | _ => .error .unsupported

/-! ## What a slice denotes -/

/-- An endpoint spelled by an integer of some type. -/
abbrev IntEndpoint : Type := Endpoint (Int × IntTy)

def IntEndpoint.value : IntEndpoint → Endpoint Value := Endpoint.map fun at_ => .int at_.1 at_.2

/-- A plain start reads one lower under origin 1; a missing one is the beginning. -/
def loweredStart (origin : Nat) (len : Int) : Option IntEndpoint → Int
  | none => 0
  | some (.plain at_) => if origin = 1 then at_.1 - 1 else at_.1
  | some (.fromEnd n) => len - n.1

/-- A plain end is exclusive under origin 0 and inclusive under origin 1, where it comes to the same
number; a missing one is the end. -/
def loweredEnd (origin : Nat) (len : Int) (inclusive : Bool) : Option IntEndpoint → Int
  | none => len
  | some (.plain at_) => if inclusive = true ∧ origin ≠ 1 then at_.1 + 1 else at_.1
  | some (.fromEnd n) => if inclusive then len - n.1 + 1 else len - n.1

def lowered (origin : Nat) (len : Int) (start stop : Option IntEndpoint) (inclusive : Bool) :
    Int × Int :=
  (loweredStart origin len start, loweredEnd origin len inclusive stop)

/-- Under origin 1 no `int` is one below the start. -/
def Sinks (origin : Nat) (start : Option IntEndpoint) : Prop :=
  origin = 1 ∧ ∃ v ty, start = some (.plain (v, ty)) ∧ v ≤ -2 ^ 63

/-- What is computed of the endpoints fits the carrier. -/
structure EndpointsFit (origin : Nat) (len : Int) (start stop : Option IntEndpoint)
    (inclusive : Bool) : Prop where
  back : ∀ n ty, start = some (.fromEnd (n, ty)) → Carried (len - n)
  backEnd : ∀ n ty, stop = some (.fromEnd (n, ty)) → Carried (len - n)
  last : inclusive = true → origin ≠ 1 → ∀ v ty, stop = some (.plain (v, ty)) → Carried (v + 1)
  lastBack : inclusive = true → ∀ n ty, stop = some (.fromEnd (n, ty)) → Carried (len - n + 1)

/-- The outcome of a slice of a list whose elements have sizes. -/
inductive Slices {α : Type} (size : List α → Nat) (whole : List α) (origin : Nat)
    (start stop : Option IntEndpoint) (inclusive : Bool) (make : List α → Value) (span : Span) :
    Except Signal Value → Prop where
  | sinks : Sinks origin start →
      Slices size whole origin start stop inclusive make span
        (.error (.trap { kind := .overflow, span }))
  | misses : ¬ Sinks origin start →
      Misses size whole (lowered origin (size whole) start stop inclusive) →
        Slices size whole origin start stop inclusive make span
          (.error (.trap { kind := .bounds, span }))
  | piece {piece : List α} : ¬ Sinks origin start →
      Cut size whole (lowered origin (size whole) start stop inclusive) piece →
        Slices size whole origin start stop inclusive make span (.ok (make piece))

/-- `get` answers `none` where the slice traps, and the slice elsewhere. -/
def Twin (span : Span) (slice get : Except Signal Value) : Prop :=
  slice = .error (.trap { kind := .bounds, span }) ∧ get = .ok noneRow ∨
    ∃ text home, slice = .ok (.str text home) ∧ get = .ok (.str text home)

/-! ## Byte offsets -/

theorem bytes_additive : Additive bytes := ⟨Lex.bytes_nil, Lex.bytes_append⟩

theorem dropBytes_iff {n : Nat} {text rest : Text} :
    dropBytes n text = some rest ↔ ∃ before, text = before ++ rest ∧ bytes before = n := by
  constructor
  · intro dropped
    induction text generalizing n with
    | nil =>
      rw [dropBytes] at dropped
      split at dropped
      · next zero =>
          cases dropped
          exact ⟨[], rfl, zero.symm⟩
      · cases dropped
    | cons c text ih =>
      rw [dropBytes] at dropped
      split at dropped
      · next zero =>
          cases dropped
          exact ⟨[], rfl, zero.symm⟩
      · split at dropped
        · next fits =>
            obtain ⟨before, rfl, size⟩ := ih dropped
            refine ⟨c :: before, rfl, ?_⟩
            rw [Lex.bytes_cons, size]
            omega
        · cases dropped
  · rintro ⟨before, rfl, rfl⟩
    exact Lex.dropBytes_append before rest

theorem subText_of_cut {text piece : Text} {range : Int × Int} (cut : Cut bytes text range piece) :
    subText text range.1.toNat range.2.toNat = some piece := by
  obtain ⟨before, after, split, first, last⟩ := cut
  have tail : dropBytes range.1.toNat text = some (piece ++ after) :=
    dropBytes_iff.mpr ⟨before, split, by omega⟩
  have rest : dropBytes range.2.toNat text = some after := by
    refine dropBytes_iff.mpr ⟨before ++ piece, by rw [split, List.append_assoc], ?_⟩
    rw [Lex.bytes_append]
    omega
  rw [subText, tail, rest]
  simp

/-- The piece the range names, if it names one. -/
def pieceOf (text : Text) (range : Int × Int) : Option Text :=
  if range.1 < 0 ∨ bytes text < range.2 ∨ range.2 < range.1 then none
  else subText text range.1.toNat range.2.toNat

theorem pieceOf_of_cut {text piece : Text} {range : Int × Int} (cut : Cut bytes text range piece) :
    pieceOf text range = some piece := by
  have inside := cut.inside bytes_additive
  rw [pieceOf, if_neg (by omega), subText_of_cut cut]

theorem pieceOf_of_misses {text : Text} {range : Int × Int} (misses : Misses bytes text range) :
    pieceOf text range = none := by
  have boundary {place : Int} (low : 0 ≤ place) {rest : Text}
      (dropped : dropBytes place.toNat text = some rest) : Boundary bytes text place := by
    obtain ⟨before, split, size⟩ := dropBytes_iff.mp dropped
    exact ⟨before, rest, split, by omega⟩
  by_contra found
  obtain ⟨piece, found⟩ := Option.ne_none_iff_exists'.mp found
  rw [pieceOf] at found
  split at found
  · cases found
  · next inside =>
      obtain ⟨tail, dropped, found⟩ := Option.bind_eq_some_iff.mp found
      obtain ⟨rest, dropped', found⟩ := Option.bind_eq_some_iff.mp found
      rcases misses with inverted | low | high | split | split
      · exact inside (.inr (.inr inverted))
      · exact inside (.inl low)
      · exact inside (.inr (.inl high))
      · exact split (boundary (by omega) dropped)
      · exact split (boundary (by omega) dropped')

/-! ## The endpoints -/

section Lowering

variable {checks : Bool} {ambient : RegionId} {origin : Nat} {target : Value} {len : Int}
  {start stop : Option IntEndpoint} {inclusive : Bool} {span : Span}

theorem wide_of_carried {value : Int} (carried : Carried value) : wide checks value = .ok value :=
  if_pos carried

/-- A position as the endpoint was spelled, and whether it was counted from the end. -/
def IntEndpoint.read (len : Int) : IntEndpoint → Int × Bool
  | .plain at_ => (at_.1, false)
  | .fromEnd n => (len - n.1, true)

theorem evalIndexEndpoint_value {endpoint : IntEndpoint}
    (fits : ∀ n ty, endpoint = .fromEnd (n, ty) → Carried (len - n)) :
    evalIndexEndpoint checks (some len) endpoint.value = .ok (endpoint.read len) := by
  cases endpoint with
  | plain at_ => rfl
  | fromEnd n =>
    have carried := fits n.1 n.2 rfl
    change (do return (← wide checks (len - n.1), true)) = _
    rw [wide_of_carried carried]
    rfl

theorem mapM_endpoint (checks : Bool) {endpoint : Option IntEndpoint}
    (fits : ∀ n ty, endpoint = some (.fromEnd (n, ty)) → Carried (len - n)) :
    (endpoint.map IntEndpoint.value).mapM (evalIndexEndpoint checks (some len)) =
      .ok (endpoint.map (IntEndpoint.read len)) := by
  cases endpoint with
  | none => rfl
  | some endpoint =>
    have read : evalIndexEndpoint checks (some len) endpoint.value = .ok (endpoint.read len) :=
      evalIndexEndpoint_value fun n ty same => fits n ty (congrArg some same)
    rw [Option.map_some, Option.map_some]
    change (some <$> evalIndexEndpoint checks (some len) endpoint.value) = _
    rw [read]
    rfl

theorem exclusiveEnd_origin (fits : EndpointsFit 1 len start stop inclusive) :
    exclusiveEnd checks len (lowerEnd (stop.map (IntEndpoint.read len)) inclusive).1
        (lowerEnd (stop.map (IntEndpoint.read len)) inclusive).2 =
      .ok (loweredEnd 1 len inclusive stop) := by
  rcases stop with - | at_ | n
  · rfl
  · rw [loweredEnd, if_neg fun both => both.2 rfl]
    rfl
  · rw [loweredEnd]
    cases inclusive with
    | false => rfl
    | true => exact wide_of_carried (fits.lastBack rfl n.1 n.2 rfl)

theorem lowerStart_sinks (sinks : Sinks 1 start) :
    lowerStart (start.map (IntEndpoint.read len)) span =
      .error (.trap { kind := .overflow, span }) := by
  obtain ⟨-, v, ty, rfl, low⟩ := sinks
  change some <$> originShift v span = _
  rw [originShift, if_pos low]
  rfl

theorem lowerStart_stays (len : Int) (span : Span) (stays : ¬ Sinks 1 start) :
    ∃ start0, lowerStart (start.map (IntEndpoint.read len)) span = .ok start0 ∧
      start0.getD 0 = loweredStart 1 len start := by
  rcases start with - | at_ | n
  · exact ⟨none, rfl, rfl⟩
  · have high : ¬ at_.1 ≤ -2 ^ 63 := fun low => stays ⟨rfl, at_.1, at_.2, rfl, low⟩
    refine ⟨some (at_.1 - 1), ?_, rfl⟩
    change some <$> originShift at_.1 span = _
    rw [originShift, if_neg high]
    rfl
  · exact ⟨some (len - n.1), rfl, rfl⟩

theorem exclusiveEnd_plain (checks : Bool) (other : origin ≠ 1)
    (fits : EndpointsFit origin len start stop inclusive) :
    exclusiveEnd checks len ((stop.map (IntEndpoint.read len)).map Prod.fst) inclusive =
      .ok (loweredEnd origin len inclusive stop) := by
  rcases stop with - | at_ | n
  · rfl
  · rw [loweredEnd]
    cases inclusive with
    | false => rfl
    | true =>
      rw [if_pos ⟨rfl, other⟩]
      exact wide_of_carried (fits.last rfl other at_.1 at_.2 rfl)
  · rw [loweredEnd]
    cases inclusive with
    | false => rfl
    | true => exact wide_of_carried (fits.lastBack rfl n.1 n.2 rfl)

theorem getD_start (other : origin ≠ 1) :
    ((start.map (IntEndpoint.read len)).map Prod.fst).getD 0 = loweredStart origin len start := by
  rcases start with - | at_ | n
  · rfl
  · rw [loweredStart, if_neg other]
    rfl
  · rfl

/-- A slice comes to the checked slice of its lowered range, unless its start sinks. -/
theorem lowerSlice_eq (checks : Bool) (ambient : RegionId) (span : Span) (target : Value)
    (isLen : sliceLenOf target = some len) (fits : EndpointsFit origin len start stop inclusive) :
    (Sinks origin start ∧ lowerSlice checks ambient origin target (start.map IntEndpoint.value)
        (stop.map IntEndpoint.value) inclusive span = .error (.trap { kind := .overflow, span })) ∨
      ¬ Sinks origin start ∧ ∃ start' stop' inclusive',
        lowerSlice checks ambient origin target (start.map IntEndpoint.value)
            (stop.map IntEndpoint.value) inclusive span =
          slice checks ambient target start' stop' inclusive' span ∧
        start'.getD 0 = loweredStart origin len start ∧
        exclusiveEnd checks len stop' inclusive' = .ok (loweredEnd origin len inclusive stop) := by
  have first := mapM_endpoint checks fits.back
  have last := mapM_endpoint checks fits.backEnd
  have run : lowerSlice checks ambient origin target (start.map IntEndpoint.value)
      (stop.map IntEndpoint.value) inclusive span =
        if origin = 1 then do
          let start0 ← lowerStart (start.map (IntEndpoint.read len)) span
          slice checks ambient target start0
            (lowerEnd (stop.map (IntEndpoint.read len)) inclusive).1
            (lowerEnd (stop.map (IntEndpoint.read len)) inclusive).2 span
        else slice checks ambient target ((start.map (IntEndpoint.read len)).map Prod.fst)
          ((stop.map (IntEndpoint.read len)).map Prod.fst) inclusive span := by
    simp only [lowerSlice, isLen, first, last]
    rfl
  rw [run]
  by_cases one : origin = 1
  · subst one
    by_cases sinks : Sinks 1 start
    · refine .inl ⟨sinks, ?_⟩
      rw [if_pos rfl, lowerStart_sinks sinks]
      rfl
    · obtain ⟨start0, lowers, same⟩ := lowerStart_stays len span sinks
      refine .inr ⟨sinks, start0, (lowerEnd (stop.map (IntEndpoint.read len)) inclusive).1,
        (lowerEnd (stop.map (IntEndpoint.read len)) inclusive).2, ?_, same,
        exclusiveEnd_origin fits⟩
      rw [if_pos rfl, lowers]
      rfl
  · refine .inr ⟨fun sinks => one sinks.1, (start.map (IntEndpoint.read len)).map Prod.fst,
      (stop.map (IntEndpoint.read len)).map Prod.fst, inclusive, if_neg one, getD_start one,
      exclusiveEnd_plain checks one fits⟩

/-! ## The two containers -/

variable {text : Text} {home : Option RegionId} {from_ to_ : Option Int} {mode : Bool} {last : Int}

theorem slice_str (ends : exclusiveEnd checks (bytes text) to_ mode = .ok last) :
    slice checks ambient (.str text home) from_ to_ mode span =
      match pieceOf text (from_.getD 0, last) with
      | some piece => .ok (.str piece home)
      | none => .error (.trap { kind := .bounds, span }) := by
  simp only [slice, ends, pieceOf]
  change (if from_.getD 0 < 0 ∨ bytes text < last ∨ last < from_.getD 0 then _ else _) = _
  split
  · rfl
  · rfl

theorem strGet_eq (ends : exclusiveEnd checks (bytes text) to_ mode = .ok last) :
    strGet checks text home from_ to_ mode =
      match pieceOf text (from_.getD 0, last) with
      | some piece => .ok (.str piece home)
      | none => .ok noneRow := by
  simp only [strGet, ends, pieceOf]
  change (if from_.getD 0 < 0 ∨ bytes text < last ∨ last < from_.getD 0 then _ else _) = _
  split
  · rfl
  · split
    · rfl
    · rfl

/-- A list without a moved part has only live elements. -/
theorem live_of_movedItem {items : List (Slot Value)} {position : Nat}
    (whole : movedItem position items = none) : ∀ slot ∈ items, slot.state = .live := by
  induction items generalizing position with
  | nil => nofun
  | cons slot items ih =>
    rw [movedItem] at whole
    split at whole
    · cases whole
    · next found =>
        intro other among
        rcases List.mem_cons.mp among with rfl | among
        · obtain ⟨state, value⟩ := other
          cases state with
          | live => rfl
          | moved at_ => cases found
        · exact ih whole other among

theorem firstMoved_of_live {items : List (Slot Value)} (live : ∀ slot ∈ items, slot.state = .live) :
    firstMoved items = none := by
  rw [firstMoved, List.findSome?_eq_none_iff]
  intro slot among
  rw [live slot among]

variable {items : List (Slot Value)} {capacity : Nat} {elem : Option ElemTy}

theorem slice_list (whole : movedPart (.list items capacity elem home) = none)
    (ends : exclusiveEnd checks items.length to_ mode = .ok last) :
    slice checks ambient (.list items capacity elem home) from_ to_ mode span =
      if from_.getD 0 < 0 ∨ items.length < last ∨ last < from_.getD 0 then
        .error (.trap { kind := .bounds, span })
      else
        let piece := (items.drop (from_.getD 0).toNat).take (last.toNat - (from_.getD 0).toNat)
        .ok (.list piece (Ledger.slotCapacity piece.length) elem (some ambient)) := by
  have live := live_of_movedItem whole
  simp only [slice, ends]
  change (if from_.getD 0 < 0 ∨ items.length < last ∨ last < from_.getD 0 then _ else _) = _
  split
  · rfl
  · have none_moved : firstMoved
        ((items.drop (from_.getD 0).toNat).take (last.toNat - (from_.getD 0).toNat)) = none :=
      firstMoved_of_live fun slot among =>
        live slot (List.mem_of_mem_drop (List.mem_of_mem_take among))
    simp only [none_moved]

/-- What names no moved part is sliced as it stands. -/
theorem evalSlice_whole (whole : movedPart target = none) (machine : Machine)
    (first last : Option (Endpoint Value)) :
    evalSlice checks ambient origin target first last inclusive span machine =
      (lowerSlice checks ambient origin target first last inclusive span, machine) := by
  rw [evalSlice, M.bind_run, checkWhole, M.bind_run, M.get_run]
  dsimp only
  rw [whole]
  cases machine.partsMoved <;> rfl

end Lowering

/-! ## The slices -/

section Slices

variable (checks : Bool) (ambient : RegionId) (machine : Machine) (span : Span) (inclusive : Bool)
  (start stop : Option IntEndpoint)

theorem slices_str (origin : Nat) (text : Text) (home : Option RegionId)
    (fits : EndpointsFit origin (bytes text) start stop inclusive) :
    ∃ result, evalSlice checks ambient origin (.str text home) (start.map IntEndpoint.value)
        (stop.map IntEndpoint.value) inclusive span machine = (result, machine) ∧
      Slices bytes text origin start stop inclusive (.str · home) span result := by
  refine ⟨_, evalSlice_whole rfl machine _ _, ?_⟩
  rcases lowerSlice_eq checks ambient span (.str text home) rfl fits with
    ⟨sinks, run⟩ | ⟨stays, from_, to_, mode, run, first, last⟩
  · rw [run]
    exact .sinks sinks
  · rw [run, slice_str last, first]
    by_cases misses : Misses bytes text (lowered origin (bytes text) start stop inclusive)
    · rw [← lowered, pieceOf_of_misses misses]
      exact .misses stays misses
    · obtain ⟨piece, cut⟩ := exists_cut bytes_additive misses
      rw [← lowered, pieceOf_of_cut cut]
      exact .piece stays cut

theorem slices_list (origin : Nat) (items : List (Slot Value)) (capacity : Nat)
    (elem : Option ElemTy) (home : Option RegionId)
    (whole : movedPart (.list items capacity elem home) = none)
    (fits : EndpointsFit origin items.length start stop inclusive) :
    ∃ result, evalSlice checks ambient origin (.list items capacity elem home)
        (start.map IntEndpoint.value) (stop.map IntEndpoint.value) inclusive span machine =
          (result, machine) ∧ Slices List.length items origin start stop inclusive
        (fun piece => .list piece (Ledger.slotCapacity piece.length) elem (some ambient)) span
        result := by
  refine ⟨_, evalSlice_whole whole machine _ _, ?_⟩
  rcases lowerSlice_eq checks ambient span (.list items capacity elem home) rfl fits with
    ⟨sinks, run⟩ | ⟨stays, from_, to_, mode, run, first, last⟩
  · rw [run]
    exact .sinks sinks
  · rw [run, slice_list whole last, first]
    by_cases misses : Misses List.length items (lowered origin items.length start stop inclusive)
    · rw [if_pos]
      · exact .misses stays misses
      · rcases misses_length.mp misses with inverted | low | high
        · exact .inr (.inr inverted)
        · exact .inl low
        · exact .inr (.inl high)
    · obtain ⟨piece, cut⟩ := exists_cut length_additive misses
      have inside := cut.inside length_additive
      have same : (items.drop (loweredStart origin items.length start).toNat).take
          ((loweredEnd origin items.length inclusive stop).toNat -
            (loweredStart origin items.length start).toNat) = piece := cut.drop_take
      rw [if_neg (by simp only [lowered] at inside; omega)]
      simp only [same]
      exact .piece stays cut

variable (text : Text) (home : Option RegionId)

/-- In place `get` is the twin of the slice under origin 0. -/
theorem twin_in_place (fits : EndpointsFit 0 (bytes text) start stop inclusive) : Twin span
      (evalSlice checks ambient 0 (.str text home) (start.map IntEndpoint.value)
        (stop.map IntEndpoint.value) inclusive span machine).1
      (getInPlace checks text home (start.map IntEndpoint.value) (stop.map IntEndpoint.value)
        inclusive) := by
  have ends := exclusiveEnd_plain checks Nat.zero_ne_one fits
  have get : getInPlace checks text home (start.map IntEndpoint.value)
      (stop.map IntEndpoint.value) inclusive =
        strGet checks text home ((start.map (IntEndpoint.read (bytes text))).map Prod.fst)
          ((stop.map (IntEndpoint.read (bytes text))).map Prod.fst) inclusive := by
    simp only [getInPlace, mapM_endpoint checks fits.back, mapM_endpoint checks fits.backEnd]
    rfl
  rw [evalSlice_whole rfl, get, strGet_eq ends, getD_start Nat.zero_ne_one]
  rcases lowerSlice_eq checks ambient span (.str text home) rfl fits with
    ⟨sinks, -⟩ | ⟨-, from_, to_, mode, run, first, last⟩
  · exact absurd sinks.1 Nat.zero_ne_one
  · rw [run, slice_str last, first]
    cases pieceOf text
      (loweredStart 0 (bytes text) start, loweredEnd 0 (bytes text) inclusive stop) with
    | none => exact .inl ⟨rfl, rfl⟩
    | some piece => exact .inr ⟨piece, home, rfl, rfl⟩

omit inclusive in
/-- An inclusive range of a checked type is built only where its end can be counted past. -/
theorem rangeValue_past {lo hi : Int} {ty ty' : IntTy} {range : Value}
    (built : rangeValue true (.int lo ty) (.int hi ty') = some range)
    (exact_ : (rangeTy ty).mode = .checked) :
    Carried (hi + 1) ∧ range = .range lo (hi + 1) (.int (rangeTy ty)) := by
  have built : (match Eval.checked (rangeTy ty) (fit (hi + 1)) with
      | some (.int stop _) => some (Value.range lo stop (.int (rangeTy ty)))
      | _ => none) = some range := built
  by_cases carried : Carried (hi + 1)
  · rw [Eval.checked, show fit (hi + 1) = some (hi + 1) from if_pos carried, Option.bind_some,
      IntTy.reduce, exact_] at built
    by_cases holds : (rangeTy ty).holds (hi + 1) = true
    · rw [if_pos holds] at built
      cases built
      exact ⟨carried, rfl⟩
    · rw [if_neg holds] at built
      cases built
  · rw [show fit (hi + 1) = none from if_neg carried] at built
    cases built

/-- A range value is the range in place, its end counted past an inclusive one. -/
theorem twin_of_value {lo hi : Int} {ty ty' : IntTy} {range : Value}
    (built : rangeValue inclusive (.int lo ty) (.int hi ty') = some range)
    (exact_ : inclusive = true → (rangeTy ty).mode = .checked) : Twin span
      (evalSlice checks ambient 0 (.str text home) (some (Endpoint.plain (.int lo ty)))
        (some (.plain (.int hi ty'))) inclusive span machine).1
      (getRange checks text home range) := by
  cases inclusive with
  | false =>
    cases built
    exact twin_in_place checks ambient machine span false (some (.plain (lo, ty)))
      (some (.plain (hi, ty'))) text home
      { back := nofun, backEnd := nofun, last := nofun, lastBack := nofun }
  | true =>
    obtain ⟨carried, past⟩ := rangeValue_past built (exact_ rfl)
    have twin := twin_in_place checks ambient machine span true (some (.plain (lo, ty)))
      (some (.plain (hi, ty'))) text home
      { back := nofun
        backEnd := nofun
        last := fun _ _ v _ same => by
          cases same
          exact carried
        lastBack := nofun }
    have same : getInPlace checks text home (some (Endpoint.plain (.int lo ty)))
        (some (Endpoint.plain (.int hi ty'))) true =
          strGet checks text home (some lo) (some (hi + 1)) false := by
      have ends : exclusiveEnd checks (bytes text) (some hi) true = .ok (hi + 1) :=
        wide_of_carried carried
      exact (strGet_eq ends).trans (strGet_eq rfl).symm
    rw [past]
    change Twin span _ (strGet checks text home (some lo) (some (hi + 1)) false)
    rw [← same]
    exact twin

end Slices

/-- One function under both origins and both doors. A slice of a `str`, and of a list that no part
was moved out of, is the piece its lowered range cuts, a bounds trap where it cuts none, and an
overflow where no `int` is one below a start of origin 1; with a part moved out the list is not
read. `get` is the twin of the slice under origin 0, of a range in place and of a range value, whose
end a checked type counted past an inclusive one. -/
theorem slice_exact (checks : Bool) (ambient : RegionId) (machine : Machine) (span : Span)
    (inclusive : Bool) (start stop : Option IntEndpoint) :
    (∀ origin text home, EndpointsFit origin (bytes text) start stop inclusive →
      ∃ result, evalSlice checks ambient origin (.str text home) (start.map IntEndpoint.value)
          (stop.map IntEndpoint.value) inclusive span machine = (result, machine) ∧
        Slices bytes text origin start stop inclusive (.str · home) span result) ∧
    (∀ origin items capacity elem home, (movedPart (.list items capacity elem home) = none →
        EndpointsFit origin items.length start stop inclusive →
          ∃ result, evalSlice checks ambient origin (.list items capacity elem home)
              (start.map IntEndpoint.value) (stop.map IntEndpoint.value) inclusive span machine =
                (result, machine) ∧ Slices List.length items origin start stop inclusive
              (fun piece => .list piece (Ledger.slotCapacity piece.length) elem (some ambient)) span
              result) ∧ ∀ steps at_, machine.partsMoved = true →
        movedPart (.list items capacity elem home) = some (steps, at_) →
          evalSlice checks ambient origin (.list items capacity elem home)
              (start.map IntEndpoint.value) (stop.map IntEndpoint.value) inclusive span machine =
            (.error (.trap { kind := .useAfterMove, span, secondary := some at_ }), machine)) ∧
    ∀ text home, (EndpointsFit 0 (bytes text) start stop inclusive → Twin span
          (evalSlice checks ambient 0 (.str text home) (start.map IntEndpoint.value)
            (stop.map IntEndpoint.value) inclusive span machine).1
          (getInPlace checks text home (start.map IntEndpoint.value) (stop.map IntEndpoint.value)
            inclusive)) ∧
      ∀ lo ty hi ty' range, rangeValue inclusive (.int lo ty) (.int hi ty') = some range →
        (inclusive = true → (rangeTy ty).mode = .checked) → Twin span
            (evalSlice checks ambient 0 (.str text home) (some (Endpoint.plain (.int lo ty)))
              (some (Endpoint.plain (.int hi ty'))) inclusive span machine).1
            (getRange checks text home range) := by
  refine ⟨fun origin text home => ?_, fun origin items capacity elem home => ⟨?_, ?_⟩,
    fun text home => ⟨?_, ?_⟩⟩
  · exact slices_str checks ambient machine span inclusive start stop origin text home
  · exact slices_list checks ambient machine span inclusive start stop origin items capacity elem
      home
  · intro steps at_ noted moved
    rw [evalSlice, M.bind_run, checkWhole, M.bind_run, M.get_run]
    dsimp only
    rw [if_pos noted, moved]
    rfl
  · exact twin_in_place checks ambient machine span inclusive start stop text home
  · intro lo ty hi ty' range
    exact twin_of_value checks ambient machine span inclusive text home

/-- `"wolf"[2..^1]` under origin 1, the same of a list, and `get` of the range and of `0..=1`. -/
theorem slice_exact_wolf :
    (∃ result, evalSlice true 0 1 (.str "wolf".toList none) (some (.plain (.int 2 .int)))
        (some (.fromEnd (.int 1 .int))) false ⟨0, 0⟩ {} = (result, {}) ∧
      Slices bytes "wolf".toList 1 (some (.plain (2, .int))) (some (.fromEnd (1, .int))) false
        (.str · none) ⟨0, 0⟩ result) ∧
    (∃ result, evalSlice true 0 1 (.list [.live .unit, .live .unit] 4 none none)
        (some (.plain (.int 2 .int))) (some (.fromEnd (.int 1 .int))) false ⟨0, 0⟩ {} =
          (result, {}) ∧ Slices List.length [.live .unit, .live .unit] 1 (some (.plain (2, .int)))
        (some (.fromEnd (1, .int))) false
        (fun piece => .list piece (Ledger.slotCapacity piece.length) none (some 0)) ⟨0, 0⟩ result) ∧
    evalSlice true 0 1 (.list [⟨.moved ⟨3, 4⟩, .unit⟩] 4 none none) (some (.plain (.int 2 .int)))
        (some (.fromEnd (.int 1 .int))) false ⟨0, 0⟩ { partsMoved := true } =
      (.error (.trap { kind := .useAfterMove, span := ⟨0, 0⟩, secondary := some ⟨3, 4⟩ }),
        { partsMoved := true }) ∧ Twin ⟨0, 0⟩
      (evalSlice true 0 0 (.str "wolf".toList none) (some (.plain (.int 2 .int)))
        (some (.fromEnd (.int 1 .int))) false ⟨0, 0⟩ {}).1
      (getInPlace true "wolf".toList none (some (.plain (.int 2 .int)))
        (some (.fromEnd (.int 1 .int))) false) ∧ Twin ⟨0, 0⟩
      (evalSlice true 0 0 (.str "wolf".toList none) (some (.plain (.int 0 .int)))
        (some (.plain (.int 1 .int))) true ⟨0, 0⟩ {}).1
      (getRange true "wolf".toList none (.range 0 2 (.int .int))) := by
  have carried (len n : Int) (small : 0 ≤ len ∧ len ≤ 4 ∧ 0 ≤ n ∧ n ≤ 2) : Carried (len - n) := by
    unfold Carried minCarrier maxCarrier
    omega
  have fits (origin : Nat) (len : Int) (small : 0 ≤ len ∧ len ≤ 4) :
      EndpointsFit origin len (some (.plain (2, .int))) (some (.fromEnd (1, .int))) false :=
    { back := nofun
      backEnd := fun n ty same => by
        cases same
        exact carried len 1 (by omega)
      last := nofun
      lastBack := nofun }
  have at_ :=
    slice_exact true 0 {} ⟨0, 0⟩ false (some (.plain (2, .int))) (some (.fromEnd (1, .int)))
  refine ⟨at_.1 1 "wolf".toList none (fits 1 _ (by decide)),
    (at_.2.1 1 [.live .unit, .live .unit] 4 none none).1 rfl (fits 1 _ (by decide)), ?_,
    (at_.2.2 "wolf".toList none).1 (fits 0 _ (by decide)), ?_⟩
  · exact ((slice_exact true 0 { partsMoved := true } ⟨0, 0⟩ false (some (.plain (2, .int)))
      (some (.fromEnd (1, .int)))).2.1 1 [⟨.moved ⟨3, 4⟩, .unit⟩] 4 none none).2 [.index 0] ⟨3, 4⟩
        rfl rfl
  · exact ((slice_exact true 0 {} ⟨0, 0⟩ true none none).2.2 "wolf".toList none).2 0 .int 1 .int
      (.range 0 2 (.int .int)) rfl fun _ => rfl

/-- `""[-9223372036854775809..]` under origin 1 overflows, though the least `int` is above it. -/
theorem not_overflow_least_only :
    ¬ ∀ (checks : Bool) (ambient : RegionId) (machine : Machine) (span : Span) (inclusive : Bool)
      (start stop : Option IntEndpoint) (text : Text) (home : Option RegionId),
      EndpointsFit 1 (bytes text) start stop inclusive →
        (evalSlice checks ambient 1 (.str text home) (start.map IntEndpoint.value)
            (stop.map IntEndpoint.value) inclusive span machine).1 =
          .error (.trap { kind := .overflow, span }) →
        ∃ ty, start = some (.plain (-2 ^ 63, ty)) := by
  intro claimed
  obtain ⟨ty, least⟩ :=
    claimed true 0 {} ⟨0, 0⟩ false (some (.plain (-2 ^ 63 - 1, .literalWide))) none
    [] none { back := nofun, backEnd := nofun, last := nofun, lastBack := nofun } rfl
  cases least

end WolfInterp.Eval
