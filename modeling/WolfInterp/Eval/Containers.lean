import WolfInterp.Eval.Doors

/-!
# Equality, and the containers' own methods

The two equalities of values, and the builtin methods that change a `List` or a `Map` they are
called on. A method works on a receiver in hand and answers it back, as it left it.
-/

namespace WolfInterp.Eval

open WolfInterp.Lex (Text)

deriving instance DecidableEq for Syntax.Node

/-! ## Equality -/

/-- `f64::eq` on the words of two floats. -/
def floatSame (left right : Nat) : Bool :=
  let magnitude (bits : Nat) := bits % 2 ^ 63
  let isNan (bits : Nat) := decide (2047 * 2 ^ 52 < magnitude bits)
  !isNan left && !isNan right && (left = right || (magnitude left = 0 && magnitude right = 0))

mutual

/-- `Value::eq`: a `str`'s home is no part of it, nor an error's flag and row. -/
def Value.same : Value → Value → Bool
  | .unit, .unit => true
  | .bool left, .bool right => left = right
  | .int left ty, .int right ty' => left = right && ty = ty'
  | .float left, .float right => floatSame left right
  | .char left, .char right => left = right
  | .byte left, .byte right => left = right
  | .str left _, .str right _ => left = right
  | .tuple left, .tuple right => sameItems left right
  | .struct name left home, .struct name' right home' =>
    name = name' && home = home' && sameFields left right
  | .list left capacity elem home, .list right capacity' elem' home' =>
    capacity = capacity' && elem = elem' && home = home' && sameItems left right
  | .map left home, .map right home' => home = home' && samePairs left right
  | .range start stop elem, .range start' stop' elem' =>
    start = start' && stop = stop' && elem = elem'
  | .fn left, .fn right => left = right
  | .closure params body captures loans claimed decl,
    .closure params' body' captures' loans' claimed' decl' =>
      params = params' && body = body' && loans = loans' && claimed = claimed' && decl = decl' &&
        sameCaptures captures captures'
  | .error tag left _ _, .error tag' right _ _ => tag = tag' && sameAll left right
  | .module left, .module right => left = right
  | .builtin left, .builtin right => left = right
  | .region left generation, .region right generation' =>
    left = right && generation = generation'
  | .poolRef left, .poolRef right => left = right
  | .handle left index generation, .handle right index' generation' =>
    left = right && index = index' && generation = generation'
  | .shared left, .shared right => left = right
  | .weak left, .weak right => left = right
  | .raw left, .raw right => left = right
  | .scope left, .scope right => left = right
  | .chan left, .chan right => left = right
  | .mutexRef left, .mutexRef right => left = right
  | .proc left, .proc right => left = right
  | .duration left, .duration right => left = right
  | _, _ => false

def sameSlot : Slot Value → Slot Value → Bool
  | ⟨state, left⟩, ⟨state', right⟩ => state = state' && left.same right

def sameItems : List (Slot Value) → List (Slot Value) → Bool
  | [], [] => true
  | left :: lefts, right :: rights => sameSlot left right && sameItems lefts rights
  | _, _ => false

def sameFields : List (Text × Slot Value) → List (Text × Slot Value) → Bool
  | [], [] => true
  | (name, left) :: lefts, (name', right) :: rights =>
    name = name' && sameSlot left right && sameFields lefts rights
  | _, _ => false

def samePairs : List (Value × Slot Value) → List (Value × Slot Value) → Bool
  | [], [] => true
  | (key, left) :: lefts, (key', right) :: rights =>
    key.same key' && sameSlot left right && samePairs lefts rights
  | _, _ => false

def sameCaptures : List (Text × Value) → List (Text × Value) → Bool
  | [], [] => true
  | (name, left) :: lefts, (name', right) :: rights =>
    name = name' && left.same right && sameCaptures lefts rights
  | _, _ => false

def sameAll : List Value → List Value → Bool
  | [], [] => true
  | left :: lefts, right :: rights => left.same right && sameAll lefts rights
  | _, _ => false

end

mutual

/-- Structural equality, blind to the width an integer carries. -/
def valueEq : Value → Value → Bool
  | .int left _, .int right _ => left = right
  | .tuple left, .tuple right => itemsEq left right
  | .tuple left, .list right _ _ _ => itemsEq left right
  | .list left _ _ _, .tuple right => itemsEq left right
  | .list left _ _ _, .list right _ _ _ => itemsEq left right
  | .struct name left _, .struct name' right _ => name = name' && fieldsEq left right
  | .map left _, .map right _ => pairsEq left right
  | .error tag left _ _, .error tag' right _ _ => tag = tag' && allEq left right
  | left, right => left.same right

def slotEq : Slot Value → Slot Value → Bool
  | ⟨_, left⟩, ⟨_, right⟩ => valueEq left right

def itemsEq : List (Slot Value) → List (Slot Value) → Bool
  | [], [] => true
  | left :: lefts, right :: rights => slotEq left right && itemsEq lefts rights
  | _, _ => false

def fieldsEq : List (Text × Slot Value) → List (Text × Slot Value) → Bool
  | [], [] => true
  | (name, left) :: lefts, (name', right) :: rights =>
    name = name' && slotEq left right && fieldsEq lefts rights
  | _, _ => false

def pairsEq : List (Value × Slot Value) → List (Value × Slot Value) → Bool
  | [], [] => true
  | (key, left) :: lefts, (key', right) :: rights =>
    valueEq key key' && slotEq left right && pairsEq lefts rights
  | _, _ => false

def allEq : List Value → List Value → Bool
  | [], [] => true
  | left :: lefts, right :: rights => valueEq left right && allEq lefts rights
  | _, _ => false

end

/-! ## Integer types -/

/-- The inclusive range of a type; 128 bits are the machine's own signed words. -/
def IntTy.range (ty : IntTy) : Int × Int :=
  if 128 ≤ ty.bits then if ty.signed then (-2 ^ 127, 2 ^ 127 - 1) else (0, 2 ^ 127 - 1)
  else if ty.signed then (-2 ^ (ty.bits - 1), 2 ^ (ty.bits - 1) - 1)
  else (0, 2 ^ ty.bits - 1)

def IntTy.holds (ty : IntTy) (value : Int) : Bool := ty.range.1 ≤ value && value ≤ ty.range.2

/-- The 64-bit `int`. -/
def IntTy.int : IntTy := { bits := 64, signed := true, mode := .checked, literal := false }

def ElemTy.asInt : ElemTy → Option IntTy
  | .int ty => some ty
  | .byte => none

/-! ## Growth -/

/-- What a growth realloc charges, at a stated element width. -/
def growthBytesStrided (oldLen newLen stride : Nat) : Nat :=
  let grown := Ledger.slotCapacity newLen
  if Ledger.slotCapacity oldLen < grown then
    Ledger.roundToGrain (Ledger.saturatingMul stride grown)
  else 0

/-- The width of an element, read off the newest one. -/
def strideOf (items : List (Slot Value)) : Nat :=
  match items.getLast? with
  | some ⟨_, .byte _⟩ => 1
  | _ => Ledger.slotBytes

/-- A charge past a region's budget. -/
def capBreach {α : Type} (breach : CapBreach) (span : Span) : M α := do
  let machine ← M.get
  M.trap .allocContract span ((machine.store.region breach.region).bind Region.capSpan)

/-- Charge a container's growth to its birth region. -/
def chargeHome (home : Option RegionId) (bytes : Nat) (span : Span) : M Unit := do
  let machine ← M.get
  match home with
  | none => pure ()
  | some home =>
    match machine.store.chargeGrowth home bytes with
    | .ok store => M.modify fun machine => { machine with store }
    | .error breach => capBreach breach span

/-! ## The mutating methods -/

/-- The payload-free error `none`. -/
def noneRow : Value := .error "none".toList [] false []

/-- One element as `push` stores it: a literal adopts the element type. -/
def adoptElement (elem : Option ElemTy) (arg : Value) (span : Span) : Except Signal Value :=
  match elem, arg with
  | some .byte, .int _ _ => .error .unsupported
  | elem, .int value ty =>
    if ty.literal then
      let target := (elem.bind ElemTy.asInt).getD .int
      if target.holds value then .ok (.int value target)
      else .error (.trap { kind := .overflow, span })
    else .ok (.int value ty)
  | _, arg => .ok arg

/-- Store the arguments of a `push` in order; the ones before a refused one stay stored. -/
def pushArgs (elem : Option ElemTy) (span : Span) :
    List (Slot Value) → List Value → Except Signal Unit × List (Slot Value)
  | items, [] => (.ok (), items)
  | items, arg :: rest =>
    match adoptElement elem arg span with
    | .ok value => pushArgs elem span (items ++ [Slot.live value]) rest
    | .error signal => (.error signal, items)

/-- The builtin methods that change their receiver. -/
inductive Mutator where
  | push | pop | clear | reset | reserve | mapClear | mapRemove
  deriving DecidableEq

/-- A command that works on a receiver in hand: its result, and the receiver as it leaves it. -/
abbrev OnReceiver := M (Except Signal Value × Value)

/-- The receiver stays as it is when a check refuses the method. -/
def checkedFirst (check : M Unit) (receiver : Value) (rest : OnReceiver) : OnReceiver := do
  match ← M.attempt check with
  | .ok () => rest
  | .error signal => pure (.error signal, receiver)

def listPush (items : List (Slot Value)) (capacity : Nat) (elem : Option ElemTy)
    (home : Option RegionId) (args : List Value) (span : Span) : OnReceiver :=
  checkedFirst (checkHomeWrite home span) (.list items capacity elem home) do
    match pushArgs elem span items args with
    | (.error signal, stored) => pure (.error signal, .list stored capacity elem home)
    | (.ok (), stored) =>
      let grown := growthBytesStrided capacity stored.length (strideOf stored)
      let room := if capacity < stored.length then Ledger.slotCapacity stored.length else capacity
      let result ← M.attempt (chargeHome home grown span)
      pure (result.map fun () => .unit, .list stored room elem home)

def listPop (items : List (Slot Value)) (capacity : Nat) (elem : Option ElemTy)
    (home : Option RegionId) (span : Span) : OnReceiver :=
  checkedFirst (checkHomeWrite home span) (.list items capacity elem home) do
    match items.getLast? with
    | none => pure (.ok noneRow, .list items capacity elem home)
    | some ⟨.moved at_, _⟩ =>
      pure (.error (.trap { kind := .useAfterMove, span, secondary := some at_ }),
        .list items capacity elem home)
    | some ⟨.live, value⟩ => pure (.ok value, .list items.dropLast capacity elem home)

def listClear (items : List (Slot Value)) (capacity : Nat) (elem : Option ElemTy)
    (home : Option RegionId) (span : Span) : OnReceiver :=
  checkedFirst (checkHomeWrite home span) (.list items capacity elem home) do
    pure (.ok .unit, .list [] capacity elem home)

/-- `u64::checked_next_power_of_two` of a word of at least four. -/
def checkedPower (want : Nat) : Option Nat :=
  let power := 2 ^ Nat.clog 2 (max want 4)
  if power < 2 ^ 64 then some power else none

def listReserve (items : List (Slot Value)) (capacity : Nat) (elem : Option ElemTy)
    (home : Option RegionId) (args : List Value) (span : Span) : OnReceiver :=
  let receiver := Value.list items capacity elem home
  checkedFirst (checkHomeWrite home span) receiver do
    match args with
    | [.int want _] =>
      if want ≤ 0 ∨ want ≤ (capacity : Int) then pure (.ok .unit, receiver)
      else if (2 ^ 64 : Int) ≤ want then
        pure (.error (.trap { kind := .allocContract, span }), receiver)
      else match checkedPower want.toNat with
        | none => pure (.error (.trap { kind := .allocContract, span }), receiver)
        | some room =>
          let stride := if elem = some .byte then 1 else Ledger.slotBytes
          let bytes := Ledger.roundToGrain
            (Ledger.saturatingAdd Ledger.headerBytes (Ledger.saturatingMul room stride))
          match ← M.attempt (chargeHome home bytes span) with
          | .ok () => pure (.ok .unit, .list items room elem home)
          | .error signal => pure (.error signal, receiver)
    | _ => pure (.error .unsupported, receiver)

/-- Erase the first entry of a key. -/
def mapRemove (pairs : List (Value × Slot Value)) (home : Option RegionId) (args : List Value)
    (span : Span) : OnReceiver :=
  match args with
  | [key] =>
    match pairs.findIdx? fun entry => valueEq entry.1 key with
    | none => pure (.ok noneRow, .map pairs home)
    | some position =>
      match pairs[position]? with
      | some (_, ⟨.live, value⟩) => pure (.ok value, .map (pairs.eraseIdx position) home)
      | some (_, ⟨.moved at_, _⟩) =>
        pure (.error (.trap { kind := .useAfterMove, span, secondary := some at_ }),
          .map pairs home)
      | none => pure (.ok noneRow, .map pairs home)
  | _ => pure (.error .unsupported, .map pairs home)

/-- The method's arm for the receiver; a receiver of another kind has none. -/
def mutate (method : Mutator) (receiver : Value) (args : List Value) (span : Span) : OnReceiver :=
  match method, receiver with
  | .push, .list items capacity elem home => listPush items capacity elem home args span
  | .pop, .list items capacity elem home => listPop items capacity elem home span
  | .clear, .list items capacity elem home => listClear items capacity elem home span
  | .reset, .list items capacity elem home => listClear items capacity elem home span
  | .reserve, .list items capacity elem home => listReserve items capacity elem home args span
  | .mapClear, .map _ home => pure (.ok .unit, .map [] home)
  | .mapRemove, .map pairs home => mapRemove pairs home args span
  | _, receiver => pure (.error .unsupported, receiver)

/-- What the end of a lend compares: length and capacity. -/
def containerWriteStamp : Value → Option (Nat × Nat)
  | .list items capacity _ _ => some (items.length, capacity)
  | .map pairs _ => some (pairs.length, 0)
  | _ => none

end WolfInterp.Eval
