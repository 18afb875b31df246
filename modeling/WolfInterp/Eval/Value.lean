import WolfInterp.Lib.Walk
import WolfInterp.Prov.Machine
import WolfInterp.Syntax.Ast

/-!
# Values and places

Runtime values, with a state beside every stored value, and the steps of a place: a field, an
index, a map key. A place below a slot is a walk by such steps.
-/

namespace WolfInterp.Eval

open WolfInterp.Lex (Text)
open WolfInterp.Syntax (Expr FnDecl)

/-! ## Values -/

/-- The state of a slot. -/
inductive SlotState where
  | live
  | moved (at_ : Span)
  deriving DecidableEq

/-- A storage location: a value and its state. The bytes of a moved slot stay behind. -/
structure Slot (V : Type) where
  state : SlotState
  value : V
  deriving DecidableEq

def Slot.live {V : Type} (value : V) : Slot V := { state := .live, value }

/-- Move the value out. -/
def Slot.takeValue {V : Type} (slot : Slot V) (at_ : Span) : V × Slot V :=
  (slot.value, { slot with state := .moved at_ })

inductive ArithMode where
  | checked | wrapping | saturating
  deriving DecidableEq

/-- An integer type; `literal` marks a literal that no context has typed yet. -/
structure IntTy where
  bits : Nat
  signed : Bool
  mode : ArithMode
  literal : Bool
  deriving DecidableEq

/-- What a container's elements are declared to be. -/
inductive ElemTy where
  | int (ty : IntTy)
  | byte
  deriving DecidableEq

inductive RangeElem where
  | int (ty : IntTy)
  | char
  deriving DecidableEq

/-- One captured place a closure still borrows, and its write generation at the capture. -/
structure CaptureLoan where
  name : Text
  task : Nat
  serial : Nat
  generation : Nat
  span : Span
  deriving DecidableEq

/-- A runtime value. A container carries the region it was built in as its home. -/
inductive Value where
  | unit
  | bool (value : Bool)
  | int (value : Int) (ty : IntTy)
  | float (bits : Nat)
  | char (value : Char)
  | byte (value : Nat)
  | str (text : Text) (home : Option RegionId)
  | tuple (items : List (Slot Value))
  | struct (name : Text) (fields : List (Text × Slot Value)) (home : Option RegionId)
  | list (items : List (Slot Value)) (capacity : Nat) (elem : Option ElemTy)
      (home : Option RegionId)
  | map (pairs : List (Value × Slot Value)) (home : Option RegionId)
  | range (start stop : Int) (elem : RangeElem)
  | fn (qualified : Text)
  | closure (params : List Text) (body : Expr) (captures : List (Text × Value))
      (loans : List CaptureLoan) (claimed : List (Text × Span)) (decl : Option FnDecl)
  | error (tag : Text) (payload : List Value) (enumVariant : Bool) (row : List Text)
  | module (name : Text)
  | builtin (name : Text)
  | region (id : RegionId) (generation : Nat)
  | poolRef (id : PoolId)
  | handle (pool : PoolId) (index : Nat) (generation : UInt32)
  | shared (cell : CellId)
  | weak (cell : CellId)
  | raw (ptr : RawPtr)
  | scope (id : Nat)
  | chan (id : Nat)
  | mutexRef (id : Nat)
  | proc (id : Nat)
  | duration (ticks : Nat)

instance : Inhabited Value := ⟨.unit⟩

namespace Value

/-- The region a container was built in. -/
def home : Value → Option RegionId
  | struct _ _ home | list _ _ _ home | map _ home | str _ home => home
  | _ => none

end Value

/-! ## Steps -/

/-- A `Map` key as a step of a place. -/
inductive MapKey where
  | str (text : Text)
  | int (value : Int)
  | char (value : Char)
  | bool (value : Bool)
  deriving DecidableEq

/-- The key a value is, when it is one of the four. -/
def MapKey.of : Value → Option MapKey
  | .str text _ => some (.str text)
  | .int value _ => some (.int value)
  | .char value => some (.char value)
  | .bool value => some (.bool value)
  | _ => none

/-- The key names the entry stored under `stored`. -/
def MapKey.names (key : MapKey) (stored : Value) : Bool := MapKey.of stored = some key

/-- The value an entry stores for this key. -/
def MapKey.toValue : MapKey → Value
  | .str text => .str text none
  | .int value => .int value { bits := 64, signed := true, mode := .checked, literal := false }
  | .char value => .char value
  | .bool value => .bool value

/-- One projection step of a path. -/
inductive Proj where
  | field (name : Text)
  | index (at_ : Int)
  | key (key : MapKey)
  | unknownIndex
  deriving DecidableEq

/-- Two steps may denote the same storage. -/
def Proj.mayEqual : Proj → Proj → Bool
  | .field a, .field b => a = b
  | .index a, .index b => a = b
  | .key a, .key b => a = b
  | .unknownIndex, .index _ | .unknownIndex, .key _ | .unknownIndex, .unknownIndex
  | .index _, .unknownIndex | .key _, .unknownIndex => true
  | _, _ => false

/-! ## What a step finds -/

/-- `Vec::get` at a signed index. -/
def itemAt {α : Type} (items : List α) (at_ : Int) : Option α :=
  if 0 ≤ at_ then items[at_.toNat]? else none

def setItem {α : Type} (items : List α) (at_ : Int) (item : α) : List α :=
  if 0 ≤ at_ then items.set at_.toNat item else items

/-- The value of the first entry whose key is wanted. -/
def entryOf {α β : Type} (wanted : α → Bool) : List (α × β) → Option β
  | [] => none
  | (key, value) :: rest => if wanted key then some value else entryOf wanted rest

def setEntry {α β : Type} (wanted : α → Bool) (value : β) : List (α × β) → List (α × β)
  | [] => []
  | (key, old) :: rest =>
    if wanted key then (key, value) :: rest else (key, old) :: setEntry wanted value rest

section Entries

variable {α β : Type} {wanted other : α → Bool} {items : List β}

theorem itemAt_setItem {at_ : Int} {old : β} (found : itemAt items at_ = some old) (item : β) :
    itemAt (setItem items at_ item) at_ = some item := by
  unfold itemAt setItem at *
  split at found
  · rename_i inside
    have bound := (List.getElem?_eq_some_iff.mp found).1
    simp [inside, bound]
  · cases found

theorem itemAt_setItem_ne {at_ other : Int} (differ : other ≠ at_) (item : β) :
    itemAt (setItem items at_ item) other = itemAt items other := by
  unfold itemAt setItem
  by_cases inside : 0 ≤ at_
  · by_cases within : 0 ≤ other
    · have apart : at_.toNat ≠ other.toNat := by omega
      simp [inside, within, List.getElem?_set_ne apart]
    · simp [within]
  · simp [inside]

theorem setItem_itemAt {at_ : Int} {old : β} (found : itemAt items at_ = some old) :
    setItem items at_ old = items := by
  unfold itemAt at found
  unfold setItem
  split at found
  · rename_i inside
    obtain ⟨bound, rfl⟩ := List.getElem?_eq_some_iff.mp found
    simp [inside]
  · cases found

theorem setItem_setItem (items : List β) (at_ : Int) (first second : β) :
    setItem (setItem items at_ first) at_ second = setItem items at_ second := by
  unfold setItem
  split <;> simp

theorem setEntry_setEntry (first second : β) (entries : List (α × β)) :
    setEntry wanted second (setEntry wanted first entries) = setEntry wanted second entries := by
  induction entries with
  | nil => rfl
  | cons entry rest induction =>
    by_cases hit : wanted entry.1
    · simp [setEntry, hit]
    · simp [setEntry, hit, induction]

theorem entryOf_setEntry {entries : List (α × β)} {old : β}
    (found : entryOf wanted entries = some old) (value : β) :
    entryOf wanted (setEntry wanted value entries) = some value := by
  induction entries with
  | nil => cases found
  | cons entry rest induction =>
    by_cases hit : wanted entry.1
    · simp [setEntry, entryOf, hit]
    · simp only [entryOf, hit] at found
      simp [setEntry, entryOf, hit, induction found]

theorem entryOf_setEntry_ne (apart : ∀ key, other key → ¬ wanted key) (value : β)
    (entries : List (α × β)) :
    entryOf other (setEntry wanted value entries) = entryOf other entries := by
  induction entries with
  | nil => rfl
  | cons entry rest induction =>
    by_cases hit : wanted entry.1
    · have miss : ¬ other entry.1 := fun also => apart entry.1 also hit
      simp [setEntry, entryOf, hit, miss]
    · simp [setEntry, entryOf, hit, induction]

theorem setEntry_entryOf {entries : List (α × β)} {old : β}
    (found : entryOf wanted entries = some old) : setEntry wanted old entries = entries := by
  induction entries with
  | nil => rfl
  | cons entry rest induction =>
    by_cases hit : wanted entry.1
    · simp only [entryOf, hit] at found
      cases found
      simp [setEntry, hit]
    · simp only [entryOf, hit] at found
      simp [setEntry, hit, induction found]

end Entries

/-- The slot a step finds in a value. -/
def Value.child : Value → Proj → Option (Slot Value)
  | .struct _ fields _, .field name => entryOf (· = name) fields
  | .tuple items, .index at_ => itemAt items at_
  | .list items _ _ _, .index at_ => itemAt items at_
  | .map pairs _, .key key => entryOf key.names pairs
  | _, _ => none

/-- The value with the slot a step finds replaced. -/
def Value.graft : Value → Proj → Slot Value → Value
  | .struct name fields home, .field field, slot =>
    .struct name (setEntry (· = field) slot fields) home
  | .tuple items, .index at_, slot => .tuple (setItem items at_ slot)
  | .list items capacity elem home, .index at_, slot =>
    .list (setItem items at_ slot) capacity elem home
  | .map pairs home, .key key, slot => .map (setEntry key.names slot pairs) home
  | value, _, _ => value

theorem MapKey.names_inj {key other : MapKey} {stored : Value} (one : key.names stored)
    (two : other.names stored) : key = other := by
  simp only [names, decide_eq_true_eq] at one two
  exact Option.eq_some_unique one two

/-- Slots as a tree whose children are named by steps. -/
def slots : Lens (Slot Value) Proj where
  child slot step := slot.value.child step
  graft slot step new := { slot with value := slot.value.graft step new }
  child_graft {slot step old} found new := by
    obtain ⟨state, value⟩ := slot
    change value.child step = some old at found
    change (value.graft step new).child step = some new
    revert found
    fun_cases Value.child value step with
    | case1 => exact fun found => entryOf_setEntry found new
    | case2 | case3 => exact fun found => itemAt_setItem found new
    | case4 => exact fun found => entryOf_setEntry found new
    | case5 => rintro ⟨⟩
  child_graft_ne {slot step other} differ new := by
    obtain ⟨state, value⟩ := slot
    change (value.graft step new).child other = value.child other
    fun_cases Value.graft value step new with
    | case1 =>
      cases other with
      | field other =>
        refine entryOf_setEntry_ne (fun key also hit => differ ?_) new _
        simp only [decide_eq_true_eq] at also hit
        rw [← also, ← hit]
      | _ => rfl
    | case2 | case3 =>
      cases other with
      | index other => exact itemAt_setItem_ne (fun same => differ (by rw [same])) new
      | _ => rfl
    | case4 =>
      cases other with
      | key other =>
        refine entryOf_setEntry_ne (fun stored also hit => differ ?_) new _
        rw [MapKey.names_inj also hit]
      | _ => rfl
    | case5 => rfl
  graft_child {slot step old} found := by
    obtain ⟨state, value⟩ := slot
    change value.child step = some old at found
    change Slot.mk state (value.graft step old) = Slot.mk state value
    congr 1
    revert found
    fun_cases Value.child value step with
    | case1 => exact fun found => congrArg (Value.struct _ · _) (setEntry_entryOf found)
    | case2 => exact fun found => congrArg _ (setItem_itemAt found)
    | case3 => exact fun found => congrArg (Value.list · _ _ _) (setItem_itemAt found)
    | case4 => exact fun found => congrArg (Value.map · _) (setEntry_entryOf found)
    | case5 => rintro ⟨⟩
  graft_graft slot step first second := by
    obtain ⟨state, value⟩ := slot
    change Slot.mk state ((value.graft step first).graft step second) =
      Slot.mk state (value.graft step second)
    congr 1
    fun_cases Value.graft value step first with
    | case1 => exact congrArg (Value.struct _ · _) (setEntry_setEntry _ _ _)
    | case2 => exact congrArg _ (setItem_setItem _ _ _ _)
    | case3 => exact congrArg (Value.list · _ _ _) (setItem_setItem _ _ _ _)
    | case4 => exact congrArg (Value.map · _) (setEntry_setEntry _ _ _)
    | case5 => rfl

/-! ## Paths -/

/-- A path: a base binding, known by its frame and name, and projections. A global's frame is
`none`. -/
structure Path where
  frame : Option Nat
  base : Text
  projections : List Proj
  deriving DecidableEq

namespace Path

def local_ (frame : Nat) (base : Text) : Path := { frame := some frame, base, projections := [] }

def project (path : Path) (step : Proj) : Path :=
  { path with projections := path.projections ++ [step] }

/-- The path without its last step. -/
def parent (path : Path) : Path := { path with projections := path.projections.dropLast }

/-- One path is a prefix of the other, after steps that may be the same. -/
def conflictsWith (path other : Path) : Bool :=
  path.frame = other.frame && path.base = other.base &&
    (path.projections.zip other.projections).all fun (one, two) => one.mayEqual two

end Path

end WolfInterp.Eval
