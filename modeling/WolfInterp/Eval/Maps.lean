import Mathlib.Data.List.Find
import WolfInterp.Eval.Spills
import WolfInterp.Lib.Arrivals

/-!
# Maps

A `Map` keeps its entries in a list. An assignment looks its key up by the step it projects, and
grows the map at a key that is absent; reads and removals compare values. For the four kinds of key
the two agree, so no key is stored twice, and the list is in the order the keys last came.
-/

namespace WolfInterp.Eval

open Arrivals (Event roll arrival Before)

/-! ## Keys -/

def keysOf (pairs : List (Value × Slot Value)) : List (Option MapKey) :=
  pairs.map fun entry => MapKey.of entry.1

/-- The keys of the map in a place. -/
def keysAt (place : Path) (machine : Machine) : Option (List (Option MapKey)) :=
  match machine.slotAt place with
  | some ⟨_, .map pairs _⟩ => some (keysOf pairs)
  | _ => none

/-- The elements a `for` walks over in a `Map`. -/
def mapItems (pairs : List (Value × Slot Value)) : List (Slot Value) :=
  pairs.map fun (key, slot) => ⟨slot.state, .tuple [Slot.live key, Slot.live slot.value]⟩

/-- The key of an entry handed out as a tuple. -/
def entryKey : Slot Value → Option MapKey
  | ⟨_, .tuple (key :: _)⟩ => MapKey.of key.value
  | _ => none

/-- A map after a history of its keys: they are distinct, in the order they last came from absent,
walked and listed in that order, and found alike by the step of a place and by value. -/
structure Orderly (past : List (Event MapKey)) (pairs : List (Value × Slot Value)) : Prop where
  distinct : pairs.Pairwise fun one other => valueEq one.1 other.1 = false
  ordered : ∃ keys : List MapKey, keysOf pairs = keys.map some ∧ keys.Pairwise (Before past) ∧
    ∀ key, key ∈ keys ↔ (arrival key past).isSome
  walked : (mapItems pairs).map entryKey = keysOf pairs
  listed : ∀ args span current items capacity elem home birth,
    Query.pairs.answer (.map pairs home) args span current = .ok (.list items capacity elem birth) →
      items.map entryKey = keysOf pairs
  found : ∀ asked home, (pairs.find? fun entry => valueEq entry.1 asked).map Prod.snd =
    (MapKey.of asked).bind fun key => (Value.map pairs home).child (.key key)

/-- A run that makes a map in a place, with the history of its keys: a map begins empty, entries
are assigned and removed and the map is cleared by calls that succeed, and whatever else runs
leaves its keys alone. -/
inductive Built (place : Path) : List (Event MapKey) → Machine → Prop
  | made {machine : Machine} (empty : keysAt place machine = some []) : Built place [] machine
  | assigned {past : List (Event MapKey)} {machine after : Machine} {key : MapKey} {value : Value}
      {stored : Option Value} {span : Span} (before : Built place past machine)
      (own : ∀ store, stored = some store → key.names store = true)
      (wrote : writePathWithKey (place.project (.key key)) value stored span machine =
        (.ok (), after)) :
      Built place (.arrives key :: past) after
  | removed {past : List (Event MapKey)} {machine after : Machine} {key : MapKey}
      {call : ContainerCall} {mode : Option Syntax.ParamMode} {asked value : Value}
      (before : Built place past machine) (fits : call.Fits machine)
      (held : call.holder = .lent place mode) (method : call.method = .mutator .mapRemove)
      (args : call.evaluated.values = [asked]) (is : MapKey.of asked = some key)
      (ran : call.run machine = (.ok value, after)) :
      Built place (.leaves key :: past) after
  | cleared {past : List (Event MapKey)} {machine after : Machine} {call : ContainerCall}
      {mode : Option Syntax.ParamMode} {value : Value} (before : Built place past machine)
      (fits : call.Fits machine) (held : call.holder = .lent place mode)
      (method : call.method = .mutator .mapClear) (ran : call.run machine = (.ok value, after)) :
      Built place (.clears :: past) after
  | other {past : List (Event MapKey)} {machine after : Machine} (before : Built place past machine)
      (kept : keysAt place after = keysAt place machine) : Built place past after

/-! ## The two lookups -/

/-- Two values of the four kinds are equal when they are one key. -/
theorem valueEq_of_key {stored asked : Value} {key : MapKey} (is : MapKey.of stored = some key) :
    valueEq stored asked = true ↔ MapKey.of asked = some key := by
  cases stored with
  | str _ _ | int _ _ | char _ | bool _ =>
    cases is
    cases asked <;> simp [valueEq, Value.same, MapKey.of, eq_comm]
  | _ => cases is

/-- So are they when the one asked for is a key. -/
theorem valueEq_key_iff {stored asked : Value} {key : MapKey} (is : MapKey.of asked = some key) :
    valueEq stored asked = true ↔ MapKey.of stored = some key := by
  cases asked with
  | str _ _ | int _ _ | char _ | bool _ =>
    cases is
    cases stored <;> simp [valueEq, Value.same, MapKey.of]
  | _ => cases is

theorem entryOf_eq_find? {α β : Type} (wanted : α → Bool) (entries : List (α × β)) :
    entryOf wanted entries = (entries.find? fun entry => wanted entry.1).map Prod.snd := by
  induction entries with
  | nil => rfl
  | cons entry rest induction =>
    rw [entryOf, List.find?_cons]
    cases wanted entry.1 with
    | true => rfl
    | false => exact induction

theorem keysOf_setEntry (wanted : Value → Bool) (slot : Slot Value)
    (pairs : List (Value × Slot Value)) : keysOf (setEntry wanted slot pairs) = keysOf pairs := by
  induction pairs with
  | nil => rfl
  | cons entry rest induction =>
    rw [setEntry]
    split
    · rfl
    · exact congrArg (MapKey.of entry.1 :: ·) induction

variable {place : Path} {machine after : Machine} {state : SlotState}
  {pairs left : List (Value × Slot Value)} {home : Option RegionId} {key : MapKey}

/-- A map whose keys are a roll is orderly. -/
theorem orderly_of_roll {past : List (Event MapKey)}
    (keys : keysOf pairs = (roll past).map some) : Orderly past pairs := by
  obtain ⟨present, ordered⟩ := Arrivals.roll_spec past
  have each : ∀ entry ∈ pairs, ∃ key, MapKey.of entry.1 = some key := by
    intro entry among
    have member : MapKey.of entry.1 ∈ keysOf pairs := List.mem_map_of_mem among
    rw [keys] at member
    obtain ⟨key, -, same⟩ := List.mem_map.mp member
    exact ⟨key, same.symm⟩
  refine ⟨?_, ⟨roll past, keys, ordered, present⟩, ?_, ?_, fun asked home => ?_⟩
  · have apart : (keysOf pairs).Pairwise (· ≠ ·) := by
      rw [keys, List.pairwise_map]
      refine ordered.imp fun before same => ?_
      obtain ⟨first, second, came, later, lt⟩ := before
      rw [Option.some.inj same, later] at came
      exact absurd (Option.some.inj came) (Nat.ne_of_gt lt)
    refine (List.pairwise_map.mp apart).imp_of_mem fun left _ differ => ?_
    obtain ⟨key, is⟩ := each _ left
    rw [Bool.eq_false_iff]
    exact fun same => differ (is.trans ((valueEq_of_key is).mp same).symm)
  · rw [mapItems, List.map_map]
    rfl
  · intro args span current items capacity elem home birth listed
    rw [Query.answer] at listed
    split at listed
    · cases listed
    · cases listed
      rw [List.map_map]
      rfl
  · cases is : MapKey.of asked with
    | none =>
      rw [List.find?_eq_none.mpr, Option.map_none, Option.bind_none]
      intro entry among same
      obtain ⟨key, stored⟩ := each entry among
      rw [(valueEq_of_key stored).mp same] at is
      cases is
    | some key =>
      change _ = entryOf key.names pairs
      rw [entryOf_eq_find?]
      congr 1
      apply List.find?_congr
      intro entry among
      obtain ⟨own, stored⟩ := each entry among
      rw [Bool.eq_iff_iff, valueEq_of_key stored, is, MapKey.names, stored, decide_eq_true_eq]
      exact eq_comm

/-! ## The steps -/

theorem keysAt_of_slotAt (there : machine.slotAt place = some ⟨state, .map pairs home⟩) :
    keysAt place machine = some (keysOf pairs) := by
  rw [keysAt, there]

theorem exists_of_keysAt {keys : List (Option MapKey)} (there : keysAt place machine = some keys) :
    ∃ state pairs home, machine.slotAt place = some ⟨state, .map pairs home⟩ ∧
      keysOf pairs = keys := by
  rw [keysAt] at there
  split at there
  · rename_i state pairs home found
    exact ⟨state, pairs, home, found, Option.some.inj there⟩
  · cases there

/-- What the end of a write stores below a place, seen from the place. -/
theorem slotAt_wrote {path : Path} (same : path.SameBase place)
    (below : path.projections = place.projections ++ [.key key]) (value : Value) (span : Span)
    (there : machine.slotAt place = some ⟨state, .map pairs home⟩) {slot : Slot Value}
    (found : entryOf key.names pairs = some slot) :
    (accessPlace path .write span ((machine.changeSlot path fun _ =>
      Slot.live value).noteCapturedWrite path span)).2.slotAt place =
        some ⟨state, .map (setEntry key.names (Slot.live value) pairs) home⟩ := by
  obtain ⟨prov, kept⟩ := accessPlace_keeps path .write span
    ((machine.changeSlot path fun _ => Slot.live value).noteCapturedWrite path span)
  obtain ⟨frames, globals⟩ := noteCapturedWrite_slots
    (machine.changeSlot path fun _ => Slot.live value) path span
  have child : slots.child ⟨state, .map pairs home⟩ (.key key) = some slot := found
  have stored : (machine.changeSlot path fun _ => Slot.live value).slotAt place = _ :=
    Machine.slotAt_changeSlot_above same below fun _ => Slot.live value
  rw [there, Option.map_some, Lens.change_of_child child] at stored
  rw [kept]
  exact (Machine.slotAt_of_frames frames globals place).trans stored

theorem slotAt_project (key : MapKey)
    (there : machine.slotAt place = some ⟨state, .map pairs home⟩) :
    machine.slotAt (place.project (.key key)) = entryOf key.names pairs := by
  obtain ⟨base, present, walked⟩ := Option.bind_eq_some_iff.mp there
  have based : machine.baseSlot (place.project (.key key)) = some base := present
  change (machine.baseSlot _).bind (fun slot => slots.walk slot (_ ++ _)) = _
  rw [based, Option.bind_some, Lens.walk_append, walked]
  change (entryOf key.names pairs).bind _ = _
  cases entryOf key.names pairs <;> rfl

/-- An assignment keeps the keys, or adds its own at the end. -/
theorem keysAt_assigned {value : Value} {stored : Option Value} {span : Span}
    (there : machine.slotAt place = some ⟨state, .map pairs home⟩)
    (own : ∀ store, stored = some store → key.names store = true)
    (wrote : writePathWithKey (place.project (.key key)) value stored span machine =
      (.ok (), after)) :
    keysAt place after =
      some (if some key ∈ keysOf pairs then keysOf pairs else keysOf pairs ++ [some key]) := by
  have same : (place.project (.key key)).SameBase place := ⟨rfl, rfl⟩
  have at_ := slotAt_project key there
  have among : some key ∈ keysOf pairs ↔ (entryOf key.names pairs).isSome := by
    rw [entryOf_eq_find?, Option.isSome_map, List.find?_isSome, keysOf, List.mem_map]
    simp [MapKey.names]
  have parent : (place.project (.key key)).parent = place := by
    obtain ⟨owner, base, steps⟩ := place
    simp [Path.project, Path.parent]
  cases predicted : machine.writebackWouldTrap (place.project (.key key)) with
  | true =>
    obtain ⟨_, run, -⟩ := write_trapped predicted value stored span
    rw [run] at wrote
    cases wrote
  | false =>
  rcases write_checked predicted value stored span with ⟨-, -, run⟩ | ⟨ready, grows, run⟩ <;>
    rw [run] at wrote
  · cases wrote
  cases held : entryOf key.names pairs with
  | some slot =>
    rw [held] at at_
    obtain rfl : ready = machine := by
      rcases grows with ⟨-, same⟩ | ⟨gone, -⟩
      · exact same
      · rw [at_] at gone
        cases gone
    rw [Machine.storeAt, at_] at wrote
    rw [if_pos (among.mpr (by rw [held]; rfl))]
    have final := slotAt_wrote same rfl value span there held
    dsimp only at wrote
    rw [wrote] at final
    rw [keysAt_of_slotAt final, keysOf_setEntry]
  | none =>
    have absent := entryOf_none_iff.mp held
    let entry : Value × Slot Value := (stored.getD key.toValue, Slot.live Value.unit)
    let grow : Slot Value → Slot Value := fun slot =>
      { slot with value := .map (pairs ++ [entry]) home }
    have inserted : machine.insertMapKey (place.project (.key key)) stored =
        some (machine.changeSlot place grow) := by
      have last : (place.project (.key key)).projections.getLast? = some (.key key) :=
        List.getLast?_concat
      rw [Machine.insertMapKey, last, parent, there]
    have names : key.names entry.1 = true := by
      cases stored with
      | none => exact key.names_toValue
      | some store => exact own store rfl
    have grown : (machine.changeSlot place grow).slotAt place =
        some ⟨state, .map (pairs ++ [entry]) home⟩ := by
      rw [Machine.slotAt_changeSlot, there]
      rfl
    have born : entryOf key.names (pairs ++ [entry]) = some entry.2 :=
      entryOf_append_cons absent names _
    have made := slotAt_project key grown
    obtain rfl : ready = machine.changeSlot place grow := by
      rcases grows with ⟨there, -⟩ | ⟨-, grown⟩
      · simp [at_, held] at there
      · rw [inserted] at grown
        exact (Option.some.inj grown).symm
    rw [Machine.storeAt, made, born] at wrote
    have final := slotAt_wrote same rfl value span grown born
    dsimp only at wrote
    rw [wrote, setEntry_snoc absent names] at final
    rw [if_neg (fun member => by rw [among, held] at member; cases member),
      keysAt_of_slotAt final, keysOf, List.map_append]
    have key_ : MapKey.of entry.1 = some key := by simpa [MapKey.names] using names
    rw [List.map_singleton, key_]
    rfl

section Calls

variable {call : ContainerCall} {which : Mutator} {mode : Option Syntax.ParamMode} {value : Value}
  {base : Slot Value}

/-- A call that succeeds through a write leaves what it wrote. -/
theorem slotAt_ended_write {new result : Value} {span : Span} {final : Machine}
    (ran : ((writePath place new span final).1.bind fun _ => (.ok result : Except Signal Value),
      (writePath place new span final).2) = (.ok value, after)) :
    after.slotAt place = some (Slot.live new) ∧ result = value := by
  cases wrote : writePath place new span final with
  | mk answer left =>
    rw [wrote] at ran
    cases answer with
    | error signal => cases ran
    | ok _ =>
      cases ran
      exact ⟨(stores_of_write wrote).slotAt_self, rfl⟩

/-- A mutating call on a place that succeeds leaves there what its method made of it. -/
theorem slotAt_mutated (fits : call.Fits machine) (held : call.holder = .lent place mode)
    (method : call.method = .mutator which) (there : machine.slotAt place = some base)
    (ran : call.run machine = (.ok value, after)) :
    ∃ begun new state, after.slotAt place = some ⟨state, new⟩ ∧
      (mutate which base.value call.evaluated.values call.span begun).1 = .ok (.ok value, new) := by
  have site : call.holder.site (call.method.builtin call.span).mutates call.span =
      (Holder.lent place mode).site true call.span := by
    rw [held, method]
    rfl
  have own : call.holder.path = some place := by rw [held]; rfl
  have untaken := fits.mode place mode held
  cases traps : machine.writebackWouldTrap place with
  | true =>
    have cancelled : ((Holder.lent place mode).site true call.span).lendNow machine = none := by
      simp [Holder.site, MethodSite.lendNow, traps]
    have taken : takeReceiver ((Holder.lent place mode).site true call.span)
        (((Holder.lent place mode).site true call.span).lendNow machine) machine =
          (.ok base.value, machine) := by
      have receiver : (machine.slotAt place).elim .unit Slot.value = base.value := by
        rw [there, Option.elim_some]
      rw [cancelled, ← receiver]
      rfl
    obtain ⟨result, new, final, turned, -, -, mutated, spared⟩ :=
      mutator_run fits method site _ machine rfl rfl taken
    have slot := (spared place own).1
    rw [cancelled] at turned
    cases result with
    | error signal =>
      have ended : call.run machine = (.error signal, final) := by
        rw [turned]
        simp [Holder.site, writeReceiver, Except.isOk, Except.toBool, Except.bind]
      rw [ended] at ran
      cases ran
    | ok result =>
      by_cases same : new.same base.value = true
      · have ended : call.run machine = (.ok result, final) := by
          rw [turned]
          simp [Holder.site, writeReceiver, Except.isOk, Except.toBool, Except.bind, untaken,
            same]
        rw [ended] at ran
        cases ran
        have kept := mutate_stamp (Prod.ext mutated rfl) (stamp_of_same same).symm
        refine ⟨machine, new, base.state, ?_, mutated⟩
        rw [slot, there, kept]
      · have ended : call.run machine = ((writePath place new call.span final).1.bind fun _ =>
            .ok result, (writePath place new call.span final).2) := by
          rw [turned]
          simp [Holder.site, writeReceiver, Except.isOk, Except.toBool, untaken, same]
        obtain ⟨slot, rfl⟩ := slotAt_ended_write (ended.symm.trans ran)
        exact ⟨machine, new, .live, slot, mutated⟩
  | false =>
    have lends : ((Holder.lent place mode).site true call.span).lendNow machine = some true := by
      simp [Holder.site, MethodSite.lendNow, traps]
    let lent := machine.changeSlot place fun slot => { slot with value := .unit }
    have taken : takeReceiver ((Holder.lent place mode).site true call.span)
        (((Holder.lent place mode).site true call.span).lendNow machine) machine =
          (.ok base.value, lent) := by
      rw [lends]
      change lendPath place machine = _
      rw [lendPath_run, there, Option.elim_some]
    obtain ⟨result, new, final, turned, -, -, mutated, spared⟩ :=
      mutator_run fits method site _ lent (store_changeSlot _) (changeSlot_fields machine).2.1 taken
    have slot := (spared place own).1
    rw [lends] at turned
    cases result with
    | error signal =>
      have ended : (call.run machine).1 = .error signal := by
        rw [turned]
        simp [Holder.site, writeReceiver, restoreLent, Except.isOk, Except.toBool, Except.bind]
      rw [ran] at ended
      cases ended
    | ok result =>
      by_cases stamp : containerWriteStamp base.value = containerWriteStamp new
      · have ended : call.run machine =
            (.ok result, final.changeSlot place fun slot => { slot with value := new }) := by
          rw [turned]
          simp [Holder.site, writeReceiver, restoreLent, Except.bind, untaken, stamp]
        rw [ended] at ran
        cases ran
        refine ⟨lent, new, base.state, ?_, mutated⟩
        rw [slotAt_restored slot, there, Option.map_some]
      · have ended : call.run machine = ((writePath place new call.span final).1.bind fun _ =>
            .ok result, (writePath place new call.span final).2) := by
          rw [turned]
          simp [Holder.site, writeReceiver, Except.isOk, Except.toBool, untaken, stamp]
        obtain ⟨slot, rfl⟩ := slotAt_ended_write (ended.symm.trans ran)
        exact ⟨lent, new, .live, slot, mutated⟩

/-- A removal takes the first entry of its key out. -/
theorem keysOf_mapRemove {asked new : Value} {span : Span} {begun : Machine}
    (is : MapKey.of asked = some key)
    (ran : (mapRemove pairs home [asked] span begun).1 = .ok (.ok value, new)) :
    ∃ left, new = .map left home ∧ keysOf left = (keysOf pairs).erase (some key) := by
  have wanted (entry : Value × Slot Value) :
      valueEq entry.1 asked = (MapKey.of entry.1 == some key) := by
    rw [Bool.eq_iff_iff, valueEq_key_iff is, beq_iff_eq]
  have erased : (keysOf pairs).erase (some key) =
      keysOf (pairs.eraseP fun entry => valueEq entry.1 asked) := by
    rw [List.erase_eq_eraseP', keysOf, List.eraseP_map]
    simp only [wanted]
    rfl
  rw [erased, List.eraseP_eq_eraseIdx]
  unfold mapRemove at ran
  dsimp only at ran
  cases found : pairs.findIdx? fun entry => valueEq entry.1 asked with
  | none =>
    rw [found] at ran
    cases ran
    exact ⟨pairs, rfl, rfl⟩
  | some position =>
    rw [found] at ran
    dsimp only at ran
    have inside : position < pairs.length := (List.findIdx?_eq_some_iff_findIdx_eq.mp found).1
    rw [List.getElem?_eq_getElem inside] at ran
    generalize pairs[position] = entry at ran
    obtain ⟨stored, _ | moved, held⟩ := entry
    · cases ran
      exact ⟨_, rfl, rfl⟩
    · cases ran

end Calls

/-! ## Runs -/

/-- The keys in the place are the roll of the history. -/
theorem keysAt_of_built {past : List (Event MapKey)} (built : Built place past machine) :
    keysAt place machine = some ((roll past).map some) := by
  induction built with
  | made empty => exact empty
  | @assigned past _ _ key _ _ _ _ own wrote induction =>
    obtain ⟨_, pairs, _, there, keys⟩ := exists_of_keysAt induction
    have member : some key ∈ keysOf pairs ↔ key ∈ roll past := by simp [keys]
    rw [keysAt_assigned there own wrote, keys, roll]
    by_cases among : key ∈ roll past
    · rw [if_pos among, if_pos (by simpa using among)]
    · rw [if_neg among, if_neg (by simpa using among), List.map_append]
      rfl
  | @removed past _ _ key call _ asked _ _ fits held method args is ran induction =>
    obtain ⟨_, pairs, home, there, keys⟩ := exists_of_keysAt induction
    obtain ⟨begun, new, state, slot, mutated⟩ := slotAt_mutated fits held method there ran
    rw [args] at mutated
    obtain ⟨left, rfl, erased⟩ := keysOf_mapRemove is mutated
    rw [keysAt_of_slotAt slot, erased, keys, roll,
      List.map_erase (Option.some_injective MapKey)]
  | @cleared past _ _ call _ _ _ fits held method ran induction =>
    obtain ⟨_, pairs, home, there, keys⟩ := exists_of_keysAt induction
    obtain ⟨begun, new, state, slot, mutated⟩ := slotAt_mutated fits held method there ran
    cases mutated
    exact keysAt_of_slotAt slot
  | other _ kept induction => exact kept.trans induction

/-- The map a run has made is orderly. -/
theorem map_orderly {past : List (Event MapKey)} (built : Built place past machine) :
    ∃ state pairs home, machine.slotAt place = some ⟨state, .map pairs home⟩ ∧
      Orderly past pairs := by
  obtain ⟨state, pairs, home, there, keys⟩ := exists_of_keysAt (keysAt_of_built built)
  exact ⟨state, pairs, home, there, orderly_of_roll keys⟩

/-- `m` is an empty map. -/
def emptyMap : Machine := { globals := [("m".toList, Slot.live (.map [] none))] }

def emptyMapPath : Path := { frame := none, base := "m".toList, projections := [] }

/-- `m[key] = true` at a character. -/
def assignTrue (key : Char) (machine : Machine) : Machine :=
  (writePathWithKey (emptyMapPath.project (.key (.char key))) (.bool true) none ⟨0, 0⟩ machine).2

/-- The map after `m['b'] = true` and `m['a'] = true`. -/
theorem emptyMap_orderly : ∃ state pairs home,
      (assignTrue 'a' (assignTrue 'b' emptyMap)).slotAt emptyMapPath =
        some ⟨state, .map pairs home⟩ ∧
      Orderly [.arrives (.char 'a'), .arrives (.char 'b')] pairs := by
  have own (key : MapKey) : ∀ store, (none : Option Value) = some store → key.names store = true :=
    nofun
  have first : Built emptyMapPath [.arrives (.char 'b')] (assignTrue 'b' emptyMap) :=
    .assigned (.made rfl) (own _) (Prod.ext rfl rfl)
  exact map_orderly (.assigned first (own _) (Prod.ext rfl rfl))

end WolfInterp.Eval
