import WolfInterp.Eval.Apart
import WolfInterp.Eval.Freed
import WolfInterp.Eval.Methods

/-!
# Lends

A builtin container's method works on the container itself, taken out of its slot once the
arguments have run. The call it stands for reads a copy before the arguments run and writes a
changed copy back.
-/

namespace WolfInterp.Eval

open WolfInterp.Lex (Text)
open WolfInterp.Syntax (ParamMode)

/-! ## The calls -/

/-- A builtin method of a container: one that changes its receiver, one that answers from the
receiver, its arguments and the store, and `par`, which calls back into the machine. -/
inductive Builtin where
  | mutator (which : Mutator)
  | query (answer : Value → List Value → Store Value → Except Signal Value × Store Value)
  | par (work : Value → List Value → M Value)

def Builtin.mutates : Builtin → Bool
  | mutator _ => true
  | _ => false

/-- A builtin method's body; it leaves its arguments as they were. -/
def Builtin.body (method : Builtin) (span : Span) : MethodBody := fun receiver args => do
  let (result, after) ← match method with
    | mutator which => mutate which receiver args span
    | query answer => do
      let machine ← M.get
      let (result, store) := answer receiver args machine.store
      M.modify fun machine => { machine with store }
      pure (result, receiver)
    | par work => do
      let result ← M.attempt (work receiver args)
      pure (result, receiver)
  pure (result, { receiver := after, finals := args, moved := [], selfMoved := none })

/-- The same call on a copy of the container, read where the receiver is: what the method leaves is
written back when the method changed it. -/
def copiedCall (method : Builtin) (path : Path) (copy : Value) (args : List Value) (span : Span)
    (finish : MethodEnd → M Unit) : M Value := do
  let (result, left) ← method.body span copy args
  finish left
  let written ← M.attempt <|
    if result.isOk && method.mutates &&
        containerWriteStamp copy ≠ containerWriteStamp left.receiver then
      writePath path left.receiver span
    else pure ()
  M.ofExcept written
  M.ofExcept result

/-- A command whose answer and effect are a function of the store, and which leaves every region in
its state. -/
def OnStore {α : Type} (command : M α) : Prop :=
  ∃ effect : Store Value → Except Signal α × Store Value,
    (∀ store, SameStates store (effect store).2) ∧ ∀ machine : Machine, command machine =
      ((effect machine.store).1, { machine with store := (effect machine.store).2 })

/-- One that ends in a value, always. -/
def Answers {α : Type} (command : M α) : Prop :=
  ∃ effect : Store Value → α × Store Value,
    (∀ store, SameStates store (effect store).2) ∧ ∀ machine : Machine, command machine =
      (.ok (effect machine.store).1, { machine with store := (effect machine.store).2 })

theorem SameStates.refl (store : Store Value) : SameStates store store := ⟨fun _ => rfl, rfl⟩

theorem SameStates.trans {first second third : Store Value} (one : SameStates first second)
    (two : SameStates second third) : SameStates first third :=
  ⟨fun id => (two.1 id).trans (one.1 id), two.2.trans one.2⟩

namespace Answers

variable {α β : Type}

theorem pure (value : α) : Answers (Pure.pure value : M α) :=
  ⟨fun store => (value, store), .refl, fun _ => rfl⟩

theorem bind {command : M α} {next : α → M β} (first : Answers command)
    (second : ∀ value, Answers (next value)) : Answers (command >>= next) := by
  obtain ⟨effect, steady, runs⟩ := first
  choose later kept ran using second
  refine ⟨fun store => later (effect store).1 (effect store).2, fun store => ?_, fun machine => ?_⟩
  · exact (steady store).trans (kept _ _)
  · rw [M.bind_run, runs]
    exact ran _ _

theorem attempt {command : M α} (runs : OnStore command) : Answers (M.attempt command) := by
  obtain ⟨effect, steady, ran⟩ := runs
  refine ⟨effect, steady, fun machine => ?_⟩
  rw [M.attempt_run, ran]

end Answers

theorem onStore_checkHomeWrite (home : Option RegionId) (span : Span) :
    OnStore (checkHomeWrite home span) := by
  cases home with
  | none => exact ⟨fun store => (.ok (), store), .refl, fun _ => rfl⟩
  | some id =>
    refine ⟨fun store => (if !store.teeth then .ok () else
      if store.state id = some .freed then
        .error (.trap ⟨.regionFault, span, (store.region id).map Region.span⟩)
      else if store.state id = some .frozen then .error (.trap ⟨.regionFault, span, none⟩)
      else .ok (), store), .refl, fun machine => ?_⟩
    unfold checkHomeWrite
    simp only [M.bind_run, M.get_run, Machine.regionState]
    cases machine.store.teeth with
    | false => rfl
    | true =>
      cases machine.store.state id with
      | none => rfl
      | some state => cases state <;> rfl

theorem onStore_chargeHome (home : Option RegionId) (bytes : Nat) (span : Span) :
    OnStore (chargeHome home bytes span) := by
  cases home with
  | none => exact ⟨fun store => (.ok (), store), .refl, fun _ => rfl⟩
  | some id =>
    refine ⟨fun store => (store.chargeGrowth id bytes).rec
      (fun breach => (.error (.trap ⟨.allocContract, span,
        (store.region breach.region).bind Region.capSpan⟩), store))
      fun next => (.ok (), next), fun store => ?_, fun machine => ?_⟩
    · dsimp only
      cases charged : store.chargeGrowth id bytes with
      | ok next => exact Store.states_chargeGrowth charged
      | error breach => exact .refl store
    · unfold chargeHome
      simp only [M.bind_run, M.get_run]
      cases machine.store.chargeGrowth id bytes <;> rfl

theorem answers_checkedFirst {check : M Unit} {rest : OnReceiver} (receiver : Value)
    (asks : OnStore check) (works : Answers rest) : Answers (checkedFirst check receiver rest) := by
  apply (Answers.attempt asks).bind
  rintro (signal | _)
  · exact .pure _
  · exact works

/-- A method that changes its receiver answers, and sees the store alone. -/
theorem answers_mutate (which : Mutator) (receiver : Value) (args : List Value) (span : Span) :
    Answers (mutate which receiver args span) := by
  fun_cases mutate which receiver args span with
  | case1 items capacity elem home =>
    apply answers_checkedFirst _ (onStore_checkHomeWrite home span)
    rcases pushArgs elem span items args with ⟨_ | _, stored⟩
    · exact .pure _
    · exact (Answers.attempt (onStore_chargeHome home _ span)).bind fun _ => .pure _
  | case2 items capacity elem home =>
    apply answers_checkedFirst _ (onStore_checkHomeWrite home span)
    split <;> exact .pure _
  | case3 items capacity elem home | case4 items capacity elem home =>
    exact answers_checkedFirst _ (onStore_checkHomeWrite home span) (.pure _)
  | case5 items capacity elem home =>
    apply answers_checkedFirst _ (onStore_checkHomeWrite home span)
    split
    · split
      · exact .pure _
      · split
        · exact .pure _
        · split
          · exact .pure _
          · apply (Answers.attempt (onStore_chargeHome home _ span)).bind
            rintro (signal | _) <;> exact .pure _
    · exact .pure _
  | case6 => exact .pure _
  | case7 pairs home =>
    unfold mapRemove
    split
    · split
      · exact .pure _
      · split <;> exact .pure _
    · exact .pure _
  | case8 => exact .pure _

variable {value after : Value} {left : Machine} {elem : Option ElemTy} {items : List (Slot Value)}
  {capacity : Nat} {home : Option RegionId}

theorem checkedFirst_ok {check : M Unit} {receiver : Value} {rest : OnReceiver} {machine : Machine}
    (ran : checkedFirst check receiver rest machine = (.ok (.ok value, after), left)) :
    ∃ asked, rest asked = (.ok (.ok value, after), left) := by
  unfold checkedFirst at ran
  rw [M.bind_run, M.attempt_run] at ran
  cases checked : (check machine).1 with
  | error signal =>
    rw [checked] at ran
    cases ran
  | ok _ =>
    rw [checked] at ran
    exact ⟨_, ran⟩

theorem pushArgs_length {span : Span} {stored : List (Slot Value)} {args : List Value}
    (pushed : pushArgs elem span items args = (.ok (), stored)) :
    stored.length = items.length + args.length := by
  induction args generalizing items with
  | nil =>
    cases pushed
    rfl
  | cons arg rest induction =>
    rw [pushArgs] at pushed
    cases adopted : adoptElement elem arg span with
    | error signal =>
      rw [adopted] at pushed
      cases pushed
    | ok value =>
      rw [adopted] at pushed
      rw [induction pushed, List.length_append, List.length_cons, List.length_cons]
      simp only [List.length_nil]
      omega

theorem listPush_stamp {args : List Value} {span : Span} {machine : Machine}
    (ran : listPush items capacity elem home args span machine = (.ok (.ok value, after), left))
    (same : containerWriteStamp (.list items capacity elem home) = containerWriteStamp after) :
    after = .list items capacity elem home := by
  obtain ⟨asked, ran⟩ := checkedFirst_ok ran
  cases pushed : pushArgs elem span items args with
  | mk result stored =>
    rw [pushed] at ran
    cases result with
    | error signal => cases ran
    | ok _ =>
      have left_ : after = .list stored
          (if capacity < stored.length then Ledger.slotCapacity stored.length else capacity)
          elem home := by
        simp only [M.bind_run, M.attempt_run, M.pure_run, Prod.mk.injEq, Except.ok.injEq] at ran
        exact ran.1.2.symm
      subst left_
      simp only [containerWriteStamp, Option.some.injEq, Prod.mk.injEq] at same
      have none_ : args = [] := by
        have grown := pushArgs_length pushed
        apply List.length_eq_zero_iff.mp
        omega
      subst none_
      cases pushed
      rw [← same.2]

theorem listPop_stamp {span : Span} {machine : Machine}
    (ran : listPop items capacity elem home span machine = (.ok (.ok value, after), left))
    (same : containerWriteStamp (.list items capacity elem home) = containerWriteStamp after) :
    after = .list items capacity elem home := by
  obtain ⟨asked, ran⟩ := checkedFirst_ok ran
  cases last : items.getLast? with
  | none =>
    simp only [last] at ran
    cases ran
    rfl
  | some slot =>
    obtain ⟨_ | at_, held⟩ := slot
    · simp only [last] at ran
      cases ran
      simp only [containerWriteStamp, Option.some.injEq, Prod.mk.injEq, List.length_dropLast]
        at same
      have empty : items = [] := by
        apply List.length_eq_zero_iff.mp
        omega
      rw [empty] at last
      cases last
    · simp only [last] at ran
      cases ran

theorem listReserve_stamp {args : List Value} {span : Span} {machine : Machine}
    (ran : listReserve items capacity elem home args span machine = (.ok (.ok value, after), left))
    (same : containerWriteStamp (.list items capacity elem home) = containerWriteStamp after) :
    after = .list items capacity elem home := by
  have shape : ∃ room, after = .list items room elem home := by
    obtain ⟨asked, ran⟩ := checkedFirst_ok ran
    dsimp only at ran
    split at ran
    · next want _ _ =>
      by_cases small : want ≤ 0 ∨ want ≤ (capacity : Int)
      · rw [if_pos small] at ran
        cases ran
        exact ⟨capacity, rfl⟩
      rw [if_neg small] at ran
      by_cases large : (2 ^ 64 : Int) ≤ want
      · rw [if_pos large] at ran
        cases ran
      rw [if_neg large] at ran
      cases power : checkedPower want.toNat with
      | none =>
        rw [power] at ran
        cases ran
      | some room =>
        rw [power] at ran
        dsimp only at ran
        rw [M.bind_run, M.attempt_run] at ran
        dsimp only at ran
        generalize chargeHome home _ span asked = charged at ran
        obtain ⟨signal | _, later⟩ := charged
        · cases ran
        · cases ran
          exact ⟨room, rfl⟩
    · cases ran
  obtain ⟨room, rfl⟩ := shape
  simp only [containerWriteStamp, Option.some.injEq, Prod.mk.injEq, true_and] at same
  rw [same]

theorem mapRemove_stamp {pairs : List (Value × Slot Value)} {args : List Value} {span : Span}
    {machine : Machine}
    (ran : mapRemove pairs home args span machine = (.ok (.ok value, after), left))
    (same : containerWriteStamp (.map pairs home) = containerWriteStamp after) :
    after = .map pairs home := by
  unfold mapRemove at ran
  split at ran
  · next key =>
    cases found : pairs.findIdx? fun entry => valueEq entry.1 key with
    | none =>
      rw [found] at ran
      cases ran
      rfl
    | some position =>
      rw [found] at ran
      dsimp only at ran
      have inside : position < pairs.length := (List.findIdx?_eq_some_iff_findIdx_eq.mp found).1
      rw [List.getElem?_eq_getElem inside] at ran
      generalize pairs[position] = entry at ran
      obtain ⟨stored, _ | at_, held⟩ := entry
      · cases ran
        simp only [containerWriteStamp, Option.some.injEq, Prod.mk.injEq, and_true,
          List.length_eraseIdx_of_lt inside] at same
        omega
      · cases ran
  · cases ran

/-- A method that ends well with the stamp it began with left its receiver as it was. -/
theorem mutate_stamp {which : Mutator} {receiver : Value} {args : List Value} {span : Span}
    {machine : Machine}
    (ran : mutate which receiver args span machine = (.ok (.ok value, after), left))
    (same : containerWriteStamp receiver = containerWriteStamp after) : after = receiver := by
  have emptied {α : Type} {entries : List α} (none_ : entries.length = 0) : [] = entries :=
    (List.length_eq_zero_iff.mp none_).symm
  revert ran same
  fun_cases mutate which receiver args span with
  | case1 items capacity elem home => exact listPush_stamp
  | case2 items capacity elem home => exact listPop_stamp
  | case3 items capacity elem home | case4 items capacity elem home =>
    intro ran same
    obtain ⟨asked, ran⟩ := checkedFirst_ok ran
    cases ran
    rw [emptied (Prod.mk.inj (Option.some.inj same)).1]
  | case5 items capacity elem home => exact listReserve_stamp
  | case6 pairs home =>
    intro ran same
    cases ran
    rw [emptied (Prod.mk.inj (Option.some.inj same)).1]
  | case7 pairs home => exact mapRemove_stamp
  | case8 =>
    intro ran
    cases ran

theorem sameItems_length {left right : List (Slot Value)} (same : sameItems left right = true) :
    left.length = right.length := by
  induction left generalizing right with
  | nil =>
    cases right with
    | nil => rfl
    | cons other others => simp [sameItems] at same
  | cons slot rest induction =>
    cases right with
    | nil => simp [sameItems] at same
    | cons other others =>
      rw [sameItems, Bool.and_eq_true] at same
      rw [List.length_cons, List.length_cons, induction same.2]

theorem samePairs_length {left right : List (Value × Slot Value)}
    (same : samePairs left right = true) : left.length = right.length := by
  induction left generalizing right with
  | nil =>
    cases right with
    | nil => rfl
    | cons other others => simp [samePairs] at same
  | cons entry rest induction =>
    obtain ⟨key, slot⟩ := entry
    cases right with
    | nil => simp [samePairs] at same
    | cons other others =>
      obtain ⟨key', slot'⟩ := other
      rw [samePairs, Bool.and_eq_true] at same
      rw [List.length_cons, List.length_cons, induction same.2]

/-- Equal containers carry one stamp. -/
theorem stamp_of_same {left right : Value} (same : left.same right = true) :
    containerWriteStamp left = containerWriteStamp right := by
  cases left with
  | list items capacity elem home =>
    cases right with
    | list items' capacity' elem' home' =>
      simp only [Value.same, Bool.and_eq_true, decide_eq_true_eq] at same
      rw [containerWriteStamp, containerWriteStamp, sameItems_length same.2, same.1.1.1]
    | _ => simp [Value.same] at same
  | map pairs home =>
    cases right with
    | map pairs' home' =>
      simp only [Value.same, Bool.and_eq_true, decide_eq_true_eq] at same
      rw [containerWriteStamp, containerWriteStamp, samePairs_length same.2]
    | _ => simp [Value.same] at same
  | _ =>
    fun_cases containerWriteStamp right with
    | case3 => rfl
    | _ => simp [Value.same] at same

/-! ## Commands that pass a change by -/

/-- A command that runs as it would without a change of a place, and leaves the change. -/
def Passes {α : Type} (path : Path) (update : Slot Value → Slot Value) (command : M α) : Prop :=
  ∀ machine : Machine, command (machine.changeSlot path update) =
    ((command machine).1, (command machine).2.changeSlot path update)

section Passing

variable {α β : Type} {path : Path} {update : Slot Value → Slot Value}

theorem Passes.pure (value : α) : Passes path update (Pure.pure value : M α) := fun _ => rfl

theorem Passes.bind {command : M α} {next : α → M β} (first : Passes path update command)
    (second : ∀ value, Passes path update (next value)) :
    Passes path update (command >>= next) := by
  intro machine
  rw [M.bind_run, M.bind_run, first]
  rcases command machine with ⟨signal | value, after⟩
  · rfl
  · exact second value after

/-- A change of a place and an update beside the bindings pass each other by. -/
theorem changeSlot_beside (alter : Machine → Machine)
    (beside : ∀ machine frames globals, alter { machine with frames, globals } =
      { alter machine with frames, globals }) (machine : Machine) :
    alter (machine.changeSlot path update) = (alter machine).changeSlot path update := by
  have kept := beside machine machine.frames machine.globals
  have frames : (alter machine).frames = machine.frames := by simpa using congrArg (·.frames) kept
  have globals : (alter machine).globals = machine.globals := by
    simpa using congrArg (·.globals) kept
  unfold Machine.changeSlot Machine.setBase Machine.baseSlot
  rw [frames, globals]
  cases path.frame with
  | none =>
    dsimp only
    cases entryOf (· = path.base) machine.globals with
    | none => rfl
    | some slot => exact beside machine _ _
  | some frame =>
    dsimp only
    cases (machine.frames[frame]?).bind fun frame => lookupLocal path.base frame.scopes with
    | none => rfl
    | some slot => exact beside machine _ _

theorem changeSlot_access (machine : Machine) (access : AccessSet) :
    { machine.changeSlot path update with access } =
      ({ machine with access } : Machine).changeSlot path update :=
  changeSlot_beside ({ · with access }) (fun _ _ _ => rfl) machine

theorem changeSlot_store (machine : Machine) (store : Store Value) :
    { machine.changeSlot path update with store } =
      ({ machine with store } : Machine).changeSlot path update :=
  changeSlot_beside ({ · with store }) (fun _ _ _ => rfl) machine

theorem changeSlot_fields (machine : Machine) :
    (machine.changeSlot path update).access = machine.access ∧
      (machine.changeSlot path update).prov = machine.prov ∧
        (machine.changeSlot path update).partsMoved = machine.partsMoved ∧
          (machine.changeSlot path update).task = machine.task := by
  unfold Machine.changeSlot
  cases machine.baseSlot path with
  | none => exact ⟨rfl, rfl, rfl, rfl⟩
  | some slot =>
    unfold Machine.setBase
    cases path.frame <;> exact ⟨rfl, rfl, rfl, rfl⟩

/-- A command that sees the store alone passes every change by. -/
theorem passes_of_answers {command : M α} (answers : Answers command) :
    Passes path update command := by
  obtain ⟨effect, _, runs⟩ := answers
  intro machine
  rw [runs, runs]
  simp only [store_changeSlot, changeSlot_store]

theorem passes_body {method : Builtin} {receiver : Value} {args : List Value} (span : Span)
    (closures : ∀ work, method = .par work → Passes path update (work receiver args)) :
    Passes path update (method.body span receiver args) := by
  cases method with
  | mutator which =>
    exact passes_of_answers ((answers_mutate which receiver args span).bind fun _ => .pure _)
  | query answer =>
    intro machine
    simp only [Builtin.body, M.bind_run, M.get_run, M.modify_run, M.pure_run, store_changeSlot,
      changeSlot_store]
  | par work =>
    intro machine
    have passes := closures work rfl machine
    simp only [Builtin.body, M.bind_run, M.attempt_run, M.pure_run, passes]

end Passing

/-- A command that passes every change of a place by leaves the place as it is, or takes it away. -/
theorem slotAt_of_passes {α : Type} {path : Path} {command : M α} {machine : Machine}
    {slot : Slot Value} (passes : ∀ update, Passes path update command)
    (found : machine.slotAt path = some slot) :
    (command machine).2.slotAt path = none ∨ (command machine).2.slotAt path = some slot := by
  have fixed : machine.changeSlot path (fun _ => slot) = machine :=
    Machine.changeSlot_of_fixed found rfl
  have ran := passes (fun _ => slot) machine
  rw [fixed] at ran
  have kept : (command machine).2.slotAt path =
      ((command machine).2.slotAt path).map fun _ => slot := by
    conv_lhs => rw [ran]
    exact Machine.slotAt_changeSlot path _
  rw [kept]
  cases (command machine).2.slotAt path with
  | none => exact .inl rfl
  | some _ => exact .inr rfl

/-! ## What passing write-backs leave -/

section Kept

variable {machine : Machine} {path other : Path}

theorem isSome_entryOf_setEntry {α β : Type} (wanted set : α → Bool) (value : β)
    (entries : List (α × β)) :
    (entryOf wanted (setEntry set value entries)).isSome = (entryOf wanted entries).isSome := by
  induction entries with
  | nil => rfl
  | cons entry rest induction =>
    by_cases hit : set entry.1
    · by_cases also : wanted entry.1 <;> simp [setEntry, entryOf, hit, also]
    · by_cases also : wanted entry.1 <;> simp [setEntry, entryOf, hit, also, induction]

theorem bindsParam_cons (name : Text) (scope : Scope) (rest : List Scope) :
    Machine.bindsParam name (scope :: rest) =
      if (entryOf (· = name) scope.locals).isSome then rest.isEmpty
      else Machine.bindsParam name rest := by
  rw [Machine.bindsParam]
  cases entryOf (· = name) scope.locals <;> rfl

theorem bindsParam_replaceLocal (name set : Text) (slot : Slot Value) (scopes : List Scope) :
    Machine.bindsParam name (replaceLocal set slot scopes) = Machine.bindsParam name scopes := by
  induction scopes with
  | nil => rfl
  | cons scope rest induction =>
    have empty : (replaceLocal set slot rest).isEmpty = rest.isEmpty := by
      cases rest with
      | nil => rfl
      | cons next rest =>
        rw [replaceLocal]
        cases entryOf (· = set) next.locals <;> rfl
    rw [replaceLocal]
    cases entryOf (· = set) scope.locals with
    | none => rw [bindsParam_cons, bindsParam_cons, induction, empty]
    | some held => rw [bindsParam_cons, bindsParam_cons, isSome_entryOf_setEntry]

theorem readParamWrite_changeSlot (update : Slot Value → Slot Value) :
    (machine.changeSlot other update).readParamWrite path = machine.readParamWrite path := by
  unfold Machine.changeSlot
  cases machine.baseSlot other with
  | none => rfl
  | some slot =>
    unfold Machine.setBase
    cases other.frame with
    | none => rfl
    | some frame =>
      unfold Machine.readParamWrite
      cases path.frame with
      | none => rfl
      | some own =>
        simp only [Option.bind_eq_bind, Option.bind_some, List.getElem?_modify]
        cases machine.frames[own]? with
        | none => by_cases hit : frame = own <;> simp [hit]
        | some entry =>
          by_cases hit : frame = own
          · simp [hit, bindsParam_replaceLocal]
          · simp [hit]

/-- A change at a parting path moves no home on the way. -/
theorem homesAlong_change_of_parts {slot : Slot Value} {front rest : List Proj}
    (parts : Lens.Parts front rest) (update : Slot Value → Slot Value) :
    homesAlong false (slots.change update slot front) rest = homesAlong false slot rest := by
  induction front generalizing slot rest with
  | nil =>
    obtain ⟨front, _, _, _, _, _, split, _⟩ := parts
    cases front <;> cases split
  | cons step front induction =>
    cases rest with
    | nil => rfl
    | cons step' rest =>
      have kept : (slots.change update slot (step :: front)).value.home = slot.value.home :=
        Machine.home_change update
      rw [homesAlong, homesAlong, kept]
      cases found : slots.child slot step with
      | none => rw [Lens.change_of_walk_none (by rw [Lens.walk_cons, found]; rfl)]
      | some next =>
        rw [Lens.change_of_child found]
        by_cases same : step = step'
        · subst same
          rw [slots.child_graft found, found]
          dsimp only
          rw [induction (Lens.Parts.cons_iff.mp parts)]
        · rw [slots.child_graft_ne (Ne.symm same)]

theorem writeRefusal_changeSlot_apart (apart : path.Apart other)
    (update : Slot Value → Slot Value) :
    (machine.changeSlot other update).writeRefusal path = machine.writeRefusal path := by
  have homes : (machine.changeSlot other update).homesOf path false =
      machine.homesOf path false := by
    unfold Machine.homesOf
    by_cases same : other.SameBase path
    · rw [Machine.baseSlot_changeSlot same]
      cases machine.baseSlot path with
      | none => rfl
      | some slot => exact homesAlong_change_of_parts (apart same.symm).symm update
    · rw [Machine.baseSlot_changeSlot_ne same]
  unfold Machine.writeRefusal Machine.regionState
  rw [homes, store_changeSlot]

/-- The write-backs a call ends with leave a place apart as it was, and as open to a write. -/
structure Spared (path : Path) (before after : Machine) : Prop where
  slot : after.slotAt path = before.slotAt path
  open_ : before.writebackWouldTrap path = false → after.writebackWouldTrap path = false

theorem Spared.refl (path : Path) (machine : Machine) : Spared path machine machine :=
  ⟨rfl, id⟩

theorem Spared.trans {first second third : Machine} (one : Spared path first second)
    (two : Spared path second third) : Spared path first third :=
  ⟨two.slot.trans one.slot, fun free => two.open_ (one.open_ free)⟩

theorem spared_changeSlot (apart : path.Apart other) (update : Slot Value → Slot Value) :
    Spared path machine (machine.changeSlot other update) := by
  constructor
  · by_cases same : other.SameBase path
    · exact Machine.slotAt_changeSlot_parts same (apart same.symm).symm update
    · exact Machine.slotAt_changeSlot_ne same update
  · intro free
    unfold Machine.writebackWouldTrap at free ⊢
    rw [readParamWrite_changeSlot, writeRefusal_changeSlot_apart apart,
      (changeSlot_fields machine).1]
    exact free

theorem conflict_release (set : AccessSet) (count : Nat) (access : Access)
    (free : set.conflict path access = none) : (set.release count).conflict path access = none := by
  unfold AccessSet.conflict AccessSet.conflictAs AccessSet.release at *
  rw [List.find?_eq_none] at free ⊢
  exact fun held member => free held (List.mem_of_mem_take member)

/-- A store in the states it was in leaves a place as open to a write. -/
theorem spared_sameStates {store : Store Value} (same : SameStates machine.store store) :
    Spared path machine { machine with store } := by
  have refusal : ({ machine with store } : Machine).writeRefusal path =
      machine.writeRefusal path := by
    unfold Machine.writeRefusal Machine.regionState
    simp only [same.1, same.2]
    rfl
  refine ⟨rfl, fun free => ?_⟩
  unfold Machine.writebackWouldTrap at free ⊢
  rw [refusal]
  exact free

/-- A write that would not trap does not see what it replaces. -/
theorem writePath_changeSlot {slot : Slot Value} (free : machine.writebackWouldTrap path = false)
    (found : machine.slotAt path = some slot) (value : Value) (span : Span)
    (update : Slot Value → Slot Value) :
    writePath path value span (machine.changeSlot path update) =
      writePath path value span machine := by
  have refusal : (machine.changeSlot path update).writeRefusal path =
      machine.writeRefusal path := by
    unfold Machine.writeRefusal Machine.regionState
    rw [Machine.homesOf_changeSlot, store_changeSlot]
  obtain ⟨⟨mode, claims⟩, homes⟩ : (machine.readParamWrite path = none ∧
      machine.access.conflict path .exclusive = none) ∧ machine.writeRefusal path = none := by
    simpa [Machine.writebackWouldTrap] using free
  have granted : machine.access.conflictAs path .exclusive .access = none := claims
  have there : ((machine.changeSlot path update).slotAt path) = some (update slot) := by
    rw [Machine.slotAt_changeSlot, found, Option.map_some]
  unfold writePath writePathWithKey checkAccess checkAccessAs
  simp only [M.bind_run, M.get_run, readParamWrite_changeSlot, mode, (changeSlot_fields machine).1,
    granted, refusal, homes, there, found, M.pure_run, M.modify_run, Machine.changeSlot_changeSlot]

end Kept

/-! ## Lends and copies -/

/-- Two outcomes that agree: the same answer and the same machine, unless both are the source's own
abort. -/
def Agree {α : Type} (one two : Except Signal α × Machine) : Prop :=
  one = two ∨ (∃ after after', one = (.error .panic, after) ∧ two = (.error .panic, after'))

/-- A method is entered with its receiver's place as it was read: the container is the copy, the
closures of a `par` leave it alone, a method that fails stored nothing before it failed, and a copy
that is compared equals itself. -/
structure Untouched (method : Builtin) (path : Path) (copy : Value) (args : List Value)
    (span : Span) (machine : Machine) : Prop where
  kept : (machine.slotAt path).map Slot.value = some copy
  closures : ∀ work, method = .par work → ∀ update, Passes path update (work copy args)
  clean : ∀ which, method = .mutator which → ∀ signal after,
    (mutate which copy args span machine).1 = .ok (.error signal, after) → after = copy
  equal : method.mutates = true → machine.writebackWouldTrap path = true → copy.same copy = true

section Calls

variable {method : Builtin} {path : Path} {copy : Value} {args : List Value} {span : Span}
  {machine : Machine}

/-- How a builtin method ends: what it left, and the machine after it. -/
structure Ended (method : Builtin) (path : Path) (copy : Value) (args : List Value)
    (span : Span) (machine : Machine) (result : Except Signal Value) (left : MethodEnd)
    (after : Machine) : Prop where
  ran : method.body span copy args machine = (.ok (result, left), after)
  selfMoved : left.selfMoved = none
  stays : (result.isOk && method.mutates &&
      containerWriteStamp copy ≠ containerWriteStamp left.receiver) = false → left.receiver = copy
  spares : method.mutates = true → Spared path machine after

theorem body_ended (quiet : Untouched method path copy args span machine) :
    ∃ result left after, Ended method path copy args span machine result left after := by
  cases method with
  | query answer | par work => exact ⟨_, _, _, rfl, rfl, fun _ => rfl, nofun⟩
  | mutator which =>
    obtain ⟨effect, steady, runs⟩ := answers_mutate which copy args span
    have ran := runs machine
    have same := steady machine.store
    rcases effected : effect machine.store with ⟨⟨result, after⟩, store⟩
    rw [effected] at ran same
    refine ⟨result, ⟨after, args, [], none⟩, { machine with store }, ?_, rfl, ?_, ?_⟩
    · simp only [Builtin.body, M.bind_run, ran, M.pure_run]
    · intro unwritten
      cases result with
      | error signal => exact quiet.clean which rfl signal after (by rw [ran])
      | ok value =>
        apply mutate_stamp ran
        simpa [Except.isOk, Except.toBool, Builtin.mutates] using unwritten
    · exact fun _ => spared_sameStates same

theorem provStep_error {op : Provenance → Option Provenance} {signal : Signal}
    (stopped : (provStep op machine).1 = .error signal) : signal = .panic := by
  unfold provStep at stopped
  rw [M.bind_run, M.get_run] at stopped
  dsimp only at stopped
  cases stepped : op machine.prov with
  | none =>
    rw [stepped] at stopped
    cases stopped
    rfl
  | some prov =>
    rw [stepped] at stopped
    cases stopped

theorem writeBacks_ok (finals : List Value) (moved : List (Option Span))
    (writebacks : List (Nat × Path)) (machine : Machine) :
    (writeBacks finals moved writebacks machine).1 = .ok () := by
  induction writebacks generalizing machine with
  | nil => rfl
  | cons entry rest induction =>
    obtain ⟨index, other⟩ := entry
    unfold writeBacks
    cases finals[index]? with
    | none => exact induction machine
    | some value => exact induction _

theorem markMoved_none (site : MethodSite) (result : Except Signal Value)
    (written : Except Signal Unit) : markMoved site result written none = pure () := by
  unfold markMoved
  cases site.path <;> rfl

section

variable {mode : Option ParamMode} {result : Except Signal Value} {left : MethodEnd}
  {after : Machine} (kept : mode ≠ some .take)
include kept

/-- A cancelled lend writes back when a copied call does. -/
theorem writeReceiver_cancelled (mutates : method.mutates = true) (equal : copy.same copy = true)
    (ended : Ended method path copy args span machine result left after) : writeReceiver
        { path := some path, mode, lend := some method.mutates, value := none, viewSet := [], span }
        none copy result left.receiver = if result.isOk && method.mutates &&
          containerWriteStamp copy ≠ containerWriteStamp left.receiver then
        writePath path left.receiver span else pure () := by
  cases result with
  | error signal => simp [writeReceiver, Except.isOk, Except.toBool]
  | ok value =>
    by_cases same : containerWriteStamp copy = containerWriteStamp left.receiver
    · have stays := ended.stays (by simp [same])
      simp [writeReceiver, Except.isOk, Except.toBool, kept, stays, equal]
    · have changed : left.receiver.same copy = false := by
        cases equal_ : left.receiver.same copy with
        | false => rfl
        | true => exact absurd (stamp_of_same equal_).symm same
      simp [writeReceiver, Except.isOk, Except.toBool, kept, changed, same, mutates]

/-- A lend writes back when a copied call does, and its end undoes it otherwise. -/
theorem writeReceiver_lent {final : Machine} {slot : Slot Value} (held : slot.value = copy)
    (free : method.mutates = true → final.writebackWouldTrap path = false)
    (there : final.slotAt path = none ∧ method.mutates = false ∨ final.slotAt path = some slot)
    (ended : Ended method path copy args span machine result left after) :
    writeReceiver
        { path := some path, mode, lend := some method.mutates, value := none, viewSet := [], span }
        (some method.mutates) copy result left.receiver
        (final.changeSlot path fun slot => { slot with value := .unit }) =
      (if result.isOk && method.mutates &&
          containerWriteStamp copy ≠ containerWriteStamp left.receiver then
        writePath path left.receiver span
      else pure ()) final := by
  have ends : writeReceiver
        { path := some path, mode, lend := some method.mutates, value := none, viewSet := [], span }
        (some method.mutates) copy result left.receiver =
      if result.isOk && method.mutates &&
          containerWriteStamp copy ≠ containerWriteStamp left.receiver then
        writePath path left.receiver span
      else restoreLent path left.receiver := by
    simp [writeReceiver, kept]
  rw [ends]
  by_cases writes : (result.isOk && method.mutates &&
      containerWriteStamp copy ≠ containerWriteStamp left.receiver) = true
  · rw [if_pos writes, if_pos writes]
    have mutates : method.mutates = true := by
      simp only [Bool.and_eq_true] at writes
      exact writes.1.2
    rcases there with ⟨_, query⟩ | there
    · rw [mutates] at query
      cases query
    · exact writePath_changeSlot (free mutates) there _ span _
  · have stays := ended.stays (Bool.eq_false_iff.mpr writes)
    rw [if_neg writes, if_neg writes, restoreLent, M.modify_run, M.pure_run,
      Machine.changeSlot_changeSlot, stays]
    rcases there with ⟨gone, _⟩ | there
    · rw [Machine.changeSlot_of_none gone]
    · rw [Machine.changeSlot_of_fixed there]
      rw [← held]

end

/-- How a call ends, when what ends its arguments' extent does not meet the receiver's place: as on
a copy, or with that end's own signal. -/
theorem receiverCall_agrees_or {mode : Option ParamMode} (finish : MethodEnd → M Unit)
    (kept : mode ≠ some .take) (passes : ∀ left update, Passes path update (finish left))
    (spares : ∀ left machine, Spared path machine (finish left machine).2)
    (quiet : Untouched method path copy args span machine) :
    let lent := receiverCall
      { path := some path, mode, lend := some method.mutates, value := none, viewSet := [], span }
      (fun receiver => method.body span receiver args) finish machine
    let copied := copiedCall method path copy args span finish machine
    lent = copied ∨ ∃ left after signal, (finish left after).1 = .error signal ∧
      lent.1 = .error signal ∧ copied.1 = .error signal := by
  obtain ⟨slot, found, held⟩ := Option.map_eq_some_iff.mp quiet.kept
  obtain ⟨result, left, after, ended⟩ := body_ended quiet
  have ran := ended.ran
  unfold receiverCall copiedCall
  by_cases cancelled : method.mutates = true ∧ machine.writebackWouldTrap path = true
  · obtain ⟨mutates, traps⟩ := cancelled
    have writes := writeReceiver_cancelled kept mutates (quiet.equal mutates traps) ended
    left
    simp only [M.bind_run, M.get_run, MethodSite.lendNow, mutates, traps, takeReceiver, found, held,
      M.pure_run, ran, if_true, Option.isSome_none, Bool.false_eq_true, if_false, Option.elim_some]
    cases finish left after with
    | mk finished final =>
      cases finished with
      | error signal => rfl
      | ok _ =>
        rw [mutates] at writes
        simp only [writes, ended.selfMoved, markMoved_none, M.attempt_run, M.pure_run]
  · have lends : MethodSite.lendNow
        { path := some path, mode, lend := some method.mutates, value := none, viewSet := [], span }
        machine = some method.mutates := by
      unfold MethodSite.lendNow
      cases mutates : method.mutates with
      | false => rfl
      | true =>
        rw [mutates] at cancelled
        simp only [true_and, Bool.not_eq_true] at cancelled
        simp only [cancelled, Bool.false_eq_true, if_false]
    have works (update : Slot Value → Slot Value) :
        Passes path update (method.body span copy args) :=
      passes_body span fun work par => quiet.closures work par update
    have spared := spares left after
    simp only [M.bind_run, M.get_run, lends, takeReceiver, Option.isSome_some, if_true, lendPath,
      found, held, M.modify_run, M.pure_run, works _ machine, ran, passes left _ after]
    cases finished : finish left after with
    | mk outcome final =>
      rw [finished] at spared
      cases outcome with
      | error signal => exact .inr ⟨left, after, signal, by rw [finished], rfl, rfl⟩
      | ok _ =>
        left
        have there : final.slotAt path = none ∧ method.mutates = false ∨
            final.slotAt path = some slot := by
          rw [spared.slot]
          cases mutates : method.mutates with
          | true => exact .inr ((ended.spares mutates).slot.trans found)
          | false =>
            have left_ := slotAt_of_passes works found
            rw [ran] at left_
            exact left_.imp_left fun gone => ⟨gone, rfl⟩
        have free : method.mutates = true → final.writebackWouldTrap path = false := by
          intro mutates
          apply spared.open_
          apply (ended.spares mutates).open_
          exact Bool.eq_false_iff.mpr fun traps => cancelled ⟨mutates, traps⟩
        have writes := writeReceiver_lent kept held free there ended
        simp only [writes, ended.selfMoved, markMoved_none, M.attempt_run, M.pure_run]

end Calls

/-! ## Whole calls -/

/-- The end of a method call that was entered. -/
def Entered.finish (entered : Entered) (call : M Value) : M Value := do
  let ended ← M.attempt call
  releaseReceiver entered.tag entered.previous
  M.ofExcept ended

section Whole

variable {machine : Machine} {path : Path} {span : Span}

theorem releaseReceiver_error {tag : Option ReceiverTag} {previous : Option (AllocId × TagId)}
    {signal : Signal} (stopped : (releaseReceiver tag previous machine).1 = .error signal) :
    signal = .panic := by
  cases tag with
  | none => cases stopped
  | some tag =>
    unfold releaseReceiver unprotectAll at stopped
    simp only [M.bind_run, M.modify_run] at stopped
    exact provStep_error stopped

theorem Agree.finish {entered : Entered} {one two : M Value}
    (agree : Agree (one machine) (two machine)) :
    Agree (entered.finish one machine) (entered.finish two machine) := by
  have aborts {call : M Value} {after : Machine} (stopped : call machine = (.error .panic, after)) :
      ∃ final, entered.finish call machine = (.error .panic, final) := by
    unfold Entered.finish
    rw [M.bind_run, M.attempt_run, stopped]
    dsimp only
    rw [M.bind_run]
    cases released : releaseReceiver entered.tag entered.previous after with
    | mk outcome final =>
      cases outcome with
      | error signal =>
        have panics : signal = .panic := releaseReceiver_error (by rw [released])
        exact ⟨final, by rw [panics]⟩
      | ok _ => exact ⟨final, rfl⟩
  rcases agree with same | ⟨after, after', stopped, stopped'⟩
  · left
    unfold Entered.finish
    rw [M.bind_run, M.bind_run, M.attempt_run, M.attempt_run, same]
  · obtain ⟨final, ends⟩ := aborts stopped
    obtain ⟨final', ends'⟩ := aborts stopped'
    exact .inr ⟨final, final', ends, ends'⟩

end Whole

end WolfInterp.Eval
