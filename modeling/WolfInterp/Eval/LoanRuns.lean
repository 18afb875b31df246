import WolfInterp.Eval.Captures
import WolfInterp.Eval.Lends
import WolfInterp.Eval.Storage

/-!
# Runs with closures

A run of doors, moves, bindings and closures being built. A captured local holds what was captured
for as long as its write generation is the captured one, when no step writes it silently.
-/

namespace WolfInterp.Eval

open WolfInterp.Lex (Text)
open Execution

/-! ## Write generations -/

namespace Machine

variable {machine : Machine} {path : Path} {span : Span}

theorem entryOf_bumpGeneration (key other : Nat × Text) (span : Span)
    (table : List ((Nat × Text) × (Nat × Span))) :
    ((entryOf (· = other) (bumpGeneration key span table)).map Prod.fst).getD 0 =
      ((entryOf (· = other) table).map Prod.fst).getD 0 + if key = other then 1 else 0 := by
  induction table with
  | nil => by_cases same : key = other <;> simp [bumpGeneration, entryOf, same]
  | cons entry rest induction =>
    obtain ⟨first, generation, last⟩ := entry
    rw [bumpGeneration]
    by_cases here : first = key
    · rw [if_pos here]
      by_cases same : key = other
      · simp [entryOf, here, same]
      · simp [entryOf, here, same]
    · rw [if_neg here]
      by_cases wanted : first = other
      · have differ : key ≠ other := fun same => here (wanted.trans same.symm)
        simp [entryOf, wanted, differ]
      · simpa [entryOf, wanted] using induction

/-- A noted write advances no generation but that of its place. -/
theorem generationOf_le_noteCapturedWrite (path : Path) (span : Span) (key : Nat × Text) :
    machine.generationOf key ≤ (machine.noteCapturedWrite path span).generationOf key := by
  unfold noteCapturedWrite
  dsimp only
  split
  · exact le_rfl
  · split
    · rw [generationOf, generationOf, entryOf_bumpGeneration]
      omega
    · exact le_rfl

/-- A noted write of a captured place advances its generation. -/
theorem generationOf_lt_noteCapturedWrite {own : Nat} {frame : Frame}
    (framed : path.frame = some own)
    (present : machine.frames[own]? = some frame)
    (captured : (frame.serial, path.base) ∈ machine.capturedPlaces) :
    machine.generationOf (frame.serial, path.base) <
      (machine.noteCapturedWrite path span).generationOf (frame.serial, path.base) := by
  have noted : machine.noteCapturedWrite path span = { machine with
      captureGens := bumpGeneration (frame.serial, path.base) span machine.captureGens } := by
    unfold noteCapturedWrite
    simp only [framed, Option.bind_eq_bind, Option.bind_some, present, captured, if_true]
  rw [noted, generationOf, generationOf, entryOf_bumpGeneration, if_pos rfl]
  omega

theorem noteCapturedWrite_frames (machine : Machine) (path : Path) (span : Span) :
    (machine.noteCapturedWrite path span).frames = machine.frames ∧
      (machine.noteCapturedWrite path span).capturedPlaces = machine.capturedPlaces := by
  unfold noteCapturedWrite
  dsimp only
  split
  · exact ⟨rfl, rfl⟩
  · split <;> exact ⟨rfl, rfl⟩

theorem changeSlot_captures (machine : Machine) (path : Path) (update : Slot Value → Slot Value) :
    (machine.changeSlot path update).capturedPlaces = machine.capturedPlaces ∧
      (machine.changeSlot path update).captureGens = machine.captureGens := by
  unfold changeSlot
  cases machine.baseSlot path with
  | none => exact ⟨rfl, rfl⟩
  | some slot =>
    unfold setBase
    cases path.frame <;> exact ⟨rfl, rfl⟩

/-- Paths of one base denote one local. -/
theorem storageOf_of_sameBase {other : Path} (same : path.SameBase other) :
    machine.storageOf path = machine.storageOf other := by
  rw [storageOf, storageOf, same.1, same.2]

end Machine

/-! ## What a command does to a local -/

/-- A step that writes the local a path's base denotes, and no other. -/
structure OnlyBase (path : Path) (place : Storage) (before after : Machine) : Prop where
  places : after.capturedPlaces = before.capturedPlaces
  generations : ∀ key, after.generationOf key = before.generationOf key
  serials : ∀ index : Nat,
    (after.frames[index]?).map Frame.serial = (before.frames[index]?).map Frame.serial
  denotes : ∀ other : Path, after.storageOf other = before.storageOf other
  local_ : ∀ {name slot}, before.storage place = some (name, slot) →
    ∃ held, after.storage place = some (name, held) ∧
      (before.storageOf path ≠ some place → held = slot)

/-- The generation of a captured local's place is higher than it was. -/
def Advances (place : Storage) (name : Text) (before after : Machine) : Prop :=
  ∀ serial, (before.frames[place.frame]?).map Frame.serial = some serial →
    (serial, name) ∈ before.capturedPlaces →
      before.generationOf (serial, name) < after.generationOf (serial, name)

/-- A step that keeps a local, or advances the generation of its place. -/
structure Tracked (place : Storage) (before after : Machine) : Prop where
  places : ∀ key ∈ before.capturedPlaces, key ∈ after.capturedPlaces
  generations : ∀ key, before.generationOf key ≤ after.generationOf key
  serial : (after.frames[place.frame]?).map Frame.serial =
    (before.frames[place.frame]?).map Frame.serial
  denotes : ∀ other : Path, after.storageOf other = before.storageOf other
  local_ : ∀ {name slot}, before.storage place = some (name, slot) →
    ∃ held, after.storage place = some (name, held) ∧
      (held = slot ∨ Advances place name before after)

section Tracking

variable {machine after : Machine} {path : Path} {place : Storage} {span : Span}

theorem OnlyBase.refl (path : Path) (place : Storage) (machine : Machine) :
    OnlyBase path place machine machine :=
  ⟨rfl, fun _ => rfl, fun _ => rfl, fun _ => rfl, fun found => ⟨_, found, fun _ => rfl⟩⟩

theorem OnlyBase.trans {first second third : Machine} (one : OnlyBase path place first second)
    (two : OnlyBase path place second third) : OnlyBase path place first third where
  places := two.places.trans one.places
  generations key := (two.generations key).trans (one.generations key)
  serials index := (two.serials index).trans (one.serials index)
  denotes other := (two.denotes other).trans (one.denotes other)
  local_ found := by
    obtain ⟨held, there, kept⟩ := one.local_ found
    obtain ⟨final, later, same⟩ := two.local_ there
    refine ⟨final, later, fun apart => ?_⟩
    rw [same (by rw [one.denotes]; exact apart), kept apart]

theorem Tracked.refl (place : Storage) (machine : Machine) : Tracked place machine machine :=
  ⟨fun _ member => member, fun _ => le_rfl, rfl, fun _ => rfl, fun found => ⟨_, found, .inl rfl⟩⟩

theorem Tracked.trans {first second third : Machine} (one : Tracked place first second)
    (two : Tracked place second third) : Tracked place first third where
  places key member := two.places key (one.places key member)
  generations key := (one.generations key).trans (two.generations key)
  serial := two.serial.trans one.serial
  denotes other := (two.denotes other).trans (one.denotes other)
  local_ found := by
    obtain ⟨held, there, kept⟩ := one.local_ found
    obtain ⟨final, later, kept'⟩ := two.local_ there
    refine ⟨final, later, ?_⟩
    rcases kept with same | advanced
    · rcases kept' with same' | advanced'
      · exact .inl (same'.trans same)
      · refine .inr fun serial own member => ?_
        apply lt_of_le_of_lt (one.generations _)
        exact advanced' serial (one.serial.trans own) (one.places _ member)
    · exact .inr fun serial own member =>
        lt_of_lt_of_le (advanced serial own member) (two.generations _)

theorem onlyBase_changeSlot {other : Path} (same : other.SameBase path)
    (update : Slot Value → Slot Value) :
    OnlyBase path place machine (machine.changeSlot other update) := by
  have captures := Machine.changeSlot_captures machine other update
  refine ⟨captures.1, fun key => ?_, fun index => Machine.serial_changeSlot update index,
    fun path => Machine.storageOf_changeSlot other update, fun found => ?_⟩
  · rw [Machine.generationOf, Machine.generationOf, captures.2]
  · obtain ⟨held, there, kept⟩ := Machine.storage_changeSlot update found
    refine ⟨held, there, fun apart => kept ?_⟩
    rw [Machine.storageOf_of_sameBase same]
    exact apart

theorem onlyBase_notePartMoved {other : Path} (machine : Machine) :
    OnlyBase path place machine (machine.notePartMoved other) := by
  unfold Machine.notePartMoved
  split
  · exact .refl path place machine
  · exact ⟨rfl, fun _ => rfl, fun _ => rfl, fun _ => rfl, fun found => ⟨_, found, fun _ => rfl⟩⟩

section

variable (frames : after.frames = machine.frames)
  (places : after.capturedPlaces = machine.capturedPlaces)
  (generations : after.captureGens = machine.captureGens)
include frames places generations

theorem onlyBase_of_frames : OnlyBase path place machine after where
  places := places
  generations key := by rw [Machine.generationOf, Machine.generationOf, generations]
  serials index := by rw [frames]
  denotes other := Machine.storageOf_of_frames frames
  local_ found := ⟨_, (Machine.storage_of_frames frames).trans found, fun _ => rfl⟩

/-- A step that touches neither the frames nor the capture tables. -/
theorem tracked_of_frames : Tracked place machine after where
  places key member := by rw [places]; exact member
  generations key := by rw [Machine.generationOf, Machine.generationOf, generations]
  serial := by rw [frames]
  denotes other := Machine.storageOf_of_frames frames
  local_ found := ⟨_, (Machine.storage_of_frames frames).trans found, .inl rfl⟩

end

section

variable (wrote : OnlyBase path place machine after)
include wrote

/-- A noted write of a local advances its generation. -/
theorem advances_noteCapturedWrite {name : Text} {slot : Slot Value}
    (denotes : machine.storageOf path = some place)
    (found : machine.storage place = some (name, slot)) :
    Advances place name machine (after.noteCapturedWrite path span) := by
  intro serial own member
  obtain ⟨framed, based⟩ := Machine.name_of_storageOf denotes found
  subst based
  rw [← wrote.serials] at own
  obtain ⟨frame, present, same⟩ := Option.map_eq_some_iff.mp own
  subst same
  rw [← wrote.generations]
  apply Machine.generationOf_lt_noteCapturedWrite framed present
  rw [wrote.places]
  exact member

/-- A write that is noted. -/
theorem tracked_noteCapturedWrite :
    Tracked place machine (after.noteCapturedWrite path span) := by
  have noted := Machine.noteCapturedWrite_frames after path span
  refine ⟨fun key member => ?_, fun key => ?_, ?_, fun other => ?_, fun {name slot} found => ?_⟩
  · rw [noted.2, wrote.places]
    exact member
  · rw [← wrote.generations key]
    exact Machine.generationOf_le_noteCapturedWrite path span key
  · rw [noted.1]
    exact wrote.serials place.frame
  · rw [Machine.storageOf_of_frames noted.1]
    exact wrote.denotes other
  · obtain ⟨held, there, kept⟩ := wrote.local_ found
    refine ⟨held, (Machine.storage_of_frames noted.1).trans there, ?_⟩
    by_cases denotes : machine.storageOf path = some place
    · exact .inr (advances_noteCapturedWrite wrote denotes found)
    · exact .inl (kept denotes)

theorem tracked_of_onlyBase (apart : machine.storageOf path ≠ some place) :
    Tracked place machine after where
  places key member := by rw [wrote.places]; exact member
  generations key := by rw [wrote.generations]
  serial := wrote.serials place.frame
  denotes := wrote.denotes
  local_ found := by
    obtain ⟨held, there, kept⟩ := wrote.local_ found
    exact ⟨held, there, .inl (kept apart)⟩

end

theorem tracked_accessPlace (path : Path) (kind : AccessKind) (span : Span) (machine : Machine) :
    Tracked place machine (accessPlace path kind span machine).2 := by
  obtain ⟨prov, kept⟩ := accessPlace_keeps path kind span machine
  rw [kept]
  exact tracked_of_frames rfl rfl rfl

/-- How a write of a place ends: every local is kept or its generation advanced, and when the write
was made the one it went to was advanced. -/
structure Wrote (path : Path) (place : Storage) (machine : Machine)
    (outcome : Except Signal Unit × Machine) : Prop where
  tracked : Tracked place machine outcome.2
  advances : outcome.1 = .ok () → machine.storageOf path = some place →
    ∀ {name slot}, machine.storage place = some (name, slot) →
      Advances place name machine outcome.2

theorem wrote_stopped (signal : Signal) : Wrote path place machine (.error signal, machine) :=
  ⟨.refl place machine, nofun⟩

/-- The store a write ends with is noted. -/
theorem wrote_store (wrote : OnlyBase path place machine after)
    (missing : after.slotAt path = none → machine.storageOf path ≠ some place) (value : Value)
    (span : Span) : Wrote path place machine (after.storeAt path value span) := by
  rw [Machine.storeAt]
  cases found : after.slotAt path with
  | none => exact ⟨tracked_of_onlyBase wrote (missing found), (by simp)⟩
  | some slot =>
    have stored : OnlyBase path place machine
        (after.changeSlot path fun _ => Slot.live value) :=
      wrote.trans (onlyBase_changeSlot ⟨rfl, rfl⟩ _)
    have accessed : Tracked place _ (accessPlace path .write span
        ((after.changeSlot path fun _ => Slot.live value).noteCapturedWrite path span)).2 :=
      tracked_accessPlace path .write span _
    refine ⟨(tracked_noteCapturedWrite stored).trans accessed, fun _ denotes name held there => ?_⟩
    intro serial own member
    apply lt_of_lt_of_le (advances_noteCapturedWrite stored denotes there serial own member)
    exact accessed.generations _

/-- A map that grows at another key than its path's, which no assignment of the source does. -/
def Machine.Strays (machine : Machine) (path : Path) (key : Option Value) : Prop :=
  machine.slotAt path = none ∧
    ∃ grown, machine.insertMapKey path key = some grown ∧ grown.slotAt path = none

theorem wrote_write (path : Path) (value : Value) (key : Option Value) (span : Span)
    (machine : Machine)
    (straight : machine.storageOf path = some place → ¬ machine.Strays path key) :
    Wrote path place machine (writePathWithKey path value key span machine) := by
  cases predicted : machine.writebackWouldTrap path with
  | true =>
    obtain ⟨_, run, -⟩ := write_trapped predicted value key span
    rw [run]
    exact wrote_stopped _
  | false =>
    rcases write_checked predicted value key span with
      ⟨-, -, run⟩ | ⟨ready, grows, run⟩ <;> rw [run]
    · exact wrote_stopped _
    rcases grows with ⟨there, rfl⟩ | ⟨missing, inserted⟩
    · exact wrote_store (.refl path place ready) (fun gone => by simp [gone] at there) value span
    · have wrote : OnlyBase path place machine ready := by
        obtain ⟨above, state, pairs, entry, home, -, rfl⟩ := Machine.insertMapKey_eq_some inserted
        exact onlyBase_changeSlot (show path.parent.SameBase path from ⟨rfl, rfl⟩) _
      exact wrote_store wrote
        (fun gone denotes => straight denotes ⟨missing, ready, inserted, gone⟩)
        value span

theorem isSome_entryOf_snoc {α β : Type} {wanted : α → Bool} {key : α} (names : wanted key = true)
    (value : β) (entries : List (α × β)) : (entryOf wanted (entries ++ [(key, value)])).isSome := by
  induction entries with
  | nil => simp [entryOf, names]
  | cons entry rest induction =>
    obtain ⟨first, held⟩ := entry
    by_cases hit : wanted first <;> simp [entryOf, hit, induction]

theorem MapKey.names_toValue (key : MapKey) : key.names key.toValue = true := by
  cases key <;> simp [MapKey.names, MapKey.of, MapKey.toValue]

/-- A map grown at its path's own key holds the place. -/
theorem Machine.not_strays {key : Option Value}
    (own : ∀ step stored, path.projections.getLast? = some (.key step) → key = some stored →
      step.names stored = true) : ¬ machine.Strays path key := by
  rintro ⟨-, grown, inserted, gone⟩
  unfold insertMapKey at inserted
  split at inserted
  · rename_i step last
    split at inserted
    · rename_i state pairs home found
      cases inserted
      have split_ : path.projections = path.parent.projections ++ [.key step] :=
        (List.dropLast_append_getLast? _ last).symm
      have near : path.parent.SameBase path := ⟨rfl, rfl⟩
      rw [Machine.slotAt_changeSlot_below near split_, found, Option.bind_some,
        Lens.walk_cons] at gone
      have names : step.names (key.getD step.toValue) = true := by
        cases key with
        | none => exact step.names_toValue
        | some stored => exact own step stored last rfl
      obtain ⟨slot, there⟩ := Option.isSome_iff_exists.mp
        (isSome_entryOf_snoc names (Slot.live Value.unit) pairs)
      have child : slots.child
          ⟨state, .map (pairs ++ [(key.getD step.toValue, Slot.live Value.unit)]) home⟩
          (.key step) = some slot := there
      rw [child] at gone
      cases gone
    · cases inserted
  · cases inserted

theorem wrote_writePath (path : Path) (value : Value) (span : Span) (machine : Machine) :
    Wrote path place machine (writePath path value span machine) :=
  wrote_write path value none span machine fun _ =>
    Machine.not_strays nofun

theorem tracked_writePath (path : Path) (value : Value) (span : Span) (machine : Machine) :
    Tracked place machine (writePath path value span machine).2 :=
  (wrote_writePath path value span machine).tracked

theorem tracked_take (path : Path) (span : Span) (machine : Machine) :
    Tracked place machine (movePathBy path span machine).2 := by
  rcases Machine.movePathBy_cases path span machine with ⟨_, ran⟩ | ⟨_, ran⟩
  · rw [ran]
    exact .refl place machine
  · rw [ran]
    have taken : OnlyBase path place machine (machine.changeSlot path
        fun slot => (slot.takeValue span).2) := onlyBase_changeSlot ⟨rfl, rfl⟩ _
    exact tracked_noteCapturedWrite (taken.trans (onlyBase_notePartMoved _))

theorem tracked_viewSet (path : Path) (before after : Value) (span : Span) (names : List Text)
    (machine : Machine) :
    Tracked place machine (writeViewSet path before after span names machine).2 :=
  writeViewSet_keeps (.refl place) (fun first => first.trans)
    (fun _ value => tracked_writePath _ value span) names machine

/-- The door writes the local a path's base denotes, and notes no write of it: the write-back of a
`mut` argument, a receiver that was moved out and not written back, and a method that failed after
it had stored into a lent receiver. -/
def Door.Silent (machine : Machine) (place : Storage) : Door → Prop
  | .assign path _ key _ => machine.storageOf path = some place ∧ machine.Strays path key
  | .argument path _ _ => machine.storageOf path = some place
  | .receiver path moded viewSet before after selfMoved _ =>
    machine.storageOf path = some place ∧ moded = true ∧ selfMoved.isSome = true ∧
      (after.same before = true ∨ viewSet ≠ [])
  | .method path which args span =>
    machine.storageOf path = some place ∧ machine.writebackWouldTrap path = false ∧
      ∃ slot, machine.slotAt path = some slot ∧ ∃ signal after,
        (mutate which slot.value args span machine).1 = .ok (.error signal, after) ∧
          after ≠ slot.value

theorem tracked_argument (path : Path) (value : Value) (moved : Option Span) (machine : Machine)
    (apart : machine.storageOf path ≠ some place) :
    Tracked place machine (writeBack path value moved machine).2 := by
  have stored : OnlyBase path place machine
      (machine.changeSlot path fun _ => { state := moved.elim .live .moved, value }) :=
    onlyBase_changeSlot ⟨rfl, rfl⟩ _
  cases moved with
  | none => exact tracked_of_onlyBase stored apart
  | some at_ => exact tracked_of_onlyBase (stored.trans (onlyBase_notePartMoved _)) apart

/-- Answering from the store moves no local. -/
theorem tracked_answers {α : Type} {command : M α} (answers : Answers command) (machine : Machine) :
    Tracked place machine (command machine).2 := by
  obtain ⟨effect, -, runs⟩ := answers
  rw [runs]
  exact tracked_of_frames rfl rfl rfl

theorem tracked_bind {α β : Type} {command : M α} {next : α → M β}
    (first : ∀ machine, Tracked place machine (command machine).2)
    (second : ∀ value machine, Tracked place machine (next value machine).2) (machine : Machine) :
    Tracked place machine ((command >>= next) machine).2 := by
  have one := first machine
  rw [M.bind_run]
  cases ran : command machine with
  | mk result after =>
    rw [ran] at one
    cases result with
    | error signal => exact one
    | ok value => exact one.trans (second value after)

theorem tracked_copiedCall (which : Mutator) (copy : Value) (args : List Value) (span : Span)
    (machine : Machine) : Tracked place machine
      (copiedCall (.mutator which) path copy args span (fun _ => pure ()) machine).2 := by
  have body : Answers ((Builtin.mutator which).body span copy args) :=
    (answers_mutate which copy args span).bind fun _ => .pure _
  apply tracked_bind (tracked_answers body)
  rintro ⟨result, left⟩ machine
  apply tracked_bind (fun machine => .refl place machine)
  intro _ machine
  apply tracked_bind
  · intro machine
    rw [M.attempt_run]
    split
    · exact tracked_writePath path left.receiver span machine
    · exact .refl place machine
  · intro written machine
    apply tracked_bind (fun machine => .refl place machine)
    exact fun _ machine => .refl place machine

theorem snd_bind_pure {α : Type} (command : M α) (machine : Machine) :
    ((do let _ ← command; pure () : M Unit) machine).2 = (command machine).2 := by
  rw [M.bind_run]
  rcases command machine with ⟨_ | _, _⟩ <;> rfl

theorem tracked_method {which : Mutator} {args : List Value}
    (applied : (Door.method path which args span).applies machine = true)
    (noted : ¬ (Door.method path which args span).Silent machine place) :
    Tracked place machine ((Door.method path which args span).run machine).2 := by
  obtain ⟨slot, found, -⟩ := (Option.any_eq_true _ _).mp applied
  obtain ⟨effect, steady, runs⟩ := answers_mutate which slot.value args span
  have ran := runs machine
  rcases effected : effect machine.store with ⟨⟨result, after⟩, store⟩
  rw [effected] at ran
  have charged : Tracked place machine { machine with store } := tracked_of_frames rfl rfl rfl
  cases would : machine.writebackWouldTrap path with
  | true =>
    rw [Door.method_run_copied found would ran]
    cases result with
    | error signal => exact charged
    | ok value =>
      dsimp only
      split
      · exact charged
      · exact charged.trans (tracked_writePath path after span _)
  | false =>
    by_cases clean : ∀ signal, result = .error signal → after = slot.value
    · have quiet : Untouched (.mutator which) path slot.value args span machine := by
        refine ⟨by rw [found]; rfl, fun work par => ?_, fun other same signal left failed => ?_, ?_⟩
        · cases par
        · cases same
          rw [ran] at failed
          cases failed
          exact clean signal rfl
        · intro _ traps
          rw [would] at traps
          cases traps
      have moded : some Syntax.ParamMode.mut_ ≠ some .take := nofun
      rcases receiverCall_agrees_or (fun _ => pure ()) moded (fun _ _ => .pure ())
          (fun _ machine => .refl path machine) quiet with same | ⟨left, later, signal, stopped, -⟩
      · have lent : ((Door.method path which args span).run machine).2 = (copiedCall
            (.mutator which) path slot.value args span (fun _ => pure ()) machine).2 := by
          rw [← same]
          exact snd_bind_pure _ machine
        rw [lent]
        exact tracked_copiedCall which slot.value args span machine
      · cases stopped
    · push Not at clean
      obtain ⟨signal, failed, changed⟩ := clean
      subst failed
      have apart : machine.storageOf path ≠ some place := fun denotes =>
        noted ⟨denotes, would, slot, found, signal, after, by rw [ran], changed⟩
      have ran' := runs (Door.lent machine path)
      rw [store_changeSlot, effected] at ran'
      rw [Door.method_run_lent found would ran']
      apply tracked_of_onlyBase _ apart
      have lent : OnlyBase path place machine (Door.lent machine path) :=
        onlyBase_changeSlot ⟨rfl, rfl⟩ _
      have stored : OnlyBase path place (Door.lent machine path)
          { Door.lent machine path with store } := onlyBase_of_frames rfl rfl rfl
      exact (lent.trans stored).trans (onlyBase_changeSlot ⟨rfl, rfl⟩ _)

theorem tracked_after_write {next last : Machine} (wrote : Wrote path place machine (.ok (), next))
    (later : OnlyBase path place next last) : Tracked place machine last where
  places key member := by
    rw [later.places]
    exact wrote.tracked.places key member
  generations key := by
    rw [later.generations]
    exact wrote.tracked.generations key
  serial := (later.serials place.frame).trans wrote.tracked.serial
  denotes other := (later.denotes other).trans (wrote.tracked.denotes other)
  local_ {name slot} found := by
    obtain ⟨held, there, kept⟩ := wrote.tracked.local_ found
    obtain ⟨final, here, same⟩ := later.local_ there
    have carried (advanced : Advances place name machine next) :
        Advances place name machine last := by
      intro serial own member
      rw [later.generations]
      exact advanced serial own member
    refine ⟨final, here, ?_⟩
    by_cases denotes : machine.storageOf path = some place
    · exact .inr (carried (wrote.advances rfl denotes found))
    · rw [same (by rw [wrote.tracked.denotes]; exact denotes)]
      exact kept.imp_right carried

/-- Marking a receiver moved writes the local it is in, when it marks one. -/
theorem markMoved_ends (path : Path) (place : Storage) (moded : Bool) (viewSet : List Text)
    (before : Value)
    (written : Except Signal Unit) (selfMoved : Option Span) (span : Span) (machine : Machine) :
    let marked := markMoved (Door.receiverSite path moded viewSet before span) (.ok .unit) written
      selfMoved machine
    marked.1 = .ok () ∧ (marked.2 = machine ∨
      moded = true ∧ selfMoved.isSome = true ∧ written = .ok () ∧
        OnlyBase path place machine marked.2) := by
  unfold markMoved Door.receiverSite
  cases selfMoved with
  | none => exact ⟨rfl, .inl rfl⟩
  | some at_ =>
    cases moded with
    | false => cases written <;> exact ⟨rfl, .inl rfl⟩
    | true =>
      cases written with
      | error signal => exact ⟨rfl, .inl rfl⟩
      | ok _ =>
        refine ⟨rfl, .inr ⟨rfl, rfl, rfl, ?_⟩⟩
        have marked : OnlyBase path place machine
            (machine.changeSlot path fun slot => { slot with state := .moved at_ }) :=
          onlyBase_changeSlot ⟨rfl, rfl⟩ _
        exact marked.trans (onlyBase_notePartMoved _)

theorem tracked_receiver {moded : Bool} {viewSet : List Text} {before left : Value}
    {selfMoved : Option Span}
    (noted : ¬ (Door.receiver path moded viewSet before left selfMoved span).Silent machine place) :
    Tracked place machine
      ((Door.receiver path moded viewSet before left selfMoved span).run machine).2 := by
  cases wrote : writeReceiver (Door.receiverSite path moded viewSet before span) none before
      (.ok .unit) left machine with
  | mk result next =>
    obtain ⟨finished, marked⟩ :=
      markMoved_ends path place moded viewSet before result selfMoved span next
    have ran : ((Door.receiver path moded viewSet before left selfMoved span).run machine).2 =
        (markMoved (Door.receiverSite path moded viewSet before span) (.ok .unit) result selfMoved
          next).2 := by
      simp only [Door.run, M.bind_run, M.attempt_run]
      rw [wrote]
      dsimp only
      cases ended : markMoved (Door.receiverSite path moded viewSet before span) (.ok .unit)
          result selfMoved next with
      | mk outcome last =>
        rw [ended] at finished
        cases outcome with
        | error signal => cases finished
        | ok _ => rfl
    rw [ran]
    cases changed : left.same before with
    | true =>
      rw [Door.receiver_keep changed] at wrote
      cases wrote
      rcases marked with idle | ⟨own, moves, -, writes⟩
      · rw [idle]
        exact .refl place machine
      · exact tracked_of_onlyBase writes fun denotes =>
          noted ⟨denotes, own, moves, .inl changed⟩
    | false =>
      rw [Door.receiver_write changed] at wrote
      by_cases whole : viewSet = []
      · rw [if_pos whole] at wrote
        have written : Wrote path place machine (result, next) := by
          rw [← wrote]
          exact wrote_writePath path left span machine
        rcases marked with idle | ⟨-, -, done, writes⟩
        · rw [idle]
          exact written.tracked
        · rw [done] at written
          exact tracked_after_write written writes
      · rw [if_neg whole] at wrote
        have written : Tracked place machine next := by
          have views : Tracked place machine _ :=
            tracked_viewSet path before left span viewSet machine
          rw [wrote] at views
          exact views
        rcases marked with idle | ⟨own, moves, -, writes⟩
        · rw [idle]
          exact written
        · apply written.trans
          apply tracked_of_onlyBase writes
          intro denotes
          rw [written.denotes] at denotes
          exact noted ⟨denotes, own, moves, .inr whole⟩

/-- A door that writes no local silently keeps every local or advances its generation. -/
theorem tracked_door (door : Door) (applied : door.applies machine = true)
    (noted : ¬ door.Silent machine place) : Tracked place machine (door.run machine).2 := by
  cases door with
  | assign path value key span =>
    exact (wrote_write path value key span machine
      fun denotes strays => noted ⟨denotes, strays⟩).tracked
  | method => exact tracked_method applied noted
  | receiver => exact tracked_receiver noted
  | argument path value moved => exact tracked_argument path value moved machine noted

end Tracking

/-! ## Steps -/

/-- A step of a run in which closures are built. -/
inductive LoanOp where
  | op (op : Op)
  | close (params : List Text) (body : Syntax.Expr) (span : Span)

namespace Machine

/-- One step. What moves no binding leaves the capture tables alone too. -/
def loanStep (machine : Machine) : LoanOp → Option Machine
  | .op (.rest other) =>
    some (machine.besides
      { other with
        capturedPlaces := machine.capturedPlaces
        captureGens := machine.captureGens })
  | .op op => machine.step op
  | .close params body span => some (evalClosure params body span machine).2

end Machine

/-- The local's frame or scope ends with the step. -/
def LoanOp.Ends (place : Storage) (machine : Machine) : LoanOp → Prop
  | .op .popFrame => place.frame = machine.frames.length - 1
  | .op .popScope =>
    place.frame = machine.frames.length - 1 ∧
      ∃ frame, machine.frames.getLast? = some frame ∧ frame.scopes.length = place.depth + 1
  | _ => False

/-- The step writes the local and notes no write of it. -/
def LoanOp.Silent (place : Storage) (machine : Machine) : LoanOp → Prop
  | .op (.door door) => door.Silent machine place
  | _ => False

/-- A captured local in its place: it holds what was captured while its generation is the one of the
capture. -/
structure Captured (place : Storage) (name : Text) (serial since : Nat) (value : Value)
    (machine : Machine) : Prop where
  framed : (machine.frames[place.frame]?).map Frame.serial = some serial
  member : (serial, name) ∈ machine.capturedPlaces
  later : since ≤ machine.generationOf (serial, name)
  local_ : ∃ slot, machine.storage place = some (name, slot) ∧
    (machine.generationOf (serial, name) = since → slot = Slot.live value)

section Steps

variable {machine next : Machine} {place : Storage} {name : Text} {serial since : Nat}
  {value : Value}

section

variable (captured : Captured place name serial since value machine)
include captured

theorem Captured.tracked
    (tracked : Tracked place machine next) : Captured place name serial since value next where
  framed := tracked.serial.trans captured.framed
  member := tracked.places _ captured.member
  later := captured.later.trans (tracked.generations _)
  local_ := by
    obtain ⟨slot, found, holds⟩ := captured.local_
    obtain ⟨held, there, kept⟩ := tracked.local_ found
    refine ⟨held, there, fun same => ?_⟩
    rcases kept with kept | advanced
    · rw [kept]
      apply holds
      exact le_antisymm (same ▸ tracked.generations _) captured.later
    · have later := advanced serial captured.framed captured.member
      have earlier := captured.later
      omega

/-- A step that binds or unbinds keeps a local whose frame and scope it does not end. -/
theorem Captured.rebound (serials : (next.frames[place.frame]?).map Frame.serial =
      (machine.frames[place.frame]?).map Frame.serial)
    (stored : ∀ {local_}, machine.storage place = some local_ → next.storage place = some local_)
    (places : ∀ key ∈ machine.capturedPlaces, key ∈ next.capturedPlaces)
    (generations : next.captureGens = machine.captureGens) :
    Captured place name serial since value next where
  framed := serials.trans captured.framed
  member := places _ captured.member
  later := by
    rw [Machine.generationOf, generations]
    exact captured.later
  local_ := by
    obtain ⟨slot, found, holds⟩ := captured.local_
    refine ⟨slot, stored found, fun same => holds ?_⟩
    rw [Machine.generationOf, generations] at same
    exact same

theorem Captured.of_frames (frames : next.frames = machine.frames)
    (places : ∀ key ∈ machine.capturedPlaces, key ∈ next.capturedPlaces)
    (generations : next.captureGens = machine.captureGens) :
    Captured place name serial since value next :=
  captured.rebound (by rw [frames])
    (fun found => (Machine.storage_of_frames frames).trans found) places generations

theorem Captured.onScopes {update : List Scope → List Scope}
    (keeps : place.frame = machine.frames.length - 1 → ∀ frame,
      machine.frames.getLast? = some frame → ∀ {local_},
        localIn place.depth place.position frame.scopes = some local_ →
          localIn place.depth place.position (update frame.scopes) = some local_) :
    Captured place name serial since value (machine.onScopes update) := by
  refine captured.rebound ?_ ?_ (fun _ member => member) rfl
  · change ((machine.frames.modify _ _)[place.frame]?).map _ = _
    rw [List.getElem?_modify]
    cases machine.frames[place.frame]? with
    | none => rfl
    | some frame => by_cases same : machine.frames.length - 1 = place.frame <;> simp [same]
  · intro local_ found
    obtain ⟨frame, present, inside⟩ := Option.bind_eq_some_iff.mp found
    change ((machine.frames.modify _ _)[place.frame]?).bind _ = _
    rw [List.getElem?_modify, present]
    by_cases newest : machine.frames.length - 1 = place.frame
    · have last : machine.frames.getLast? = some frame := by
        rw [List.getLast?_eq_getElem?, newest]
        exact present
      simp only [newest, if_true, Option.map_eq_map, Option.map_some, Option.bind_some]
      exact keeps newest.symm frame last inside
    · simp only [newest, if_false, Option.map_eq_map, Option.map_some, Option.bind_some]
      exact inside

end

theorem localIn_bindLocal {bound : Text} {slot : Slot Value} {scopes : List Scope}
    {depth position : Nat} {local_ : Text × Slot Value}
    (found : localIn depth position scopes = some local_) :
    localIn depth position (Machine.bindLocal bound slot scopes) = some local_ := by
  cases scopes with
  | nil => cases found
  | cons scope rest =>
    unfold localIn at found ⊢
    rw [Machine.bindLocal, fromEnd]
    rw [fromEnd] at found
    by_cases here : depth = rest.length
    · rw [if_pos here] at found ⊢
      have inside : position < scope.locals.length :=
        fromEnd_isSome.mp (by rw [show fromEnd position scope.locals = some local_ from found]; rfl)
      exact (fromEnd_append [(bound, slot)] inside).trans found
    · rw [if_neg here] at found ⊢
      exact found

theorem captured_step {op : LoanOp} (captured : Captured place name serial since value machine)
    (lives : ¬ op.Ends place machine) (noted : ¬ op.Silent place machine)
    (stepped : machine.loanStep op = some next) : Captured place name serial since value next := by
  obtain ⟨slot, found, -⟩ := captured.local_
  obtain ⟨frame, present, inside⟩ := Option.bind_eq_some_iff.mp found
  have framed := (List.getElem?_eq_some_iff.mp present).1
  cases op with
  | close params body span =>
    cases stepped
    unfold evalClosure
    rw [M.bind_run, M.get_run]
    dsimp only
    cases machine.frames.getLast? with
    | none => exact captured
    | some newest =>
      exact captured.of_frames rfl (fun _ member => List.mem_append_right _ member) rfl
  | op op =>
    cases op with
    | door door =>
      rw [Machine.loanStep, Machine.step] at stepped
      split at stepped
      · rename_i applied
        cases stepped
        exact captured.tracked (tracked_door door applied noted)
      · cases stepped
      · simp
    | take path span =>
      cases stepped
      exact captured.tracked (tracked_take path span machine)
    | declare bound held =>
      cases stepped
      exact captured.onScopes fun _ _ _ _ inside => localIn_bindLocal inside
    | global bound held =>
      cases stepped
      exact captured.of_frames rfl (fun _ member => member) rfl
    | pushScope scope =>
      cases stepped
      apply captured.onScopes
      intro _ frame _ local_ inside
      obtain ⟨outer, there, _⟩ := Option.bind_eq_some_iff.mp inside
      have bounded : place.depth < frame.scopes.length := fromEnd_isSome.mp (by rw [there]; rfl)
      rw [localIn, show (_ :: frame.scopes) = [_] ++ frame.scopes from rfl,
        fromEnd_append _ bounded]
      exact inside
    | popScope =>
      cases stepped
      apply captured.onScopes
      intro newest frame last local_ inside
      obtain ⟨outer, there, _⟩ := Option.bind_eq_some_iff.mp inside
      have bounded : place.depth < frame.scopes.length := fromEnd_isSome.mp (by rw [there]; rfl)
      have kept : frame.scopes.length ≠ place.depth + 1 := fun same =>
        lives ⟨newest, frame, last, same⟩
      cases scopes : frame.scopes with
      | nil =>
        rw [scopes] at bounded
        cases bounded
      | cons scope rest =>
        rw [scopes] at inside bounded kept
        rw [List.length_cons] at bounded kept
        rw [localIn, show scope :: rest = [scope] ++ rest from rfl,
          fromEnd_append _ (by omega)] at inside
        exact inside
    | pushFrame frame =>
      cases stepped
      refine captured.rebound ?_ ?_ (fun _ member => member) rfl
      · change ((machine.frames ++ [frame])[place.frame]?).map _ = _
        rw [List.getElem?_append_left framed]
      · intro local_ found
        change ((machine.frames ++ [frame])[place.frame]?).bind _ = _
        rw [List.getElem?_append_left framed]
        exact found
    | popFrame =>
      cases stepped
      have older : place.frame < machine.frames.length - 1 := by
        have differ : place.frame ≠ machine.frames.length - 1 := lives
        omega
      refine captured.rebound ?_ ?_ (fun _ member => member) rfl
      · change ((machine.frames.dropLast)[place.frame]?).map _ = _
        rw [List.getElem?_dropLast, if_pos older]
      · intro local_ found
        change ((machine.frames.dropLast)[place.frame]?).bind _ = _
        rw [List.getElem?_dropLast, if_pos older]
        exact found
    | region op =>
      cases stepped
      exact captured.of_frames rfl (fun _ member => member) rfl
    | openFresh label span =>
      cases stepped
      exact captured.of_frames rfl (fun _ member => member) rfl
    | rest other =>
      cases stepped
      exact captured.of_frames rfl (fun _ member => member) rfl

end Steps

/-! ## Loans -/

section Loans

variable {machine : Machine} {span : Span}

/-- The place of a loan is as it was when the loan was taken, as far as its task can tell. -/
def CaptureLoan.Fresh (machine : Machine) (loan : CaptureLoan) : Prop :=
  loan.task = machine.task → ∀ current writtenAt,
    entryOf (· = (loan.serial, loan.name)) machine.captureGens = some (current, writtenAt) →
      current = loan.generation

theorem checkLoan_run (loan : CaptureLoan) (span : Span) (machine : Machine) :
    (checkLoan loan span machine = (.ok (), machine) ∧ loan.Fresh machine) ∨
      ∃ writtenAt, checkLoan loan span machine =
        (.error (.trap ⟨.exclusivity, span, some writtenAt⟩), machine) := by
  unfold checkLoan CaptureLoan.Fresh
  rw [M.bind_run, M.get_run]
  dsimp only
  by_cases task : loan.task = machine.task
  · rw [if_neg (not_not_intro task)]
    cases found : entryOf (· = (loan.serial, loan.name)) machine.captureGens with
    | none => exact .inl ⟨rfl, nofun⟩
    | some entry =>
      obtain ⟨current, writtenAt⟩ := entry
      dsimp only
      by_cases same : current = loan.generation
      · rw [if_neg (not_not_intro same)]
        refine .inl ⟨rfl, fun _ _ _ there => ?_⟩
        cases there
        exact same
      · rw [if_pos same]
        exact .inr ⟨writtenAt, rfl⟩
  · rw [if_pos task]
    exact .inl ⟨rfl, fun same => absurd same task⟩

/-- A call's loans are checked to the end, or the call ends in an exclusivity trap. -/
theorem checkLoans_run (loans : List CaptureLoan) (span : Span) (machine : Machine) :
    (checkLoans span loans machine = (.ok (), machine) ∧ ∀ loan ∈ loans, loan.Fresh machine) ∨
      ∃ writtenAt, checkLoans span loans machine =
        (.error (.trap ⟨.exclusivity, span, some writtenAt⟩), machine) := by
  induction loans with
  | nil => exact .inl ⟨rfl, nofun⟩
  | cons loan rest induction =>
    rw [checkLoans, M.bind_run]
    rcases checkLoan_run loan span machine with ⟨granted, fresh⟩ | ⟨writtenAt, stopped⟩
    · rw [granted]
      rcases induction with ⟨granted, others⟩ | stopped
      · exact .inl ⟨granted, List.forall_mem_cons.mpr ⟨fresh, others⟩⟩
      · exact .inr stopped
    · rw [stopped]
      exact .inr ⟨writtenAt, rfl⟩

/-- A fresh loan's place is at the generation of the loan. -/
theorem generationOf_fresh {loan : CaptureLoan} (fresh : loan.Fresh machine)
    (task : loan.task = machine.task)
    (since : loan.generation ≤ machine.generationOf (loan.serial, loan.name)) :
    machine.generationOf (loan.serial, loan.name) = loan.generation := by
  unfold Machine.generationOf at since ⊢
  cases found : entryOf (· = (loan.serial, loan.name)) machine.captureGens with
  | none =>
    rw [found] at since
    exact (Nat.le_zero.mp since).symm
  | some entry =>
    obtain ⟨current, writtenAt⟩ := entry
    exact fresh task current writtenAt found

end Loans

/-! ## Captures stay current -/

/-- A closure is built, and a live local of its frame, of a name its body uses, is captured. -/
structure Builds (machine : Machine) (params : List Text) (body : Syntax.Expr) (span : Span)
    (captures : List (Text × Value)) (loans : List CaptureLoan) (place : Storage) (name : Text)
    (value : Value) (start : Machine) : Prop where
  built : evalClosure params body span machine =
    (.ok (.closure params body captures loans [] none), start)
  newest : place.frame + 1 = machine.frames.length
  held : machine.storage place = some (name, Slot.live value)
  used : name ∈ usedNames params body

/-- The call of a closure, when it is made with as many arguments as it has parameters, finds what
it captured in its place or ends in an exclusivity trap. -/
def FindsCurrent (params : List Text) (captures : List (Text × Value)) (loans : List CaptureLoan)
    (place : Storage) (name : Text) (value : Value) (later : Machine) : Prop :=
  ∀ claimed args span, params.length = args.length →
    later.storage place = some (name, Slot.live value) ∨
      ∃ writtenAt, (enterClosure params captures loans claimed args span later).1 =
        .error (.trap ⟨.exclusivity, span, some writtenAt⟩)

section Building

variable {machine start : Machine} {params : List Text} {body : Syntax.Expr} {span : Span}
  {captures : List (Text × Value)} {loans : List CaptureLoan} {place : Storage} {name : Text}
  {value : Value}

/-- A live local is among the captures of its frame. -/
theorem mem_captures {frame : Frame} {depth position : Nat}
    (found : localIn depth position frame.scopes = some (name, Slot.live value)) :
    (name, value) ∈ frame.captures := by
  obtain ⟨scope, there, inside⟩ := Option.bind_eq_some_iff.mp found
  unfold Frame.captures
  rw [List.mem_flatMap]
  refine ⟨scope, List.mem_reverse.mpr (mem_of_fromEnd there), ?_⟩
  rw [List.mem_filterMap]
  exact ⟨(name, Slot.live value), List.mem_reverse.mpr (mem_of_fromEnd inside), rfl⟩

/-- Building a closure lends what it uses at the generation it has. -/
theorem Builds.captured (builds : Builds machine params body span captures loans place name value
    start) :
    (name, value) ∈ captures ∧ ∃ loan ∈ loans, loan.name = name ∧ loan.task = machine.task ∧
      Captured place name loan.serial loan.generation value start := by
  obtain ⟨frame, present, inside⟩ := Option.bind_eq_some_iff.mp builds.held
  have last : machine.frames.getLast? = some frame := by
    rw [List.getLast?_eq_getElem?, show machine.frames.length - 1 = place.frame by
      have newest := builds.newest
      omega]
    exact present
  have built := builds.built
  unfold evalClosure at built
  rw [M.bind_run, M.get_run] at built
  dsimp only at built
  rw [last] at built
  dsimp only at built
  rw [M.bind_run, M.modify_run] at built
  cases built
  have member := mem_captures inside
  have lent : captureLoan machine frame span name ∈ ((usedNames params body).filter fun name =>
      frame.captures.any fun captured => captured.1 = name).map
        (captureLoan machine frame span) := by
    rw [List.mem_map]
    refine ⟨name, ?_, rfl⟩
    rw [List.mem_filter]
    exact ⟨builds.used, List.any_eq_true.mpr ⟨_, member, decide_eq_true rfl⟩⟩
  refine ⟨member, _, lent, rfl, rfl, ?_, ?_, le_rfl, Slot.live value, builds.held, fun _ => rfl⟩
  · change (machine.frames[place.frame]?).map Frame.serial = _
    rw [present]
    rfl
  · exact List.mem_append_left _ (List.mem_map.mpr ⟨_, lent, rfl⟩)

end Building

/-- A closure that is called on the task that built it runs on the value a captured local has, or
traps, in every run in which the local is alive and no step writes it silently. -/
theorem captures_current {machine : Machine} {params : List Text} {body : Syntax.Expr} {span : Span}
    {captures : List (Text × Value)} {loans : List CaptureLoan} {place : Storage} {name : Text}
    {value : Value} {start : Machine}
    (builds : Builds machine params body span captures loans place name value start)
    (ops : List LoanOp) (later : Machine) (run : exec Machine.loanStep start ops = some later)
    (alive : Guarded Machine.loanStep (fun machine op => ¬ op.Ends place machine) start ops)
    (noted : Guarded Machine.loanStep (fun machine op => ¬ op.Silent place machine) start ops)
    (task : later.task = machine.task) :
    (name, value) ∈ captures ∧ FindsCurrent params captures loans place name value later := by
  obtain ⟨member, loan, lent, rfl, tasked, captured⟩ := builds.captured
  have guarded : Guarded Machine.loanStep
      (fun machine op => ¬ op.Ends place machine ∧ ¬ op.Silent place machine) start ops :=
    fun front op rest state next split run performed =>
      ⟨alive front op rest state next split run performed,
        noted front op rest state next split run performed⟩
  have final : Captured place loan.name loan.serial loan.generation value later :=
    inv_of_guarded _ _ captured
      (fun state op next held both stepped => captured_step held both.1 both.2 stepped) guarded run
  refine ⟨member, fun claimed args callSpan arity => ?_⟩
  unfold enterClosure
  rw [if_neg (not_not_intro arity), M.bind_run]
  rcases checkLoans_run loans callSpan later with ⟨granted, fresh⟩ | ⟨writtenAt, stopped⟩
  · left
    obtain ⟨slot, found, holds⟩ := final.local_
    have since := generationOf_fresh (fresh loan lent) (tasked.trans task.symm) final.later
    rw [found, holds since]
  · right
    rw [stopped]
    exact ⟨writtenAt, rfl⟩

/-- A frame of one local. -/
def loanedLocal : Machine :=
  let scope : Scope := { locals := [("x".toList, Slot.live (.bool true))] }
  { frames := [{ module := [], serial := 7, scopes := [scope] }] }

/-- The closure `fn() { x }` over it, called where another `x` shadows the one it captured. -/
theorem loanedLocal_shadowed : ∃ captures loans start later,
    Builds loanedLocal [] (.path ⟨["x".toList]⟩) ⟨0, 0⟩ captures loans ⟨0, 0, 0⟩ "x".toList
      (.bool true) start ∧
    exec Machine.loanStep start [.op (.declare "x".toList (Slot.live (.bool false)))] = some later ∧
    FindsCurrent [] captures loans ⟨0, 0, 0⟩ "x".toList (.bool true) later := by
  have builds : Builds loanedLocal [] (.path ⟨["x".toList]⟩) ⟨0, 0⟩ _ _ ⟨0, 0, 0⟩ "x".toList
      (.bool true) _ :=
    ⟨rfl, rfl, rfl, mem_usedNames.mpr List.mem_cons_self⟩
  have idle (start : Machine) (guard : Machine → LoanOp → Prop) (calm : ∀ machine slot,
      guard machine (.op (.declare "x".toList slot))) :
      Guarded Machine.loanStep guard start
        [.op (.declare "x".toList (Slot.live (.bool false)))] :=
    guarded_cons_iff.mpr fun next _ => ⟨calm start _, guarded_nil guard next⟩
  refine ⟨_, _, _, _, builds, rfl, ?_⟩
  apply And.right
  apply captures_current builds [.op (.declare "x".toList (Slot.live (.bool false)))]
  · rfl
  · exact idle _ _ fun _ _ ends => ends
  · exact idle _ _ fun _ _ silent => silent
  · rfl

/-- `f(mut x)` writes `false` back, and the closure answers `true`. -/
theorem loanedLocal_stale : ¬ ∀ machine params body span captures loans place name value start,
      Builds machine params body span captures loans place name value start →
      ∀ ops later, exec Machine.loanStep start ops = some later →
        Guarded Machine.loanStep (fun machine op => ¬ LoanOp.Ends place machine op) start ops →
        later.task = machine.task → FindsCurrent params captures loans place name value later := by
  intro claim
  have found := claim loanedLocal [] (.path ⟨["x".toList]⟩) ⟨0, 0⟩ _ _ ⟨0, 0, 0⟩ "x".toList
    (.bool true) _ ⟨rfl, rfl, rfl, mem_usedNames.mpr List.mem_cons_self⟩
    [.op (.door (.argument (Path.local_ 0 "x".toList) (.bool false) none))] _ rfl
    (guarded_cons_iff.mpr fun next _ => ⟨fun ends => ends, guarded_nil _ next⟩) rfl [] [] ⟨0, 0⟩ rfl
  rcases found with current | ⟨writtenAt, stopped⟩
  · cases current
  · cases stopped

end WolfInterp.Eval
