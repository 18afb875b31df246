import WolfInterp.Region.Step

/-!
# Region budgets

Every allocation is charged to one region through one comparison with its cap: the ambient region,
a named one, or the birth region of a container that grows. The ledger of a region never passes its
cap and never shrinks, and a refused charge leaves the store as it was.
-/

namespace WolfInterp.Store

open Execution

variable {Value : Type}

/-! ## The charging doors, write by write -/

/-- A charging door writes the store in place. A breach leaves behind whatever was written before
it. -/
abbrev Charging (Value Result : Type) := EStateM CapBreach (Store Value) Result

namespace Charging

/-- The cap compare. -/
def admits (region : Region) (bytes : Nat) : Charging Value Nat :=
  match Store.admits region bytes with
  | .ok total => return total
  | .error breach => throw breach

/-- Write one region. -/
def writeRegion (id : RegionId) (update : Region → Region) : Charging Value Unit :=
  modify fun store => { store with regions := store.regions.modify id update }

def chargeInto (id : RegionId) (bytes : Nat) : Charging Value Unit := do
  match (← get).region id with
  | none => return
  | some region =>
    let total ← admits region bytes
    writeRegion id fun region => { region with allocations := region.allocations + 1 }
    writeRegion id fun region => { region with bytes := total }

def charge (bytes : Nat) : Charging Value RegionId := do
  let id := (← get).current
  chargeInto id bytes
  return id

def chargeGrowth (id : RegionId) (bytes : Nat) : Charging Value Unit :=
  if bytes = 0 then return
  else do
    match (← get).region id with
    | none => return
    | some region =>
      let total ← admits region bytes
      writeRegion id fun region => { region with bytes := total }

def newPool (elem : String) : Charging Value PoolId := do
  let region ← charge (Ledger.containerBytes 0)
  let id := (← get).pools.length
  modify fun store => { store with pools := store.pools ++ [{ id, region, elem, slots := [] }] }
  return id

end Charging

/-- What a door that answers a new store does when it writes the store in place instead. -/
def inPlace {Result : Type} (store : Store Value)
    (answer : Except CapBreach (Result × Store Value)) :
    EStateM.Result CapBreach (Store Value) Result :=
  match answer with
  | .ok (result, next) => .ok result next
  | .error breach => .error breach store

/-- What the state monad does with one step after another. -/
theorem run_bind {First Second : Type} (first : Charging Value First)
    (second : First → Charging Value Second) (store : Store Value) :
    (first >>= second).run store =
      match first.run store with
      | .ok result next => (second result).run next
      | .error breach next => .error breach next := by
  change EStateM.bind first second store = _
  rw [EStateM.bind, EStateM.run]
  cases first store <;> rfl

theorem run_admits (region : Region) (bytes : Nat) (store : Store Value) :
    (Charging.admits region bytes).run store =
      store.inPlace ((Store.admits region bytes).map (·, store)) := by
  rw [Charging.admits]
  cases Store.admits region bytes <;> rfl

theorem run_chargeInto (store : Store Value) (id : RegionId) (bytes : Nat) :
    (Charging.chargeInto id bytes).run store =
      store.inPlace ((store.chargeInto id bytes).map ((), ·)) := by
  have started : (Charging.chargeInto id bytes).run store =
      (match store.region id with
      | none => return ()
      | some region => do
          let total ← Charging.admits region bytes
          Charging.writeRegion id fun region =>
            { region with allocations := region.allocations + 1 }
          Charging.writeRegion id fun region => { region with bytes := total } :
        Charging Value Unit).run store := rfl
  rw [started, Store.chargeInto]
  cases store.region id with
  | none => rfl
  | some region =>
    dsimp only
    rw [run_bind, run_admits]
    cases Store.admits region bytes with
    | error breach => rfl
    | ok total =>
      change EStateM.Result.ok () { store with
        regions := (store.regions.modify id _).modify id _ } = _
      rw [List.modify_modify_eq]
      rfl

theorem run_charge (store : Store Value) (bytes : Nat) :
    (Charging.charge bytes).run store = store.inPlace (store.charge bytes) := by
  have started : (Charging.charge bytes).run store =
      (do
        Charging.chargeInto store.current bytes
        return store.current : Charging Value RegionId).run store := rfl
  rw [started, run_bind, run_chargeInto, Store.charge]
  cases store.chargeInto store.current bytes <;> rfl

theorem run_chargeGrowth (store : Store Value) (id : RegionId) (bytes : Nat) :
    (Charging.chargeGrowth id bytes).run store =
      store.inPlace ((store.chargeGrowth id bytes).map ((), ·)) := by
  rw [Charging.chargeGrowth, Store.chargeGrowth]
  split
  · rfl
  · have started : (do
        match (← get).region id with
        | none => return
        | some region =>
            let total ← Charging.admits region bytes
            Charging.writeRegion id fun region => { region with bytes := total } :
          Charging Value Unit).run store =
        (match store.region id with
        | none => return ()
        | some region => do
            let total ← Charging.admits region bytes
            Charging.writeRegion id fun region => { region with bytes := total } :
          Charging Value Unit).run store := rfl
    rw [started]
    cases store.region id with
    | none => rfl
    | some region =>
      dsimp only
      rw [run_bind, run_admits]
      cases Store.admits region bytes <;> rfl

theorem run_newPool (store : Store Value) (elem : String) :
    (Charging.newPool elem).run store = store.inPlace (store.newPool elem) := by
  have started : (Charging.newPool elem).run store =
      (do
        let region ← Charging.charge (Ledger.containerBytes 0)
        let id := (← get).pools.length
        modify fun store : Store Value =>
          { store with pools := store.pools ++ [{ id, region, elem, slots := [] }] }
        return id : Charging Value PoolId).run store := rfl
  rw [started, run_bind, run_charge, Store.newPool]
  cases store.charge (Ledger.containerBytes 0) <;> rfl

/-! ## One charge -/

/-- The doors that charge an allocation. -/
inductive Charge where
  | ambient (bytes : Nat)
  | into (id : RegionId) (bytes : Nat)
  | growth (birth : RegionId) (bytes : Nat)
  | pool (elem : String)

namespace Charge

/-- The region a charge is attributed to. -/
def target (store : Store Value) : Charge → RegionId
  | ambient _ | pool _ => store.current
  | into id _ | growth id _ => id

/-- What is charged. -/
def bytes : Charge → Nat
  | ambient bytes | into _ bytes | growth _ bytes => bytes
  | pool _ => Ledger.containerBytes 0

/-- Run the door in place, dropping its answer. -/
def run (store : Store Value) : Charge → EStateM.Result CapBreach (Store Value) Unit
  | ambient bytes => ((fun _ => ()) <$> Charging.charge bytes).run store
  | into id bytes => (Charging.chargeInto id bytes).run store
  | growth birth bytes => (Charging.chargeGrowth birth bytes).run store
  | pool elem => ((fun _ => ()) <$> Charging.newPool elem).run store

/-- The operation of the store machine. -/
def op : Charge → StoreOp Value
  | ambient bytes => .charge bytes
  | into id bytes => .chargeInto id bytes
  | growth birth bytes => .chargeGrowth birth bytes
  | pool elem => .newPool elem

end Charge

/-- What one charge does: it is refused only past the cap of its region, and then nothing is
written; up to the cap it is carried out, and moves the ledger of its region alone. -/
structure Charged [Inhabited Value] (store : Store Value) (charge : Charge) : Prop where
  refused : ∀ breach after, charge.run store = .error breach after → after = store ∧
    ∃ region, store.region (charge.target store) = some region ∧
      breach = { region := charge.target store, cap := breach.cap, charged := region.bytes,
                 bytes := charge.bytes } ∧
      region.cap = some breach.cap ∧ breach.cap < Ledger.saturatingAdd region.bytes charge.bytes
  admitted : (∀ region ∈ store.region (charge.target store), ∀ cap ∈ region.cap,
      Ledger.saturatingAdd region.bytes charge.bytes ≤ cap) →
    ∃ after, charge.run store = .ok () after ∧ after = store.apply charge.op ∧
      ∀ id, (after.region id).map Region.bytes = (store.region id).map fun region =>
        if id = charge.target store then Ledger.saturatingAdd region.bytes charge.bytes
        else region.bytes

/-! ## Sound ledgers -/

/-- Every region is filed under its own id, and its ledger is a machine word within its cap. -/
def SoundLedgers (store : Store Value) : Prop :=
  ∀ id region, store.region id = some region →
    region.id = id ∧ region.bytes ≤ Ledger.maxWord ∧ ∀ cap ∈ region.cap, region.bytes ≤ cap

/-- No region is lost, changes its cap or loses bytes. -/
def LedgersGrow (before after : Store Value) : Prop :=
  ∀ id region, before.region id = some region → ∃ later, after.region id = some later ∧
    later.cap = region.cap ∧ region.bytes ≤ later.bytes

instance : IsPreorder (Store Value) LedgersGrow where
  refl _ _ region found := ⟨region, found, rfl, Nat.le_refl _⟩
  trans _ _ _ first second id region found := by
    obtain ⟨middle, middle_found, cap, bytes⟩ := first id region found
    obtain ⟨later, later_found, cap', bytes'⟩ := second id middle middle_found
    exact ⟨later, later_found, cap'.trans cap, Nat.le_trans bytes bytes'⟩

/-- An update in place that keeps the ids, the caps and the ledgers. -/
theorem sound_of_map {before after : Store Value} (update : RegionId → Region → Region)
    (sound : SoundLedgers before)
    (updated : ∀ id, after.region id = (before.region id).map (update id))
    (keeps : ∀ id region, (update id region).id = region.id ∧
      (update id region).cap = region.cap ∧ (update id region).bytes = region.bytes) :
    SoundLedgers after ∧ LedgersGrow before after := by
  constructor
  · intro id later found
    rw [updated] at found
    obtain ⟨region, region_found, rfl⟩ := Option.map_eq_some_iff.mp found
    obtain ⟨same_id, same_cap, same_bytes⟩ := keeps id region
    rw [same_id, same_cap, same_bytes]
    exact sound id region region_found
  · intro id region found
    obtain ⟨_, same_cap, same_bytes⟩ := keeps id region
    exact ⟨update id region, by rw [updated, found]; rfl, same_cap, Nat.le_of_eq same_bytes.symm⟩

theorem sound_of_same {before after : Store Value} (sound : SoundLedgers before)
    (same : after.regions = before.regions) : SoundLedgers after ∧ LedgersGrow before after := by
  refine sound_of_map (fun _ region => region) sound (fun id => ?_) fun _ _ => ⟨rfl, rfl, rfl⟩
  rw [region, region, same, Option.map_id']

/-- The store a charge leaves, or its breach. -/
def Charge.perform (store : Store Value) : Charge → Except CapBreach (Store Value)
  | .ambient bytes => (store.charge bytes).map Prod.snd
  | .into id bytes => store.chargeInto id bytes
  | .growth birth bytes => store.chargeGrowth birth bytes
  | .pool elem => (store.newPool elem).map Prod.snd

/-- The door that writes in place and the one that answers a store agree. -/
theorem Charge.run_eq (store : Store Value) (charge : Charge) :
    charge.run store = store.inPlace ((charge.perform store).map ((), ·)) := by
  have forget : ∀ {Result : Type} (door : Charging Value Result)
      (answer : Except CapBreach (Result × Store Value)), door.run store = store.inPlace answer →
      ((fun _ => ()) <$> door).run store = store.inPlace ((answer.map Prod.snd).map ((), ·)) := by
    intro Result door answer same
    have started : ((fun _ => ()) <$> door).run store = (match door.run store with
        | .ok _ next => .ok () next
        | .error breach next => .error breach next) := by
      change EStateM.map _ door store = _
      rw [EStateM.map, EStateM.run]
      cases door store <;> rfl
    rw [started, same]
    cases answer <;> rfl
  cases charge with
  | ambient bytes => exact forget _ _ (run_charge store bytes)
  | into id bytes => exact run_chargeInto store id bytes
  | growth birth bytes => exact run_chargeGrowth store birth bytes
  | pool elem => exact forget _ _ (run_newPool store elem)

/-- What a charge does to a region it is admitted by. -/
structure Raises (store : Store Value) (charge : Charge) (next : Store Value) : Prop where
  fits : ∀ region ∈ store.region (charge.target store), ∀ cap ∈ region.cap,
    Ledger.saturatingAdd region.bytes charge.bytes ≤ cap
  raised : ∃ update : RegionId → Region → Region,
    (∀ id, next.region id = (store.region id).map (update id)) ∧
      ∀ id region, store.region id = some region → (update id region).id = region.id ∧
        (update id region).cap = region.cap ∧ (update id region).bytes =
          if id = charge.target store then Ledger.saturatingAdd region.bytes charge.bytes
          else region.bytes

/-- A charge is admitted and raises one ledger, or it breaks the cap of its region. -/
inductive Outcome (store : Store Value) (charge : Charge) : Except CapBreach (Store Value) → Prop
  | admitted {next : Store Value} (raises : Raises store charge next) :
      Outcome store charge (.ok next)
  | refused {region : Region} {cap : Nat}
      (found : store.region (charge.target store) = some region) (capped : region.cap = some cap)
      (exceeds : cap < Ledger.saturatingAdd region.bytes charge.bytes) :
      Outcome store charge (.error
        { region := charge.target store, cap, charged := region.bytes, bytes := charge.bytes })

/-- A door that charges nothing to a region that does not exist. -/
theorem Raises.absent {store next : Store Value} {charge : Charge}
    (absent : store.region (charge.target store) = none) (same : next.regions = store.regions) :
    Raises store charge next := by
  refine ⟨fun region found => ?_, fun _ region => region, fun id => ?_, fun id region found => ?_⟩
  · rw [absent] at found
    cases found
  · rw [Store.region, Store.region, same, Option.map_id']
  · rw [if_neg]
    · exact ⟨rfl, rfl, rfl⟩
    · rintro rfl
      rw [absent] at found
      cases found

/-- The comparison with the cap decides the outcome. -/
theorem outcome_of_admits {store : Store Value} (sound : SoundLedgers store) (charge : Charge)
    {region : Region} (found : store.region (charge.target store) = some region)
    (carry : Nat → Store Value) (update : Nat → Region → Region)
    (carried : ∀ total, (carry total).regions =
      store.regions.modify (charge.target store) (update total))
    (keeps : ∀ total region, (update total region).id = region.id ∧
      (update total region).cap = region.cap ∧ (update total region).bytes = total) :
    Outcome store charge ((admits region charge.bytes).map carry) := by
  have raises : (∀ cap ∈ region.cap, Ledger.saturatingAdd region.bytes charge.bytes ≤ cap) →
      Raises store charge (carry (Ledger.saturatingAdd region.bytes charge.bytes)) := by
    intro fits
    refine ⟨fun other there => ?_, fun id entry => if charge.target store = id then
      update (Ledger.saturatingAdd region.bytes charge.bytes) entry else entry, fun id => ?_, ?_⟩
    · obtain rfl := Option.eq_some_unique found there
      exact fits
    · rw [Store.region, carried]
      exact region_modify store _ _ id
    · intro id entry there
      by_cases here : charge.target store = id
      · subst here
        obtain rfl := Option.eq_some_unique found there
        simp only [if_true]
        exact keeps _ region
      · simp [here, Ne.symm here]
  rw [admits]
  cases capped : region.cap with
  | none => exact .admitted (raises (by simp [capped]))
  | some cap =>
    dsimp only
    split
    · rename_i exceeds
      rw [(sound _ region found).1]
      exact .refused found capped exceeds
    · rename_i fits
      exact .admitted (raises (by simpa [capped] using fits))

/-- Adding to a word loses nothing. -/
theorem le_saturatingAdd {word : Nat} (bounded : word ≤ Ledger.maxWord) (bytes : Nat) :
    word ≤ Ledger.saturatingAdd word bytes :=
  Nat.le_min.mpr ⟨Nat.le_add_right word bytes, bounded⟩

/-- A charge that adds one allocation and its bytes. -/
theorem outcome_chargeInto {store : Store Value} (sound : SoundLedgers store) (charge : Charge)
    (finish : Store Value → Store Value)
    (same : ∀ next : Store Value, (finish next).regions = next.regions) :
    Outcome store charge ((store.chargeInto (charge.target store) charge.bytes).map finish) := by
  rw [Store.chargeInto]
  cases found : store.region (charge.target store) with
  | none => exact .admitted (.absent found (same store))
  | some region =>
    dsimp only
    have carried := outcome_of_admits sound charge found
      (fun total => finish { store with
        regions := store.regions.modify (charge.target store) fun region =>
          { region with allocations := region.allocations + 1, bytes := total } })
      (fun total region =>
        { region with allocations := region.allocations + 1, bytes := total })
      (fun total => same _) (fun _ _ => ⟨rfl, rfl, rfl⟩)
    cases admitted : admits region charge.bytes with
    | error breach =>
      rw [admitted] at carried
      exact carried
    | ok total =>
      rw [admitted] at carried
      exact carried

theorem outcome {store : Store Value} (sound : SoundLedgers store) (charge : Charge) :
    Outcome store charge (charge.perform store) := by
  cases charge with
  | ambient bytes =>
    have into := outcome_chargeInto sound (.ambient bytes) (fun next => next) fun _ => rfl
    have same : Charge.perform store (.ambient bytes) =
        (store.chargeInto store.current bytes).map fun next => next := by
      rw [Charge.perform, Store.charge]
      cases store.chargeInto store.current bytes <;> rfl
    rw [same]
    exact into
  | into id bytes =>
    have into := outcome_chargeInto sound (.into id bytes) (fun next => next) fun _ => rfl
    have same : Charge.perform store (.into id bytes) =
        (store.chargeInto id bytes).map fun next => next := by
      rw [Charge.perform]
      cases store.chargeInto id bytes <;> rfl
    rw [same]
    exact into
  | pool elem =>
    have into := outcome_chargeInto sound (.pool elem)
      (fun next => { next with
        pools :=
          next.pools ++ [{ id := next.pools.length, region := store.current, elem, slots := [] }] })
      fun _ => rfl
    have same : Charge.perform store (.pool elem) =
        (store.chargeInto store.current (Ledger.containerBytes 0)).map fun next =>
          { next with
            pools := next.pools ++
              [{ id := next.pools.length, region := store.current, elem, slots := [] }] } := by
      rw [Charge.perform, Store.newPool, Store.charge]
      cases store.chargeInto store.current (Ledger.containerBytes 0) <;> rfl
    rw [same]
    exact into
  | growth birth bytes =>
    rw [Charge.perform, Store.chargeGrowth]
    split
    · rename_i nothing
      subst nothing
      -- nothing to charge: the ledger stands within its cap already
      have still : ∀ id region, store.region id = some region →
          Ledger.saturatingAdd region.bytes 0 = region.bytes := by
        intro id region found
        exact Nat.min_eq_left (sound id region found).2.1
      refine .admitted ⟨fun region found cap capped => ?_, fun _ region => region, fun id => ?_,
        fun id region found => ⟨rfl, rfl, ?_⟩⟩
      · rw [Charge.bytes, still _ region found]
        exact (sound _ region found).2.2 cap capped
      · rw [Option.map_id']
      · rw [Charge.bytes, still id region found, ite_self]
    · cases found : store.region birth with
      | none => exact .admitted (.absent found rfl)
      | some region =>
        dsimp only
        have carried := outcome_of_admits sound (.growth birth bytes) found
          (fun total => { store with
            regions := store.regions.modify birth fun region => { region with bytes := total } })
          (fun total region => { region with bytes := total })
          (fun _ => rfl) (fun _ _ => ⟨rfl, rfl, rfl⟩)
        rw [Charge.bytes] at carried
        cases admitted : admits region bytes with
        | error breach =>
          rw [admitted] at carried
          exact carried
        | ok total =>
          rw [admitted] at carried
          exact carried

/-- The machine carries out a charge by the store it leaves. -/
theorem apply_op [Inhabited Value] (store : Store Value) (charge : Charge) :
    store.apply charge.op = store.orKeep (charge.perform store) := by
  cases charge <;> rfl

/-- A charge behaves as its outcome says. -/
theorem charged [Inhabited Value] {store : Store Value} (sound : SoundLedgers store)
    (charge : Charge) :
    Charged store charge := by
  have decided := outcome sound charge
  have run := charge.run_eq store
  have stepped := apply_op store charge
  generalize charge.perform store = answer at decided run stepped
  constructor
  · intro breach after failed
    cases decided with
    | admitted raises =>
      rw [run] at failed
      cases failed
    | refused found capped exceeds =>
      rw [run] at failed
      cases failed
      exact ⟨rfl, _, found, rfl, capped, exceeds⟩
  · intro fits
    cases decided with
    | admitted raises =>
      obtain ⟨update, updated, kept⟩ := raises.raised
      refine ⟨_, run, stepped.symm, fun id => ?_⟩
      rw [updated, Option.map_map]
      refine Option.map_congr fun region found => ?_
      exact (kept id region found).2.2
    | refused found capped exceeds =>
      exact absurd (fits _ found _ capped) (Nat.not_le_of_lt exceeds)

/-- A charge keeps the ledgers sound. -/
theorem sound_charge {store : Store Value} (sound : SoundLedgers store) (charge : Charge) :
    SoundLedgers (store.orKeep (charge.perform store)) ∧
      LedgersGrow store (store.orKeep (charge.perform store)) := by
  have decided := outcome sound charge
  generalize charge.perform store = answer at decided
  cases decided with
  | refused => exact ⟨sound, refl store⟩
  | admitted raises =>
    obtain ⟨update, updated, kept⟩ := raises.raised
    constructor
    · intro id later found
      change Store.region _ id = some later at found
      rw [orKeep, updated] at found
      obtain ⟨region, region_found, rfl⟩ := Option.map_eq_some_iff.mp found
      obtain ⟨same_id, same_cap, bytes⟩ := kept id region region_found
      obtain ⟨filed, word, within⟩ := sound id region region_found
      rw [same_id, same_cap, bytes]
      refine ⟨filed, ?_, fun cap capped => ?_⟩
      · split
        · exact Nat.min_le_right _ _
        · exact word
      · split
        · rename_i here
          subst here
          exact raises.fits region region_found cap capped
        · exact within cap capped
    · intro id region found
      obtain ⟨_, same_cap, bytes⟩ := kept id region found
      refine ⟨update id region, by rw [orKeep, updated, found]; rfl, same_cap, ?_⟩
      rw [bytes]
      split
      · exact le_saturatingAdd (sound id region found).2.1 _
      · exact Nat.le_refl _

/-! ## Whole runs -/

section Runs

theorem sound_new : SoundLedgers (new : Store Value) := by
  intro id region found
  match id with
  | 0 =>
    cases found
    exact ⟨rfl, Nat.zero_le _, fun _ _ => Nat.zero_le _⟩
  | id + 1 => cases found

variable {store : Store Value}

theorem sound_create (sound : SoundLedgers store) (name : Option String) (strategy : Strategy)
    (cap : Option (Nat × Span)) (span : Span) :
    SoundLedgers (store.create name strategy cap span).2 ∧
      LedgersGrow store (store.create name strategy cap span).2 := by
  constructor
  · intro id later found
    rw [region_create] at found
    split at found
    · rename_i fresh
      cases found
      exact ⟨fresh.symm, Nat.zero_le _, fun _ _ => Nat.zero_le _⟩
    · exact sound id later found
  · intro id region found
    have present : id < store.regions.length := (List.getElem?_eq_some_iff.mp found).1
    refine ⟨region, ?_, rfl, Nat.le_refl _⟩
    rw [region_create, if_neg (Nat.ne_of_lt present), found]

variable [Inhabited Value]

theorem sound_applyRegion (sound : SoundLedgers store) (op : RegionOp) :
    SoundLedgers (store.applyRegion op) ∧ LedgersGrow store (store.applyRegion op) := by
  cases op with
  | create name strategy cap span => exact sound_create sound name strategy cap span
  | adopt parent child =>
    refine sound_of_map _ sound (region_adopt store parent child) fun id region => ?_
    split <;> exact ⟨rfl, rfl, rfl⟩
  | enter id =>
    change SoundLedgers (store.orKeep (store.enter id)) ∧
      LedgersGrow store (store.orKeep (store.enter id))
    cases entered : store.enter id with
    | error => exact ⟨sound, refl store⟩
    | ok next =>
      refine sound_of_map _ sound (region_enter store entered).2 fun target region => ?_
      split <;> exact ⟨rfl, rfl, rfl⟩
  | leave id =>
    refine sound_of_map _ sound (region_leave store id) fun target region => ?_
    split <;> exact ⟨rfl, rfl, rfl⟩
  | claim owner claim =>
    refine sound_of_map _ sound (region_claim store owner claim) fun id region => ?_
    split <;> exact ⟨rfl, rfl, rfl⟩
  | free owner =>
    refine sound_of_map _ sound (region_free store owner) fun id region => ?_
    split <;> exact ⟨rfl, rfl, rfl⟩
  | freeze owner =>
    rcases Classical.em (store.FreezeRefused owner) with refused | accepted
    · refine sound_of_map (fun _ region => region) sound (fun id => ?_) fun _ _ => ⟨rfl, rfl, rfl⟩
      rw [Option.map_id']
      exact region_freeze_of_refused store refused id
    · refine sound_of_map _ sound (region_freeze store accepted) fun id region => ?_
      split <;> exact ⟨rfl, rfl, rfl⟩

/-- Every operation keeps the ledgers sound and loses no byte. -/
theorem sound_apply (sound : SoundLedgers store) (op : StoreOp Value) :
    SoundLedgers (store.apply op) ∧ LedgersGrow store (store.apply op) := by
  have untouched : ∀ next : Store Value, next.regions = store.regions →
      SoundLedgers next ∧ LedgersGrow store next := fun _ same => sound_of_same sound same
  cases op with
  | region op => exact sound_applyRegion sound op
  | forceOpen id =>
    refine sound_of_map _ sound (region_modify store id _) fun target region => ?_
    split <;> exact ⟨rfl, rfl, rfl⟩
  | swapOpen stack => exact untouched _ rfl
  | charge bytes => exact sound_charge sound (.ambient bytes)
  | chargeInto id bytes => exact sound_charge sound (.into id bytes)
  | chargeGrowth id bytes => exact sound_charge sound (.growth id bytes)
  | newPool elem => exact sound_charge sound (.pool elem)
  | reserve id =>
    refine untouched _ ?_
    change ((store.reserve id).elim store Prod.snd).regions = store.regions
    rw [reserve]
    cases store.pools[id]? <;> rfl
  | initSlot id index generation value =>
    refine untouched _ ?_
    change (store.updateSlot id index generation _).2.regions = store.regions
    rw [updateSlot]
    split <;> rfl
  | removeSlot id index generation =>
    refine untouched _ ?_
    change (store.updateSlot id index generation _).2.regions = store.regions
    rw [updateSlot]
    split <;> rfl
  | newCell value span => exact untouched _ rfl
  | retain id =>
    refine untouched _ ?_
    change (store.retain id).2.regions = store.regions
    rw [retain]
    split
    · split <;> rfl
    · rfl
  | release id =>
    refine untouched _ ?_
    change (store.release id).2.regions = store.regions
    rw [release]
    split <;> rfl
  | downgrade id =>
    refine untouched _ ?_
    change (store.downgrade id).2.regions = store.regions
    rw [downgrade]
    split <;> rfl
  | dropWeak id => exact untouched _ rfl
  | upgrade id =>
    refine untouched _ ?_
    change (store.upgrade id).2.regions = store.regions
    rw [upgrade]
    split
    · split <;> rfl
    · rfl
  | addStrongEdge source target => exact untouched _ rfl

/-- The ledger of every region that has a cap is within it. -/
def WithinCaps (store : Store Value) : Prop :=
  ∀ id region cap, store.region id = some region → region.cap = some cap → region.bytes ≤ cap

/-- In every run from the fresh store the ledgers stay within their caps and never shrink, and in
every state reached each charge is refused, writing nothing, only past the cap of the region it is
charged to. -/
theorem budgets_hold (ops : List (StoreOp Value)) : Always step WithinCaps (new : Store Value) ops ∧
      Evolves step LedgersGrow (new : Store Value) ops ∧
      Always step (fun store => ∀ charge, Charged store charge) (new : Store Value) ops := by
  have stepped : ∀ (store : Store Value) (op : StoreOp Value) (next : Store Value),
      SoundLedgers store → step store op = some next →
      SoundLedgers next ∧ LedgersGrow store next := by
    intro store op next sound performed
    obtain rfl : store.apply op = next := Option.some.inj performed
    exact sound_apply sound op
  have reached : ∀ (front : List (StoreOp Value)) (store : Store Value),
      exec step new front = some store → SoundLedgers store := by
    intro front store run
    exact inv_of_exec SoundLedgers sound_new
      (fun store op next sound performed => (stepped store op next sound performed).1) run
  refine ⟨?_, ?_, ?_⟩
  · intro front rest store _ run id region cap found capped
    exact (reached front store run id region found).2.2 cap capped
  · intro front middle rest before after _ run later
    have grown := inv_of_exec (fun store => SoundLedgers store ∧ LedgersGrow before store)
      ⟨reached front before run, refl before⟩
      (fun store op next both performed => by
        obtain ⟨sound, grows⟩ := stepped store op next both.1 performed
        exact ⟨sound, Trans.trans both.2 grows⟩) later
    exact grown.2
  · exact fun front rest store _ run charge => charged (reached front store run) charge

end Runs

end WolfInterp.Store
