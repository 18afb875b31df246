import Mathlib.Data.List.DropRight
import WolfInterp.Lib.MixedRadix
import WolfInterp.Sched.State

/-!
# Packed schedule seeds

A decision stream is packed into a seed as the mixed-radix number of its choices, tagged by bit 62.
A scheduler opened with the seed divides the number out again, one decision at a time, and chooses
what the stream chose.
-/

namespace WolfInterp.Sched

open MixedRadix

variable {Data : Type}

/-! ## Packing -/

/-- The tag of a packed seed. -/
def packedSeedTag : UInt64 := (1 : UInt64) <<< 62

/-- The digit payload of a packed seed: its low 62 bits. -/
def packedSeedMask : UInt64 := packedSeedTag - 1

/-- `u64::leading_zeros`. -/
def leadingZeros (bits : UInt64) : Nat := if bits = 0 then 64 else 63 - Nat.log2 bits.toNat

/-- Is this seed a packed schedule rather than a generator seed? -/
def seedIsPacked (seed : UInt64) : Bool :=
  seed &&& packedSeedTag ≠ 0 && 1 ≤ leadingZeros seed

/-- `u128::checked_mul`. -/
def checkedMul (first second : Nat) : Option Nat :=
  if first * second < 2 ^ 128 then some (first * second) else none

/-- The choices at decision points with several candidates, accumulated into `value`. -/
def packDigits : List Decision → Nat → Nat → Option Nat
  | [], value, _ => some value
  | decision :: decisions, value, weight =>
    let count := decision.candidates.length
    if count ≤ 1 then packDigits decisions value weight
    else
      (checkedMul weight count).bind fun next =>
        if packedSeedMask.toNat + 1 < next then none
        else packDigits decisions (value + decision.chosen * weight) next

/-- The decisions up to the last one that is not the first of its candidates. -/
def moved (decisions : List Decision) : List Decision :=
  decisions.rdropWhile (·.chosen = 0)

/-- Pack a decision stream into a seed, when it fits the payload. -/
def packSchedule (decisions : List Decision) : Option UInt64 :=
  if (moved decisions).isEmpty then some 0
  else
    (packDigits (moved decisions) 0 1).bind fun value =>
      if packedSeedMask.toNat < value then none
      else some (packedSeedTag ||| UInt64.ofNat value)

/-! ## Replaying -/

/-- How a machine that is given a seed answers decision points. -/
def Chooser.ofSeed (seed : UInt64) : Chooser :=
  if seedIsPacked seed then .packed (seed &&& packedSeedMask) else .seeded seed (seed ||| 1)

namespace State

/-- Decide at one point after the other. -/
def decideAll : State Data → List (DecisionKind × List Nat) → List Nat × State Data
  | state, [] => ([], state)
  | state, (kind, candidates) :: points =>
    let (chosen, state) := state.decide kind candidates
    let (later, state) := state.decideAll points
    (chosen :: later, state)

section

variable (state : State Data) (kind : DecisionKind) (candidates : List Nat)
include state kind candidates

theorem decideAll_cons (points : List (DecisionKind × List Nat)) :
    (state.decideAll ((kind, candidates) :: points)).1 = (state.decide kind candidates).1 ::
        ((state.decide kind candidates).2.decideAll points).1 := rfl

theorem decide_chosen : (state.decide kind candidates).1 =
      (Chooser.pick state.chooser state.decisions.length candidates.length).1 := rfl

theorem chooser_decide : (state.decide kind candidates).2.chooser =
      (Chooser.pick state.chooser state.decisions.length candidates.length).2 := rfl

end

/-- The strict schedule chooses the first candidate everywhere. -/
theorem decideAll_strict {state : State Data} {rng : UInt64}
    (strict : state.chooser = .seeded 0 rng)
    (points : List (DecisionKind × List Nat)) :
    (state.decideAll points).1 = points.map fun _ => 0 := by
  induction points generalizing state with
  | nil => rfl
  | cons point points induction =>
    have picked : Chooser.pick state.chooser state.decisions.length point.2.length =
        (0, .seeded 0 rng) := by
      rw [strict, Chooser.pick, if_pos (Or.inl rfl)]
    have here := state.decide_chosen point.1 point.2
    have after := state.chooser_decide point.1 point.2
    rw [picked] at here after
    rw [decideAll_cons, here, induction after, List.map_cons]

/-- A packed chooser divides its digits out. -/
theorem decideAll_packed {state : State Data} {packed : UInt64}
    (chooser : state.chooser = .packed packed) (points : List (DecisionKind × List Nat))
    (offered : ∀ point ∈ points, point.2 ≠ []) :
    (state.decideAll points).1 = digits (points.map fun point => point.2.length) packed.toNat := by
  induction points generalizing state packed with
  | nil => rfl
  | cons point points induction =>
    have count : 0 < point.2.length :=
      List.length_pos_of_ne_nil (offered point List.mem_cons_self)
    obtain ⟨rest, picked, divided⟩ : ∃ rest : UInt64,
        Chooser.pick state.chooser state.decisions.length point.2.length =
          (packed.toNat % point.2.length, .packed rest) ∧
        rest.toNat = packed.toNat / point.2.length := by
      rw [chooser, Chooser.pick]
      by_cases single : point.2.length ≤ 1
      · have one : point.2.length = 1 := by omega
        exact ⟨packed, by rw [if_pos single, one, Nat.mod_one], by rw [one, Nat.div_one]⟩
      · refine ⟨_, by rw [if_neg single], ?_⟩
        rw [UInt64.toNat_ofNat_of_lt']
        exact lt_of_le_of_lt (Nat.div_le_self ..) packed.toNat_lt
    have here := state.decide_chosen point.1 point.2
    have after := state.chooser_decide point.1 point.2
    rw [picked] at here after
    have later := induction after fun other there => offered other (List.mem_cons_of_mem _ there)
    rw [decideAll_cons, here, later, divided, List.map_cons, digits]

end State

/-! ## The number a stream spells -/

/-- A recorded decision as a digit. -/
def Decision.place (decision : Decision) : Place := (decision.candidates.length, decision.chosen)

variable {decisions : List Decision}

section

variable (within : ∀ decision ∈ decisions, decision.chosen < decision.candidates.length)
include within

theorem places_fit :
    ∀ place ∈ decisions.map Decision.place, place.Fits := by
  intro place spelled
  obtain ⟨decision, recorded, rfl⟩ := List.mem_map.mp spelled
  exact within decision recorded

/-- The loop adds the number of the decisions it still meets, at the weight it has reached. -/
theorem packDigits_eq {sum weight packed : Nat}
    (fits : packDigits decisions sum weight = some packed) :
    packed = sum + weight * value (decisions.map Decision.place) := by
  induction decisions generalizing sum weight with
  | nil =>
    rw [packDigits, Option.some.injEq] at fits
    simp [fits]
  | cons decision decisions induction =>
    have here : decision.chosen < decision.candidates.length :=
      within decision List.mem_cons_self
    have later := fun other (there : other ∈ decisions) =>
      within other (List.mem_cons_of_mem _ there)
    have spelled : value ((decision :: decisions).map Decision.place) =
        decision.chosen +
          decision.candidates.length * value (decisions.map Decision.place) := rfl
    rw [packDigits] at fits
    by_cases single : decision.candidates.length ≤ 1
    · have one : decision.candidates.length = 1 := by omega
      have zero : decision.chosen = 0 := by omega
      rw [if_pos single] at fits
      rw [induction later fits, spelled, one, zero, Nat.zero_add, Nat.one_mul]
    · rw [if_neg single] at fits
      obtain ⟨next, multiplied, fits⟩ := Option.bind_eq_some_iff.mp fits
      rw [checkedMul, Option.ite_none_right_eq_some, Option.some.injEq] at multiplied
      rw [Option.ite_none_left_eq_some] at fits
      rw [induction later fits.2, spelled, ← multiplied.2]
      ring

end

/-- The decisions that are left out spell nothing. -/
theorem value_moved (decisions : List Decision) :
    value ((moved decisions).map Decision.place) = value (decisions.map Decision.place) := by
  have split : moved decisions ++ decisions.rtakeWhile (·.chosen = 0) = decisions :=
    List.rdropWhile_append_rtakeWhile ..
  have zeros : value ((decisions.rtakeWhile (·.chosen = 0)).map Decision.place) = 0 := by
    refine value_zeros fun place spelled => ?_
    obtain ⟨decision, recorded, rfl⟩ := List.mem_map.mp spelled
    have first := List.mem_rtakeWhile_imp recorded
    exact of_decide_eq_true first
  conv_rhs => rw [← split, List.map_append, value_append, zeros, Nat.mul_zero, Nat.add_zero]

/-- The decisions that are kept are decisions of the stream. -/
theorem mem_of_mem_moved {decision : Decision} (kept : decision ∈ moved decisions) :
    decision ∈ decisions :=
  (List.rdropWhile_prefix ..).subset kept

/-! ## The tag -/

section Tag

variable {packed : UInt64} (small : packed.toNat ≤ packedSeedMask.toNat)
include small

/-- A tag beside a payload is their sum. -/
theorem toNat_tagged : (packedSeedTag ||| packed).toNat = 2 ^ 62 + packed.toNat := by
  have below : packed.toNat < 2 ^ 62 := Nat.lt_of_le_pred (by decide) small
  have tag : packedSeedTag.toNat = 2 ^ 62 * 1 := by decide
  rw [UInt64.toNat_or, tag, ← Nat.two_pow_add_eq_or_of_lt below 1, Nat.mul_one]

theorem seedIsPacked_tagged : seedIsPacked (packedSeedTag ||| packed) = true := by
  have below : packed.toNat < 2 ^ 62 := Nat.lt_of_le_pred (by decide) small
  have whole := toNat_tagged small
  have tagged : (packedSeedTag ||| packed) &&& packedSeedTag ≠ 0 := by
    intro clear
    have bits := congrArg (fun bits : UInt64 => bits.toNat.testBit 62) clear
    have tag : packedSeedTag.toNat.testBit 62 = true := by decide
    simp [tag] at bits
  have leading : leadingZeros (packedSeedTag ||| packed) = 1 := by
    have some_bit : packedSeedTag ||| packed ≠ 0 := by
      intro clear
      rw [clear, UInt64.toNat_zero] at whole
      omega
    have length : Nat.log2 (packedSeedTag ||| packed).toNat = 62 := by
      rw [whole, Nat.log2_eq_iff (by omega)]
      omega
    rw [leadingZeros, if_neg some_bit, length]
  rw [seedIsPacked, leading]
  simp [tagged]

theorem payload_tagged : (packedSeedTag ||| packed) &&& packedSeedMask = packed := by
  have below : packed.toNat < 2 ^ 62 := Nat.lt_of_le_pred (by decide) small
  have mask : packedSeedMask.toNat = 2 ^ 62 - 1 := by decide
  apply UInt64.toNat_inj.mp
  rw [UInt64.toNat_and, toNat_tagged small, mask, Nat.and_two_pow_sub_one_eq_mod,
    Nat.add_mod_left, Nat.mod_eq_of_lt below]

theorem ofSeed_tagged : Chooser.ofSeed (packedSeedTag ||| packed) = .packed packed := by
  rw [Chooser.ofSeed, if_pos (seedIsPacked_tagged small), payload_tagged small]

end Tag

/-! ## Streams replay -/

/-- A packed seed opens a scheduler that chooses what the stream chose. -/
theorem replays {seed : UInt64} {state : State Data} {points : List (DecisionKind × List Nat)}
    (within : ∀ decision ∈ decisions, decision.chosen < decision.candidates.length)
    (packed : packSchedule decisions = some seed) (opened : state.chooser = Chooser.ofSeed seed)
    (same : points.map (fun point => point.2.length) =
      decisions.map fun decision => decision.candidates.length) :
    (state.decideAll points).1 = decisions.map Decision.chosen := by
  by_cases strict : (moved decisions).isEmpty
  · rw [packSchedule, if_pos strict, Option.some.injEq] at packed
    have zeros : ∀ decision ∈ decisions, decision.chosen = 0 := by
      have none_moved : moved decisions = [] := List.isEmpty_iff.mp strict
      simpa [moved, List.rdropWhile_eq_nil_iff] using none_moved
    have length : points.length = decisions.length := by
      simpa using congrArg List.length same
    rw [← packed] at opened
    rw [State.decideAll_strict opened, List.map_const', length, eq_comm, List.eq_replicate_iff]
    refine ⟨by simp, fun chosen recorded => ?_⟩
    obtain ⟨decision, there, rfl⟩ := List.mem_map.mp recorded
    exact zeros decision there
  · rw [packSchedule, if_neg strict] at packed
    obtain ⟨number, fits, packed⟩ := Option.bind_eq_some_iff.mp packed
    rw [Option.ite_none_left_eq_some, Option.some.injEq, not_lt] at packed
    obtain ⟨small, rfl⟩ := packed
    have spelled : number = value (decisions.map Decision.place) := by
      have kept := packDigits_eq (fun decision kept => within decision (mem_of_mem_moved kept)) fits
      rw [kept, value_moved, Nat.zero_add, Nat.one_mul]
    have word : (UInt64.ofNat number).toNat = number :=
      UInt64.toNat_ofNat_of_lt' (lt_of_le_of_lt small packedSeedMask.toNat_lt)
    rw [ofSeed_tagged (by rw [word]; exact small)] at opened
    have offered : ∀ point ∈ points, point.2 ≠ [] := by
      intro point there
      have counted : point.2.length ∈ decisions.map fun decision => decision.candidates.length := by
        rw [← same]
        exact List.mem_map_of_mem there
      obtain ⟨decision, recorded, count⟩ := List.mem_map.mp counted
      have here := within decision recorded
      exact List.ne_nil_of_length_pos (by omega)
    have radices : points.map (fun point => point.2.length) =
        (decisions.map Decision.place).map Prod.fst := by
      rw [same, List.map_map]
      rfl
    rw [State.decideAll_packed opened points offered, word, spelled, radices,
      digits_value (places_fit within), List.map_map]
    rfl

/-- Every stream that packs is replayed by its seed, so that streams over the same candidate counts
that pack to one seed are the same choices. -/
theorem packed_schedule_replays : (∀ (decisions : List Decision) (seed : UInt64),
      (∀ decision ∈ decisions, decision.chosen < decision.candidates.length) →
      packSchedule decisions = some seed →
      ∀ (state : State Data) (points : List (DecisionKind × List Nat)),
        state.chooser = Chooser.ofSeed seed → points.map (fun point => point.2.length) =
          decisions.map (fun decision => decision.candidates.length) →
        (state.decideAll points).1 = decisions.map Decision.chosen) ∧
    ∀ (first second : List Decision) (seed : UInt64),
      (∀ decision ∈ first, decision.chosen < decision.candidates.length) →
      (∀ decision ∈ second, decision.chosen < decision.candidates.length) →
      first.map (fun decision => decision.candidates.length) =
        second.map (fun decision => decision.candidates.length) →
      packSchedule first = some seed → packSchedule second = some seed →
      first.map Decision.chosen = second.map Decision.chosen := by
  constructor
  · intro decisions seed within packed state points opened same
    exact replays within packed opened same
  · intro first second seed firstWithin secondWithin counts firstPacked secondPacked
    let points := first.map fun decision => (decision.kind, decision.candidates)
    have same : points.map (fun point => point.2.length) =
        first.map fun decision => decision.candidates.length := by
      rw [List.map_map]
      rfl
    let state : State Data := initial (Chooser.ofSeed seed)
    have once : (state.decideAll points).1 = first.map Decision.chosen :=
      replays firstWithin firstPacked rfl same
    have again : (state.decideAll points).1 = second.map Decision.chosen :=
      replays secondWithin secondPacked rfl (same.trans counts)
    exact once.symm.trans again

/-- The third of three, the only one, the second of two. -/
theorem packed_schedule_replays_three :
    packSchedule [⟨.task, [4, 5, 6], 2⟩, ⟨.task, [7], 0⟩, ⟨.arm, [0, 1], 1⟩] =
        some 4611686018427387909 ∧
      ((initial (Chooser.ofSeed 4611686018427387909) : State Nat).decideAll
        [(.task, [1, 2, 3]), (.task, [9]), (.arm, [8, 9])]).1 = [2, 0, 1] :=
  have packed : packSchedule [⟨.task, [4, 5, 6], 2⟩, ⟨.task, [7], 0⟩, ⟨.arm, [0, 1], 1⟩] =
      some 4611686018427387909 := by decide +kernel
  ⟨packed, packed_schedule_replays.1 [⟨.task, [4, 5, 6], 2⟩, ⟨.task, [7], 0⟩, ⟨.arm, [0, 1], 1⟩]
    4611686018427387909 (by decide) packed (initial (Chooser.ofSeed 4611686018427387909))
    [(.task, [1, 2, 3]), (.task, [9]), (.arm, [8, 9])] rfl rfl⟩

end WolfInterp.Sched
