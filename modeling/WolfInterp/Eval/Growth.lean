import WolfInterp.Eval.Containers

/-!
# What a growing container pays

The capacity of a container at least doubles whenever it changes, so what a run of growths charges
is measured by the capacity it ends with.
-/

namespace WolfInterp.Eval

open Ledger

/-- What the growths through the given lengths charge. -/
def growthCharges (stride : Nat) : Nat → List Nat → Nat
  | _, [] => 0
  | old, new :: rest => growthBytesStrided old new stride + growthCharges stride new rest

/-- The length that the growths end with. -/
def grownTo (old : Nat) (lens : List Nat) : Nat := lens.getLastD old

/-- The lengths never fall, and the next power of two of each is a word. -/
def Rising (old : Nat) (lens : List Nat) : Prop :=
  (old :: lens).IsChain (· ≤ ·) ∧ ∀ len ∈ old :: lens, len ≤ 2 ^ 63

/-- No growth crosses a capacity step. -/
def Level (old : Nat) (lens : List Nat) : Prop :=
  (old :: lens).IsChain fun old new => ¬ slotCapacity old < slotCapacity new

variable {old new : Nat} {lens : List Nat}

theorem slotCapacity_eq (fits : new ≤ 2 ^ 63) :
    slotCapacity new = if new = 0 then 0 else 2 ^ Nat.clog 2 (max new 4) := by
  have short : Nat.clog 2 (max new 4) ≤ 63 := Nat.clog_le_of_le_pow (max_le fits (by decide))
  rw [slotCapacity, nextPowerOfTwo, Nat.mod_eq_of_lt]
  exact Nat.pow_lt_pow_right Nat.one_lt_two (by omega)

/-- A capacity that changes at least doubles. -/
theorem slotCapacity_steps (fits : new ≤ 2 ^ 63) (rises : old ≤ new) :
    slotCapacity old = slotCapacity new ∨ 2 * slotCapacity old ≤ slotCapacity new := by
  rw [slotCapacity_eq fits, slotCapacity_eq (rises.trans fits)]
  by_cases none : old = 0
  · exact .inr (by simp [none])
  · rw [if_neg none, if_neg (by omega)]
    have grows : Nat.clog 2 (max old 4) ≤ Nat.clog 2 (max new 4) :=
      Nat.clog_mono_right 2 (by omega)
    rcases grows.eq_or_lt with same | less
    · exact .inl (by rw [same])
    · rw [← Nat.pow_succ']
      exact .inr (Nat.pow_le_pow_right Nat.two_pos less)

theorem roundToGrain_le (bytes : Nat) : roundToGrain bytes ≤ bytes + 15 := by
  refine (min_le_left ..).trans ?_
  rw [grain]
  omega

theorem le_roundToGrain {bytes : Nat} (fits : bytes ≤ maxWord) : bytes ≤ roundToGrain bytes := by
  refine le_min ?_ fits
  rw [grain]
  omega

theorem Rising.tail (rising : Rising old (new :: lens)) : Rising new lens :=
  ⟨(List.isChain_cons_cons.mp rising.1).2,
    fun len member => rising.2 len (List.mem_cons_of_mem _ member)⟩

/-- The first growth of a run is one that the capacity policy knows. -/
theorem Rising.steps (rising : Rising old (new :: lens)) :
    slotCapacity old = slotCapacity new ∨ 2 * slotCapacity old ≤ slotCapacity new :=
  slotCapacity_steps (rising.2 new (by simp)) (List.isChain_cons_cons.mp rising.1).1

theorem Rising.capacity_le (rising : Rising old lens) :
    slotCapacity old ≤ slotCapacity (grownTo old lens) := by
  induction lens generalizing old with
  | nil => exact le_rfl
  | cons new rest induction =>
    have later := induction rising.tail
    have steps := rising.steps
    rw [grownTo, List.getLastD_cons]
    change _ ≤ slotCapacity (grownTo new rest)
    omega

/-- A growth charges nothing unless it crosses a capacity step. -/
theorem growthBytesStrided_eq_zero {stride : Nat} : growthBytesStrided old new stride = 0 ↔
    stride = 0 ∨ ¬ slotCapacity old < slotCapacity new := by
  rw [growthBytesStrided]
  by_cases crossed : slotCapacity old < slotCapacity new
  · have sized : stride * slotCapacity new = 0 ↔ stride = 0 := by
      rw [Nat.mul_eq_zero]
      omega
    simp only [crossed, if_true, not_true_eq_false, or_false, ← sized, roundToGrain, saturatingMul,
      maxWord, grain]
    omega
  · simp [crossed]

/-- A growth charges at most twice the bytes of the slots it adds, and less than a grain more. -/
theorem growthBytesStrided_le (stride : Nat) (steps : slotCapacity old = slotCapacity new ∨
    2 * slotCapacity old ≤ slotCapacity new) :
    growthBytesStrided old new stride + 2 * (stride * slotCapacity old) ≤
      2 * (stride * slotCapacity new) + 15 := by
  change (if slotCapacity old < slotCapacity new then _ else _) + _ ≤ _
  split
  · have doubled : stride * (2 * slotCapacity old) ≤ stride * slotCapacity new :=
      Nat.mul_le_mul_left stride (by omega)
    have charged := (roundToGrain_le (saturatingMul stride (slotCapacity new))).trans
      (Nat.add_le_add_right (min_le_left ..) 15)
    rw [Nat.mul_left_comm] at doubled
    omega
  · have kept : slotCapacity old ≤ slotCapacity new := by omega
    have := Nat.mul_le_mul_left stride kept
    omega

/-- The charges of a run are paid by the slots it adds. -/
theorem growthCharges_le (stride : Nat) (rising : Rising old lens) :
    growthCharges stride old lens + 2 * (stride * slotCapacity old) ≤
      2 * (stride * slotCapacity (grownTo old lens)) + 15 * lens.length := by
  induction lens generalizing old with
  | nil => simp [growthCharges, grownTo]
  | cons new rest induction =>
    have first := growthBytesStrided_le stride rising.steps
    have later := induction rising.tail
    simp only [growthCharges, grownTo, List.getLastD_cons, List.length_cons] at later ⊢
    omega

/-- A growth in one step charges no more than the same growth in several. -/
theorem growthBytesStrided_le_growthCharges (stride : Nat) (rising : Rising old lens) :
    growthBytesStrided old (grownTo old lens) stride ≤ growthCharges stride old lens := by
  induction lens generalizing old with
  | nil => simp [growthCharges, grownTo, growthBytesStrided]
  | cons new rest induction =>
    have later := induction rising.tail
    have rises := rising.tail.capacity_le
    rw [grownTo, List.getLastD_cons, growthCharges]
    change growthBytesStrided old (grownTo new rest) stride ≤ _
    rcases rises.eq_or_lt with same | less
    · -- the last capacity step is the first growth's own
      have first : growthBytesStrided old (grownTo new rest) stride =
          growthBytesStrided old new stride := by
        rw [growthBytesStrided, growthBytesStrided, same]
      exact first.le.trans (Nat.le_add_right ..)
    · refine le_trans ?_ (later.trans (Nat.le_add_left ..))
      change (if _ then _ else _) ≤ if _ then _ else _
      rw [if_pos less]
      split
      · exact le_rfl
      · exact Nat.zero_le _

theorem growthCharges_eq_zero {stride : Nat} :
    growthCharges stride old lens = 0 ↔ stride = 0 ∨ Level old lens := by
  induction lens generalizing old with
  | nil => simp [growthCharges, Level]
  | cons new rest induction =>
    rw [growthCharges, Nat.add_eq_zero_iff, growthBytesStrided_eq_zero, induction, Level, Level,
      List.isChain_cons_cons, ← or_and_left]

/-- The charges of an empty container's growths are those of its last capacity, up to a factor of
two and a grain for each growth. -/
structure Amortized (stride : Nat) (lens : List Nat) : Prop where
  zero : growthCharges stride 0 lens = 0 ↔ stride = 0 ∨ Level 0 lens
  covers : roundToGrain (saturatingMul stride (slotCapacity (grownTo 0 lens))) ≤
    growthCharges stride 0 lens
  within : lens ≠ [] → growthCharges stride 0 lens <
    2 * (stride * slotCapacity (grownTo 0 lens)) + grain * lens.length
  withinCharged : lens ≠ [] → stride * slotCapacity (grownTo 0 lens) ≤ maxWord →
    growthCharges stride 0 lens <
      2 * roundToGrain (saturatingMul stride (slotCapacity (grownTo 0 lens))) + grain * lens.length

theorem amortized (stride : Nat) (rising : Rising 0 lens) : Amortized stride lens := by
  have whole := growthBytesStrided_le_growthCharges stride rising
  have bound := growthCharges_le stride rising
  have within : lens ≠ [] → growthCharges stride 0 lens <
      2 * (stride * slotCapacity (grownTo 0 lens)) + grain * lens.length := by
    intro grown
    have := List.length_pos_of_ne_nil grown
    rw [grain]
    omega
  refine ⟨growthCharges_eq_zero, ?_, within, fun grown fits => ?_⟩
  · refine le_trans ?_ whole
    change _ ≤ if 0 < slotCapacity (grownTo 0 lens) then _ else 0
    split
    · exact le_rfl
    · rename_i none
      rw [Nat.eq_zero_of_not_pos none, saturatingMul, Nat.mul_zero]
      exact Nat.le_refl 0
  · have sized : saturatingMul stride (slotCapacity (grownTo 0 lens)) =
        stride * slotCapacity (grownTo 0 lens) := min_eq_left fits
    have rounded := le_roundToGrain fits
    have := within grown
    rw [sized]
    omega

/-- What growths charge in all, for every element stride and every run of lengths that never fall:
an empty container pays for its last capacity, less than twice and a grain for each growth, and no
growth is cheaper for being split. -/
theorem growth_amortizes (stride old : Nat) (lens : List Nat) (rising : Rising old lens) :
    (old = 0 → Amortized stride lens) ∧
      growthBytesStrided old (grownTo old lens) stride ≤ growthCharges stride old lens := by
  refine ⟨?_, growthBytesStrided_le_growthCharges stride rising⟩
  rintro rfl
  exact amortized stride rising

theorem growth_amortizes_bytes : Amortized 1 [1, 5, 40] ∧
    growthBytesStrided 0 40 1 ≤ growthCharges 1 0 [1, 5, 40] := by
  have grown := growth_amortizes 1 0 [1, 5, 40] ⟨by decide, by decide⟩
  exact ⟨grown.1 rfl, grown.2⟩

/-- The bytes of the longest lists saturate: each growth charges the largest word, and three of them
are past twice the charge of the last capacity. -/
theorem growth_saturates : ¬ ∀ (stride : Nat) (lens : List Nat), Rising 0 lens →
    (growthCharges stride 0 lens = 0 ↔ Level 0 lens) ∧
    roundToGrain (saturatingMul stride (slotCapacity (grownTo 0 lens))) ≤
      growthCharges stride 0 lens ∧
    growthCharges stride 0 lens < grain * lens.length +
      2 * roundToGrain (saturatingMul stride (slotCapacity (grownTo 0 lens))) := by
  intro claimed
  obtain ⟨_, _, past⟩ := claimed slotBytes [2 ^ 60, 2 ^ 61, 2 ^ 62] ⟨by decide, by decide⟩
  have capacity (steps : Nat) (four : 4 ≤ 2 ^ steps) (short : steps < 64) :
      slotCapacity (2 ^ steps) = 2 ^ steps := by
    rw [slotCapacity, if_neg (Nat.ne_of_gt (Nat.two_pow_pos steps)), nextPowerOfTwo,
      max_eq_left four, Nat.clog_pow 2 steps Nat.one_lt_two]
    exact Nat.mod_eq_of_lt (Nat.pow_lt_pow_right Nat.one_lt_two short)
  have none : slotCapacity 0 = 0 := rfl
  simp only [growthCharges, growthBytesStrided, grownTo, List.getLastD_cons, List.getLastD_nil,
    capacity 60 (by decide) (by decide), capacity 61 (by decide) (by decide),
    capacity 62 (by decide) (by decide), none] at past
  revert past
  decide

end WolfInterp.Eval
