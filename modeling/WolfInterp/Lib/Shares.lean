import Mathlib.Data.List.Basic
import Mathlib.Data.Nat.ModEq

/-!
# Cutting a range into shares

A list of contiguous ranges tiles the range from its first bound to its last. Cutting a range evenly
gives every share the same length or one more.
-/

namespace Shares

/-- The range from `lo` up to, and without, `hi`. -/
structure Share where
  lo : Nat
  hi : Nat

def Share.Has (share : Share) (index : Nat) : Prop := share.lo ≤ index ∧ index < share.hi

/-- Each share begins where the one before it ended. -/
def Tiles : Nat → List Share → Nat → Prop
  | lo, [], hi => lo = hi
  | lo, share :: shares, hi => share.lo = lo ∧ lo ≤ share.hi ∧ Tiles share.hi shares hi

section Tiling

variable {lo hi index : Nat} {shares : List Share}

section

variable (tiles : Tiles lo shares hi)
include tiles

theorem Tiles.le : lo ≤ hi := by
  induction shares generalizing lo with
  | nil => exact Nat.le_of_eq tiles
  | cons share shares induction => exact tiles.2.1.trans (induction tiles.2.2)

theorem Tiles.bounds {share : Share} (member : share ∈ shares) :
    lo ≤ share.lo ∧ share.lo ≤ share.hi ∧ share.hi ≤ hi := by
  induction shares generalizing lo with
  | nil => cases member
  | cons first shares induction =>
    obtain ⟨rfl, least, rest⟩ := tiles
    rcases List.mem_cons.mp member with rfl | later
    · exact ⟨Nat.le_refl _, least, rest.le⟩
    · obtain ⟨low, between, high⟩ := induction rest later
      exact ⟨least.trans low, between, high⟩

/-- Every index of the range is in a share. -/
theorem Tiles.exists_share (least : lo ≤ index) (below : index < hi) :
    ∃ share ∈ shares, share.Has index := by
  induction shares generalizing lo with
  | nil =>
    obtain rfl : lo = hi := tiles
    exact absurd below (Nat.not_lt.mpr least)
  | cons share shares induction =>
    obtain ⟨rfl, _, rest⟩ := tiles
    by_cases inside : index < share.hi
    · exact ⟨share, List.mem_cons_self, least, inside⟩
    · obtain ⟨other, member, has⟩ := induction rest (Nat.not_lt.mp inside)
      exact ⟨other, List.mem_cons_of_mem _ member, has⟩

/-- No index is in two shares. -/
theorem Tiles.pairwise :
    shares.Pairwise fun first second => ∀ index, first.Has index → ¬ second.Has index := by
  induction shares generalizing lo with
  | nil => exact List.Pairwise.nil
  | cons share shares induction =>
    obtain ⟨rfl, _, rest⟩ := tiles
    refine List.Pairwise.cons ?_ (induction rest)
    intro later member index has other
    have after := (rest.bounds member).1
    exact absurd (has.2.trans_le after) (Nat.not_lt.mpr other.1)

end

end Tiling

/-- Shares of `base` indices each, one more for those numbered below `extra`. -/
def evenFrom (base extra : Nat) : List Nat → Nat → List Share
  | [], _ => []
  | number :: numbers, lo =>
    let hi := lo + base + if number < extra then 1 else 0
    { lo, hi } :: evenFrom base extra numbers hi

/-- The range below `count` in `shares` shares. -/
def even (count shares : Nat) : List Share :=
  evenFrom (count / shares) (count % shares) (List.range shares) 0

theorem tiles_evenFrom (base extra first count lo : Nat) :
    Tiles lo (evenFrom base extra (List.range' first count) lo)
      (lo + count * base + (min extra (first + count) - min extra first)) := by
  induction count generalizing first lo with
  | zero => simp [evenFrom, Tiles]
  | succ count induction =>
    rw [List.range'_succ, evenFrom]
    refine ⟨rfl, by dsimp only; omega, ?_⟩
    have rest := induction (first + 1) (lo + base + if first < extra then 1 else 0)
    have total : lo + base + (if first < extra then 1 else 0) + count * base +
        (min extra (first + 1 + count) - min extra (first + 1)) =
          lo + (count + 1) * base + (min extra (first + (count + 1)) - min extra first) := by
      rw [Nat.succ_mul]
      split <;> omega
    rw [← total]
    exact rest

/-- The even shares tile the whole range. -/
theorem tiles_even {count shares : Nat} (some_ : 0 < shares) :
    Tiles 0 (even count shares) count := by
  have tiles := tiles_evenFrom (count / shares) (count % shares) 0 shares 0
  have total : 0 + shares * (count / shares) +
      (min (count % shares) (0 + shares) - min (count % shares) 0) = count := by
    have below := Nat.mod_lt count some_
    have parts := Nat.div_add_mod count shares
    omega
  rw [total] at tiles
  rw [even, List.range_eq_range']
  exact tiles

theorem length_evenFrom {base extra lo : Nat} {numbers : List Nat} {share : Share}
    (member : share ∈ evenFrom base extra numbers lo) :
    base ≤ share.hi - share.lo ∧ share.hi - share.lo ≤ base + 1 := by
  induction numbers generalizing lo with
  | nil => cases member
  | cons number numbers induction =>
    rw [evenFrom] at member
    rcases List.mem_cons.mp member with rfl | later
    · dsimp only
      split <;> omega
    · exact induction later

/-- The lengths of two even shares differ by one at most. -/
theorem even_lengths {count shares : Nat} {first second : Share}
    (member : first ∈ even count shares) (other : second ∈ even count shares) :
    first.hi - first.lo ≤ second.hi - second.lo + 1 := by
  have most := (length_evenFrom member).2
  have least := (length_evenFrom other).1
  omega

end Shares
