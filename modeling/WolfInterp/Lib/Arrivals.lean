import Mathlib.Data.List.Nodup

/-!
# Arrivals

What is present after a history of arrivals and departures, in the order it came. Arriving again
while present changes nothing. The roll keeps that order by itself; the moment something last came
from being absent is read off the history. Histories have the newest event first.
-/

namespace Arrivals

/-- An arrival, a departure, or the departure of all. -/
inductive Event (α : Type*) where
  | arrives (one : α)
  | leaves (one : α)
  | clears

variable {α : Type*} [DecidableEq α]

/-- Who is present, in the order of the roll. -/
def roll : List (Event α) → List α
  | [] => []
  | .arrives one :: past => if one ∈ roll past then roll past else roll past ++ [one]
  | .leaves one :: past => (roll past).erase one
  | .clears :: _ => []

/-- When one came who is present now: how many events went before. -/
def arrival (one : α) : List (Event α) → Option Nat
  | [] => none
  | .arrives other :: past =>
    if other = one then (arrival one past).or (some past.length) else arrival one past
  | .leaves other :: past => if other = one then none else arrival one past
  | .clears :: _ => none

/-- One came before another, and both are present. -/
def Before (past : List (Event α)) (one other : α) : Prop :=
  ∃ first second, arrival one past = some first ∧ arrival other past = some second ∧ first < second

variable {past : List (Event α)} {one other : α}

theorem arrival_lt {moment : Nat} (came : arrival one past = some moment) :
    moment < past.length := by
  induction past generalizing moment with
  | nil => cases came
  | cons event past induction =>
    rw [List.length_cons, Nat.lt_succ_iff_lt_or_eq]
    cases event with
    | arrives other =>
      rw [arrival] at came
      split at came
      · rcases Option.or_eq_some_iff.mp came with before | ⟨_, now⟩
        · exact .inl (induction before)
        · exact .inr (Option.some.inj now).symm
      · exact .inl (induction came)
    | leaves other =>
      rw [arrival] at came
      split at came
      · cases came
      · exact .inl (induction came)
    | clears => cases came

/-- The roll holds who is present, once each and in the order they came. -/
theorem roll_spec (past : List (Event α)) :
    (∀ one, one ∈ roll past ↔ (arrival one past).isSome) ∧ (roll past).Pairwise (Before past) := by
  induction past with
  | nil => exact ⟨fun _ => by simp [roll, arrival], .nil⟩
  | cons event past induction =>
    obtain ⟨present, ordered⟩ := induction
    have distinct : (roll past).Nodup := ordered.imp fun before same => by
      obtain ⟨first, second, came, later, lt⟩ := before
      rw [same, later] at came
      exact absurd (Option.some.inj came) (Nat.ne_of_gt lt)
    cases event with
    | arrives new =>
      rw [roll]
      by_cases here : new ∈ roll past
      · have kept : ∀ one, arrival one (.arrives new :: past) = arrival one past := by
          intro one
          rw [arrival]
          split
          · rename_i same
            obtain ⟨moment, came⟩ := Option.isSome_iff_exists.mp ((present new).mp here)
            rw [← same, came, Option.some_or]
          · rfl
        rw [if_pos here]
        refine ⟨fun one => by rw [kept, present], ordered.imp fun before => ?_⟩
        simpa only [Before, kept] using before
      · have absent : arrival new past = none :=
          Option.not_isSome_iff_eq_none.mp fun some => here ((present new).mpr some)
        have kept : ∀ one ∈ roll past, arrival one (.arrives new :: past) = arrival one past := by
          intro one member
          rw [arrival, if_neg]
          rintro rfl
          exact here member
        have now : arrival new (.arrives new :: past) = some past.length := by
          rw [arrival, if_pos rfl, absent, Option.none_or]
        rw [if_neg here]
        refine ⟨fun one => ?_, ?_⟩
        · by_cases same : one = new
          · rw [same, now]
            simp
          · rw [arrival, if_neg (Ne.symm same), ← present]
            simp [same]
        · rw [List.pairwise_append]
          refine ⟨ordered.imp_of_mem fun left right before => ?_, List.pairwise_singleton _ _,
            fun one member last among => ?_⟩
          · simpa only [Before, kept _ left, kept _ right] using before
          · obtain rfl := List.mem_singleton.mp among
            obtain ⟨moment, came⟩ := Option.isSome_iff_exists.mp ((present one).mp member)
            exact ⟨moment, past.length, (kept one member).trans came, now, arrival_lt came⟩
    | leaves gone =>
      have kept : ∀ one, one ≠ gone → arrival one (.leaves gone :: past) = arrival one past :=
        fun one differs => if_neg (Ne.symm differs)
      rw [roll]
      refine ⟨fun one => ?_, ?_⟩
      · rw [distinct.mem_erase_iff]
        by_cases same : one = gone
        · simp [same, arrival]
        · rw [kept one same, ← present]
          simp [same]
      · refine (ordered.sublist List.erase_sublist).imp_of_mem fun left right before => ?_
        have differs : ∀ {one}, one ∈ (roll past).erase gone → one ≠ gone :=
          fun member => (distinct.mem_erase_iff.mp member).1
        simpa only [Before, kept _ (differs left), kept _ (differs right)] using before
    | clears => exact ⟨fun _ => by simp [roll, arrival], .nil⟩

end Arrivals
