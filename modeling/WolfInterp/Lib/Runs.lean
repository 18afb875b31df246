import Mathlib.Data.List.TakeWhile

/-!
# Runs

The run a scan takes while a predicate holds, and what a prefix of the text says about it.
-/

namespace Runs

variable {α : Type} {p : α → Bool}

theorem mem_takeWhile {text : List α} {a : α} (taken : a ∈ text.takeWhile p) : p a = true :=
  List.mem_takeWhile_imp taken

/-- A run that ends where its predicate fails is the one a scan takes. -/
theorem takeWhile_run {run rest : List α} (inside : ∀ a ∈ run, p a = true)
    (ends : ∀ a, rest.head? = some a → p a = false) :
    (run ++ rest).takeWhile p = run ∧ (run ++ rest).dropWhile p = rest := by
  rw [List.takeWhile_append_of_pos inside, List.dropWhile_append_of_pos inside]
  cases rest with
  | nil => exact ⟨List.append_nil run, rfl⟩
  | cons a rest =>
    have stop : ¬ p a := by simp [ends a rfl]
    rw [List.takeWhile_cons_of_neg stop, List.dropWhile_cons_of_neg stop, List.append_nil]
    exact ⟨rfl, rfl⟩

/-- A prefix within the predicate is a prefix of the run a scan takes. -/
theorem prefix_takeWhile {run text : List α} (inside : ∀ a ∈ run, p a = true)
    (isPrefix : run <+: text) : run <+: text.takeWhile p := by
  obtain ⟨rest, rfl⟩ := isPrefix
  rw [List.takeWhile_append_of_pos inside]
  exact List.prefix_append _ _

/-- What is left of a text does not begin within the predicate. -/
theorem head_dropWhile {text : List α} {a : α} (head : (text.dropWhile p).head? = some a) :
    p a = false := by
  have stopped := List.head?_dropWhile_not p text
  rwa [head] at stopped

/-- Of two splits at the end of a run, the runs are the same. -/
theorem run_unique {run run' : List α} {a : α} {rest rest' : List α}
    (inside : ∀ b ∈ run, p b = true) (ends : p a = false)
    (inside' : ∀ b ∈ run', p b = true) (ends' : ∀ b, rest'.head? = some b → p b = false)
    (same : run ++ a :: rest = run' ++ rest') : run = run' ∧ a :: rest = rest' := by
  have ends_here : ∀ b, (a :: rest).head? = some b → p b = false := by
    intro b head
    cases head
    exact ends
  have one := takeWhile_run inside ends_here
  have two := takeWhile_run inside' ends'
  rw [same] at one
  exact ⟨one.1.symm.trans two.1, one.2.symm.trans two.2⟩

end Runs
