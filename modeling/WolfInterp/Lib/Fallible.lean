/-!
# Computations that may fail

A bind that succeeds is two successes.
-/

namespace Fallible

theorem bind_eq_ok {ε α β : Type} {x : Except ε α} {f : α → Except ε β} {b : β} :
    (x >>= f) = .ok b ↔ ∃ a, x = .ok a ∧ f a = .ok b := by
  cases x with
  | error e => exact ⟨nofun, fun ⟨_, isOk, _⟩ => nomatch isOk⟩
  | ok a => exact ⟨fun run => ⟨a, rfl, run⟩, fun ⟨_, rfl, run⟩ => run⟩

theorem bind_of_ok {ε α β : Type} {x : Except ε α} {a : α} (isOk : x = .ok a)
    (f : α → Except ε β) : (x >>= f) = f a := by
  rw [isOk]
  rfl

end Fallible
