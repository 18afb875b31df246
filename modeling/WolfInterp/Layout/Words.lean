import Mathlib.Data.Nat.Prime.Basic
import WolfInterp.Layout.Compute
import WolfInterp.Lib.Fallible

/-!
# The builds compared

A layout a checked build gives is the one every build gives, and a layout the unbounded numbers give
below 64 bits is too. The refusals and the alignments do not depend on the build.
-/

namespace WolfInterp.Layout

open Fallible
open WolfInterp.Syntax

/-! ## Reading a name once -/

/-- The struct a name is laid out as at a depth. -/
structure Reaches (module : Module) (name : Ident) (depth : Nat) (decl : StructDecl) : Prop where
  unscaled : scalar name = none
  notStr : name ≠ "str".toList
  declared : module.structs name = some decl
  c : decl.repr.c = true
  plain : decl.generics = []
  shallow : depth ≤ 64

/-- The names met in the fields of a struct. -/
abbrev inside (word : Word) (module : Module) (depth : Nat) : Ident → Except Stop TypeLayout :=
  fun name => layoutNamed word module name (depth + 1)

variable {module : Module} {name : Ident} {depth : Nat} {decl : StructDecl} {word : Word}

theorem layoutNamed_struct (reaches : Reaches module name depth decl) (word : Word) :
    layoutNamed word module name depth = structLayout word (inside word module depth) decl := by
  have named : ¬ (name = "VaList".toList ∧ module.contains name = false) := by
    intro builtin
    have contained := Module.contains_of_structs reaches.declared
    rw [builtin.2] at contained
    cases contained
  have fits : ¬ (decl.repr.c = false ∨ decl.generics ≠ [] ∨ depth > 64) := by
    rintro (native | generic | deep)
    · rw [reaches.c] at native
      cases native
    · exact generic reaches.plain
    · have shallow := reaches.shallow
      omega
  rw [layoutNamed]
  simp only [reaches.unscaled, reaches.declared, if_neg named, if_neg reaches.notStr]
  rw [dif_neg fits]

theorem layoutOfName_struct (reaches : Reaches module name 0 decl) (word : Word) :
    layoutOfName word module name = structLayout word (inside word module 0) decl :=
  layoutNamed_struct reaches word

/-- How a name is read: as a struct, as a layout that does not depend on the module's structs, or
not at all. -/
inductive Reading (module : Module) (name : Ident) (depth : Nat) : Prop where
  | struct (decl : StructDecl) (reaches : Reaches module name depth decl)
  | given (layout : TypeLayout) (small : layout.size < 2 ^ 64) (aligned : layout.align ∣ maxAlign)
      (reads : ∀ word depth, layoutNamed word module name depth = .ok layout)
  | refused (why : NoLayout)
      (refuses : ∀ word, layoutNamed word module name depth = .error (.noLayout why))

theorem scalar_values : ∀ entry ∈ scalars, entry.2 ≤ 8 ∧ entry.2 ∣ maxAlign := by
  decide

variable {n offset strict : Nat} {named : Ident → Except Stop TypeLayout} {layout : TypeLayout}
  {packed : Bool}

theorem scalar_value (scaled : scalar name = some n) : n ≤ 8 ∧ n ∣ maxAlign := by
  obtain ⟨front, back, split, -⟩ := List.lookup_eq_some_iff.mp scaled
  apply scalar_values (name, n)
  rw [split]
  simp

theorem reading (module : Module) (name : Ident) (depth : Nat) : Reading module name depth := by
  cases scaled : scalar name with
  | some n =>
    have value := scalar_value scaled
    apply Reading.given { size := n, align := n, fields := [] } _ value.2
    · intro word depth
      rw [layoutNamed, scaled]
    · have size_le := value.1
      change n < 2 ^ 64
      omega
  | none =>
    by_cases builtin : name = "VaList".toList ∧ module.contains name = false
    · apply Reading.given vaList (by decide) (by decide)
      intro word depth
      rw [layoutNamed, scaled]
      exact if_pos builtin
    by_cases str : name = "str".toList
    · apply Reading.refused .native
      intro word
      rw [layoutNamed, scaled]
      simp only [if_neg builtin, if_pos str]
    cases declared : module.structs name with
    | none =>
      cases denoted : module.lookup name with
      | none =>
        apply Reading.refused .unknown
        intro word
        rw [layoutNamed, scaled]
        simp only [if_neg builtin, if_neg str, declared, denoted]
      | some denoted_as =>
        apply Reading.refused (if denoted_as = .struct ∨ denoted_as = .enum then .native
          else .unknown)
        intro word
        rw [layoutNamed, scaled]
        simp only [if_neg builtin, if_neg str, declared, denoted]
        cases denoted_as <;> rfl
    | some decl =>
      by_cases deep : decl.repr.c = false ∨ decl.generics ≠ [] ∨ depth > 64
      · apply Reading.refused .native
        intro word
        rw [layoutNamed, scaled]
        simp only [if_neg builtin, if_neg str, declared]
        rw [dif_pos deep]
      · push Not at deep
        have c : decl.repr.c = true := by simpa using deep.1
        exact Reading.struct decl ⟨scaled, str, declared, c, deep.2.1, deep.2.2⟩

/-- Every type is a pointer, a single name, or one without a layout. -/
theorem fieldLayout_cases (ty : Ty) :
    (∃ inner, ty = .rawPointer inner) ∨ (∃ name, ty = .pathType ⟨[name]⟩ .nil) ∨
      ∀ named, fieldLayout named ty = .error (.noLayout .native) := by
  unfold fieldLayout
  split
  next inner => exact .inl ⟨inner, rfl⟩
  next path =>
    obtain ⟨segments⟩ := path
    rcases segments with _ | ⟨name, _ | ⟨other, rest⟩⟩
    · exact .inr (.inr fun named => rfl)
    · exact .inr (.inl ⟨name, rfl⟩)
    · exact .inr (.inr fun named => rfl)
  next => exact .inr (.inr fun named => rfl)

theorem fieldLayout_name (named : Ident → Except Stop TypeLayout) (name : Ident) :
    fieldLayout named (.pathType ⟨[name]⟩ .nil) =
      match named name with
      | .error (.noLayout _) => .error (.noLayout .native)
      | layout => layout := rfl

theorem fieldLayout_name_ok :
    fieldLayout named (.pathType ⟨[name]⟩ .nil) = .ok layout ↔ named name = .ok layout := by
  rw [fieldLayout_name]
  split
  next failed => rw [failed]; simp
  next => rfl

/-! ## One build below another -/

theorem fieldLayout_mono {first second : Ident → Except Stop TypeLayout} {ty : Ty}
    (named : ∀ name layout, first name = .ok layout → second name = .ok layout)
    (reads : fieldLayout first ty = .ok layout) : fieldLayout second ty = .ok layout := by
  rcases fieldLayout_cases ty with ⟨inner, rfl⟩ | ⟨name, rfl⟩ | native
  · exact reads
  · exact fieldLayout_name_ok.mpr (named name layout (fieldLayout_name_ok.mp reads))
  · rw [native] at reads
    cases reads

/-- The steps of a field that is placed. -/
theorem placeFields_cons_ok {field : Field} {rest : List Field}
    {placed : Nat × Nat × List (Ident × Nat)}
    (runs : placeFields word named packed (field :: rest) offset strict = .ok placed) :
    ∃ inner start next finish last fields, fieldLayout named field.ty = .ok inner ∧
      roundUp word offset (if packed then 1 else inner.align) = .ok start ∧
      word (start + inner.size) = .ok next ∧
      placeFields word named packed rest next (max strict (if packed then 1 else inner.align)) =
        .ok (finish, last, fields) ∧ placed = (finish, last, (field.name, start) :: fields) := by
  rw [placeFields] at runs
  obtain ⟨inner, reads, runs⟩ := bind_eq_ok.mp runs
  obtain ⟨start, rounds, runs⟩ := bind_eq_ok.mp runs
  obtain ⟨next, adds, runs⟩ := bind_eq_ok.mp runs
  obtain ⟨⟨finish, last, fields⟩, places, runs⟩ := bind_eq_ok.mp runs
  cases runs
  exact ⟨inner, start, next, finish, last, fields, reads, rounds, adds, places, rfl⟩

theorem placeFields_cons {field : Field} {rest : List Field} {start next finish last : Nat}
    {fields : List (Ident × Nat)} {inner : TypeLayout}
    (reads : fieldLayout named field.ty = .ok inner)
    (rounds : roundUp word offset (if packed then 1 else inner.align) = .ok start)
    (adds : word (start + inner.size) = .ok next) (places : placeFields word named packed rest next
      (max strict (if packed then 1 else inner.align)) = .ok (finish, last, fields)) :
    placeFields word named packed (field :: rest) offset strict =
      .ok (finish, last, (field.name, start) :: fields) := by
  simp only [placeFields, reads, bind, Except.bind, rounds, adds, places, pure, Except.pure]

/-- Every answer of the first build is one of the second. -/
def Below (first second : Word) : Prop := ∀ n m, first n = .ok m → second n = .ok m

theorem Below.refl (word : Word) : Below word word := fun _ _ => id

theorem checked_below_unbounded : Below checked unbounded := by
  intro n m answers
  unfold checked at answers
  split at answers
  · exact answers
  · cases answers

theorem placeFields_mono {first second : Word} {other : Ident → Except Stop TypeLayout}
    (below : Below first second)
    (names : ∀ name layout, named name = .ok layout → other name = .ok layout) {fields : List Field}
    {placed : Nat × Nat × List (Ident × Nat)}
    (runs : placeFields first named packed fields offset strict = .ok placed) :
    placeFields second other packed fields offset strict = .ok placed := by
  induction fields generalizing offset strict placed with
  | nil => exact runs
  | cons field rest induction =>
    obtain ⟨inner, start, next, finish, last, offsets, reads, rounds, adds, places, rfl⟩ :=
      placeFields_cons_ok runs
    exact placeFields_cons (fieldLayout_mono names reads) (below _ _ rounds) (below _ _ adds)
      (induction places)

theorem structLayout_ok_iff : structLayout word named decl = .ok layout ↔ ∃ finish strict,
        placeFields word named decl.repr.packed decl.fields 0 1 =
          .ok (finish, strict, layout.fields) ∧ layout.align = declaredAlign decl strict ∧
        roundUp word finish layout.align = .ok layout.size := by
  constructor
  · intro runs
    unfold structLayout at runs
    obtain ⟨⟨finish, strict, fields⟩, places, runs⟩ := bind_eq_ok.mp runs
    obtain ⟨size, rounds, runs⟩ := bind_eq_ok.mp runs
    cases runs
    exact ⟨finish, strict, places, rfl, rounds⟩
  · rintro ⟨finish, strict, places, align, rounds⟩
    obtain ⟨size, layout_align, fields⟩ := layout
    change layout_align = declaredAlign decl strict at align
    subst align
    change roundUp word finish (declaredAlign decl strict) = .ok size at rounds
    simp only [structLayout, places, bind, Except.bind, rounds, pure, Except.pure]

theorem structLayout_mono {first second : Word} {other : Ident → Except Stop TypeLayout}
    (below : Below first second)
    (names : ∀ name layout, named name = .ok layout → other name = .ok layout)
    (runs : structLayout first named decl = .ok layout) :
    structLayout second other decl = .ok layout := by
  obtain ⟨finish, strict, places, align, rounds⟩ := structLayout_ok_iff.mp runs
  exact structLayout_ok_iff.mpr
    ⟨finish, strict, placeFields_mono below names places, align, below _ _ rounds⟩

theorem Reaches.earlier {shallower : Nat} (reaches : Reaches module name depth decl)
    (less : shallower ≤ depth) : Reaches module name shallower decl :=
  { reaches with shallow := Nat.le_trans less reaches.shallow }

/-- What holds of every layout given outright, and of a struct's layout when it holds of its
fields' layouts, holds of every layout. -/
theorem layoutNamed_induction {word : Word} {module : Module}
    {motive : Ident → Nat → TypeLayout → Prop}
    (given : ∀ name depth layout, layout.size < 2 ^ 64 → layout.align ∣ maxAlign →
      (∀ word depth, layoutNamed word module name depth = .ok layout) → motive name depth layout)
    (struct : ∀ name depth decl layout, Reaches module name depth decl →
      structLayout word (inside word module depth) decl = .ok layout →
      (∀ inner layout, inside word module depth inner = .ok layout →
        motive inner (depth + 1) layout) →
      motive name depth layout) {name : Ident} {depth : Nat}
    (found : layoutNamed word module name depth = .ok layout) : motive name depth layout := by
  induction left : 65 - depth generalizing name depth layout with
  | zero =>
    cases reading module name depth with
    | struct decl reaches =>
      have shallow := reaches.shallow
      omega
    | given other small aligned reads =>
      cases (reads word depth).symm.trans found
      exact given name depth layout small aligned reads
    | refused why refuses => cases (refuses word).symm.trans found
  | succ left induction =>
    cases reading module name depth with
    | struct decl reaches =>
      rw [layoutNamed_struct reaches] at found
      apply struct name depth decl layout reaches found
      intro inner layout found_inner
      exact induction found_inner (by omega)
    | given other small aligned reads =>
      cases (reads word depth).symm.trans found
      exact given name depth layout small aligned reads
    | refused why refuses => cases (refuses word).symm.trans found

/-- A layout that is found deep in a struct is found nearer to the top too, and in every build that
answers more. -/
theorem layoutNamed_mono {first second : Word} (below : Below first second) {deeper depth : Nat}
    (less : depth ≤ deeper) (found : layoutNamed first module name deeper = .ok layout) :
    layoutNamed second module name depth = .ok layout := by
  refine layoutNamed_induction
    (motive := fun name deeper layout => ∀ depth ≤ deeper,
      layoutNamed second module name depth = .ok layout) ?_ ?_ found depth less
  · intro name deeper layout small aligned reads depth less
    exact reads second depth
  · intro name deeper decl layout reaches found induction depth less
    rw [layoutNamed_struct (reaches.earlier less)]
    refine structLayout_mono below ?_ found
    intro inner layout found_inner
    exact induction inner layout found_inner (depth + 1) (Nat.succ_le_succ less)

/-! ## Alignments -/

theorem dvd_maxAlign_iff : n ∣ maxAlign ↔ ∃ power ≤ 28, n = 2 ^ power :=
  Nat.dvd_prime_pow Nat.prime_two

theorem Alignment.dvd (n : Alignment) : n.val ∣ maxAlign := by
  obtain ⟨n, admissible⟩ := n
  simp only [admissibleAlign, Bool.and_eq_true, beq_iff_eq, decide_eq_true_eq] at admissible
  obtain ⟨power, small⟩ := admissible
  rw [← power] at small
  change n ∣ 2 ^ 28
  rw [← power]
  exact Nat.pow_dvd_pow 2 ((Nat.pow_le_pow_iff_right (by decide)).mp small)

theorem positive_of_dvd (divides : n ∣ maxAlign) : 0 < n :=
  Nat.pos_of_dvd_of_pos divides (by decide)

/-- The alignments of the names divide the largest one. -/
def Aligned (named : Ident → Except Stop TypeLayout) : Prop :=
  ∀ name layout, named name = .ok layout → layout.align ∣ maxAlign

theorem fieldLayout_align (aligned : Aligned named) {ty : Ty}
    (reads : fieldLayout named ty = .ok layout) : layout.align ∣ maxAlign := by
  rcases fieldLayout_cases ty with ⟨inner, rfl⟩ | ⟨name, rfl⟩ | native
  · cases reads
    decide
  · exact aligned name layout (fieldLayout_name_ok.mp reads)
  · rw [native] at reads
    cases reads

/-- A field takes the size of its type's layout, at its alignment or, packed, at 1. -/
def member (packed : Bool) (layout : TypeLayout) : RecordLayout.Member :=
  { size := layout.size, align := if packed then 1 else layout.align }

theorem member_align (aligned : layout.align ∣ maxAlign) :
    (member packed layout).align ∣ maxAlign := by
  cases packed with
  | true => exact Nat.one_dvd maxAlign
  | false => exact aligned

theorem placeFields_align (aligned : Aligned named) {fields : List Field} {finish last : Nat}
    {offsets : List (Ident × Nat)} (start : strict ∣ maxAlign)
    (runs : placeFields word named packed fields offset strict = .ok (finish, last, offsets)) :
    last ∣ maxAlign := by
  induction fields generalizing offset strict finish last offsets with
  | nil =>
    cases runs
    exact start
  | cons field rest induction =>
    obtain ⟨inner, begins, next, _, _, _, reads, rounds, adds, places, same⟩ :=
      placeFields_cons_ok runs
    cases same
    refine induction (max_rec' (· ∣ _) start ?_) places
    exact member_align (fieldLayout_align aligned reads)

theorem declaredAlign_dvd (aligned : strict ∣ maxAlign) : declaredAlign decl strict ∣ maxAlign := by
  unfold declaredAlign
  split
  · exact aligned
  next n declared => exact max_rec' (· ∣ _) aligned n.dvd

theorem structLayout_align (aligned : Aligned named)
    (found : structLayout word named decl = .ok layout) : layout.align ∣ maxAlign := by
  obtain ⟨finish, strict, places, align, -⟩ := structLayout_ok_iff.mp found
  rw [align]
  exact declaredAlign_dvd (placeFields_align aligned (Nat.one_dvd maxAlign) places)

/-- Every layout's alignment is a power of two up to 2^28. -/
theorem layoutNamed_align (found : layoutNamed word module name depth = .ok layout) :
    layout.align ∣ maxAlign := by
  refine layoutNamed_induction (motive := fun _ _ layout => layout.align ∣ maxAlign) ?_ ?_ found
  · intro name depth layout small aligned reads
    exact aligned
  · intro name depth decl layout reaches found induction
    exact structLayout_align induction found

theorem inside_aligned (word : Word) (module : Module) (depth : Nat) :
    Aligned (inside word module depth) :=
  fun _ _ found => layoutNamed_align found

end WolfInterp.Layout
