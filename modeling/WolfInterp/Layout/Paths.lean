import WolfInterp.Layout.Overflow

/-!
# Field paths

`fieldPath` follows a path of fields through the structs of a module, and reads the layout of every
struct it passes anew. A release build's layouts are C layouts down to every nested struct, and the
paths land within them, exactly where the layout takes fewer than 2^64 bytes.
-/

namespace WolfInterp.Layout

open Fallible
open WolfInterp.Lex (Text)
open WolfInterp.Syntax

/-- Where a field path lands: the offset from the start of the element, the leaf's size and
signedness, and the alignment of the element's struct. -/
structure FieldAt where
  offset : Nat
  size : Nat
  signed : Bool
  structAlign : Nat

inductive PathStop where
  | refused (why : Text)
  /-- An overflow in a checked build, or an expectation that fails. -/
  | panic

def quoted (name : Ident) : Text := '`' :: name ++ ['`']

def noCLayout (name : Ident) : Text := quoted name ++ " has no C layout".toList

def notAStruct (name : Ident) : Text := quoted name ++ " is not a struct of this module".toList

def noField (name field : Ident) : Text := quoted name ++ " has no field ".toList ++ quoted field

def notAnInteger (field : Ident) : Text :=
  "the field ".toList ++ quoted field ++ " is not an integer".toList

/-- A layout that is answered for a path. -/
def pathLayout (word : Word) (module : Module) (name : Ident) : Except PathStop TypeLayout :=
  match layoutOfName word module name with
  | .ok layout => .ok layout
  | .error (.noLayout _) => .error (.refused (noCLayout name))
  | .error .overflow => .error .panic

def pathWord (word : Word) (n : Nat) : Except PathStop Nat :=
  match word n with
  | .ok m => .ok m
  | .error _ => .error .panic

def signedNames : List Ident :=
  ["i8".toList, "i16".toList, "i32".toList, "i64".toList, "int".toList]

def unsignedNames : List Ident :=
  ["u8".toList, "u16".toList, "u32".toList, "u64".toList, "uint".toList]

/-- The last field of a path, of a named type. -/
def leafAt (structAlign offset : Nat) (field ty : Ident) : Except PathStop FieldAt :=
  let signed : Bool := ty ∈ signedNames
  if signed ∨ ty ∈ unsignedNames then
    match scalar ty with
    | some size => .ok { offset, size, signed, structAlign }
    | none => .error .panic
  else .error (.refused (notAnInteger field ++ " (".toList ++ quoted ty ++ ")".toList))

/-- The rest of a path, from a struct at an offset on. -/
def follow (word : Word) (module : Module) (structAlign : Nat) :
    Ident → Nat → List Ident → Except PathStop FieldAt
  | _, _, [] => .error (.refused "an empty field path".toList)
  | current, offset, field :: rest =>
    match module.structs current with
    | none => .error (.refused (notAStruct current))
    | some decl => do
      let layout ← pathLayout word module current
      match layout.fields.lookup field with
      | none => .error (.refused (noField current field))
      | some start => do
        let offset ← pathWord word (offset + start)
        match decl.fields.find? fun declared => declared.name = field with
        | none => .error .panic
        | some declared =>
          match declared.ty with
          | .pathType path .nil =>
            match path.segments with
            | [ty] =>
              if rest ≠ [] then follow word module structAlign ty offset rest
              else leafAt structAlign offset field ty
            | _ => .error (.refused (notAnInteger field))
          | _ => .error (.refused (notAnInteger field))

/-- The leaf of a path through a struct of the module. -/
def fieldPath (word : Word) (module : Module) (name : Ident) (path : List Ident) :
    Except PathStop FieldAt := do
  let top ← pathLayout word module name
  follow word module top.align name 0 path

/-! ## The layouts a struct is laid out by -/

/-- The structs nested in a struct, itself among them. -/
inductive Nests (module : Module) : Ident → Ident → Prop where
  | refl (name : Ident) : Nests module name name
  | field {outer between inner : Ident} {decl : StructDecl} {field : Field}
      (reaches : Reaches module outer 0 decl) (listed : field ∈ decl.fields)
      (named : field.ty = .pathType ⟨[between]⟩ .nil) (rest : Nests module between inner) :
      Nests module outer inner

/-- The sum of the offsets of a path's fields, each in the layout of the struct it is a field of. -/
inductive PathOffset (module : Module) : Ident → List Ident → Nat → Prop where
  | last {name field : Ident} {layout : TypeLayout} {start : Nat}
      (found : layoutOfName release module name = .ok layout)
      (listed : layout.fields.lookup field = some start) : PathOffset module name [field] start
  | step {name field inner : Ident} {layout : TypeLayout} {start sum : Nat} {decl : StructDecl}
      {declared : Field} {rest : List Ident}
      (found : layoutOfName release module name = .ok layout)
      (listed : layout.fields.lookup field = some start)
      (struct : module.structs name = some decl)
      (first : (decl.fields.find? fun other => other.name = field) = some declared)
      (named : declared.ty = .pathType ⟨[inner]⟩ .nil)
      (after : PathOffset module inner rest sum) :
      PathOffset module name (field :: rest) (start + sum)

/-- The layouts of the struct and of every struct nested in it are C layouts. -/
def LaidOut (module : Module) (name : Ident) : Prop :=
  ∀ inner, Nests module name inner → ∀ decl layout, Reaches module inner 0 decl →
    layoutOfName release module inner = .ok layout →
    ∃ layouts, IsCLayout (inside release module 0) decl layout layouts

/-- Every path that is accepted lands within the layout, at the sum of the offsets on the way. -/
def PathsLand (module : Module) (name : Ident) (layout : TypeLayout) : Prop :=
  ∀ path found, fieldPath release module name path = .ok found →
    found.offset + found.size ≤ layout.size ∧ PathOffset module name path found.offset

/-- A struct that is accepted has a C layout, and so have its field paths. -/
def HasCLayout (module : Module) (name : Ident) : Prop :=
  ∀ layout, layoutOfName release module name = .ok layout →
    LaidOut module name ∧ PathsLand module name layout

variable {module : Module} {name : Ident} {depth : Nat} {decl : StructDecl} {layout : TypeLayout}
  {layouts : List TypeLayout} {word : Word} {field : Ident} {start structAlign : Nat}
    {found : FieldAt}

theorem LaidOut.nested {outer inner : Ident} {field : Field} (laid : LaidOut module outer)
    (reaches : Reaches module outer 0 decl) (listed : field ∈ decl.fields)
    (named : field.ty = .pathType ⟨[inner]⟩ .nil) : LaidOut module inner :=
  fun deeper nested => laid deeper (.field reaches listed named nested)

/-- Where every nested layout is a C layout, no number wrapped. -/
theorem unbounded_of_laidOut (laid : LaidOut module name)
    (found : layoutNamed release module name depth = .ok layout) :
    layoutNamed unbounded module name depth = .ok layout := by
  refine layoutNamed_induction
    (motive := fun name depth layout => LaidOut module name →
      layoutNamed unbounded module name depth = .ok layout) ?_ ?_ found laid
  · intro name depth layout small aligned reads _
    exact reads unbounded depth
  · intro name depth decl layout reaches found induction laid
    have top := reaches.earlier (Nat.zero_le depth)
    have named := found
    rw [← layoutNamed_struct reaches] at named
    have at_top := layoutNamed_mono (Below.refl release) (Nat.zero_le depth) named
    obtain ⟨layouts, record⟩ := laid name (.refl name) decl layout top at_top
    obtain ⟨finish, strict, places, -⟩ := structLayout_ok_iff.mp found
    obtain ⟨others, reads⟩ := fieldsRead_of_placeFields places
    have reads_top : FieldsRead (inside release module 0) decl.fields others :=
      reads.mono fun inner shape => layoutNamed_mono (Below.refl release) (by omega)
    cases reads_top.unique record.reads
    rw [layoutNamed_struct reaches]
    refine structLayout_exact (inside_aligned release module depth) ?_ found
      ⟨reads, record.names, record.record, record.power⟩
    refine reads.imp fun field listed shape shape_listed read => ?_
    rcases fieldLayout_cases field.ty with ⟨inner, pointer⟩ | ⟨inner, named⟩ | native
    · rw [pointer] at read ⊢
      exact read
    · rw [named, fieldLayout_name_ok] at read ⊢
      exact induction inner shape read (laid.nested top listed named)
    · cases (native _).symm.trans read

theorem IsCLayout.sizes {named : Ident → Except Stop TypeLayout}
    (laid : IsCLayout named decl layout layouts) : ∀ inner ∈ layouts, inner.size ≤ layout.size :=
  fun _ listed => laid.record.size_le (List.mem_map_of_mem listed)

/-- In a layout below 64 bits a release build reads the fields as they are. -/
theorem fieldsRead_of_small (laid : IsCLayout (inside unbounded module 0) decl layout layouts)
    (small : layout.size < 2 ^ 64) : FieldsRead (inside release module 0) decl.fields layouts := by
  refine laid.reads.imp fun field field_listed inner listed read => ?_
  refine fieldLayout_small ?_ read (Nat.lt_of_le_of_lt (laid.sizes inner listed) small)
  intro ty shape found shape_small
  exact layoutNamed_small release_fixes found shape_small

theorem isCLayout_of_reaches (reaches : Reaches module name 0 decl)
    (found : layoutOfName unbounded module name = .ok layout) :
    ∃ layouts, IsCLayout (inside unbounded module 0) decl layout layouts := by
  have laid := (layoutOfName_struct reaches unbounded).symm.trans found
  exact isCLayout_of_unbounded (inside_aligned unbounded module 0) laid

theorem nested_small {inner : Ident} (nested : Nests module name inner)
    (found : layoutOfName unbounded module name = .ok layout) (small : layout.size < 2 ^ 64) :
    ∃ layout, layoutOfName unbounded module inner = .ok layout ∧ layout.size < 2 ^ 64 := by
  induction nested generalizing layout with
  | refl name => exact ⟨layout, found, small⟩
  | field reaches listed named rest induction =>
    obtain ⟨layouts, laid⟩ := isCLayout_of_reaches reaches found
    obtain ⟨shape, shape_listed, read⟩ := laid.reads.exists_layout listed
    rw [named, fieldLayout_name_ok] at read
    have shape_small := laid.sizes shape shape_listed
    refine induction ?_ (Nat.lt_of_le_of_lt shape_small small)
    exact layoutNamed_mono (Below.refl unbounded) (Nat.zero_le 1) read

/-- A layout below 64 bits is a C layout down to every nested struct. -/
theorem laidOut_of_small (found : layoutOfName unbounded module name = .ok layout)
    (small : layout.size < 2 ^ 64) : LaidOut module name := by
  intro inner nested decl released reaches answers
  obtain ⟨exact_layout, exact_found, exact_small⟩ := nested_small nested found small
  have same := layoutNamed_small release_fixes exact_found exact_small
  cases same.symm.trans answers
  obtain ⟨layouts, laid⟩ := isCLayout_of_reaches reaches exact_found
  exact ⟨layouts, fieldsRead_of_small laid exact_small, laid.names, laid.record, laid.power⟩

/-! ## Where the paths land -/

/-- A struct of the module whose layout has a field is laid out as declared. -/
theorem reaches_of_field (declared : module.structs name = some decl)
    (found : layoutOfName word module name = .ok layout)
    (listed : layout.fields.lookup field = some start) : Reaches module name 0 decl := by
  rw [layoutOfName, layoutNamed] at found
  split at found
  next scaled =>
    cases found
    cases listed
  next unscaled =>
    have known := Module.contains_of_structs declared
    split at found
    next builtin =>
      rw [builtin.2] at known
      cases known
    next =>
      split at found
      next => cases found
      next notStr =>
        rw [declared] at found
        dsimp only at found
        by_cases deep : decl.repr.c = false ∨ decl.generics ≠ [] ∨ 0 > 64
        · rw [dif_pos deep] at found
          cases found
        · push Not at deep
          have c : decl.repr.c = true := by simpa using deep.1
          exact ⟨unscaled, notStr, declared, c, deep.2.1, deep.2.2⟩

/-- The first field of a name is placed at the first offset of the name. -/
theorem lookup_placed {named : Ident → Except Stop TypeLayout} (packed : Bool) {fields : List Field}
    {offsets : List (Ident × Nat)} {declared : Field} (reads : FieldsRead named fields layouts)
    (names : offsets.map Prod.fst = fields.map Field.name)
    (listed : offsets.lookup field = some start)
    (first : (fields.find? fun other => other.name = field) = some declared) :
    ∃ layout, fieldLayout named declared.ty = .ok layout ∧
      (member packed layout, start) ∈ (layouts.map (member packed)).zip (offsets.map Prod.snd) := by
  induction reads generalizing offsets with
  | nil => cases first
  | @cons head layout rest layouts head_read tail induction =>
    rcases offsets with _ | ⟨⟨label, offset⟩, others⟩
    · cases names
    · rw [List.map_cons, List.map_cons, List.cons.injEq] at names
      rw [List.map_cons, List.map_cons, List.zip_cons_cons]
      by_cases same : head.name = field
      · have label_same : label = field := names.1.trans same
        rw [List.lookup_cons, label_same, beq_self_eq_true] at listed
        cases listed
        rw [List.find?_cons_of_pos (by simpa using same)] at first
        cases first
        exact ⟨layout, head_read, List.mem_cons_self⟩
      · have label_other : field ≠ label := fun equal => same (names.1.symm.trans equal.symm)
        rw [List.lookup_cons, beq_false_of_ne label_other] at listed
        rw [List.find?_cons_of_neg (by simpa using same)] at first
        obtain ⟨found, found_read, placed⟩ := induction names.2 listed first
        exact ⟨found, found_read, List.mem_cons_of_mem _ placed⟩

/-- A field of a layout below 64 bits lies within it. -/
theorem field_within {declared : Field} (reaches : Reaches module name 0 decl)
    (found : layoutOfName unbounded module name = .ok layout)
    (listed : layout.fields.lookup field = some start)
    (first : (decl.fields.find? fun other => other.name = field) = some declared) :
    ∃ inner, fieldLayout (inside unbounded module 0) declared.ty = .ok inner ∧
      start + inner.size ≤ layout.size := by
  obtain ⟨layouts, laid⟩ := isCLayout_of_reaches reaches found
  obtain ⟨inner, read, placed⟩ :=
    lookup_placed decl.repr.packed laid.reads laid.names listed first
  exact ⟨inner, read, laid.record.within _ placed⟩

theorem pathLayout_ok :
    pathLayout word module name = .ok layout ↔ layoutOfName word module name = .ok layout := by
  unfold pathLayout
  split <;> rename_i found <;> rw [found] <;> simp

/-- The leaf has the size of its type. -/
theorem leafAt_ok {offset : Nat} {ty : Ident}
    (lands : leafAt structAlign offset field ty = .ok found) :
    found.offset = offset ∧ scalar ty = some found.size := by
  unfold leafAt at lands
  dsimp only at lands
  split at lands
  · split at lands
    next size scaled =>
      cases lands
      exact ⟨rfl, scaled⟩
    next => cases lands
  · cases lands

theorem layoutNamed_scalar {ty : Ident} {size : Nat} (scaled : scalar ty = some size) :
    layoutNamed word module ty depth = .ok { size, align := size, fields := [] } := by
  rw [layoutNamed, scaled]

theorem pathWord_ok {n m : Nat} : pathWord word n = .ok m ↔ word n = .ok m := by
  unfold pathWord
  split <;> rename_i answers <;> rw [answers] <;> simp

/-- One step of a path that is accepted. -/
theorem follow_cons_ok {offset : Nat} {current : Ident} {rest : List Ident}
    (lands : follow word module structAlign current offset (field :: rest) = .ok found) :
    ∃ decl layout start next declared ty,
      module.structs current = some decl ∧ layoutOfName word module current = .ok layout ∧
      layout.fields.lookup field = some start ∧ word (offset + start) = .ok next ∧
      (decl.fields.find? fun other => other.name = field) = some declared ∧
      declared.ty = .pathType ⟨[ty]⟩ .nil ∧
      (if rest ≠ [] then follow word module structAlign ty next rest
        else leafAt structAlign next field ty) = .ok found := by
  rw [follow] at lands
  split at lands
  · cases lands
  next decl struct =>
    obtain ⟨layout, answers, lands⟩ := bind_eq_ok.mp lands
    split at lands
    · cases lands
    next start listed =>
      obtain ⟨next, adds, lands⟩ := bind_eq_ok.mp lands
      split at lands
      · cases lands
      next declared first =>
        split at lands
        next path typed =>
          split at lands
          next ty single =>
            obtain ⟨segments⟩ := path
            cases single
            exact ⟨decl, layout, start, next, declared, ty, struct, pathLayout_ok.mp answers,
              listed, pathWord_ok.mp adds, first, typed, lands⟩
          next => cases lands
        next => cases lands

/-- A path from a struct on lands within the struct, at the sum of the offsets on the way. -/
theorem follow_within {bound : Nat} {path : List Ident} {current : Ident} {offset : Nat}
    (exact_layout : layoutOfName unbounded module current = .ok layout)
    (fits : offset + layout.size ≤ bound) (small : bound < 2 ^ 64)
    (lands : follow release module structAlign current offset path = .ok found) :
    ∃ sum, PathOffset module current path sum ∧ found.offset = offset + sum ∧
      found.offset + found.size ≤ offset + layout.size := by
  induction path generalizing current offset layout with
  | nil => cases lands
  | cons field rest induction =>
    have released : layoutOfName release module current = .ok layout :=
      layoutNamed_small release_fixes exact_layout (by omega)
    obtain ⟨decl, answered, start, next, declared, ty, struct, answers, listed, adds, first,
      typed, lands⟩ := follow_cons_ok lands
    cases released.symm.trans answers
    have reaches := reaches_of_field struct exact_layout listed
    obtain ⟨inner, read, within⟩ := field_within reaches exact_layout listed first
    rw [typed, fieldLayout_name_ok] at read
    have next_eq : next = offset + start := by
      have fixed := release_fixes (offset + start) (by omega)
      cases fixed.symm.trans adds
      rfl
    subst next_eq
    by_cases last : rest = []
    · subst last
      obtain ⟨lands_at, scaled⟩ := leafAt_ok lands
      cases (layoutNamed_scalar scaled).symm.trans read
      refine ⟨start, .last released listed, lands_at, ?_⟩
      rw [lands_at]
      change start + found.size ≤ layout.size at within
      omega
    · rw [if_pos last] at lands
      have inner_exact := layoutNamed_mono (Below.refl unbounded) (Nat.zero_le 1) read
      have inner_fits : offset + start + inner.size ≤ bound := by omega
      obtain ⟨sum, after, lands_at, lands_within⟩ := induction inner_exact inner_fits lands
      refine ⟨start + sum, .step released listed struct first typed after, ?_, ?_⟩
      · omega
      · omega

theorem pathsLand_of_small (exact_layout : layoutOfName unbounded module name = .ok layout)
    (small : layout.size < 2 ^ 64) : PathsLand module name layout := by
  intro path found lands
  obtain ⟨top, -, lands⟩ := bind_eq_ok.mp lands
  have fits : 0 + layout.size ≤ layout.size := by omega
  obtain ⟨sum, offsets, lands_at, within⟩ := follow_within exact_layout fits small lands
  rw [Nat.zero_add] at lands_at within
  rw [← lands_at] at offsets
  exact ⟨within, offsets⟩

theorem fits_of_hasCLayout (laid : HasCLayout module name) : Fits module name := by
  intro layout found
  obtain ⟨released, answers⟩ := layoutNamed_accepted release_total found
  have exact_layout := unbounded_of_laidOut (laid released answers).1 answers
  cases found.symm.trans exact_layout
  exact layoutNamed_bounded release_bounded answers

/-- A release build lays a struct out as C does, with every struct nested in it and every field path
through it, exactly when the struct takes fewer than 2^64 bytes. -/
theorem hasCLayout_iff (module : Module) (name : Ident) :
    HasCLayout module name ↔ Fits module name := by
  constructor
  · exact fits_of_hasCLayout
  · intro fits layout answers
    obtain ⟨exact_layout, found⟩ := layoutNamed_accepted unbounded_total answers
    have small := fits exact_layout found
    cases (layoutNamed_small release_fixes found small).symm.trans answers
    exact ⟨laidOut_of_small found small, pathsLand_of_small found small⟩

/-- Three levels of 4096 fields over a 2^28-byte struct: the outermost layout is no C layout. -/
theorem not_hasCLayout_tower : ¬ HasCLayout tower "D".toList :=
  fun laid => not_fits_tower (fits_of_hasCLayout laid)

end WolfInterp.Layout
