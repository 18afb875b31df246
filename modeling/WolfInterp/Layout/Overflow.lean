import WolfInterp.Layout.Exact

/-!
# Where the arithmetic wraps

The nesting is bounded and the number of fields is not, so a struct can take 2^64 bytes or more.
Exactly there the arithmetic leaves the 64 bits.
-/

namespace WolfInterp.Layout

open WolfInterp.Syntax

/-- Every number that is computed for the name's layout fits 64 bits, or the name has none. -/
def WithoutWrapping (module : Module) (name : Ident) : Prop :=
  (∃ layout, layoutOfName checked module name = .ok layout) ∨
    ∃ why, layoutOfName release module name = .error (.noLayout why)

/-- The name's C layout, where it has one, takes fewer than 2^64 bytes. -/
def Fits (module : Module) (name : Ident) : Prop :=
  ∀ layout, layoutOfName unbounded module name = .ok layout → layout.size < 2 ^ 64

theorem fits_of_withoutWrapping {module : Module} {name : Ident}
    (computes : WithoutWrapping module name) : Fits module name := by
  intro layout found
  rcases computes with ⟨computed, checks⟩ | ⟨why, refused⟩
  · have exact_layout := layoutNamed_mono checked_below_unbounded (Nat.le_refl 0) checks
    cases found.symm.trans exact_layout
    exact layoutNamed_bounded checked_bounded checks
  · obtain ⟨wrapped, accepted⟩ := layoutNamed_accepted release_total found
    cases refused.symm.trans accepted

/-- The layout of a name is computed without wrapping exactly when it takes fewer than 2^64
bytes. -/
theorem withoutWrapping_iff (module : Module) (name : Ident) :
    WithoutWrapping module name ↔ Fits module name := by
  constructor
  · exact fits_of_withoutWrapping
  · intro fits
    cases found : layoutOfName unbounded module name with
    | ok layout =>
      left
      exact ⟨layout, layoutNamed_small checked_fixes found (fits layout found)⟩
    | error stop =>
      right
      cases released : layoutOfName release module name with
      | ok layout =>
        obtain ⟨accepted, answers⟩ := layoutNamed_accepted unbounded_total released
        cases found.symm.trans answers
      | error other =>
        cases other with
        | noLayout why => exact ⟨why, rfl⟩
        | overflow => exact absurd released (layoutNamed_answers release_total name 0)

/-! ## A struct of 2^64 bytes -/

/-- A field of a declared type. -/
def typedField (index : Nat) (ty : Ident) : Node .field :=
  .field .nil none ('f' :: (toString index).toList) (.pathType ⟨[ty]⟩ .nil)

def cItem : Node .attrArg := .argNested (.attr ⟨["c".toList]⟩ .none)

def alignItem (n : Ident) : Node .attrArg :=
  .argNested (.attr ⟨["align".toList]⟩ (.some (.attrArgs (.cons (.argLiteral (.int n)) .nil))))

/-- `#[repr(...)]` over the items. -/
def reprAttr (items : List (Node .attrArg)) : Attribute :=
  .attribute (.cons (.attr ⟨["repr".toList]⟩ (.some (.attrArgs (Node.ofList items)))) .nil)

def declare (name : Ident) (items : List (Node .attrArg)) (fields : List (Node .field)) : Item :=
  .item (.cons (reprAttr items) .nil) none
    (.structItem (.structDef (some name) [] (Node.ofList fields)))

/-- A struct of 4096 fields of one type. -/
def wide (name ty : Ident) : Item :=
  declare name [cItem] ((List.range 4096).map fun index => typedField index ty)

/-- `#[repr(c, align(268435456))] struct A { f0: u8 }` under three levels of 4096 fields each. -/
def tower : Module :=
  { items :=
      [declare "A".toList [cItem, alignItem "268435456".toList] [typedField 0 "u8".toList],
        wide "B".toList "A".toList, wide "C".toList "B".toList, wide "D".toList "C".toList] }

theorem fieldsRead_replicate {named : Ident → Except Stop TypeLayout} {inner : TypeLayout}
    {fields : List Field} (reads : ∀ field ∈ fields, fieldLayout named field.ty = .ok inner) :
    FieldsRead named fields (List.replicate fields.length inner) := by
  induction fields with
  | nil => exact .nil
  | cons field rest induction =>
    have rest_read := induction fun other listed => reads other (List.mem_cons_of_mem field listed)
    exact .cons (reads field List.mem_cons_self) rest_read

/-- A struct of fields of one layout is as large as all of them. -/
theorem structLayout_uniform {named : Ident → Except Stop TypeLayout} {decl : StructDecl}
    {inner : TypeLayout} (reads : ∀ field ∈ decl.fields, fieldLayout named field.ty = .ok inner)
    (some_field : 0 < decl.fields.length) (plain : decl.repr = ⟨true, false, none⟩)
    (positive : 0 < inner.align) (whole : inner.align ∣ inner.size) :
    ∃ layout, structLayout unbounded named decl = .ok layout ∧
      layout.size = decl.fields.length * inner.size ∧ layout.align = inner.align := by
  obtain ⟨count, length⟩ := Nat.exists_eq_succ_of_ne_zero (Nat.ne_of_gt some_field)
  have all_read := fieldsRead_replicate reads
  obtain ⟨layout, found⟩ := structLayout_total unbounded_total all_read
  obtain ⟨finish, strict, places, align, rounds⟩ := structLayout_ok_iff.mp found
  have strict_eq := (placeFields_names all_read places).2
  have finish_eq := (placeFields_unbounded all_read places).1
  rw [plain, List.map_replicate, length] at strict_eq finish_eq
  rw [RecordLayout.strictest_replicate] at strict_eq
  rw [RecordLayout.finish_replicate positive whole _ _ (Nat.dvd_zero _), Nat.zero_add] at finish_eq
  have align_eq : layout.align = inner.align := by
    rw [align, strict_eq]
    unfold declaredAlign
    rw [plain]
    exact Nat.max_eq_right positive
  have size_eq : RecordLayout.roundUp finish layout.align = layout.size := Except.ok.inj rounds
  refine ⟨layout, found, ?_, align_eq⟩
  rw [← size_eq, align_eq, finish_eq, length]
  exact RecordLayout.roundUp_of_dvd positive (Nat.dvd_mul_left_of_dvd whole _)

/-- A declared struct's fields. -/
theorem structItem_declare (name : Ident) (items : List (Node .attrArg))
    (fields : List (Node .field)) : structItem (declare name items fields) =
      some (name, ⟨[], fields.map readField, reprOf [reprAttr items]⟩) := by
  change some (name, StructDecl.mk [] ((Node.ofList fields).toList.map readField) _) = _
  rw [Node.toList_ofList]
  rfl

/-- The declaration of a struct of 4096 fields of one type. -/
def wideDecl (ty : Ident) : StructDecl :=
  { generics := []
    fields := (List.range 4096).map fun index => readField (typedField index ty)
    repr := ⟨true, false, none⟩ }

theorem structItem_wide (name ty : Ident) :
    structItem (wide name ty) = some (name, wideDecl ty) := by
  rw [wide, structItem_declare, List.map_map]
  rfl

theorem layoutNamed_wide {module : Module} {name ty : Ident} {depth : Nat} {inner : TypeLayout}
    (declared : module.structs name = some (wideDecl ty)) (unscaled : scalar name = none)
    (notStr : name ≠ "str".toList) (shallow : depth ≤ 64)
    (reads : layoutNamed unbounded module ty (depth + 1) = .ok inner)
    (positive : 0 < inner.align) (whole : inner.align ∣ inner.size) :
    ∃ layout, layoutNamed unbounded module name depth = .ok layout ∧
      layout.size = 4096 * inner.size ∧ layout.align = inner.align := by
  have reaches : Reaches module name depth (wideDecl ty) :=
    ⟨unscaled, notStr, declared, rfl, rfl, shallow⟩
  have length : (wideDecl ty).fields.length = 4096 := by simp [wideDecl]
  have fields_read : ∀ field ∈ (wideDecl ty).fields,
      fieldLayout (inside unbounded module depth) field.ty = .ok inner := by
    intro field listed
    simp only [wideDecl, List.mem_map] at listed
    obtain ⟨index, -, rfl⟩ := listed
    exact fieldLayout_name_ok.mpr reads
  have some_field : 0 < (wideDecl ty).fields.length := by omega
  have laid := structLayout_uniform fields_read some_field rfl positive whole
  rw [length] at laid
  rw [layoutNamed_struct reaches]
  exact laid

theorem admissible_maxAlign : admissibleAlign maxAlign = true := by
  have log : Nat.log2 (2 ^ 28) = 28 := Nat.log2_two_pow
  rw [admissibleAlign, maxAlign, log]
  decide

theorem intLiteral_maxAlign : intLiteral (.int "268435456".toList) = some maxAlign := by
  decide

theorem reprOf_aligned : reprOf [reprAttr [cItem, alignItem "268435456".toList]] =
      ⟨true, false, some ⟨maxAlign, admissible_maxAlign⟩⟩ := by
  have admits : (alignValue (.some (.attrArgs
      (.cons (.argLiteral (.int "268435456".toList)) .nil)))).bind admitted =
      some ⟨maxAlign, admissible_maxAlign⟩ :=
    (congrArg (·.bind admitted) intLiteral_maxAlign).trans
      (show admitted maxAlign = _ from dif_pos admissible_maxAlign)
  change readItem ⟨true, false, none⟩ (alignItem "268435456".toList) = _
  simp only [alignItem, readItem, if_true, admits]

theorem structs_tower : tower.items.filterMap structItem =
      [("A".toList, ⟨[], [⟨"f0".toList, .pathType ⟨["u8".toList]⟩ .nil⟩],
          ⟨true, false, some ⟨maxAlign, admissible_maxAlign⟩⟩⟩),
        ("B".toList, wideDecl "A".toList), ("C".toList, wideDecl "B".toList),
        ("D".toList, wideDecl "C".toList)] := by
  simp only [tower, List.filterMap_cons, List.filterMap_nil, structItem_wide, structItem_declare,
    reprOf_aligned]
  rfl

/-- The innermost struct takes 2^28 bytes. -/
theorem layoutNamed_tower_A {depth : Nat} (shallow : depth ≤ 64) :
    ∃ layout, layoutNamed unbounded tower "A".toList depth = .ok layout ∧
      layout.size = maxAlign ∧ layout.align = maxAlign := by
  have declared := congrArg (List.lookup "A".toList) structs_tower
  have reaches : Reaches tower "A".toList depth _ :=
    ⟨by decide, by decide, declared, rfl, rfl, shallow⟩
  rw [layoutNamed_struct reaches]
  have byte : inside unbounded tower depth "u8".toList = .ok ⟨1, 1, []⟩ := by
    rw [inside, layoutNamed]
    rfl
  refine ⟨⟨maxAlign, maxAlign, [("f0".toList, 0)]⟩, ?_, rfl, rfl⟩
  refine structLayout_ok_iff.mpr ⟨1, 1, ?_, rfl, rfl⟩
  exact placeFields_cons (fieldLayout_name_ok.mpr byte) rfl rfl rfl

/-- The outermost struct takes 2^64 bytes. -/
theorem layoutOfName_tower : ∃ layout, layoutOfName unbounded tower "D".toList = .ok layout ∧
      layout.size = 4096 * (4096 * (4096 * maxAlign)) := by
  have declared (name ty : Ident) (found : (tower.items.filterMap structItem).lookup name =
      some (wideDecl ty)) : tower.structs name = some (wideDecl ty) := found
  rw [structs_tower] at declared
  have shallow : 3 ≤ 64 := by decide
  obtain ⟨a, found_a, size_a, align_a⟩ := layoutNamed_tower_A shallow
  have whole_a : a.align ∣ a.size := by rw [size_a, align_a]
  obtain ⟨b, found_b, size_b, align_b⟩ :=
    layoutNamed_wide (declared "B".toList _ rfl) (by decide) (by decide) (by decide) found_a
      (by rw [align_a]; decide) whole_a
  have whole_b : b.align ∣ b.size := by
    rw [size_b, align_b]
    exact Nat.dvd_mul_left_of_dvd whole_a 4096
  obtain ⟨c, found_c, size_c, align_c⟩ :=
    layoutNamed_wide (declared "C".toList _ rfl) (by decide) (by decide) (by decide) found_b
      (by rw [align_b, align_a]; decide) whole_b
  have whole_c : c.align ∣ c.size := by
    rw [size_c, align_c]
    exact Nat.dvd_mul_left_of_dvd whole_b 4096
  obtain ⟨d, found_d, size_d, -⟩ :=
    layoutNamed_wide (declared "D".toList _ rfl) (by decide) (by decide) (by decide) found_c
      (by rw [align_c, align_b, align_a]; decide) whole_c
  exact ⟨d, found_d, by rw [size_d, size_c, size_b, size_a]⟩

theorem not_fits_tower : ¬ Fits tower "D".toList := by
  intro fits
  obtain ⟨layout, found, size⟩ := layoutOfName_tower
  have small := fits layout found
  rw [size, maxAlign] at small
  omega

/-- Three levels of 4096 fields over a 2^28-byte struct: its size wraps. -/
theorem wraps_tower : ¬ WithoutWrapping tower "D".toList :=
  fun computes => not_fits_tower (fits_of_withoutWrapping computes)

end WolfInterp.Layout
