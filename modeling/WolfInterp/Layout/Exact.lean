import WolfInterp.Layout.Words

/-!
# Layouts below 64 bits

In unbounded numbers a struct's layout is the record of its fields. The layout a build computes is
that one as soon as the size it takes is below 64 bits, and a release build's layout is a record
only then.
-/

namespace WolfInterp.Layout

open WolfInterp.Syntax

variable {module : Module} {name : Ident} {depth : Nat} {decl : StructDecl} {word : Word}
  {named other : Ident → Except Stop TypeLayout}

/-! ## The record of the fields -/

/-- The layouts of the fields' types. -/
abbrev FieldsRead (named : Ident → Except Stop TypeLayout) : List Field → List TypeLayout → Prop :=
  List.Forall₂ fun field layout => fieldLayout named field.ty = .ok layout

variable {fields : List Field} {layouts : List TypeLayout} {packed : Bool}
  {offset strict finish : Nat}
  {offsets : List (Ident × Nat)} {layout : TypeLayout}

theorem FieldsRead.unique {first second : List TypeLayout} (left : FieldsRead named fields first)
    (right : FieldsRead named fields second) : first = second := by
  induction left generalizing second with
  | nil =>
    cases right
    rfl
  | cons head tail induction =>
    cases right with
    | cons other_head other_tail =>
      cases head.symm.trans other_head
      rw [induction other_tail]

theorem FieldsRead.mono (names : ∀ name layout, named name = .ok layout → other name = .ok layout)
    (reads : FieldsRead named fields layouts) : FieldsRead other fields layouts :=
  reads.imp fun _ _ => fieldLayout_mono names

theorem FieldsRead.imp (reads : FieldsRead named fields layouts)
    (each : ∀ field ∈ fields, ∀ layout ∈ layouts, fieldLayout named field.ty = .ok layout →
      fieldLayout other field.ty = .ok layout) : FieldsRead other fields layouts := by
  induction reads with
  | nil => exact .nil
  | @cons field layout rest layouts head tail induction =>
    refine .cons (each field List.mem_cons_self layout List.mem_cons_self head) ?_
    apply induction
    intro later later_listed shape shape_listed
    exact each later (List.mem_cons_of_mem field later_listed) shape
      (List.mem_cons_of_mem layout shape_listed)

theorem FieldsRead.exists_layout (reads : FieldsRead named fields layouts) {field : Field}
    (listed : field ∈ fields) : ∃ layout ∈ layouts, fieldLayout named field.ty = .ok layout := by
  induction reads with
  | nil => cases listed
  | @cons first layout rest layouts head tail induction =>
    rcases List.mem_cons.mp listed with rfl | later
    · exact ⟨layout, List.mem_cons_self, head⟩
    · obtain ⟨found, found_listed, found_read⟩ := induction later
      exact ⟨found, List.mem_cons_of_mem layout found_listed, found_read⟩

/-- The fields that are placed are read. -/
theorem fieldsRead_of_placeFields {placed : Nat × Nat × List (Ident × Nat)}
    (runs : placeFields word named packed fields offset strict = .ok placed) :
    ∃ layouts, FieldsRead named fields layouts := by
  induction fields generalizing offset strict placed with
  | nil => exact ⟨[], .nil⟩
  | cons field rest induction =>
    obtain ⟨inner, start, next, _, _, _, reads, _, _, places, _⟩ := placeFields_cons_ok runs
    obtain ⟨layouts, rest_read⟩ := induction places
    exact ⟨inner :: layouts, .cons reads rest_read⟩

/-- The names and the strictest alignment do not depend on the numbers. -/
theorem placeFields_names (reads : FieldsRead named fields layouts) {last : Nat}
    (runs : placeFields word named packed fields offset strict = .ok (finish, last, offsets)) :
    offsets.map Prod.fst = fields.map Field.name ∧
      last = RecordLayout.strictest strict (layouts.map (member packed)) := by
  induction reads generalizing offset strict finish last offsets with
  | nil =>
    cases runs
    exact ⟨rfl, rfl⟩
  | cons head tail induction =>
    obtain ⟨inner, start, next, _, _, _, reads, _, _, places, same⟩ := placeFields_cons_ok runs
    cases same
    cases head.symm.trans reads
    have rest := induction places
    refine ⟨?_, rest.2⟩
    rw [List.map_cons, List.map_cons, rest.1]

/-- In unbounded numbers the fields are placed one after another. -/
theorem placeFields_unbounded (reads : FieldsRead named fields layouts) {last : Nat}
    (runs : placeFields unbounded named packed fields offset strict =
      .ok (finish, last, offsets)) :
    finish = RecordLayout.finish offset (layouts.map (member packed)) ∧
      offsets.map Prod.snd = RecordLayout.place offset (layouts.map (member packed)) := by
  induction reads generalizing offset strict finish last offsets with
  | nil =>
    cases runs
    exact ⟨rfl, rfl⟩
  | cons head tail induction =>
    obtain ⟨inner, start, next, _, _, _, reads, rounds, adds, places, same⟩ :=
      placeFields_cons_ok runs
    cases same
    cases head.symm.trans reads
    cases rounds
    cases adds
    have rest := induction places
    refine ⟨rest.1, ?_⟩
    rw [List.map_cons, rest.2]
    rfl

/-- The struct's layout is the record of its fields, at its declared alignment at least. -/
structure IsCLayout (named : Ident → Except Stop TypeLayout) (decl : StructDecl)
    (layout : TypeLayout)
    (layouts : List TypeLayout) : Prop where
  reads : FieldsRead named decl.fields layouts
  names : layout.fields.map Prod.fst = decl.fields.map Field.name
  record : RecordLayout.IsRecord (declaredAlign decl 1) (layouts.map (member decl.repr.packed))
    (layout.fields.map Prod.snd) layout.size layout.align
  power : ∃ power, layout.align = 2 ^ power

theorem members_positive (aligned : Aligned named) (reads : FieldsRead named fields layouts)
    (packed : Bool) : ∀ placed ∈ layouts.map (member packed), 0 < placed.align := by
  induction reads with
  | nil =>
    nofun
  | cons head tail induction =>
    intro placed listed
    rw [List.map_cons] at listed
    rcases List.mem_cons.mp listed with rfl | later
    · exact positive_of_dvd (member_align (fieldLayout_align aligned head))
    · exact induction placed later

theorem declaredAlign_strictest (decl : StructDecl) (members : List RecordLayout.Member) :
    declaredAlign decl (RecordLayout.strictest 1 members) =
      RecordLayout.strictest (declaredAlign decl 1) members := by
  unfold declaredAlign
  split
  · rfl
  next n declared => exact RecordLayout.max_strictest 1 n.val members

theorem power_of_dvd {n : Nat} (divides : n ∣ maxAlign) : ∃ power, n = 2 ^ power := by
  obtain ⟨power, -, same⟩ := dvd_maxAlign_iff.mp divides
  exact ⟨power, same⟩

/-- A struct's layout in unbounded numbers is a C layout. -/
theorem isCLayout_of_unbounded (aligned : Aligned named)
    (found : structLayout unbounded named decl = .ok layout) :
    ∃ layouts, IsCLayout named decl layout layouts := by
  obtain ⟨finish, strict, places, align, rounds⟩ := structLayout_ok_iff.mp found
  obtain ⟨layouts, reads⟩ := fieldsRead_of_placeFields places
  have unbounded_place := placeFields_unbounded reads places
  have names := placeFields_names reads places
  have align_strictest : layout.align =
      RecordLayout.strictest (declaredAlign decl 1) (layouts.map (member decl.repr.packed)) := by
    rw [align, names.2, declaredAlign_strictest]
  have size : RecordLayout.roundUp finish layout.align = layout.size := Except.ok.inj rounds
  refine ⟨layouts, reads, names.1, ?_, power_of_dvd (structLayout_align aligned found)⟩
  rw [unbounded_place.2, ← size, unbounded_place.1, align_strictest]
  apply RecordLayout.isRecord (members_positive aligned reads decl.repr.packed)
  exact positive_of_dvd (declaredAlign_dvd (Nat.one_dvd maxAlign))

/-! ## Sizes below 64 bits -/

/-- The build computes with every number below 64 bits as it is. -/
def Fixes (word : Word) : Prop := ∀ n < 2 ^ 64, word n = .ok n

theorem checked_fixes : Fixes checked := fun _ small => if_pos small

theorem release_fixes : Fixes release := fun _ small => congrArg Except.ok (Nat.mod_eq_of_lt small)

theorem le_finish_of_unbounded (aligned : Aligned named) {last : Nat}
    (runs : placeFields unbounded named packed fields offset strict =
      .ok (finish, last, offsets)) : offset ≤ finish := by
  obtain ⟨layouts, reads⟩ := fieldsRead_of_placeFields runs
  rw [(placeFields_unbounded reads runs).1]
  exact RecordLayout.le_finish (members_positive aligned reads packed)

theorem fieldLayout_small {ty : Ty}
    (names : ∀ name layout, named name = .ok layout → layout.size < 2 ^ 64 →
      other name = .ok layout) (reads : fieldLayout named ty = .ok layout)
    (small : layout.size < 2 ^ 64) : fieldLayout other ty = .ok layout := by
  rcases fieldLayout_cases ty with ⟨inner, rfl⟩ | ⟨name, rfl⟩ | native
  · exact reads
  · exact fieldLayout_name_ok.mpr (names name layout (fieldLayout_name_ok.mp reads) small)
  · rw [native] at reads
    cases reads

theorem placeFields_small (fixes : Fixes word) (aligned : Aligned named)
    (names : ∀ name layout, named name = .ok layout → layout.size < 2 ^ 64 →
      other name = .ok layout) {last : Nat}
    (runs : placeFields unbounded named packed fields offset strict = .ok (finish, last, offsets))
    (small : finish < 2 ^ 64) :
    placeFields word other packed fields offset strict = .ok (finish, last, offsets) := by
  induction fields generalizing offset strict finish last offsets with
  | nil =>
    cases runs
    rfl
  | cons field rest induction =>
    obtain ⟨inner, start, next, _, _, _, reads, rounds, adds, places, same⟩ :=
      placeFields_cons_ok runs
    cases same
    cases rounds
    cases adds
    have ends := le_finish_of_unbounded aligned places
    refine placeFields_cons (fieldLayout_small names reads (by omega)) ?_ ?_
      (induction places small)
    · exact fixes _ (by omega)
    · exact fixes _ (by omega)

/-- Below 64 bits every build computes the layout of the unbounded numbers. -/
theorem layoutNamed_small (fixes : Fixes word)
    (found : layoutNamed unbounded module name depth = .ok layout) (small : layout.size < 2 ^ 64) :
    layoutNamed word module name depth = .ok layout := by
  refine layoutNamed_induction
    (motive := fun name depth layout => layout.size < 2 ^ 64 →
      layoutNamed word module name depth = .ok layout) ?_ ?_ found small
  · intro name depth layout small aligned reads _
    exact reads word depth
  · intro name depth decl layout reaches found induction small
    rw [layoutNamed_struct reaches]
    obtain ⟨finish, strict, places, align, rounds⟩ := structLayout_ok_iff.mp found
    have aligned := inside_aligned unbounded module depth
    have positive : 0 < layout.align := positive_of_dvd (structLayout_align aligned found)
    have size : RecordLayout.roundUp finish layout.align = layout.size := Except.ok.inj rounds
    have ends : finish ≤ layout.size := size ▸ RecordLayout.le_roundUp positive
    refine structLayout_ok_iff.mpr ⟨finish, strict, ?_, align, ?_⟩
    · exact placeFields_small fixes aligned induction places (by omega)
    · rw [roundUp, size]
      exact fixes layout.size small

/-! ## Records of a release build -/

/-- Rounding up wraps to nothing. -/
theorem roundUp_small {align : Nat} (divides : align ∣ maxAlign) (small : offset < 2 ^ 64)
    (later : offset ≤ RecordLayout.roundUp offset align % 2 ^ 64) :
    RecordLayout.roundUp offset align < 2 ^ 64 := by
  have positive := positive_of_dvd divides
  have divides_word : align ∣ 2 ^ 64 := divides.trans (by decide)
  have rounded := RecordLayout.roundUp_le positive divides_word (Nat.le_of_lt small)
  rcases Nat.lt_or_eq_of_le rounded with below | wraps
  · exact below
  · rw [wraps, Nat.mod_self] at later
    have start : offset = 0 := Nat.le_zero.mp later
    rw [start, RecordLayout.roundUp_of_dvd positive (Nat.dvd_zero align)] at wraps
    omega

/-- Fields a release build places one after another, within a size, are placed as in unbounded
numbers. -/
theorem placeFields_exact (aligned : Aligned named) (reads : FieldsRead named fields layouts)
    (others : FieldsRead other fields layouts) {last size : Nat}
    (runs : placeFields release named packed fields offset strict = .ok (finish, last, offsets))
    (apart : ((layouts.map (member packed)).zip (offsets.map Prod.snd)).Pairwise
      fun first second => first.2 + first.1.size ≤ second.2)
    (within : ∀ placed ∈ (layouts.map (member packed)).zip (offsets.map Prod.snd),
      offset ≤ placed.2 ∧ placed.2 + placed.1.size ≤ size) (start_within : offset ≤ size)
    (small : size < 2 ^ 64) :
    placeFields unbounded other packed fields offset strict = .ok (finish, last, offsets) ∧
      finish ≤ size := by
  induction reads generalizing offset strict finish last offsets with
  | nil =>
    cases runs
    exact ⟨rfl, start_within⟩
  | @cons field shape rest shapes head tail induction =>
    obtain ⟨inner, start, next, _, _, _, reads, rounds, adds, places, same⟩ :=
      placeFields_cons_ok runs
    cases same
    cases head.symm.trans reads
    cases others with
    | cons other_head other_tail =>
    rw [List.map_cons, List.map_cons, List.zip_cons_cons] at apart within
    have placed := within _ List.mem_cons_self
    have rounded : RecordLayout.roundUp offset (member packed shape).align % 2 ^ 64 = start :=
      Except.ok.inj rounds
    have exact_start : RecordLayout.roundUp offset (member packed shape).align = start := by
      rw [← rounded]
      apply (Nat.mod_eq_of_lt _).symm
      apply roundUp_small (member_align (fieldLayout_align aligned reads)) (by omega)
      rw [rounded]
      exact placed.1
    have summed : (start + shape.size) % 2 ^ 64 = next := Except.ok.inj adds
    have ends : start + shape.size ≤ size := placed.2
    have exact_next : start + shape.size = next := by
      rw [← summed]
      exact (Nat.mod_eq_of_lt (by omega)).symm
    have rest := induction other_tail places (List.pairwise_cons.mp apart).2 ?_ (by omega)
    · refine ⟨?_, rest.2⟩
      exact placeFields_cons other_head (congrArg Except.ok exact_start)
        (congrArg Except.ok exact_next) rest.1
    · intro later listed
      have after := (List.pairwise_cons.mp apart).1 later listed
      refine ⟨?_, (within later (List.mem_cons_of_mem _ listed)).2⟩
      change start + shape.size ≤ later.2 at after
      omega

/-- A release build's layout that is a C layout is the one of the unbounded numbers. -/
theorem structLayout_exact (aligned : Aligned named) (others : FieldsRead other decl.fields layouts)
    (found : structLayout release named decl = .ok layout)
    (laid : IsCLayout named decl layout layouts) :
    structLayout unbounded other decl = .ok layout := by
  obtain ⟨finish, strict, places, align, rounds⟩ := structLayout_ok_iff.mp found
  have size : RecordLayout.roundUp finish layout.align % 2 ^ 64 = layout.size :=
    Except.ok.inj rounds
  have small : layout.size < 2 ^ 64 := size ▸ Nat.mod_lt _ (by decide)
  have placed := placeFields_exact aligned laid.reads others places laid.record.apart
    (fun placed listed => ⟨Nat.zero_le _, laid.record.within placed listed⟩) (Nat.zero_le _) small
  refine structLayout_ok_iff.mpr ⟨finish, strict, placed.1, align, ?_⟩
  have exact_size : RecordLayout.roundUp finish layout.align = layout.size := by
    rw [← size]
    apply (Nat.mod_eq_of_lt _).symm
    apply roundUp_small (structLayout_align aligned found) (by omega)
    rw [size]
    exact placed.2
  exact congrArg Except.ok exact_size

/-! ## What every build refuses -/

/-- The build panics nowhere. -/
def Total (word : Word) : Prop := ∀ n, ∃ m, word n = .ok m

theorem release_total : Total release := fun n => ⟨n % 2 ^ 64, rfl⟩

theorem unbounded_total : Total unbounded := fun n => ⟨n, rfl⟩

theorem placeFields_total (total : Total word) (packed : Bool)
    (reads : FieldsRead named fields layouts) (offset strict : Nat) :
    ∃ placed, placeFields word named packed fields offset strict = .ok placed := by
  induction reads generalizing offset strict with
  | nil => exact ⟨_, rfl⟩
  | @cons field inner rest layouts head tail induction =>
    obtain ⟨start, rounds⟩ :=
      total (RecordLayout.roundUp offset (if packed then 1 else inner.align))
    obtain ⟨next, adds⟩ := total (start + inner.size)
    obtain ⟨placed, places⟩ := induction next (max strict (if packed then 1 else inner.align))
    exact ⟨_, placeFields_cons head rounds adds places⟩

theorem structLayout_total (total : Total word) (reads : FieldsRead named decl.fields layouts) :
    ∃ layout, structLayout word named decl = .ok layout := by
  obtain ⟨⟨finish, strict, fields⟩, places⟩ :=
    placeFields_total total decl.repr.packed reads 0 1
  obtain ⟨size, rounds⟩ := total (RecordLayout.roundUp finish (declaredAlign decl strict))
  exact ⟨⟨size, declaredAlign decl strict, fields⟩,
    structLayout_ok_iff.mpr ⟨finish, strict, places, rfl, rounds⟩⟩

theorem fieldsRead_accepted
    (names : ∀ name layout, named name = .ok layout → ∃ layout, other name = .ok layout)
    (reads : FieldsRead named fields layouts) : ∃ layouts, FieldsRead other fields layouts := by
  induction reads with
  | nil => exact ⟨[], .nil⟩
  | @cons field inner rest layouts head tail induction =>
    obtain ⟨others, rest_read⟩ := induction
    rcases fieldLayout_cases field.ty with ⟨pointee, pointer⟩ | ⟨name, named_type⟩ | native
    · refine ⟨{ size := 8, align := 8, fields := [] } :: others, .cons ?_ rest_read⟩
      rw [pointer]
      rfl
    · rw [named_type, fieldLayout_name_ok] at head
      obtain ⟨layout, found⟩ := names name inner head
      refine ⟨layout :: others, .cons ?_ rest_read⟩
      rw [named_type, fieldLayout_name_ok]
      exact found
    · cases (native named).symm.trans head

/-- A name that has a layout in one build has one in every build that does not panic. -/
theorem layoutNamed_accepted {first second : Word} (total : Total second)
    (found : layoutNamed first module name depth = .ok layout) :
    ∃ layout, layoutNamed second module name depth = .ok layout := by
  refine layoutNamed_induction
    (motive := fun name depth _ => ∃ layout, layoutNamed second module name depth = .ok layout)
    ?_ ?_ found
  · intro name depth layout small aligned reads
    exact ⟨layout, reads second depth⟩
  · intro name depth decl layout reaches found induction
    obtain ⟨finish, strict, places, -⟩ := structLayout_ok_iff.mp found
    obtain ⟨layouts, reads⟩ := fieldsRead_of_placeFields places
    obtain ⟨others, others_read⟩ := fieldsRead_accepted induction reads
    rw [layoutNamed_struct reaches]
    exact structLayout_total total others_read

theorem placeFields_answers (total : Total word) (names : ∀ name, named name ≠ .error .overflow)
    (packed : Bool) (fields : List Field) (offset strict : Nat) :
    placeFields word named packed fields offset strict ≠ .error .overflow := by
  induction fields generalizing offset strict with
  | nil => exact fun overflows => nomatch overflows
  | cons field rest induction =>
    rw [placeFields]
    cases reads : fieldLayout named field.ty with
    | error stop =>
      intro overflows
      cases overflows
      rcases fieldLayout_cases field.ty with ⟨pointee, pointer⟩ | ⟨name, single⟩ | native
      · rw [pointer] at reads
        cases reads
      · rw [single, fieldLayout_name] at reads
        split at reads
        · cases reads
        · exact names name reads
      · rw [native] at reads
        cases reads
    | ok inner =>
      obtain ⟨start, rounds⟩ :=
        total (RecordLayout.roundUp offset (if packed then 1 else inner.align))
      obtain ⟨next, adds⟩ := total (start + inner.size)
      have rest_answers := induction next (max strict (if packed then 1 else inner.align))
      cases places : placeFields word named packed rest next
          (max strict (if packed then 1 else inner.align)) with
      | error stop =>
        intro overflows
        simp only [bind, Except.bind, roundUp, rounds, adds, places] at overflows
        cases overflows
        exact rest_answers places
      | ok placed =>
        intro overflows
        simp only [bind, Except.bind, roundUp, rounds, adds, places] at overflows
        cases overflows

theorem structLayout_answers (total : Total word) (names : ∀ name, named name ≠ .error .overflow)
    (decl : StructDecl) : structLayout word named decl ≠ .error .overflow := by
  unfold structLayout
  have places_answers := placeFields_answers total names decl.repr.packed decl.fields 0 1
  cases places : placeFields word named decl.repr.packed decl.fields 0 1 with
  | error stop =>
    intro overflows
    cases overflows
    exact places_answers places
  | ok placed =>
    obtain ⟨size, rounds⟩ :=
      total (RecordLayout.roundUp placed.1 (declaredAlign decl placed.2.1))
    intro overflows
    simp only [bind, Except.bind, roundUp, rounds] at overflows
    cases overflows

/-- A build that panics nowhere answers every name. -/
theorem layoutNamed_answers (total : Total word) (name : Ident) (depth : Nat) :
    layoutNamed word module name depth ≠ .error .overflow := by
  induction left : 65 - depth generalizing name depth with
  | zero =>
    cases reading module name depth with
    | struct decl reaches =>
      have shallow := reaches.shallow
      omega
    | given layout small aligned reads =>
      rw [reads]
      exact fun overflows => nomatch overflows
    | refused why refuses =>
      rw [refuses]
      exact fun overflows => nomatch overflows
  | succ left induction =>
    cases reading module name depth with
    | struct decl reaches =>
      rw [layoutNamed_struct reaches]
      exact structLayout_answers total (fun inner => induction inner (depth + 1) (by omega)) decl
    | given layout small aligned reads =>
      rw [reads]
      exact fun overflows => nomatch overflows
    | refused why refuses =>
      rw [refuses]
      exact fun overflows => nomatch overflows

/-- The build answers no number past 64 bits. -/
def Bounded (word : Word) : Prop := ∀ n m, word n = .ok m → m < 2 ^ 64

theorem release_bounded : Bounded release := by
  intro n m answers
  rw [← Except.ok.inj answers]
  exact Nat.mod_lt n (by decide)

theorem checked_bounded : Bounded checked := by
  intro n m answers
  unfold checked at answers
  split at answers
  next small =>
    rw [← Except.ok.inj answers]
    exact small
  next => cases answers

theorem layoutNamed_bounded (bounded : Bounded word)
    (found : layoutNamed word module name depth = .ok layout) : layout.size < 2 ^ 64 := by
  refine layoutNamed_induction (motive := fun _ _ layout => layout.size < 2 ^ 64) ?_ ?_ found
  · intro name depth layout small aligned reads
    exact small
  · intro name depth decl layout reaches found induction
    obtain ⟨finish, strict, -, -, rounds⟩ := structLayout_ok_iff.mp found
    exact bounded _ _ rounds

end WolfInterp.Layout
