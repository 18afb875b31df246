import Mathlib.Data.List.Basic
import Mathlib.Order.Lattice

/-!
# Ordered maps as sorted lists

A finite map over ordered keys as the list of its entries in key order: one list for each map, so
that two maps with the same lookups are the same list.
-/

namespace WolfInterp.Lib.SortedMap

variable {κ υ : Type*} [LinearOrder κ]

/-- The entries stand in strict key order. -/
def Sorted (entries : List (κ × υ)) : Prop := entries.Pairwise fun a b => a.1 < b.1

/-- The value of the first entry under a key. -/
def get (key : κ) : List (κ × υ) → Option υ
  | [] => none
  | (name, value) :: rest => if name = key then some value else get key rest

/-- Put a value under a key, replacing the one that stands there. -/
def insert (key : κ) (value : υ) : List (κ × υ) → List (κ × υ)
  | [] => [(key, value)]
  | (name, old) :: rest =>
    if key < name then (key, value) :: (name, old) :: rest
    else if key = name then (key, value) :: rest
    else (name, old) :: insert key value rest

/-- Put the entries of a list into a map, one after the other. -/
def extend (entries added : List (κ × υ)) : List (κ × υ) :=
  added.foldl (fun map entry => insert entry.1 entry.2 map) entries

def erase (key : κ) (entries : List (κ × υ)) : List (κ × υ) :=
  entries.filter fun entry => entry.1 ≠ key

@[simp]
theorem get_nil (key : κ) : get key ([] : List (κ × υ)) = none := rfl

theorem get_cons (key name : κ) (value : υ) (rest : List (κ × υ)) :
    get key ((name, value) :: rest) = if name = key then some value else get key rest := rfl

variable {key : κ} {value : υ} {entries : List (κ × υ)}

theorem mem_of_get (found : get key entries = some value) : (key, value) ∈ entries := by
  induction entries with
  | nil => simp at found
  | cons entry rest ih =>
    obtain ⟨name, old⟩ := entry
    rw [get_cons] at found
    split at found
    · rename_i same
      cases found
      simp [same]
    · exact List.mem_cons_of_mem _ (ih found)

theorem get_eq_none : get key entries = none ↔ ∀ entry ∈ entries, entry.1 ≠ key := by
  induction entries with
  | nil => simp
  | cons entry rest ih =>
    obtain ⟨name, old⟩ := entry
    rw [get_cons, List.forall_mem_cons, ← ih]
    split <;> simp_all

/-- The entries of a sorted map are its lookups. -/
theorem Sorted.get_eq_some (sorted : Sorted entries) :
    get key entries = some value ↔ (key, value) ∈ entries := by
  refine ⟨mem_of_get, fun among => ?_⟩
  induction entries with
  | nil => simp at among
  | cons entry rest ih =>
    obtain ⟨name, old⟩ := entry
    obtain ⟨least, sorted⟩ := List.pairwise_cons.mp sorted
    rw [get_cons]
    rcases List.mem_cons.mp among with same | among
    · cases same
      simp
    · rw [if_neg (least _ among).ne]
      exact ih sorted among

/-! ## What the operations do to lookups -/

theorem get_insert (key name : κ) (value : υ) (entries : List (κ × υ)) :
    get key (insert name value entries) = if name = key then some value else get key entries := by
  induction entries with
  | nil => rfl
  | cons entry rest ih =>
    obtain ⟨head, old⟩ := entry
    rw [insert]
    split
    · rw [get_cons]
    · split
      · rename_i same
        subst same
        simp only [get_cons]
        split <;> rfl
      · simp only [get_cons, ih]
        grind

theorem get_append (key : κ) (entries more : List (κ × υ)) :
    get key (entries ++ more) = (get key entries).or (get key more) := by
  induction entries with
  | nil => simp
  | cons entry rest ih =>
    obtain ⟨head, old⟩ := entry
    rw [List.cons_append, get_cons, get_cons, ih]
    split <;> simp

/-- Among entries that are put in, the last one of a key counts. -/
theorem get_extend (key : κ) (entries added : List (κ × υ)) :
    get key (extend entries added) = (get key added.reverse).or (get key entries) := by
  induction added generalizing entries with
  | nil => simp [extend]
  | cons entry rest ih =>
    rw [extend, List.foldl_cons, ← extend, ih, get_insert, List.reverse_cons, get_append,
      get_cons, get_nil]
    split <;> simp

/-- With one entry for each key it does not matter which end the search starts from. -/
theorem get_reverse (distinct : (entries.map Prod.fst).Nodup) (key : κ) :
    get key entries.reverse = get key entries := by
  induction entries with
  | nil => rfl
  | cons entry rest ih =>
    obtain ⟨name, value⟩ := entry
    obtain ⟨fresh, distinct⟩ := List.nodup_cons.mp distinct
    rw [List.reverse_cons, get_append, ih distinct, get_cons, get_cons, get_nil]
    split
    · rename_i same
      have absent : get key rest = none := by
        apply get_eq_none.mpr
        rintro entry among rfl
        exact fresh (List.mem_map.mpr ⟨entry, among, same.symm⟩)
      simp [absent]
    · simp

theorem get_filter (key : κ) (keep : κ → Bool) (entries : List (κ × υ)) :
    get key (entries.filter fun entry => keep entry.1) =
      if keep key then get key entries else none := by
  induction entries with
  | nil => simp
  | cons entry rest ih =>
    obtain ⟨name, value⟩ := entry
    rw [List.filter_cons]
    split
    · rw [get_cons, get_cons, ih]
      grind
    · rw [get_cons, ih]
      grind

theorem get_erase (key name : κ) (entries : List (κ × υ)) :
    get key (erase name entries) = if key = name then none else get key entries := by
  rw [erase, get_filter key (fun found => found ≠ name)]
  by_cases same : key = name <;> simp [same]

/-! ## What the operations keep -/

theorem mem_insert {entry : κ × υ} (among : entry ∈ insert key value entries) :
    entry = (key, value) ∨ entry ∈ entries := by
  induction entries with
  | nil => simpa [insert] using among
  | cons head rest ih =>
    obtain ⟨name, old⟩ := head
    rw [insert] at among
    grind

theorem Sorted.insert (sorted : Sorted entries) (key : κ) (value : υ) :
    Sorted (insert key value entries) := by
  induction entries with
  | nil => simp [SortedMap.insert, Sorted]
  | cons head rest ih =>
    obtain ⟨name, old⟩ := head
    obtain ⟨least, below⟩ := List.pairwise_cons.mp sorted
    rw [SortedMap.insert]
    split
    · rename_i before
      refine List.pairwise_cons.mpr ⟨fun entry among => ?_, sorted⟩
      rcases List.mem_cons.mp among with rfl | among
      · exact before
      · exact before.trans (least entry among)
    · split
      · rename_i same
        exact List.pairwise_cons.mpr ⟨fun entry among => same ▸ least entry among, below⟩
      · rename_i notBefore other
        refine List.pairwise_cons.mpr ⟨fun entry among => ?_, ih below⟩
        rcases mem_insert among with rfl | among
        · exact lt_of_le_of_ne (not_lt.mp notBefore) (Ne.symm other)
        · exact least entry among

theorem mem_extend {entry : κ × υ} {added : List (κ × υ)} (among : entry ∈ extend entries added) :
    entry ∈ entries ∨ entry ∈ added := by
  induction added generalizing entries with
  | nil => exact .inl among
  | cons head rest ih =>
    rcases ih among with inserted | later
    · rcases mem_insert inserted with rfl | old
      · exact .inr (List.mem_cons_self ..)
      · exact .inl old
    · exact .inr (List.mem_cons_of_mem _ later)

theorem Sorted.extend (sorted : Sorted entries) (added : List (κ × υ)) :
    Sorted (extend entries added) := by
  induction added generalizing entries with
  | nil => exact sorted
  | cons entry rest ih => exact ih (sorted.insert entry.1 entry.2)

theorem Sorted.filter (sorted : Sorted entries) (keep : κ × υ → Bool) :
    Sorted (entries.filter keep) :=
  List.Pairwise.filter keep sorted

theorem Sorted.nodup (sorted : Sorted entries) : (entries.map Prod.fst).Nodup :=
  List.pairwise_map.mpr (sorted.imp fun below => below.ne)

/-- A sorted map is determined by its lookups. -/
theorem Sorted.ext {entries' : List (κ × υ)} (sorted : Sorted entries) (sorted' : Sorted entries')
    (same : ∀ key, get key entries = get key entries') : entries = entries' := by
  have nodup : ∀ {entries : List (κ × υ)}, Sorted entries → entries.Nodup :=
    fun sorted => sorted.imp fun below same => below.ne (congrArg Prod.fst same)
  have members : ∀ entry, entry ∈ entries ↔ entry ∈ entries' := by
    rintro ⟨key, value⟩
    rw [← sorted.get_eq_some, ← sorted'.get_eq_some, same]
  exact List.Perm.eq_of_pairwise
    (fun a b _ _ below above => absurd below (not_lt.mpr above.le)) sorted sorted'
    ((List.perm_ext_iff_of_nodup (nodup sorted) (nodup sorted')).mpr members)

end WolfInterp.Lib.SortedMap
