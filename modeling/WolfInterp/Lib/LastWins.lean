import Mathlib.Data.List.Induction
import Mathlib.Data.List.Nodup

/-!
# Last value, first place

A list of pairs in which a key may occur more than once stands for a map: each key once, in the
order of the first occurrences, with the value of its last one.
-/

namespace LastWins

variable {Key Value Other : Type} [DecidableEq Key]

/-- The value of a key's last occurrence. -/
def lastOf (pairs : List (Key × Value)) (key : Key) : Option Value := pairs.reverse.lookup key

/-- Each key once, in the order of the first occurrences. -/
def firsts (keys : List Key) : List Key := keys.eraseDups

/-- Each key in its first place, with its last value. -/
def merge (pairs : List (Key × Value)) : List (Key × Value) :=
  (firsts (pairs.map Prod.fst)).filterMap fun key =>
    (lastOf pairs key).map fun value => (key, value)

variable {pairs : List (Key × Value)} {key other : Key} {value : Value}

@[simp]
theorem lastOf_nil (key : Key) : lastOf ([] : List (Key × Value)) key = none := rfl

theorem lastOf_snoc :
    lastOf (pairs ++ [(key, value)]) other =
      if other = key then some value else lastOf pairs other := by
  rw [lastOf, List.reverse_append, List.reverse_singleton, List.singleton_append, List.lookup_cons]
  by_cases same : other = key
  · rw [if_pos same, same, beq_self_eq_true]
  · rw [if_neg same, beq_false_of_ne same]
    rfl

theorem lastOf_eq_none_iff : lastOf pairs key = none ↔ key ∉ pairs.map Prod.fst := by
  induction pairs using List.reverseRecOn with
  | nil => simp
  | append_singleton pairs pair induction =>
    rw [lastOf_snoc, List.map_append, List.mem_append]
    by_cases same : key = pair.1
    · simp [same]
    · simp [same, induction]

theorem lastOf_isSome (listed : key ∈ pairs.map Prod.fst) :
    ∃ value, lastOf pairs key = some value := by
  cases found : lastOf pairs key with
  | none => exact absurd listed (lastOf_eq_none_iff.mp found)
  | some value => exact ⟨value, rfl⟩

theorem mem_keys_of_lastOf (found : lastOf pairs key = some value) : key ∈ pairs.map Prod.fst := by
  by_contra absent
  rw [lastOf_eq_none_iff.mpr absent] at found
  cases found

theorem lastOf_map (update : Value → Other) (pairs : List (Key × Value)) (key : Key) :
    lastOf (pairs.map fun pair => (pair.1, update pair.2)) key = (lastOf pairs key).map update := by
  induction pairs using List.reverseRecOn with
  | nil => rfl
  | append_singleton pairs pair induction =>
    rw [List.map_append, List.map_singleton, lastOf_snoc, lastOf_snoc, induction]
    split <;> rfl

omit [DecidableEq Key] in
theorem filterMap_keys {keys : List Key} {found : Key → Option Value}
    (all : ∀ key ∈ keys, (found key).isSome) :
    (keys.filterMap fun key => (found key).map fun value => (key, value)).map Prod.fst = keys := by
  induction keys with
  | nil => rfl
  | cons key rest induction =>
    obtain ⟨value, same⟩ := Option.isSome_iff_exists.mp (all key List.mem_cons_self)
    have rest_keys := induction fun later listed => all later (List.mem_cons_of_mem key listed)
    simp [same, rest_keys]

theorem mem_firsts {keys : List Key} : key ∈ firsts keys ↔ key ∈ keys := List.mem_eraseDups

theorem firsts_snoc_old {keys : List Key} (old : key ∈ keys) :
    firsts (keys ++ [key]) = firsts keys := by
  rw [firsts, List.eraseDups_append]
  simp [List.removeAll, old, firsts]

theorem firsts_snoc_new {keys : List Key} (new : key ∉ keys) :
    firsts (keys ++ [key]) = firsts keys ++ [key] := by
  rw [firsts, List.eraseDups_append]
  simp [List.removeAll, new, List.eraseDups_cons, firsts]

theorem nodup_firsts (keys : List Key) : (firsts keys).Nodup := by
  induction keys using List.reverseRecOn with
  | nil => exact List.nodup_nil
  | append_singleton keys key induction =>
    by_cases old : key ∈ keys
    · rw [firsts_snoc_old old]
      exact induction
    · rw [firsts_snoc_new old, List.nodup_append]
      refine ⟨induction, List.nodup_singleton key, ?_⟩
      intro before listed after single same
      rw [List.mem_singleton] at single
      rw [same, single] at listed
      exact old (mem_firsts.mp listed)

/-- The keys are those of the list, each in its first place. -/
theorem keys_merge (pairs : List (Key × Value)) :
    (merge pairs).map Prod.fst = firsts (pairs.map Prod.fst) := by
  apply filterMap_keys
  intro key listed
  obtain ⟨value, found⟩ := lastOf_isSome (mem_firsts.mp listed)
  rw [found]
  rfl

theorem mem_keys_merge : key ∈ (merge pairs).map Prod.fst ↔ key ∈ pairs.map Prod.fst := by
  rw [keys_merge]
  exact mem_firsts

theorem nodup_keys_merge (pairs : List (Key × Value)) : ((merge pairs).map Prod.fst).Nodup := by
  rw [keys_merge]
  exact nodup_firsts _

/-- The values are those of the last occurrences. -/
theorem mem_merge : (key, value) ∈ merge pairs ↔ lastOf pairs key = some value := by
  constructor
  · intro listed
    obtain ⟨other, -, same⟩ := List.mem_filterMap.mp listed
    obtain ⟨found, last, equal⟩ := Option.map_eq_some_iff.mp same
    cases equal
    exact last
  · intro last
    apply List.mem_filterMap.mpr
    refine ⟨key, mem_firsts.mpr (mem_keys_of_lastOf last), ?_⟩
    rw [last]
    rfl

theorem merge_map (update : Value → Other) (pairs : List (Key × Value)) :
    merge (pairs.map fun pair => (pair.1, update pair.2)) =
      (merge pairs).map fun pair => (pair.1, update pair.2) := by
  have keys : (pairs.map fun pair => (pair.1, update pair.2)).map Prod.fst =
      pairs.map Prod.fst := by
    rw [List.map_map]
    rfl
  rw [merge, keys, merge, List.map_filterMap]
  congr 1
  funext key
  rw [lastOf_map, Option.map_map, Option.map_map]
  rfl

/-- A key that occurred keeps its place and takes the new value. -/
theorem merge_snoc_old (old : key ∈ pairs.map Prod.fst) : merge (pairs ++ [(key, value)]) =
      (merge pairs).map fun pair => if pair.1 = key then (pair.1, value) else pair := by
  rw [merge, List.map_append, List.map_singleton, firsts_snoc_old old, merge, List.map_filterMap]
  apply List.filterMap_congr
  intro other listed
  rw [lastOf_snoc, Option.map_map]
  by_cases same : other = key
  · obtain ⟨before, last⟩ := lastOf_isSome (mem_firsts.mp listed)
    rw [if_pos same, last, Option.map_some, Option.map_some]
    exact congrArg some (if_pos same).symm
  · rw [if_neg same]
    congr 1
    funext before
    exact (if_neg same).symm

/-- A new key comes last. -/
theorem merge_snoc_new (new : key ∉ pairs.map Prod.fst) :
    merge (pairs ++ [(key, value)]) = merge pairs ++ [(key, value)] := by
  rw [merge, List.map_append, List.map_singleton, firsts_snoc_new new, List.filterMap_append]
  congr 1
  · apply List.filterMap_congr
    intro other listed
    rw [lastOf_snoc, if_neg]
    intro same
    rw [same] at listed
    exact new (mem_firsts.mp listed)
  · rw [List.filterMap_cons, lastOf_snoc, if_pos rfl]
    rfl

end LastWins
