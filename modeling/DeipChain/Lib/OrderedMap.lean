import Mathlib.Algebra.Ring.Int.Defs
import Mathlib.Algebra.Ring.Nat
import Mathlib.Data.List.Sort

/-!
# Lookups in ordered maps

The standard library states the lookups of an extensional tree map through the
comparison function. For a lawful order the comparison decides equality, and the
laws below are the forms in which the proofs of this development use them.
-/
namespace DeipChain.OrderedMap

open Std

universe u v
variable {α : Type u} {β : Type v} [Ord α] [TransOrd α] [LawfulEqOrd α]

theorem lookup_insert [DecidableEq α] (map : ExtTreeMap α β) (key other : α) (value : β) :
    (map.insert key value)[other]? = if key = other then some value else map[other]? := by
  rw [ExtTreeMap.getElem?_insert]
  simp only [Std.compare_eq_iff_eq]

theorem lookup_erase [DecidableEq α] (map : ExtTreeMap α β) (key other : α) :
    (map.erase key)[other]? = if key = other then none else map[other]? := by
  rw [ExtTreeMap.getElem?_erase]
  simp only [Std.compare_eq_iff_eq]

theorem mem_insert_iff {map : ExtTreeMap α β} {key other : α} {value : β} :
    other ∈ map.insert key value ↔ key = other ∨ other ∈ map := by
  rw [ExtTreeMap.mem_insert, Std.compare_eq_iff_eq]

omit [LawfulEqOrd α] in
theorem mem_iff_lookup {map : ExtTreeMap α β} {key : α} :
    key ∈ map ↔ ∃ value, map[key]? = some value := by
  rw [ExtTreeMap.mem_iff_isSome_getElem?, Option.isSome_iff_exists]

omit [LawfulEqOrd α] in
theorem lookup_none_iff {map : ExtTreeMap α β} {key : α} :
    map[key]? = none ↔ key ∉ map := by
  rw [ExtTreeMap.mem_iff_isSome_getElem?, Option.not_isSome_iff_eq_none]

/-- A key that is not there is inserted by `insertIfNew` as by `insert`. -/
theorem insertIfNew_fresh [DecidableEq α] {map : ExtTreeMap α β} {key : α}
    (fresh : map[key]? = none) (value : β) :
    map.insertIfNew key value = map.insert key value := by
  apply ExtTreeMap.ext_getElem?
  intro other
  rw [ExtTreeMap.getElem?_insertIfNew, lookup_insert]
  simp [lookup_none_iff.mp fresh]

/-- Erasing an absent key changes nothing. -/
theorem erase_fresh [DecidableEq α] {map : ExtTreeMap α β} {key : α}
    (fresh : map[key]? = none) : map.erase key = map := by
  apply ExtTreeMap.ext_getElem?
  intro other
  rw [lookup_erase]
  split
  · rename_i same
    rw [← same, fresh]
  · rfl

/-- The first pair with a key. -/
theorem find?_toList [DecidableEq α] (map : ExtTreeMap α β) (key : α) :
    (map.toList.find? fun pair => pair.1 = key).map Prod.snd = map[key]? := by
  cases found : map.toList.find? fun pair => pair.1 = key with
  | none =>
    rw [Option.map_none, eq_comm, Option.eq_none_iff_forall_ne_some]
    intro value present
    have missing := List.find?_eq_none.mp found (key, value)
      (ExtTreeMap.mem_toList_iff_getElem?_eq_some.mpr present)
    simp at missing
  | some pair =>
    have same : pair.1 = key := by simpa using List.find?_some found
    have member := List.mem_of_find?_eq_some found
    rw [Option.map_some, eq_comm, ← same]
    exact ExtTreeMap.mem_toList_iff_getElem?_eq_some.mp member

/-- Pairs that are inserted one by one where their keys are new. -/
theorem lookup_foldl_insertIfNew [DecidableEq α] {γ : Type v} (change : β → γ) (pairs : List (α × β))
    (map : ExtTreeMap α γ) (key : α) :
    (pairs.foldl (fun map pair => map.insertIfNew pair.1 (change pair.2)) map)[key]? =
      map[key]?.or ((pairs.find? fun pair => pair.1 = key).map fun pair => change pair.2) := by
  induction pairs generalizing map with
  | nil => simp
  | cons pair rest hypothesis =>
    rw [List.foldl_cons, hypothesis, ExtTreeMap.getElem?_insertIfNew, List.find?_cons]
    simp only [Std.compare_eq_iff_eq]
    by_cases same : pair.1 = key
    · subst same
      cases present : map[pair.1]? with
      | none => simp [lookup_none_iff.mp present]
      | some value => simp [mem_iff_lookup.mpr ⟨value, present⟩]
    · simp [same]

/-- All entries of another map, inserted where their keys are new. -/
theorem lookup_insertAllIfNew [DecidableEq α] {γ : Type v} (change : β → γ) (source : ExtTreeMap α β)
    (map : ExtTreeMap α γ) (key : α) :
    (source.toList.foldl (fun map pair => map.insertIfNew pair.1 (change pair.2)) map)[key]? =
      map[key]?.or (source[key]?.map change) := by
  rw [lookup_foldl_insertIfNew, ← find?_toList source, Option.map_map]
  rfl

end DeipChain.OrderedMap
