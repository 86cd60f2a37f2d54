import Mathlib

/-!
# Values of an ordered map

`Std.ExtTreeMap` iterates over its keys in order, as `BTreeMap` does.  This module
restates lookups after an update with equality of keys, and adds the list of values
and what insertion does to it.
-/

namespace TreeMap

open Std

section Lookup

variable {κ ν : Type} [Ord κ] [TransOrd κ] [LawfulEqOrd κ] [DecidableEq κ]

theorem get_insert (m : ExtTreeMap κ ν) (key query : κ) (value : ν) :
    (m.insert key value)[query]? = if key = query then some value else m[query]? := by
  simp only [ExtTreeMap.getElem?_insert, LawfulEqCmp.compare_eq_iff_eq]

theorem get_erase (m : ExtTreeMap κ ν) (key query : κ) :
    (m.erase key)[query]? = if key = query then none else m[query]? := by
  simp only [ExtTreeMap.getElem?_erase, LawfulEqCmp.compare_eq_iff_eq]

@[simp] theorem get_insert_self (m : ExtTreeMap κ ν) (key : κ) (value : ν) :
    (m.insert key value)[key]? = some value := by
  rw [get_insert, if_pos rfl]

@[simp] theorem get_erase_self (m : ExtTreeMap κ ν) (key : κ) :
    (m.erase key)[key]? = none := by
  rw [get_erase, if_pos rfl]

/-- A map is determined by its entries. -/
theorem ofList_toList (m : ExtTreeMap κ ν) : ExtTreeMap.ofList m.toList = m := by
  apply ExtTreeMap.ext_getElem?
  intro key
  match found : m[key]? with
  | some value =>
      exact ExtTreeMap.getElem?_ofList_of_mem compare_self ExtTreeMap.distinct_keys_toList
        (ExtTreeMap.mem_toList_iff_getElem?_eq_some.mpr found)
  | none =>
      refine ExtTreeMap.getElem?_ofList_of_contains_eq_false ?_
      rw [ExtTreeMap.map_fst_toList_eq_keys, List.contains_eq_mem, decide_eq_false_iff_not,
        ExtTreeMap.mem_keys]
      simpa using found

end Lookup

section Values

variable {κ ν : Type} [Ord κ] [TransOrd κ]

/-- The values of a map, in the order of their keys. -/
def values (m : ExtTreeMap κ ν) : List ν := m.toList.map (·.2)

/-- Number of values with a property, as the size of the filtered map. -/
theorem length_filter_values (m : ExtTreeMap κ ν) (accept : ν → Bool) :
    ((values m).filter accept).length = (m.filter fun _ value => accept value).size := by
  rw [← ExtTreeMap.length_toList, ExtTreeMap.toList_filter, values, List.filter_map,
    List.length_map]
  rfl

theorem contains_iff {m : ExtTreeMap κ ν} {key : κ} :
    m.contains key = true ↔ ∃ value, m[key]? = some value := by
  rw [ExtTreeMap.contains_eq_isSome_getElem?, Option.isSome_iff_exists]

theorem contains_eq_false_iff {m : ExtTreeMap κ ν} {key : κ} :
    m.contains key = false ↔ m[key]? = none := by
  rw [ExtTreeMap.contains_eq_isSome_getElem?, Option.isSome_eq_false_iff,
    Option.isNone_iff_eq_none]

variable [LawfulEqOrd κ]

theorem mem_values {m : ExtTreeMap κ ν} {value : ν} :
    value ∈ values m ↔ ∃ key : κ, m[key]? = some value := by
  simp only [values, List.mem_map, Prod.exists, exists_eq_right,
    ExtTreeMap.mem_toList_iff_getElem?_eq_some]

theorem mem_values_of_get {m : ExtTreeMap κ ν} {key : κ} {value : ν}
    (found : m[key]? = some value) : value ∈ values m :=
  mem_values.mpr ⟨key, found⟩

/-- Filtering commutes with insertion, up to erasing a value that is not kept. -/
theorem filter_insert (m : ExtTreeMap κ ν) (key : κ) (value : ν) (accept : ν → Bool) :
    ((m.insert key value).filter fun _ v => accept v) =
      if accept value then (m.filter fun _ v => accept v).insert key value
      else (m.filter fun _ v => accept v).erase key := by
  apply ExtTreeMap.ext_getElem?
  intro query
  rw [ExtTreeMap.getElem?_filter', ExtTreeMap.getElem?_insert]
  by_cases equal : compare key query = .eq
  · cases LawfulEqOrd.eq_of_compare equal
    cases accepted : accept value <;> simp [accepted]
  · rw [if_neg equal]
    split
    · rw [ExtTreeMap.getElem?_insert, if_neg equal, ExtTreeMap.getElem?_filter']
    · rw [ExtTreeMap.getElem?_erase, if_neg equal, ExtTreeMap.getElem?_filter']

/-- Inserting one entry adds at most one value with a property. -/
theorem length_filter_values_insert_le (m : ExtTreeMap κ ν) (key : κ) (value : ν)
    (accept : ν → Bool) :
    ((values (m.insert key value)).filter accept).length ≤
      ((values m).filter accept).length + 1 := by
  rw [length_filter_values, length_filter_values, filter_insert]
  split
  · exact ExtTreeMap.size_insert_le
  · exact Nat.le_succ_of_le ExtTreeMap.size_erase_le

theorem mem_keys {m : ExtTreeMap κ ν} {key : κ} :
    key ∈ m.keys ↔ ∃ value, m[key]? = some value := by
  rw [ExtTreeMap.mem_keys, ← ExtTreeMap.contains_iff_mem, contains_iff]

/-- Values that know their keys. -/
theorem map_values_eq_keys {m : ExtTreeMap κ ν} {name : ν → κ}
    (keyed : ∀ {key : κ} {value : ν}, m[key]? = some value → name value = key) :
    (values m).map name = m.keys := by
  rw [values, List.map_map, ← ExtTreeMap.map_fst_toList_eq_keys]
  refine List.map_congr_left fun entry member => ?_
  exact keyed (ExtTreeMap.mem_toList_iff_getElem?_eq_some.mp member)

end Values

/-! ## Images of maps -/

section Image

variable {κ ν μ : Type} [Ord κ] [TransOrd κ]

/-- The map with a function applied to every value. -/
def image (f : ν → μ) (m : ExtTreeMap κ ν) : ExtTreeMap κ μ := m.map fun _ => f

theorem values_image (f : ν → μ) (m : ExtTreeMap κ ν) :
    values (image f m) = (values m).map f := by
  rw [values, image, ExtTreeMap.toList_map, values, List.map_map, List.map_map]
  rfl

variable [LawfulEqOrd κ]

@[simp] theorem get_image (f : ν → μ) (m : ExtTreeMap κ ν) (key : κ) :
    (image f m)[key]? = m[key]?.map f := by
  simp [image]

/-- Two maps have the same image if their values at every key do. -/
theorem image_eq_image_iff {f : ν → μ} {m m' : ExtTreeMap κ ν} :
    image f m = image f m' ↔ ∀ key : κ, m[key]?.map f = m'[key]?.map f := by
  constructor
  · intro equal key
    rw [← get_image, equal, get_image]
  · intro equal
    apply ExtTreeMap.ext_getElem?
    intro key
    rw [get_image, get_image, equal]

theorem get_of_image_eq {f : ν → μ} {m m' : ExtTreeMap κ ν} (equal : image f m = image f m')
    {key : κ} {value : ν} (found : m[key]? = some value) :
    ∃ value', m'[key]? = some value' ∧ f value' = f value := by
  have same := image_eq_image_iff.mp equal key
  rw [found, Option.map_some] at same
  exact Option.map_eq_some_iff.mp same.symm

theorem image_image {μ' : Type} (f : ν → μ) (g : μ → μ') (m : ExtTreeMap κ ν) :
    image g (image f m) = image (g ∘ f) m := by
  apply ExtTreeMap.ext_getElem?
  intro key
  rw [get_image, get_image, get_image, Option.map_map]

variable [DecidableEq κ]

/-- Replacing a value by one with the same image does not change the image. -/
theorem image_insert_of_eq {f : ν → μ} {m : ExtTreeMap κ ν} {key : κ} {value value' : ν}
    (found : m[key]? = some value) (same : f value' = f value) :
    image f (m.insert key value') = image f m := by
  rw [image_eq_image_iff]
  intro query
  rw [get_insert]
  split
  · next equal => rw [← equal, found, Option.map_some, Option.map_some, same]
  · rfl

end Image

end TreeMap
