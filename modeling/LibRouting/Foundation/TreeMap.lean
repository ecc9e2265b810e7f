/-
  Foundation/TreeMap.lean --- the values of an ordered map, the map that keeps the
  cheapest value per key, and how many keys of a kind a map has.
-/
import Mathlib.Data.List.Nodup
import Mathlib.Data.List.Perm.Subperm

set_option autoImplicit false

namespace LibRouting.Foundation

open List Option
open Std (ExtTreeMap LawfulEqOrd)

universe u v w

variable {κ : Type u} {ν : Type v} [Ord κ] [Std.TransOrd κ] {m m' : ExtTreeMap κ ν compare}
  {p : κ → Bool}

section Lookup

variable [LawfulEqOrd κ] [DecidableEq κ] (m : ExtTreeMap κ ν compare) (k a : κ)

theorem lookup_insert (v : ν) : (m.insert k v)[a]? = if k = a then some v else m[a]? := by
  simp [ExtTreeMap.getElem?_insert]

theorem lookup_erase : (m.erase k)[a]? = if k = a then none else m[a]? := by
  simp [ExtTreeMap.getElem?_erase]

theorem lookup_modify (f : ν → ν) :
    (m.modify k f)[a]? = if k = a then (m[k]?).map f else m[a]? := by
  simp [ExtTreeMap.getElem?_modify]

end Lookup

/-- The values of a map, in key order. -/
def valuesOf (m : ExtTreeMap κ ν compare) : List ν := m.toList.map (·.2)

theorem mem_valuesOf [LawfulEqOrd κ] {v : ν} : v ∈ valuesOf m ↔ ∃ k : κ, m[k]? = some v := by
  simp [valuesOf, ExtTreeMap.mem_toList_iff_getElem?_eq_some]

variable {γ : Type w} [LE γ] [DecidableLE γ]

/-- Store a value under its key unless the one already there costs no more. -/
def keepLeast (key : ν → κ) (cost : ν → γ) (m : ExtTreeMap κ ν compare) (v : ν) :
    ExtTreeMap κ ν compare :=
  match m[key v]? with
  | some prev => if cost prev ≤ cost v then m else m.insert (key v) v
  | none => m.insert (key v) v

theorem keepLeast_getElem? {key : ν → κ} {cost : ν → γ} {v w : ν} {k : κ}
    (h : (keepLeast key cost m v)[k]? = some w) : w = v ∨ m[k]? = some w := by
  have hinsert (h : (m.insert (key v) v)[k]? = some w) : w = v ∨ m[k]? = some w := by
    rw [ExtTreeMap.getElem?_insert] at h
    split at h
    case isTrue => exact .inl (some.inj h).symm
    case isFalse => exact .inr h
  rw [keepLeast] at h
  split at h
  case h_1 prev _ =>
    split at h
    case isTrue => exact .inr h
    case isFalse => exact hinsert h
  case h_2 => exact hinsert h

/-! ## Counting keys -/

section

variable (p : κ → Bool) (m : ExtTreeMap κ ν compare) (k : κ)

/-- How many keys with a property a map has. -/
def countKeys : Nat :=
  m.toList.countP fun e => p e.1

theorem countKeys_eq_size : countKeys p m = (m.filter fun k _ => p k).size := by
  rw [← ExtTreeMap.length_toList, ExtTreeMap.toList_filter, countKeys,
    countP_eq_length_filter]

theorem filter_insert [LawfulEqOrd κ] (v : ν) :
    (m.insert k v).filter (fun k _ => p k) =
      if p k then (m.filter fun k _ => p k).insert k v else m.filter fun k _ => p k := by
  refine ExtTreeMap.ext_getElem? fun a => ?_
  by_cases ha : k = a
  · subst ha
    cases hp : p k with
    | false =>
      simp only [ExtTreeMap.getElem?_filter', hp, Bool.false_eq_true, if_false]
      cases m[k]? <;> cases (m.insert k v)[k]? <;> simp
    | true => simp [hp]
  · cases hp : p k <;> simp [ExtTreeMap.getElem?_insert, ha]

theorem filter_erase [LawfulEqOrd κ] :
    (m.erase k).filter (fun k _ => p k) = (m.filter fun k _ => p k).erase k := by
  refine ExtTreeMap.ext_getElem? fun a => ?_
  simp only [ExtTreeMap.getElem?_erase, ExtTreeMap.getElem?_filter']
  split <;> simp

theorem contains_filter_key [LawfulEqOrd κ] :
    (m.filter fun k _ => p k).contains k = (p k && m.contains k) := by
  rw [ExtTreeMap.contains_eq_isSome_getElem?, ExtTreeMap.contains_eq_isSome_getElem?,
    ExtTreeMap.getElem?_filter']
  cases m[k]? <;> cases p k <;> simp

/-- A new key counts once, one that is there already not again. -/
theorem countKeys_insert [LawfulEqOrd κ] (v : ν) :
    countKeys p (m.insert k v) = countKeys p m + if p k && !m.contains k then 1 else 0 := by
  rw [countKeys_eq_size, countKeys_eq_size, filter_insert]
  cases hp : p k with
  | false => simp
  | true =>
    rw [if_pos rfl, ExtTreeMap.size_insert, contains_filter_key, hp]
    cases m.contains k <;> simp

theorem countKeys_erase [LawfulEqOrd κ] :
    countKeys p m = countKeys p (m.erase k) + if p k && m.contains k then 1 else 0 := by
  rw [countKeys_eq_size, countKeys_eq_size, filter_erase, ExtTreeMap.size_erase,
    contains_filter_key]
  cases hc : (p k && m.contains k) with
  | false => simp
  | true =>
    have hmem : (m.filter fun k _ => p k).contains k = true := by
      rw [contains_filter_key, hc]
    have hpos : 0 < (m.filter fun k _ => p k).size := by
      rw [ExtTreeMap.contains_eq_isSome_getElem?] at hmem
      obtain ⟨v, hv⟩ := isSome_iff_exists.mp hmem
      rw [← ExtTreeMap.length_toList]
      exact length_pos_of_mem (ExtTreeMap.mem_toList_iff_getElem?_eq_some.mpr hv)
    simp only [if_true]
    omega

/-- A filter leaves out as many keys as it refuses. -/
theorem countKeys_filterMap {ν' : Type v} (f : κ → ν → Option ν') :
    countKeys p m = countKeys p (m.filterMap f) +
      m.toList.countP fun e => p e.1 && (f e.1 e.2).isNone := by
  rw [countKeys, countKeys, ExtTreeMap.toList_filterMap]
  induction m.toList with
  | nil => rfl
  | cons e l ih =>
    rw [countP_cons, countP_cons, ih, filterMap_cons]
    cases hf : f e.1 e.2 with
    | none =>
      simp only [map_none, isNone_none, Bool.and_true]
      omega
    | some v =>
      simp only [map_some, isNone_some, Bool.and_false, countP_cons]
      simp only [Bool.false_eq_true, if_false]
      omega

end

theorem countKeys_eq_zero [LawfulEqOrd κ] :
    countKeys p m = 0 ↔ ∀ (k : κ) (v : ν), m[k]? = some v → p k = false := by
  rw [countKeys, countP_eq_zero]
  constructor
  · intro h k v hk
    simpa using h (k, v) (ExtTreeMap.mem_toList_iff_getElem?_eq_some.mpr hk)
  · rintro h ⟨k, v⟩ hmem
    simp [h k v (ExtTreeMap.mem_toList_iff_getElem?_eq_some.mp hmem)]

/-- Maps that agree under the keys with a property have one part under those keys. -/
theorem filter_congr [LawfulEqOrd κ] (h : ∀ k : κ, p k = true → m'[k]? = m[k]?) :
    m'.filter (fun k _ => p k) = m.filter fun k _ => p k := by
  refine ExtTreeMap.ext_getElem? fun k => ?_
  rw [ExtTreeMap.getElem?_filter', ExtTreeMap.getElem?_filter']
  cases hp : p k with
  | true => rw [h k hp]
  | false => cases m[k]? <;> cases m'[k]? <;> rfl

theorem countKeys_congr [LawfulEqOrd κ] (h : ∀ k : κ, p k = true → m'[k]? = m[k]?) :
    countKeys p m' = countKeys p m := by
  rw [countKeys_eq_size, countKeys_eq_size, filter_congr h]

theorem nodup_keys [LawfulEqOrd κ] (m : ExtTreeMap κ ν compare) : m.keys.Nodup := by
  refine ExtTreeMap.distinct_keys.imp fun hne heq => hne ?_
  rw [heq]
  exact Std.ReflOrd.compare_self

theorem nodup_keys_filter [LawfulEqOrd κ] (p : κ → Bool) (m : ExtTreeMap κ ν compare) :
    ((m.toList.map (·.1)).filter p).Nodup := by
  rw [ExtTreeMap.map_fst_toList_eq_keys]
  exact (nodup_keys m).filter _

theorem countKeys_le [LawfulEqOrd κ] (h : ∀ k : κ, (m'[k]?).isSome → (m[k]?).isSome) :
    countKeys p m' ≤ countKeys p m := by
  have hcount : ∀ t : ExtTreeMap κ ν compare,
      countKeys p t = ((t.toList.map (·.1)).filter p).length := by
    intro t
    rw [countKeys, ← countP_eq_length_filter, countP_map]
    rfl
  rw [hcount, hcount]
  refine (subperm_of_subset (nodup_keys_filter p m') fun k hk => ?_).length_le
  obtain ⟨hmem, hp⟩ := mem_filter.mp hk
  obtain ⟨⟨k', v⟩, he, rfl⟩ := mem_map.mp hmem
  have hget := ExtTreeMap.mem_toList_iff_getElem?_eq_some.mp he
  obtain ⟨w, hw⟩ := isSome_iff_exists.mp (h k' (by rw [hget]; rfl))
  exact mem_filter.mpr
    ⟨mem_map.mpr ⟨(k', w), ExtTreeMap.mem_toList_iff_getElem?_eq_some.mpr hw, rfl⟩, hp⟩

theorem countP_or {α : Type v} {p q s : α → Bool} {l : List α} (hor : ∀ x ∈ l, p x = (q x || s x))
    (hnot : ∀ x ∈ l, (q x && s x) = false) : l.countP p = l.countP q + l.countP s := by
  induction l with
  | nil => rfl
  | cons x l ih =>
    have hx := hor x (.head _)
    have hx' := hnot x (.head _)
    rw [countP_cons, countP_cons, countP_cons,
      ih (fun y hy => hor y (.tail _ hy)) fun y hy => hnot y (.tail _ hy), hx]
    cases hq : q x <;> cases hs : s x <;> simp_all <;> omega

end LibRouting.Foundation
