/-
  Rib/AdjRib.lean --- the Adj-RIB-In and the Adj-RIB-Out (`lr-rib/src/adj_rib_in.rs`,
  `adj_rib_out.rs`).

  The source nests the paths of a key in the Adj-RIB-Out; here a path stands under
  destination, key and transmit identifier, in the same order.
-/
import LibRouting.Core.Rib

set_option autoImplicit false

namespace LibRouting.Rib

open Foundation Core Option

/-- A received path: who contributed it, its key and its path identifier (RFC 7911). -/
@[ext] structure PathKey where
  origin : RouteOrigin
  key : RouteKey
  pathId : UInt32
  deriving DecidableEq, Repr

namespace PathKey

instance : Ord PathKey :=
  ⟨compareLex (compareOn origin) (compareLex (compareOn key) (compareOn pathId))⟩

instance : Std.TransOrd PathKey := inferInstanceAs (Std.TransCmp (compareLex _ (compareLex _ _)))

instance : Std.LawfulEqOrd PathKey where
  eq_of_compare h := PathKey.ext_iff.mpr (eq_of_compareLex₃ h)

end PathKey

/-- The path a route is filed under. -/
def PathKey.of (r : Route) : PathKey := ⟨r.origin, r.key, r.pathId⟩

/-- Routes received, by path. -/
abbrev AdjRibIn : Type := Std.ExtTreeMap PathKey Route compare

namespace AdjRibIn
variable {rib : AdjRibIn} {r : Route}

section

variable (rib : AdjRibIn) (origin : RouteOrigin)

/-- `feed_pre_policy`. -/
def feedPrePolicy (route : Route) : AdjRibIn :=
  rib.insert ⟨origin, route.key, route.pathId⟩ route

/-- `withdraw` (the table afterwards). -/
def withdraw (key : RouteKey) (pathId : UInt32) : AdjRibIn :=
  rib.erase ⟨origin, key, pathId⟩

/-- `get`. -/
def get (key : RouteKey) (pathId : UInt32) : Option Route :=
  rib[(⟨origin, key, pathId⟩ : PathKey)]?

/-- `iter_all`. -/
def iterAll : List Route := rib.toList.map (·.2)

end

section

variable (rib : AdjRibIn) (origin o : RouteOrigin)

/-- `iter_origin`. -/
def iterOrigin : List Route :=
  rib.toList.filterMap fun e => if e.1.origin = origin then some e.2 else none

/-- `clear_for`. -/
def clearFor : AdjRibIn :=
  rib.filter fun k _ => k.origin ≠ origin

/-- `mutate_origin` (the table afterwards): replace or, on `none`, remove every route of
an origin. -/
def mutateOrigin (f : Route → Option Route) : AdjRibIn :=
  rib.filterMap fun k r => if k.origin = origin then f r else some r

/-- What `mutate_origin` returns: how many routes it removed. -/
def removedBy (f : Route → Option Route) : Nat :=
  (rib.iterOrigin origin).countP fun r => (f r).isNone

@[simp] theorem get_feedPrePolicy (route : Route) (key : RouteKey) (pathId : UInt32) :
    get (rib.feedPrePolicy origin route) o key pathId =
      if (⟨origin, route.key, route.pathId⟩ : PathKey) = ⟨o, key, pathId⟩ then some route
      else rib.get o key pathId := by
  simp [get, feedPrePolicy, lookup_insert]

@[simp] theorem get_withdraw (k key : RouteKey) (i pathId : UInt32) :
    get (rib.withdraw origin k i) o key pathId =
      if (⟨origin, k, i⟩ : PathKey) = ⟨o, key, pathId⟩ then none else rib.get o key pathId := by
  simp [get, withdraw, lookup_erase]

@[simp] theorem get_clearFor (key : RouteKey) (pathId : UInt32) :
    get (rib.clearFor origin) o key pathId = if origin = o then none else rib.get o key pathId := by
  simp only [get, clearFor, Std.ExtTreeMap.getElem?_filter']
  split
  · rename_i h
    cases hr : rib[(⟨o, key, pathId⟩ : PathKey)]? <;> simp [h]
  · rename_i h
    cases hr : rib[(⟨o, key, pathId⟩ : PathKey)]? <;> simp [Ne.symm h]

end

theorem mem_iterAll : r ∈ rib.iterAll ↔ ∃ k : PathKey, rib[k]? = some r := by
  simp [iterAll, Std.ExtTreeMap.mem_toList_iff_getElem?_eq_some]

theorem mem_iterOrigin {origin : RouteOrigin} :
    r ∈ rib.iterOrigin origin ↔ ∃ key pathId, rib.get origin key pathId = some r := by
  simp only [iterOrigin, List.mem_filterMap, Prod.exists, ite_none_right_eq_some,
    some.injEq, Std.ExtTreeMap.mem_toList_iff_getElem?_eq_some, get]
  constructor
  · rintro ⟨⟨o, key, pathId⟩, r', h, rfl, rfl⟩
    exact ⟨key, pathId, h⟩
  · rintro ⟨key, pathId, h⟩
    exact ⟨⟨origin, key, pathId⟩, r, h, rfl, rfl⟩

end AdjRibIn

/-- Routes advertised, by path. -/
abbrev AdjRibOut : Type := Std.ExtTreeMap PathKey Route compare

namespace AdjRibOut
variable {rib : AdjRibOut} {dest : RouteOrigin} {key : RouteKey}

section

variable (rib : AdjRibOut) (dest : RouteOrigin)

/-- `advertise`. -/
def advertise (route : Route) (txPathId : UInt32) : AdjRibOut :=
  rib.insert ⟨dest, route.key, txPathId⟩ route

/-- `suppress` (the table afterwards). -/
def suppress (key : RouteKey) (txPathId : UInt32) : AdjRibOut :=
  rib.erase ⟨dest, key, txPathId⟩

/-- The path advertised under an identifier. -/
def get (key : RouteKey) (txPathId : UInt32) : Option Route :=
  rib[(⟨dest, key, txPathId⟩ : PathKey)]?

/-- `paths_for`: ascending in the identifier. -/
def pathsFor (key : RouteKey) : List (UInt32 × Route) :=
  rib.toList.filterMap fun e =>
    if e.1.origin = dest ∧ e.1.key = key then some (e.1.pathId, e.2) else none

/-- `tx_path_ids`. -/
def txPathIds (key : RouteKey) : List UInt32 :=
  (rib.pathsFor dest key).map (·.1)

/-- `advertised_keys`: the keys of one family with their identifiers. -/
def advertisedKeys (family : NlriFamily) : List (RouteKey × List UInt32) :=
  let keys := rib.toList.filterMap fun e =>
    if e.1.origin = dest ∧ e.1.key.family = family then some e.1.key else none
  keys.dedup.map fun key => (key, rib.txPathIds dest key)

/-- `clear_for`. -/
def clearFor : AdjRibOut :=
  rib.filter fun k _ => k.origin ≠ dest

@[simp] theorem get_advertise (d dest : RouteOrigin) (route : Route) (i : UInt32) (key : RouteKey)
    (txPathId : UInt32) :
    get (rib.advertise d route i) dest key txPathId =
      if (⟨d, route.key, i⟩ : PathKey) = ⟨dest, key, txPathId⟩ then some route
      else rib.get dest key txPathId := by
  simp [get, advertise, lookup_insert]

@[simp] theorem get_suppress (d dest : RouteOrigin) (k key : RouteKey) (i txPathId : UInt32) :
    get (rib.suppress d k i) dest key txPathId =
      if (⟨d, k, i⟩ : PathKey) = ⟨dest, key, txPathId⟩ then none
      else rib.get dest key txPathId := by
  simp [get, suppress, lookup_erase]

end

theorem mem_pathsFor {id : UInt32} {route : Route} :
    (id, route) ∈ rib.pathsFor dest key ↔ rib.get dest key id = some route := by
  simp only [pathsFor, List.mem_filterMap, Prod.exists, ite_none_right_eq_some,
    some.injEq, Prod.mk.injEq, Std.ExtTreeMap.mem_toList_iff_getElem?_eq_some, get]
  constructor
  · rintro ⟨⟨d, k, i⟩, r, h, ⟨rfl, rfl⟩, rfl, rfl⟩
    exact h
  · intro h
    exact ⟨⟨dest, key, id⟩, route, h, ⟨rfl, rfl⟩, rfl, rfl⟩

/-- The paths of a key are listed alike in tables that have the same ones. -/
theorem pathsFor_congr {rib' : AdjRibOut} (h : ∀ id, rib'.get dest key id = rib.get dest key id) :
    rib'.pathsFor dest key = rib.pathsFor dest key := by
  have hlist : ∀ t : AdjRibOut, t.pathsFor dest key =
      (t.filter fun k _ => decide (k.origin = dest ∧ k.key = key)).toList.map
        fun e => (e.1.pathId, e.2) := by
    intro t
    rw [pathsFor, Std.ExtTreeMap.toList_filter, ← List.filterMap_eq_map, List.filterMap_filter]
    simp only [decide_eq_true_eq, Function.comp_apply]
  rw [hlist, hlist, filter_congr]
  rintro ⟨origin, k, id⟩ hk
  obtain ⟨rfl, rfl⟩ := of_decide_eq_true hk
  exact h id

theorem get_eq_none {id : UInt32} (h : id ∉ rib.txPathIds dest key) :
    rib.get dest key id = none := by
  simpa [txPathIds, mem_pathsFor, Option.eq_none_iff_forall_ne_some] using h

end AdjRibOut

end LibRouting.Rib
