/-
  Rib/LocRib.lean --- tables with one route per key, the Loc-RIB (`lr-rib/src/loc_rib.rs`)
  and selection across protocols (`lr-rib/src/selection.rs`).
-/
import LibRouting.Core.Rib
import LibRouting.Foundation.Comparator

set_option autoImplicit false

namespace LibRouting.Rib

open Core Foundation
open Std (ExtTreeMap)

/-! ## One route per key -/

/-- A table in which every route stands under its own key. -/
structure RouteTable where
  routes : ExtTreeMap RouteKey Route compare
  keyed : ∀ (key : RouteKey) (route : Route), routes[key]? = some route → route.key = key

namespace RouteTable

/-- No route. -/
def empty : RouteTable := ⟨∅, by simp⟩

instance : EmptyCollection RouteTable := ⟨empty⟩

instance : Inhabited RouteTable := ⟨∅⟩

section

variable (t : RouteTable) (key : RouteKey)

/-- The route of a key. -/
def get : Option Route := t.routes[key]?

theorem key_of_get {t : RouteTable} {key : RouteKey} {route : Route} (h : t.get key = some route) :
    route.key = key :=
  t.keyed key route h

/-- The key has a route. -/
def contains : Bool := (t.get key).isSome

/-- Store a route under its key. -/
def insert (route : Route) : RouteTable where
  routes := t.routes.insert route.key route
  keyed key r h := by
    rw [lookup_insert] at h
    split at h
    · rename_i heq
      cases h
      exact heq
    · exact t.keyed key r h

/-- The table without the key. -/
def erase : RouteTable where
  routes := t.routes.erase key
  keyed k r h := by
    rw [lookup_erase] at h
    split at h
    · cases h
    · exact t.keyed k r h

/-- The keys in order. -/
def keys : List RouteKey := t.routes.keys

@[simp] theorem get_insert (route : Route) (key : RouteKey) :
    (t.insert route).get key = if route.key = key then some route else t.get key := by
  simp [get, insert, lookup_insert]

end

@[simp] theorem get_erase (t : RouteTable) (k key : RouteKey) :
    (t.erase k).get key = if k = key then none else t.get key := by
  simp [get, erase, lookup_erase]

end RouteTable

/-! ## The Loc-RIB -/

/-- The ranked paths of every key, best first; a key that is present has a path. -/
abbrev LocRib : Type := ExtTreeMap RouteKey (List Route) compare

namespace LocRib

section

variable (rib : LocRib) (key : RouteKey)

/-- `paths`. -/
def paths : List Route := rib[key]?.getD []

/-- `best`. -/
def best : Option Route := (rib.paths key).head?

/-- `uninstall` (the table afterwards). -/
def uninstall : LocRib := rib.erase key

/-- `install_set`. -/
def installSet (ranked : List Route) : LocRib :=
  if ranked = [] then rib.uninstall key else rib.insert key ranked

/-- Replace the path with the identifier of `route`, or push at the end. -/
def replacePath (route : Route) : List Route → List Route
  | [] => [route]
  | r :: rest => if r.pathId = route.pathId then route :: rest else r :: replacePath route rest

/-- `install` (the table afterwards). -/
def install (route : Route) : LocRib :=
  rib.insert route.key (replacePath route (rib.paths route.key))

/-- `iter_best`. -/
def iterBest : List Route := rib.toList.filterMap fun entry => entry.2.head?

@[simp] theorem paths_uninstall (k key : RouteKey) :
    paths (rib.uninstall k) key = if k = key then [] else rib.paths key := by
  simp only [paths, uninstall, lookup_erase]
  split <;> rfl

@[simp] theorem paths_installSet (k key : RouteKey) (ranked : List Route) :
    paths (rib.installSet k ranked) key = if k = key then ranked else rib.paths key := by
  unfold installSet
  split
  · rename_i h
    rw [paths_uninstall, h]
  · simp only [paths, lookup_insert]
    split <;> rfl

@[simp] theorem paths_install (route : Route) (key : RouteKey) :
    paths (rib.install route) key =
      if route.key = key then replacePath route (rib.paths key) else rib.paths key := by
  simp only [paths, install, lookup_insert]
  split
  · rename_i h
    simp [h]
  · rfl

end

end LocRib

/-! ## Selection across protocols -/

namespace RouteSelector

/-- `proto_priority`. -/
def protoPriority : Protocol → UInt8
  | .connected => 0
  | .static => 1
  | .bgp => 2
  | .ospfv2 | .ospfv3 => 3
  | .babel => 4
  | .other _ => 9

/-- `RouteSelector::compare`: lower administrative distance, lower metric, younger,
protocol. -/
def compare : Route → Route → Ordering :=
  compareLex (compareOn fun r => r.preference.adminDistance) <|
  compareLex (compareOn fun r => r.preference.metric) <|
  compareLex (compareOn Route.ageMs) (compareOn fun r => protoPriority r.protocol)

/-- `RouteSelector::select`. -/
def select (routes : List Route) : Option Route := minBy compare routes

end RouteSelector

end LibRouting.Rib
