/-
  Babel/Route.lean --- the route table of one Babel neighbour
  (`lr-babel/src/route.rs`, `metric.rs`).

  A table keeps one feasibility distance per destination and source prefix.
  An update is stored only when it beats that distance; the retraction of the
  selected route forgets the distance.
-/
import LibRouting.Core.Rib

set_option autoImplicit false

namespace LibRouting.Babel

open Foundation Core
open Std (ExtTreeMap LawfulEqOrd)

/-! ## Keys -/

/-- A destination prefix with an optional source prefix (RFC 9079). -/
@[ext] structure Target where
  destination : Prefix
  source : Option Prefix
  deriving DecidableEq, Repr

namespace Target

instance : Ord Target := ⟨compareLex (compareOn destination) (compareOn source)⟩

instance : Std.TransOrd Target := inferInstanceAs (Std.TransCmp (compareLex _ _))

instance : LawfulEqOrd Target where
  eq_of_compare h := Target.ext_iff.mpr (eq_of_compareLex h)

end Target

/-- The key of a route: its target and the router that originates it. -/
structure RouteKey where
  destination : Prefix
  source : Option Prefix
  routerId : Octets 8
  deriving DecidableEq, Repr

namespace RouteKey

/-- The destination and source of the route. -/
def target (k : RouteKey) : Target := ⟨k.destination, k.source⟩

instance : Ord RouteKey :=
  ⟨compareLex (compareOn destination)
    (compareLex (compareOn source) (compareOn fun k => k.routerId.bytes))⟩

instance : Std.TransOrd RouteKey := inferInstanceAs (Std.TransCmp (compareLex _ (compareLex _ _)))

instance : LawfulEqOrd RouteKey where
  eq_of_compare := by
    rintro ⟨a, n, x⟩ ⟨b, m, y⟩ h
    obtain ⟨rfl, rfl, hid⟩ : a = b ∧ n = m ∧ x.bytes = y.bytes := eq_of_compareLex₃ h
    obtain rfl := Octets.ext hid
    rfl

end RouteKey

/-- A route as a neighbour announced it, the link cost already added. -/
structure BabelRoute where
  key : RouteKey
  seqno : UInt16
  metric : UInt32
  nextHop : IpAddr
  feasible : Bool
  deriving DecidableEq, Repr

/-- When a route was last announced, and the interval that announcement promised. -/
structure RouteTiming where
  intervalCs : UInt16
  lastSeenMs : Nat
  deriving DecidableEq, Repr

/-! ## The feasibility order -/

/-- A sequence number with a metric. -/
structure Distance where
  seqno : UInt16
  metric : UInt32
  deriving DecidableEq, Repr

/-- The wrapping difference of two sequence numbers, as a signed 16-bit number. -/
def seqnoCmp (a b : UInt16) : Int16 := a.toInt16 - b.toInt16

/-- `feasible`: the first distance is strictly better than the second. -/
def feasible (d f : Distance) : Bool :=
  if seqnoCmp d.seqno f.seqno > 0 then true
  else if seqnoCmp d.seqno f.seqno = 0 then d.metric < f.metric
  else false

namespace Distance

/-- Strictly better than the other distance, or equal to it. -/
def AtLeast (d f : Distance) : Prop := feasible d f = true ∨ d = f
  deriving Decidable

theorem AtLeast.rfl' (d : Distance) : d.AtLeast d := .inr rfl

/-- The sequence number lies in the half of the number circle that starts at `base`. -/
def InWindow (base : UInt16) (d : Distance) : Prop := (d.seqno - base).toNat < 2 ^ 15
  deriving Decidable

end Distance

/-- Inside half a circle the wrapping difference is the difference of the offsets. -/
theorem seqnoCmp_toInt {base a b : UInt16} (ha : (a - base).toNat < 2 ^ 15)
    (hb : (b - base).toNat < 2 ^ 15) :
    (seqnoCmp a b).toInt = ((a - base).toNat : Int) - (b - base).toNat := by
  have toInt (c : UInt16) : c.toInt16.toInt = Int.bmod c.toNat (2 ^ 16) := by
    rw [← Int16.toInt_toBitVec, UInt16.toBitVec_toInt16, BitVec.toInt_eq_toNat_bmod]
    rfl
  have hcmp : (seqnoCmp a b).toInt = ((a.toNat : Int) - b.toNat).bmod (2 ^ 16) := by
    rw [seqnoCmp, Int16.toInt_sub, toInt, toInt, Int.bmod_sub_bmod, Int.sub_bmod_bmod]
  have hlt := a.toNat_lt
  have hlt' := b.toNat_lt
  have hlt'' := base.toNat_lt
  rw [hcmp, Int.bmod_def]
  simp only [UInt16.toNat_sub] at *
  generalize a.toNat = x at *
  generalize b.toNat = y at *
  generalize base.toNat = z at *
  omega

namespace Distance

variable {base : UInt16} {d f g : Distance}

section

variable (hd : d.InWindow base) (hf : f.InWindow base)
include hd hf

/-- Inside half a circle the feasibility order is lexicographic. -/
theorem feasible_iff :
    feasible d f = true ↔
      (f.seqno - base).toNat < (d.seqno - base).toNat ∨
        (d.seqno - base).toNat = (f.seqno - base).toNat ∧ d.metric < f.metric := by
  have hcmp := seqnoCmp_toInt hd hf
  simp only [feasible, gt_iff_lt, Int16.lt_iff_toInt_lt, ← Int16.toInt_inj, hcmp,
    Int16.toInt_zero]
  split
  case isTrue h => exact iff_of_true rfl (.inl (by omega))
  case isFalse h =>
    split
    case isTrue h' =>
      rw [decide_eq_true_iff, UInt32.lt_iff_toNat_lt]
      omega
    case isFalse h' => exact iff_of_false (by simp) (by omega)

theorem atLeast_iff :
    d.AtLeast f ↔
      (f.seqno - base).toNat < (d.seqno - base).toNat ∨
        (d.seqno - base).toNat = (f.seqno - base).toNat ∧ d.metric ≤ f.metric := by
  have heq : d = f ↔ (d.seqno - base).toNat = (f.seqno - base).toNat ∧ d.metric = f.metric := by
    rw [UInt16.toNat_inj, UInt16.sub_left_inj]
    cases d
    cases f
    simp
  rw [AtLeast, feasible_iff hd hf, heq, UInt32.le_iff_toNat_le, UInt32.lt_iff_toNat_lt,
    ← UInt32.toNat_inj]
  omega

/-- The feasibility order is transitive as long as the sequence numbers have not moved
half the circle. -/
theorem AtLeast.trans (hg : g.InWindow base) (h : d.AtLeast f) (h' : f.AtLeast g) :
    d.AtLeast g := by
  rw [atLeast_iff hd hf, UInt32.le_iff_toNat_le] at h
  rw [atLeast_iff hf hg, UInt32.le_iff_toNat_le] at h'
  rw [atLeast_iff hd hg, UInt32.le_iff_toNat_le]
  omega

end

end Distance

/-! ## The table -/

/-- `hold_ms`. -/
def holdMs (intervalCs : UInt16) : Nat := max (intervalCs.toNat * 60) 30000

/-- The routes one neighbour announced.  Each route is stored under its own key. -/
structure BabelRouteTable where
  routes : ExtTreeMap RouteKey BabelRoute compare
  /-- The best distance accepted per target. -/
  feasible : ExtTreeMap Target Distance compare
  timing : ExtTreeMap RouteKey RouteTiming compare
  keyed : ∀ (k : RouteKey) (r : BabelRoute), routes[k]? = some r → r.key = k

namespace BabelRoute

/-- Sequence number and metric. -/
def distance (r : BabelRoute) : Distance := ⟨r.seqno, r.metric⟩

end BabelRoute

namespace BabelRouteTable
variable {t : BabelRouteTable} {route : BabelRoute}

/-- No route. -/
def new : BabelRouteTable := ⟨∅, ∅, ∅, by simp⟩

section

variable (t : BabelRouteTable) (route : BabelRoute)

/-- An accepted route enters the table: it becomes the distance of its target when it
beats the one recorded. -/
def accept (timing : RouteTiming) : BabelRouteTable where
  routes := t.routes.insert route.key { route with feasible := true }
  feasible :=
    match t.feasible[route.key.target]? with
    | some f =>
      if seqnoCmp route.seqno f.seqno > 0 ∨
          (seqnoCmp route.seqno f.seqno = 0 ∧ route.metric < f.metric) then
        t.feasible.insert route.key.target route.distance
      else t.feasible
    | none => t.feasible.insert route.key.target route.distance
  timing := t.timing.insert route.key timing
  keyed := by
    intro k r hr
    rw [lookup_insert] at hr
    split at hr
    case isTrue heq =>
      cases hr
      exact heq
    case isFalse => exact t.keyed k r hr

/-- The stored claim is announced again. -/
def isRefresh : Bool :=
  match t.routes[route.key]? with
  | some prev => prev.seqno == route.seqno && prev.metric == route.metric
  | none => false

/-- The update beats the distance recorded for its target, if there is one. -/
def admits : Bool :=
  match t.feasible[route.key.target]? with
  | some f => Babel.feasible route.distance f
  | none => true

/-- `insert_timed`.  The exact repetition of the stored claim only pushes its expiry out;
an infeasible update is ignored. -/
def insertTimed (intervalCs : UInt16) (nowMs : Nat) : BabelRouteTable :=
  if t.isRefresh route then { t with timing := t.timing.insert route.key ⟨intervalCs, nowMs⟩ }
  else if t.admits route then t.accept route ⟨intervalCs, nowMs⟩
  else t

/-- The first route of least metric among the feasible ones of a target, in key order. -/
def successor (target : Target) : Option BabelRoute :=
  ((valuesOf t.routes).filter fun r => r.feasible && r.key.target == target).foldl
    (fun best r =>
      match best with
      | none => some r
      | some b => if b.metric ≤ r.metric then some b else some r) none

/-- `withdraw`.  When the selected route of its target goes, the target's distance goes
with it: the same claim may come back after a link flap. -/
def withdraw (key : RouteKey) : BabelRouteTable where
  routes := t.routes.erase key
  timing := t.timing.erase key
  feasible :=
    if (t.successor key.target).any fun r => r.key == key then t.feasible.erase key.target
    else t.feasible
  keyed := by
    intro k r hr
    rw [lookup_erase] at hr
    split at hr
    case isTrue => cases hr
    case isFalse => exact t.keyed k r hr

/-- The routes whose announcements have stopped for longer than their hold time. -/
def lapsed (nowMs : Nat) : List RouteKey :=
  (t.timing.toList.filter fun e => nowMs - e.2.lastSeenMs > holdMs e.2.intervalCs).map (·.1)

/-- `expire`: the table without the routes that have lapsed, and their keys. -/
def expire (nowMs : Nat) : BabelRouteTable × List RouteKey :=
  ((t.lapsed nowMs).foldl withdraw t, t.lapsed nowMs)

/-- One step of `best_routes`: the lower metric wins, the earlier key on a tie. -/
def pickBest (best : ExtTreeMap Target BabelRoute compare) (r : BabelRoute) :
    ExtTreeMap Target BabelRoute compare :=
  if !r.feasible then best else keepLeast (·.key.target) (·.metric) best r

/-- `best_routes`: the feasible route of least metric of every target. -/
def bestRoutes : List BabelRoute :=
  valuesOf ((valuesOf t.routes).foldl pickBest ∅)

end

/-- The table has no route. -/
def isEmpty (t : BabelRouteTable) : Bool := t.routes.isEmpty

/-! ## What the operations do to routes and distances -/

/-- No route and no distance of `t'` that `t` does not have. -/
structure Within (t' t : BabelRouteTable) : Prop where
  routes : ∀ (k : RouteKey) (r : BabelRoute), t'.routes[k]? = some r → t.routes[k]? = some r
  feasible : ∀ (g : Target) (d : Distance), t'.feasible[g]? = some d → t.feasible[g]? = some d

theorem Within.refl (t : BabelRouteTable) : Within t t := ⟨fun _ _ h => h, fun _ _ h => h⟩

theorem Within.trans {t' t'' : BabelRouteTable} (h : Within t'' t') (h' : Within t' t) :
    Within t'' t :=
  ⟨fun k r hr => h'.routes k r (h.routes k r hr), fun g d hd => h'.feasible g d (h.feasible g d hd)⟩

theorem within_new (t : BabelRouteTable) : Within new t :=
  ⟨fun k r h => by simp [new] at h, fun g d h => by simp [new] at h⟩

theorem within_withdraw (t : BabelRouteTable) (key : RouteKey) : Within (t.withdraw key) t where
  routes := by
    intro k r h
    rw [withdraw, lookup_erase] at h
    split at h
    case isTrue => cases h
    case isFalse => exact h
  feasible := by
    intro g d h
    rw [withdraw] at h
    dsimp only at h
    split at h
    case isTrue =>
      rw [lookup_erase] at h
      split at h
      case isTrue => cases h
      case isFalse => exact h
    case isFalse => exact h

theorem within_expire (t : BabelRouteTable) (nowMs : Nat) : Within (t.expire nowMs).1 t :=
  List.foldlRecOn (motive := (Within · t)) _ _ (.refl t) fun t' h k _ =>
    (within_withdraw t' k).trans h

theorem admits_iff :
    t.admits route = true ↔
      ∀ f, t.feasible[route.key.target]? = some f → Babel.feasible route.distance f = true := by
  rw [admits]
  split
  case h_1 f hf => simp [hf]
  case h_2 hf => simp [hf]

theorem accept_routes (t : BabelRouteTable) (route : BabelRoute) (timing : RouteTiming)
    (k : RouteKey) :
    (t.accept route timing).routes[k]? =
      if route.key = k then some { route with feasible := true } else t.routes[k]? := by
  simp [accept, lookup_insert]

theorem accept_feasible (h : t.admits route = true) (timing : RouteTiming) (g : Target) :
    (t.accept route timing).feasible[g]? =
      if route.key.target = g then some route.distance else t.feasible[g]? := by
  have hinsert : (t.accept route timing).feasible =
      t.feasible.insert route.key.target route.distance := by
    rw [accept]
    dsimp only
    split
    case h_1 f hf =>
      have hbeats := admits_iff.mp h f hf
      rw [Babel.feasible] at hbeats
      refine if_pos ?_
      by_cases hpos : seqnoCmp route.seqno f.seqno > 0
      · exact .inl hpos
      rw [BabelRoute.distance, if_neg hpos] at hbeats
      split at hbeats
      case isTrue hzero => exact .inr ⟨hzero, by simpa using hbeats⟩
      case isFalse => cases hbeats
    case h_2 => rfl
  rw [hinsert]
  simp [lookup_insert]

/-- An update is a refresh or ignored, or it is admitted and stored. -/
theorem insertTimed_cases (t : BabelRouteTable) (route : BabelRoute) (intervalCs : UInt16)
    (nowMs : Nat) :
    Within (t.insertTimed route intervalCs nowMs) t ∨
      t.admits route = true ∧
        t.insertTimed route intervalCs nowMs = t.accept route ⟨intervalCs, nowMs⟩ := by
  rw [insertTimed]
  split
  case isTrue => exact .inl ⟨fun _ _ h => h, fun _ _ h => h⟩
  case isFalse =>
    split
    case isTrue hadmits => exact .inr ⟨hadmits, rfl⟩
    case isFalse => exact .inl (.refl t)

theorem routes_of_mem_bestRoutes {r : BabelRoute} (h : r ∈ t.bestRoutes) :
    t.routes[r.key]? = some r := by
  have hmem : r ∈ valuesOf t.routes := by
    refine List.foldlRecOn (motive := fun m : ExtTreeMap Target BabelRoute compare =>
      ∀ x ∈ valuesOf m, x ∈ valuesOf t.routes) _ _ (by simp [mem_valuesOf])
      (fun m hm y hy x hx => ?_) r h
    obtain ⟨g, hg⟩ := mem_valuesOf.mp hx
    rw [pickBest] at hg
    split at hg
    case isTrue => exact hm x (mem_valuesOf.mpr ⟨g, hg⟩)
    case isFalse =>
      obtain rfl | hold := keepLeast_getElem? hg
      · exact hy
      · exact hm x (mem_valuesOf.mpr ⟨g, hold⟩)
  obtain ⟨k, hk⟩ := mem_valuesOf.mp hmem
  rw [t.keyed k r hk]
  exact hk

end BabelRouteTable

end LibRouting.Babel
