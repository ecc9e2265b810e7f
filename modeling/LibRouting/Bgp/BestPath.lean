/-
  Bgp/BestPath.lean --- the decision process (`best_path/mod.rs`).

  `compare` runs the steps of RFC 4271 §9.1.2.2 in the source's order.  Every step
  but one compares a key of each route, so the steps before MED and the steps
  after it are lexicographic orders.  MED is the exception: it is compared only
  between routes of the same neighbouring AS (unless `alwaysCompareMed`), and
  that is where arrival order can enter.  `orderIndependent_iff` says exactly for
  which candidate lists it does not.
-/
import LibRouting.Foundation.Comparator
import LibRouting.Bgp.WellKnown

set_option autoImplicit false

namespace LibRouting.Bgp

open Foundation Core
open Std (TransCmp)

/-- The knobs of the decision process that `select` and `rank` read. -/
structure BestPathConfig where
  alwaysCompareMed : Bool := false
  missingMedAsInfinity : Bool := false
  deterministicRouterId : Bool := true
  preferExternals : Bool := true
  countConfedInPathLen : Bool := false
  gracefulShutdownLeastPreferred : Bool := true
  compareIgpMetric : Bool := true
  preferNextHopSelf : Bool := true
  deriving DecidableEq, Repr

namespace BestPath

/-! ## What each step reads -/

/-- The session view of a route's attribute set. -/
def attrsOf (r : Route) : PathAttributes := PathAttributes.ofAttributes r.attributes

section

variable (cfg : BestPathConfig) (r : Route)

/-- Carries LLGR_STALE. -/
def isLlgrStale : Bool := (attrsOf r).hasCommunity Community.llgrStale

/-- Carries GRACEFUL_SHUTDOWN. -/
def isGracefulShutdown : Bool := (attrsOf r).hasCommunity Community.gracefulShutdown

/-- Learned over iBGP. -/
def isInternal : Bool := r.protocol = .bgp ∧ r.origin.proto = 1

/-- LOCAL_PREF counts for internal routes only; everything else is pinned at
100. -/
def localPrefOf : UInt32 :=
  if isInternal r then (attrsOf r).localPref.getD 100 else 100

/-- `as_path_len`. -/
def asPathLen (p : AsPath) : Nat :=
  if cfg.countConfedInPathLen then p.lengthWithConfed else p.length

/-- Zero without an AS_PATH. -/
def asPathLenOf : Nat :=
  ((attrsOf r).asPath.map (asPathLen cfg)).getD 0

/-- INCOMPLETE without an ORIGIN. -/
def originOf : UInt8 := ((attrsOf r).origin.map OriginKind.toU8).getD 2

/-- A missing MED is best or worst, by configuration. -/
def medOf : UInt32 :=
  (attrsOf r).med.getD (if cfg.missingMedAsInfinity then 0xffffffff else 0)

/-- Worst where the metric is unknown. -/
def igpMetricOf : UInt32 := (attrsOf r).igpMetric.getD 0xffffffff

/-- NEXT_HOP equals the peer's transport source. -/
def nextHopMatches : Bool :=
  match r.nextHop with
  | some nh => (attrsOf r).peerSourceAddress = some nh
  | none => false

/-- `originator_id`. -/
def originatorIdOf : UInt32 := ((attrsOf r).read .originatorId decodeU32).getD 0

/-- `cluster_list_len`. -/
def clusterListLen : Nat :=
  (((attrsOf r).get .clusterList).map fun a => a.value.length / 4).getD 0

/-- The first AS of the first segment. -/
def neighborAs : Option Asn :=
  (attrsOf r).asPath.bind fun p => p.segments.head?.bind fun s => s.ases.head?

/-- `same_neighbor`. -/
def sameNeighbor (a b : Route) : Bool := neighborAs a = neighborAs b

/-! ## The steps -/

/-- A step the operator can switch off. -/
def whenEnabled (on : Bool) (step : Route → Route → Ordering) (a b : Route) : Ordering :=
  if on then step a b else .eq

instance (on : Bool) (step : Route → Route → Ordering) [TransCmp step] :
    TransCmp (whenEnabled on step) := by
  cases on
  · exact { eq_swap := rfl, isLE_trans := fun _ _ => rfl }
  · exact inferInstanceAs (TransCmp step)

/-- Steps 0 to 4: LLGR_STALE and GRACEFUL_SHUTDOWN last, higher LOCAL_PREF,
shorter AS_PATH, lower ORIGIN. -/
def compareBeforeMed : Route → Route → Ordering :=
  compareLex (compareOn isLlgrStale) <|
  compareLex (whenEnabled cfg.gracefulShutdownLeastPreferred (compareOn isGracefulShutdown)) <|
  compareLex (fun a b => compareOn localPrefOf b a) <|
  compareLex (compareOn (asPathLenOf cfg)) (compareOn originOf)

/-- Step 5: lower MED. -/
def compareMed : Route → Route → Ordering := compareOn (medOf cfg)

/-- Steps 6 to 12: external, lower IGP metric, NEXT_HOP is the peer, lower
ORIGINATOR_ID (or lower age), shorter CLUSTER_LIST, lower peer id. -/
def compareAfterMed : Route → Route → Ordering :=
  compareLex (whenEnabled cfg.preferExternals (compareOn isInternal)) <|
  compareLex (whenEnabled cfg.compareIgpMetric (compareOn igpMetricOf)) <|
  compareLex (whenEnabled cfg.preferNextHopSelf (compareOn fun r => !nextHopMatches r)) <|
  compareLex (whenEnabled cfg.deterministicRouterId (compareOn originatorIdOf)) <|
  compareLex (whenEnabled (!cfg.deterministicRouterId) (compareOn Route.ageMs)) <|
  compareLex (compareOn clusterListLen) (compareOn fun r => r.origin.peer)

/-- The routes whose MED is compared. -/
def MedComparable (a b : Route) : Prop :=
  (cfg.alwaysCompareMed || sameNeighbor a b) = true

instance (cfg : BestPathConfig) : DecidableRel (MedComparable cfg) := fun _ _ =>
  inferInstanceAs (Decidable (_ = true))

/-- `BestPath::compare`. -/
def compare (a b : Route) : Ordering :=
  (compareBeforeMed cfg a b).then
    ((if MedComparable cfg a b then compareMed cfg a b else .eq).then (compareAfterMed cfg a b))

/-- `BestPath::select`. -/
def select (routes : List Route) : Option Route :=
  minBy (compare cfg) routes

/-- `BestPath::rank`.  On candidates with a MED cycle `compare` is no total order, and the
source's sort may rank them in another way, or panic. -/
def rank (routes : List Route) : List Route :=
  sortBy (compare cfg) routes

/-! ## Independence of arrival order -/

instance (cfg : BestPathConfig) : TransCmp (compareBeforeMed cfg) := by
  unfold compareBeforeMed
  have : TransCmp (fun a b => compareOn localPrefOf b a) := TransCmp.opposite
  infer_instance

instance (cfg : BestPathConfig) : TransCmp (compareMed cfg) := by
  unfold compareMed
  infer_instance

instance (cfg : BestPathConfig) : TransCmp (compareAfterMed cfg) := by
  unfold compareAfterMed
  infer_instance

theorem medComparable_equivalence : Equivalence (MedComparable cfg) where
  refl a := by simp [MedComparable, sameNeighbor]
  symm h := by
    simp only [MedComparable, sameNeighbor, Bool.or_eq_true, decide_eq_true_eq] at h ⊢
    exact h.imp_right Eq.symm
  trans h₁ h₂ := by
    simp only [MedComparable, sameNeighbor, Bool.or_eq_true, decide_eq_true_eq] at h₁ h₂ ⊢
    rcases h₁ with h₁ | h₁
    · exact .inl h₁
    · exact h₂.imp_right h₁.trans

/-- The decision among `candidates` does not depend on the order in which they
arrived: `compare` is a total preorder on them, and every permutation selects and
ranks the same routes up to `eq`. -/
structure OrderIndependent (cfg : BestPathConfig) (candidates : List Route) : Prop where
  preorder : PreorderOn (compare cfg) candidates
  select_perm : ∀ l : List Route, l.Perm candidates →
    Option.Rel (fun a b => compare cfg a b = .eq) (select cfg l) (select cfg candidates)
  rank_perm : ∀ l : List Route, l.Perm candidates →
    List.Forall₂ (fun a b => compare cfg a b = .eq) (rank cfg l) (rank cfg candidates)

/-- Three candidates that the MED step sends round in a circle: `x` and `y` come
from one neighbouring AS and `x` has the lower MED, `z` comes from another one and
the later steps rank it between `y` and `x`. -/
def MedCycle (x y z : Route) : Prop :=
  Conflict (compareBeforeMed cfg) (MedComparable cfg) (compareMed cfg) (compareAfterMed cfg)
    x y z

end

/-- The decision is independent of arrival order exactly on the candidate lists
without a MED cycle. -/
theorem orderIndependent_iff (cfg : BestPathConfig) (candidates : List Route) :
    OrderIndependent cfg candidates ↔
      ∀ x ∈ candidates, ∀ y ∈ candidates, ∀ z ∈ candidates, ¬ MedCycle cfg x y z := by
  have hiff : PreorderOn (compare cfg) candidates ↔ _ :=
    guardedLex_preorderOn_iff (medComparable_equivalence cfg) candidates
  constructor
  · intro h
    exact hiff.mp h.preorder
  · intro hno
    have hpre := hiff.mpr hno
    exact ⟨hpre, fun l hl => minBy_equiv hpre.rankedBy hl,
      fun l hl => sortBy_equiv hpre.rankedBy hl⟩

/-- An eBGP route with a one-hop AS_PATH and a MED. -/
def routeVia (neighbor med : UInt8) (peer : UInt64) : Route where
  key := .new (.newV4 (.padded 4 [10]) 8) .ipv4Unicast
  origin := ⟨0, peer⟩
  protocol := .bgp
  preference := ⟨20, 1⟩
  nextHop := none
  attributes :=
    ((∅ : Attributes).insert 2 ⟨0x40, [2, 1, 0, 0, 0, neighbor]⟩).insert 4
      ⟨0x80, [0, 0, 0, med]⟩
  ageMs := 0
  pathId := 0
  tag := none

/-- With the default configuration, two orders of arrival of the same three routes
select routes that do not compare equal. -/
theorem select_depends_on_arrival :
    select {} [routeVia 1 0 3, routeVia 1 10 1, routeVia 2 0 2] = some (routeVia 2 0 2) ∧
    select {} [routeVia 1 10 1, routeVia 2 0 2, routeVia 1 0 3] = some (routeVia 1 0 3) ∧
    compare {} (routeVia 2 0 2) (routeVia 1 0 3) = .lt := by
  decide +kernel

end BestPath

end LibRouting.Bgp
