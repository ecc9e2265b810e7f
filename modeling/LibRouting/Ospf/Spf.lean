/-
  Ospf/Spf.lean --- the OSPFv2 intra-area calculation (`run_spf`, RFC 2328 §16.1).

  The database is scanned once into a topology.  The calculation is the search of
  `Foundation.ShortestPath` over it; besides the distances it records next hops, adjacent
  routers and the routes of stub and transit networks.
-/
import LibRouting.Foundation.ShortestPath
import LibRouting.Ospf.Lsdb

set_option autoImplicit false

namespace LibRouting.Ospf

open Foundation Core List

/-! ## LSA bodies -/

/-- A link of a router LSA. -/
structure RouterLink where
  linkId : UInt32
  linkData : UInt32
  linkType : UInt8
  tos : UInt8
  metric : UInt16
  deriving DecidableEq, Repr

/-- The codes of `RouterLinkType`. -/
inductive RouterLinkType where
  | pointToPoint
  | transitNetwork
  | stubNetwork
  | virtualLink
  deriving DecidableEq, Repr

namespace RouterLinkType

/-- `from_u8`. -/
def fromU8 : UInt8 → Option RouterLinkType
  | 1 => some pointToPoint
  | 2 => some transitNetwork
  | 3 => some stubNetwork
  | 4 => some virtualLink
  | _ => none

end RouterLinkType

/-- The kind of the link, if it is a known one. -/
def RouterLink.kind (l : RouterLink) : Option RouterLinkType :=
  RouterLinkType.fromU8 l.linkType

/-- Read at most `n` links; each may be followed by `tos` entries of four octets. -/
def routerLinks : Nat → Bytes → List RouterLink
  | 0, _ => []
  | n + 1, i₁ :: i₂ :: i₃ :: i₄ :: d₁ :: d₂ :: d₃ :: d₄ :: t :: tos :: m₁ :: m₂ :: rest =>
    ⟨fromBe32 i₁ i₂ i₃ i₄, fromBe32 d₁ d₂ d₃ d₄, t, tos, fromBe16 m₁ m₂⟩ ::
      if rest.length < tos.toNat * 4 then [] else routerLinks n (rest.drop (tos.toNat * 4))
  | _, _ => []

/-- `decode_router_links`. -/
def decodeRouterLinks : Bytes → List RouterLink
  | _ :: _ :: n₁ :: n₂ :: rest => routerLinks (fromBe16 n₁ n₂).toNat rest
  | _ => []

/-- Four octets each. -/
def routerIds : Bytes → List UInt32
  | a :: b :: c :: d :: rest => fromBe32 a b c d :: routerIds rest
  | _ => []

/-- The mask and the attached routers of a Network-LSA. -/
def decodeNetwork : Bytes → Option (UInt32 × List UInt32)
  | a :: b :: c :: d :: rest => some (fromBe32 a b c d, routerIds rest)
  | _ => none

/-- `mask_to_prefix_len`. -/
def maskToPrefixLen (mask : UInt32) : UInt8 :=
  UInt8.ofNat ((range 32).countP fun i => mask.toNat.testBit i)

/-! ## The topology -/

/-- A vertex of the topology. -/
inductive VertexId where
  | router (id : UInt32)
  | network (id : UInt32)
  deriving DecidableEq, Repr

namespace VertexId

/-- Routers before networks. -/
def rank : VertexId → Nat
  | router _ => 0
  | network _ => 1

/-- The id without its kind. -/
def number : VertexId → UInt32
  | router id => id
  | network id => id

instance : Ord VertexId := ⟨compareLex (compareOn rank) (compareOn number)⟩

instance : Std.TransOrd VertexId := inferInstanceAs (Std.TransCmp (compareLex _ _))

instance : Std.LawfulEqOrd VertexId where
  eq_of_compare := by
    intro a b h
    obtain ⟨hrank, hnum⟩ := eq_of_compareLex h
    cases a <;> cases b <;> simp_all [rank, number]

end VertexId

/-- A Network-LSA: its mask, the attached routers and the router that advertises it. -/
structure NetworkInfo where
  mask : UInt32
  attached : List UInt32
  advertisingRouter : UInt32
  deriving DecidableEq, Repr

/-- The link maps of an area.  A router's LSAs are joined; of several Network-LSAs of one
link-state id the first in database order counts. -/
structure Topology where
  routerLsas : Std.ExtTreeMap UInt32 (List RouterLink) compare
  networkLsas : Std.ExtTreeMap UInt32 NetworkInfo compare

/-- The LSA types that are scanned. -/
def lsTypeRouter : UInt16 := 1
def lsTypeNetwork : UInt16 := 2

namespace Topology

/-- One entry of the scan. -/
def scan (t : Topology) (e : LsaKey × LsaEntry) : Topology :=
  if e.1.lsType = lsTypeRouter then
    { t with
      routerLsas := t.routerLsas.insert e.1.advertisingRouter
        ((t.routerLsas[e.1.advertisingRouter]?).getD [] ++ decodeRouterLinks e.2.lsa.body) }
  else if e.1.lsType = lsTypeNetwork then
    match decodeNetwork e.2.lsa.body with
    | none => t
    | some (mask, attached) =>
      if t.networkLsas.contains e.1.linkStateId then t
      else
        { t with
          networkLsas := t.networkLsas.insert e.1.linkStateId
            ⟨mask, attached, e.1.advertisingRouter⟩ }
  else t

/-- `Topology::from_lsdb`. -/
def fromLsdb (db : Lsdb) : Topology := db.iter.foldl scan ⟨∅, ∅⟩

/-- The links of a router's LSAs. -/
def linksOf (t : Topology) (r : UInt32) : List RouterLink := (t.routerLsas[r]?).getD []

/-- The vertex a link leads to, and its cost. -/
def linkEdge (l : RouterLink) : Option (VertexId × Nat) :=
  match l.kind with
  | some .pointToPoint | some .virtualLink => some (.router l.linkId, l.metric.toNat)
  | some .transitNetwork => some (.network l.linkId, l.metric.toNat)
  | _ => none

/-- The links the LSA of a vertex describes.  A network costs nothing to leave. -/
def edges (t : Topology) : VertexId → List (VertexId × Nat)
  | .router r => (t.linksOf r).filterMap linkEdge
  | .network n =>
    match t.networkLsas[n]? with
    | none => []
    | some net => net.attached.map fun r => (.router r, 0)

/-- Every vertex some LSA describes a link to. -/
def targets (t : Topology) : List VertexId :=
  (t.routerLsas.toList.flatMap fun e => (e.2.filterMap linkEdge).map (·.1)) ++
    t.networkLsas.toList.flatMap fun e => e.2.attached.map .router

theorem mem_targets {t : Topology} {v : VertexId} {e : VertexId × Nat} (h : e ∈ t.edges v) :
    e.1 ∈ t.targets := by
  rw [targets, mem_append]
  cases v with
  | router r =>
    left
    rw [edges, linksOf] at h
    cases hlinks : t.routerLsas[r]? with
    | none => simp [hlinks] at h
    | some links =>
      rw [hlinks] at h
      exact mem_flatMap.mpr
        ⟨(r, links), Std.ExtTreeMap.mem_toList_iff_getElem?_eq_some.mpr hlinks,
          mem_map_of_mem h⟩
  | network n =>
    right
    rw [edges] at h
    cases hnet : t.networkLsas[n]? with
    | none => simp [hnet] at h
    | some net =>
      rw [hnet] at h
      obtain ⟨r, hr, rfl⟩ := mem_map.mp h
      exact mem_flatMap.mpr
        ⟨(n, net), Std.ExtTreeMap.mem_toList_iff_getElem?_eq_some.mpr hnet,
          mem_map_of_mem hr⟩

/-- The directed graph of everything the LSAs describe. -/
def graph (t : Topology) : Graph VertexId := ⟨t.edges, t.targets, fun _ _ => mem_targets⟩

end Topology

/-! ## The calculation -/

/-- A route that the run yields. -/
structure SpfRoute where
  pfx : Prefix
  metric : Nat
  nextHop : List IpAddr
  borderRouter : Option UInt32
  routerId : Option UInt32
  deriving DecidableEq, Repr

/-- The result under construction, the parents and the heap. -/
structure SpfState where
  vertices : Std.ExtTreeMap VertexId Nat compare
  nextHops : Std.ExtTreeMap VertexId (List IpAddr) compare
  adjacentRouters : Std.ExtTreeSet UInt32 compare
  stubRoutes : List SpfRoute
  transitRoutes : List SpfRoute
  parents : Std.ExtTreeMap VertexId VertexId compare
  heap : List (VertexId × Nat)

namespace SpfState

/-- The part Dijkstra works on. -/
def front (s : SpfState) : Frontier VertexId := ⟨s.vertices, s.heap⟩

/-- `relax`.  A better path replaces distance, parent and next hops; an equal one adds its
next hop.  A shortest path leaves each router once, so its cost stays far below `u64::MAX`,
which marks an unknown distance in the source. -/
def relax (s : SpfState) (parent target : VertexId) (newDist : Nat) (nextHop : Option IpAddr) :
    SpfState :=
  if s.front.improves target newDist then
    { s with
      vertices := s.vertices.insert target newDist
      parents := s.parents.insert target parent
      nextHops :=
        match nextHop with
        | some nh => s.nextHops.insert target [nh]
        | none => s.nextHops.erase target
      heap := (target, newDist) :: s.heap }
  else if s.vertices[target]? = some newDist then
    match nextHop with
    | none => s
    | some nh =>
      let hops := (s.nextHops[target]?).getD []
      if hops.contains nh then s
      else { s with nextHops := s.nextHops.insert target (hops ++ [nh]) }
  else s

/-- The next hop a vertex passes on: the first of its own. -/
def inherited (s : SpfState) (v : VertexId) : Option IpAddr := s.nextHops[v]?.bind (·.head?)

end SpfState

namespace Topology

/-- The address with these bits. -/
def ipv4 (a : UInt32) : IpAddr := .v4 ⟨toBe32 a, rfl⟩

section

variable (t : Topology)

/-- The link data of the first link of a router that is of one of the kinds, has the
link id, and whose data is not zero. -/
def addressOn (kinds : List RouterLinkType) (router linkId : UInt32) : Option IpAddr :=
  ((t.linksOf router).find? fun l =>
    l.kind.any kinds.contains && l.linkId == linkId && l.linkData != 0).map (ipv4 ·.linkData)

/-- `router_address_towards`. -/
def routerAddressTowards (neighbor towards : UInt32) : Option IpAddr :=
  t.addressOn [.pointToPoint, .virtualLink] neighbor towards

/-- `router_address_on_network`. -/
def routerAddressOnNetwork (router drIp : UInt32) : Option IpAddr :=
  t.addressOn [.transitNetwork] router drIp

/-- A point-to-point or virtual link of router `rid`. -/
def visitRouterLink (root rid : UInt32) (dist : Nat) (s : SpfState) (l : RouterLink) : SpfState :=
  let nextHop :=
    if rid = root then t.routerAddressTowards l.linkId root else s.inherited (.router rid)
  let s' := s.relax (.router rid) (.router l.linkId) (dist + l.metric.toNat) nextHop
  if rid = root ∧ l.kind = some .pointToPoint then
    { s' with adjacentRouters := s'.adjacentRouters.insert l.linkId }
  else s'

/-- A link of a router that is being visited at distance `dist`. -/
def visitLink (root rid : UInt32) (dist : Nat) (s : SpfState) (l : RouterLink) : SpfState :=
  match l.kind with
  | some .pointToPoint | some .virtualLink => t.visitRouterLink root rid dist s l
  | some .transitNetwork =>
    let nextHop := if rid = root then none else s.inherited (.router rid)
    s.relax (.router rid) (.network l.linkId) (dist + l.metric.toNat) nextHop
  | some .stubNetwork =>
    let nextHop := if rid = root then [] else (s.nextHops[VertexId.router rid]?).getD []
    { s with
      stubRoutes := s.stubRoutes ++
        [⟨⟨ipv4 l.linkId, maskToPrefixLen l.linkData⟩, dist + l.metric.toNat, nextHop, none,
          some rid⟩] }
  | none => s

/-- A router attached to a network that is being visited. -/
def visitAttached (n : UInt32) (direct : Bool) (dist : Nat) (s : SpfState) (r : UInt32) :
    SpfState :=
  let nextHop :=
    if direct then t.routerAddressOnNetwork r n else s.inherited (.network n)
  let s' := s.relax (.network n) (.router r) dist nextHop
  if direct then { s' with adjacentRouters := s'.adjacentRouters.insert r } else s'

/-- A network vertex is a destination itself. -/
def transitRoute (s : SpfState) (n : UInt32) (net : NetworkInfo) (dist : Nat) : SpfRoute :=
  ⟨⟨ipv4 (n &&& net.mask), maskToPrefixLen net.mask⟩, dist,
    (s.nextHops[VertexId.network n]?).getD [], none, some net.advertisingRouter⟩

/-- The body of the loop of `run_spf`. -/
def visit (root : UInt32) (s : SpfState) (v : VertexId) (dist : Nat) : SpfState :=
  match v with
  | .router rid => (t.linksOf rid).foldl (t.visitLink root rid dist) s
  | .network n =>
    match t.networkLsas[n]? with
    | none => s
    | some net =>
      let direct := s.parents[VertexId.network n]? == some (.router root)
      net.attached.foldl (t.visitAttached n direct dist)
        { s with transitRoutes := s.transitRoutes ++ [transitRoute s n net dist] }

end

end Topology

/-! ## The distances are those of the search -/

theorem SpfState.relax_front (s : SpfState) (parent target : VertexId) (newDist : Nat)
    (nextHop : Option IpAddr) :
    (s.relax parent target newDist nextHop).front = s.front.relax target newDist := by
  rw [Frontier.relax]
  fun_cases relax s parent target newDist nextHop with
  | case1 _ himp => exact (if_pos himp).symm
  | case2 himp | case3 himp | case4 himp | case5 _ himp => exact (if_neg himp).symm

namespace Topology
variable (t : Topology)

section

variable (root rid : UInt32) (dist : Nat)

theorem visitRouterLink_front (s : SpfState) (l : RouterLink) :
    (t.visitRouterLink root rid dist s l).front =
      s.front.relax (.router l.linkId) (dist + l.metric.toNat) := by
  rw [visitRouterLink]
  split <;> exact SpfState.relax_front ..

theorem visitLink_front (s : SpfState) (l : RouterLink) :
    (t.visitLink root rid dist s l).front =
      (linkEdge l).elim s.front fun e => s.front.relax e.1 (dist + e.2) := by
  rw [visitLink, linkEdge]
  cases l.kind with
  | none => rfl
  | some kind =>
    cases kind with
    | pointToPoint => exact visitRouterLink_front ..
    | transitNetwork => exact SpfState.relax_front ..
    | stubNetwork => rfl
    | virtualLink => exact visitRouterLink_front ..

theorem visitAttached_front (n : UInt32) (direct : Bool) (dist : Nat) (s : SpfState) (r : UInt32) :
    (t.visitAttached n direct dist s r).front = s.front.relax (.router r) dist := by
  rw [visitAttached]
  split <;> exact SpfState.relax_front ..

theorem visit_front (s : SpfState) (v : VertexId) (dist : Nat) :
    (t.visit root s v dist).front = s.front.expand (t.edges v) dist := by
  cases v with
  | router rid => exact Frontier.front_foldl (t.visitLink_front root rid dist) (t.linksOf rid) s
  | network n =>
    rw [visit, edges]
    cases t.networkLsas[n]? with
    | none => rfl
    | some net =>
      rw [← filterMap_eq_map]
      exact Frontier.front_foldl (fun s r => t.visitAttached_front n _ dist s r) net.attached _

end

/-- The order of the heap: the nearer vertex first, then the smaller id. -/
def popsBefore (x y : VertexId × Nat) : Bool :=
  x.2 < y.2 || (x.2 == y.2 && compare x.1 y.1 == .lt)

/-- The run as an instance of the generic search. -/
def search (t : Topology) (root : UInt32) : Search VertexId SpfState where
  graph := t.graph
  front := SpfState.front
  setHeap s heap := { s with heap := heap }
  visit := t.visit root
  before := popsBefore
  skipStale := true
  front_setHeap _ _ := rfl
  front_visit := t.visit_front root

end Topology

/-- The state before the first visit: the root at distance zero. -/
def SpfState.start (root : UInt32) : SpfState where
  vertices := (∅ : Std.ExtTreeMap VertexId Nat compare).insert (.router root) 0
  nextHops := ∅
  adjacentRouters := ∅
  stubRoutes := []
  transitRoutes := []
  parents := ∅
  heap := [(.router root, 0)]

/-- `run_spf`. -/
def runSpf (db : Lsdb) (root : UInt32) : SpfState :=
  ((Topology.fromLsdb db).search root).run (.start root)

/-- The distances of `run_spf` are the least costs over the links the LSAs describe. -/
theorem runSpf_vertices_iff (db : Lsdb) (root : UInt32) (v : VertexId) (d : Nat) :
    (runSpf db root).vertices[v]? = some d ↔
      IsDist (Topology.fromLsdb db).graph.Edge (.router root) v d :=
  Search.run_dist_iff (S := (Topology.fromLsdb db).search root) rfl v d

end LibRouting.Ospf
