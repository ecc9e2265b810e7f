/-
  Ospf/SpfV3.lean --- the OSPFv3 intra-area calculation (`run_spf_v3`, RFC 5340 §4.8), in
  the mode that ignores Extended LSAs, and when both calculations give the shortest paths
  over two-way links.

  RFC 2328 §16.1 (2b) follows a link only if the LSAs of both ends describe it.  `run_spf`
  follows every link its near end describes; `run_spf_v3` asks the far end of a router's
  links, but not the routers a network lists.
-/
import LibRouting.Ospf.Spf

set_option autoImplicit false

namespace LibRouting.Ospf

open Foundation Core List
open Std (ExtTreeMap LawfulEqOrd)

/-! ## LSA bodies -/

/-- A link of an OSPFv3 router LSA. -/
structure V3RouterLink where
  linkType : UInt8
  metric : UInt16
  interfaceId : UInt32
  neighborInterfaceId : UInt32
  neighborRouterId : UInt32
  deriving DecidableEq, Repr

/-- The kind of the link, if it is a known one. -/
def V3RouterLink.kind (l : V3RouterLink) : Option RouterLinkType :=
  RouterLinkType.fromU8 l.linkType

/-- The body of a router LSA. -/
structure V3RouterLsaBody where
  bits : UInt8
  options : UInt32
  links : List V3RouterLink
  deriving DecidableEq, Repr

/-- Link descriptions of sixteen octets each; a shorter rest is malformed. -/
def v3Links : Bytes → Option (List V3RouterLink)
  | [] => some []
  | t :: _ :: m₁ :: m₂ :: i₁ :: i₂ :: i₃ :: i₄ :: n₁ :: n₂ :: n₃ :: n₄ :: r₁ :: r₂ :: r₃ :: r₄ ::
      rest =>
      (v3Links rest).map (⟨t, fromBe16 m₁ m₂, fromBe32 i₁ i₂ i₃ i₄, fromBe32 n₁ n₂ n₃ n₄,
        fromBe32 r₁ r₂ r₃ r₄⟩ :: ·)
  | _ => none

/-- `V3RouterLsaBody::decode`. -/
def V3RouterLsaBody.decode : Bytes → Option V3RouterLsaBody
  | bits :: o₁ :: o₂ :: o₃ :: rest =>
    (v3Links rest).map fun links => ⟨bits, fromBe32 0 o₁ o₂ o₃, links⟩
  | _ => none

/-- The body of a network LSA. -/
structure V3NetworkLsaBody where
  options : UInt32
  routers : List UInt32
  deriving DecidableEq, Repr

/-- `V3NetworkLsaBody::decode`. -/
def V3NetworkLsaBody.decode : Bytes → Option V3NetworkLsaBody
  | _ :: o₁ :: o₂ :: o₃ :: rest => some ⟨fromBe32 0 o₁ o₂ o₃, routerIds rest⟩
  | _ => none

/-- A prefix as the LSAs carry it. -/
structure V3Prefix where
  prefixLen : UInt8
  options : UInt8
  metric : UInt16
  addr : Octets 16
  deriving DecidableEq, Repr

/-- `V3Prefix::decode`: the prefix and what follows it. -/
def V3Prefix.decode : Bytes → Option (V3Prefix × Bytes)
  | len :: opts :: m₁ :: m₂ :: rest =>
    let n := (len.toNat + 31) / 32 * 4
    if len > 128 ∨ rest.length < n then none
    else some (⟨len, opts, fromBe16 m₁ m₂, .padded 16 (rest.take n)⟩, rest.drop n)
  | _ => none

/-- Reads `n` prefixes. -/
def v3Prefixes : Nat → Bytes → Option (List V3Prefix)
  | 0, _ => some []
  | n + 1, b => do
      let (p, rest) ← V3Prefix.decode b
      return p :: (← v3Prefixes n rest)

/-- The body of a link LSA. -/
structure V3LinkLsaBody where
  priority : UInt8
  options : UInt32
  linkLocal : Octets 16
  prefixes : List V3Prefix
  deriving DecidableEq, Repr

/-- `V3LinkLsaBody::decode`. -/
def V3LinkLsaBody.decode (b : Bytes) : Option V3LinkLsaBody :=
  match b with
  | priority :: o₁ :: o₂ :: o₃ :: rest =>
    match rest.drop 16 with
    | n₁ :: n₂ :: n₃ :: n₄ :: body =>
      (v3Prefixes (fromBe32 n₁ n₂ n₃ n₄).toNat body).map fun prefixes =>
        ⟨priority, fromBe32 0 o₁ o₂ o₃, .padded 16 (rest.take 16), prefixes⟩
    | _ => none
  | _ => none

/-! ## The topology -/

/-- A vertex of the topology. -/
inductive V3VertexId where
  | router (id : UInt32)
  | network (drRouter drInterface : UInt32)
  deriving DecidableEq, Repr

namespace V3VertexId

/-- Routers before networks. -/
def rank : V3VertexId → Nat
  | router _ => 0
  | network .. => 1

/-- The ids without their kind. -/
def numbers : V3VertexId → UInt32 × UInt32
  | router id => (id, 0)
  | network r i => (r, i)

instance : Ord V3VertexId :=
  ⟨compareLex (compareOn rank)
    (compareLex (compareOn fun v => v.numbers.1) (compareOn fun v => v.numbers.2))⟩

instance : Std.TransOrd V3VertexId :=
  inferInstanceAs (Std.TransCmp (compareLex _ (compareLex _ _)))

instance : LawfulEqOrd V3VertexId where
  eq_of_compare := by
    intro a b h
    obtain ⟨hrank, h₁, h₂⟩ := eq_of_compareLex₃ h
    cases a <;> cases b <;> simp_all [rank, numbers]

end V3VertexId

/-- A router and one of its interfaces. -/
@[ext] structure RouterInterface where
  router : UInt32
  interface : UInt32
  deriving DecidableEq, Repr

namespace RouterInterface

instance : Ord RouterInterface := ⟨compareLex (compareOn router) (compareOn interface)⟩

instance : Std.TransOrd RouterInterface := inferInstanceAs (Std.TransCmp (compareLex _ _))

instance : LawfulEqOrd RouterInterface where
  eq_of_compare h := RouterInterface.ext_iff.mpr (eq_of_compareLex h)

end RouterInterface

/-- The per-type maps of an area.  The fragments of a router's LSA are joined, the first
one gives the options. -/
structure V3Topology where
  routerLsas : ExtTreeMap UInt32 V3RouterLsaBody compare
  routerOptions : ExtTreeMap UInt32 UInt32 compare
  networkLsas : ExtTreeMap RouterInterface V3NetworkLsaBody compare
  linkLocals : ExtTreeMap RouterInterface (Octets 16) compare

/-- The LSA types that are scanned. -/
def v3TypeRouter : UInt16 := 0x2001
def v3TypeNetwork : UInt16 := 0x2002
def v3TypeLink : UInt16 := 0x0008

namespace V3Topology
variable {t : V3Topology} {v : V3VertexId} {e : V3VertexId × Nat}

section

variable (t : V3Topology)

/-- A fragment of a router's LSA. -/
def addRouter (r : UInt32) (body : V3RouterLsaBody) : V3Topology :=
  { t with
    routerOptions := t.routerOptions.insertIfNew r body.options
    routerLsas :=
      match t.routerLsas[r]? with
      | none => t.routerLsas.insert r body
      | some merged => t.routerLsas.insert r { merged with links := merged.links ++ body.links } }

/-- One entry of the scan. -/
def scan (e : LsaKey × LsaEntry) : V3Topology :=
  let key : RouterInterface := ⟨e.1.advertisingRouter, e.1.linkStateId⟩
  if e.1.lsType = v3TypeRouter then
    match V3RouterLsaBody.decode e.2.lsa.body with
    | none => t
    | some body => t.addRouter e.1.advertisingRouter body
  else if e.1.lsType = v3TypeNetwork then
    match V3NetworkLsaBody.decode e.2.lsa.body with
    | none => t
    | some body => { t with networkLsas := t.networkLsas.insertIfNew key body }
  else if e.1.lsType = v3TypeLink then
    match V3LinkLsaBody.decode e.2.lsa.body with
    | none => t
    | some body => { t with linkLocals := t.linkLocals.insertIfNew key body.linkLocal }
  else t

/-- `from_lsdb` without Extended LSAs. -/
def fromLsdb (db : Lsdb) : V3Topology := db.iter.foldl scan ⟨∅, ∅, ∅, ∅⟩

/-- The links a router advertises. -/
def linksOf (r : UInt32) : List V3RouterLink :=
  match t.routerLsas[r]? with
  | none => []
  | some body => body.links

/-- `has_backlink`. -/
def hasBacklink (neighbor towards : UInt32) : Bool :=
  (t.linksOf neighbor).any fun l =>
    (l.kind == some .pointToPoint || l.kind == some .virtualLink) && l.neighborRouterId == towards

/-- The Network-LSA exists and lists the router. -/
def lists (network : RouterInterface) (r : UInt32) : Bool :=
  match t.networkLsas[network]? with
  | none => false
  | some net => net.routers.contains r

/-- `link_local_of`. -/
def linkLocalOf (router interface : UInt32) : Option (Octets 16) :=
  t.linkLocals[(⟨router, interface⟩ : RouterInterface)]?

/-- `interface_on_network`. -/
def interfaceOnNetwork (router drRouter drInterface : UInt32) : Option UInt32 :=
  ((t.linksOf router).find? fun l =>
    l.kind == some .transitNetwork && l.neighborRouterId == drRouter &&
      l.neighborInterfaceId == drInterface).map (·.interfaceId)

/-! ## Links -/

/-- The vertex a link leads to, and its cost. -/
def linkEdge (l : V3RouterLink) : Option (V3VertexId × Nat) :=
  match l.kind with
  | some .pointToPoint | some .virtualLink => some (.router l.neighborRouterId, l.metric.toNat)
  | some .transitNetwork =>
    some (.network l.neighborRouterId l.neighborInterfaceId, l.metric.toNat)
  | _ => none

/-- The other end of the link confirms it. -/
def confirmed (rid : UInt32) (l : V3RouterLink) : Bool :=
  match l.kind with
  | some .pointToPoint | some .virtualLink => t.hasBacklink l.neighborRouterId rid
  | some .transitNetwork => t.lists ⟨l.neighborRouterId, l.neighborInterfaceId⟩ rid
  | _ => false

/-- The routers a Network-LSA lists. -/
def attached (drRouter drInterface : UInt32) : List UInt32 :=
  match t.networkLsas[(⟨drRouter, drInterface⟩ : RouterInterface)]? with
  | none => []
  | some net => net.routers

/-- The links the LSA of a vertex describes. -/
def edges : V3VertexId → List (V3VertexId × Nat)
  | .router r => (t.linksOf r).filterMap linkEdge
  | .network r i => (t.attached r i).map fun x => (.router x, 0)

/-- The links the calculation follows. -/
def followed : V3VertexId → List (V3VertexId × Nat)
  | .router r => ((t.linksOf r).filter (t.confirmed r)).filterMap linkEdge
  | .network r i => (t.attached r i).map fun x => (.router x, 0)

/-- Every vertex some LSA describes a link to. -/
def targets : List V3VertexId :=
  (t.routerLsas.toList.flatMap fun e => (e.2.links.filterMap linkEdge).map (·.1)) ++
    t.networkLsas.toList.flatMap fun e => e.2.routers.map .router

end

theorem mem_edges_of_followed (h : e ∈ t.followed v) : e ∈ t.edges v := by
  cases v with
  | router r =>
    obtain ⟨l, hl, he⟩ := mem_filterMap.mp h
    exact mem_filterMap.mpr ⟨l, mem_of_mem_filter hl, he⟩
  | network r i => exact h

theorem mem_targets (h : e ∈ t.edges v) : e.1 ∈ t.targets := by
  rw [targets, mem_append]
  cases v with
  | router r =>
    left
    rw [edges, linksOf] at h
    cases hbody : t.routerLsas[r]? with
    | none => simp [hbody] at h
    | some body =>
      rw [hbody] at h
      exact mem_flatMap.mpr
        ⟨(r, body), ExtTreeMap.mem_toList_iff_getElem?_eq_some.mpr hbody,
          mem_map_of_mem h⟩
  | network r i =>
    right
    rw [edges, attached] at h
    cases hnet : t.networkLsas[(⟨r, i⟩ : RouterInterface)]? with
    | none => simp [hnet] at h
    | some net =>
      rw [hnet] at h
      obtain ⟨x, hx, rfl⟩ := mem_map.mp h
      exact mem_flatMap.mpr
        ⟨(⟨r, i⟩, net), ExtTreeMap.mem_toList_iff_getElem?_eq_some.mpr hnet,
          mem_map_of_mem hx⟩

/-- The directed graph of everything the LSAs describe. -/
def graph (t : V3Topology) : Graph V3VertexId := ⟨t.edges, t.targets, fun _ _ => mem_targets⟩

/-- The directed graph of the links the calculation follows. -/
def followedGraph (t : V3Topology) : Graph V3VertexId :=
  ⟨t.followed, t.targets, fun _ _ h => mem_targets (mem_edges_of_followed h)⟩

end V3Topology

/-! ## The calculation -/

/-- A next hop: link-local address and interface. -/
structure V3NextHop where
  linkLocal : IpAddr
  interfaceId : UInt32
  deriving DecidableEq, Repr

/-- Distances, the result under construction, the parents and the queue. -/
structure V3State where
  dist : ExtTreeMap V3VertexId Nat compare
  vertices : ExtTreeMap V3VertexId Nat compare
  nextHops : ExtTreeMap V3VertexId (List V3NextHop) compare
  adjacentRouters : Std.ExtTreeSet UInt32 compare
  parents : ExtTreeMap V3VertexId V3VertexId compare
  queue : List (V3VertexId × Nat)

namespace V3State

/-- The part Dijkstra works on. -/
def front (s : V3State) : Frontier V3VertexId := ⟨s.dist, s.queue⟩

/-- `relax`. -/
def relax (s : V3State) (parent target : V3VertexId) (newDist : Nat)
    (nextHop : Option V3NextHop) : V3State :=
  if s.front.improves target newDist then
    { s with
      dist := s.dist.insert target newDist
      vertices := s.vertices.insert target newDist
      parents := s.parents.insert target parent
      nextHops :=
        match nextHop with
        | some nh => s.nextHops.insert target [nh]
        | none => s.nextHops.erase target
      queue := (target, newDist) :: s.queue }
  else if s.dist[target]? = some newDist then
    match nextHop with
    | none => s
    | some nh =>
      let hops := (s.nextHops[target]?).getD []
      if hops.contains nh then s
      else { s with nextHops := s.nextHops.insert target (hops ++ [nh]) }
  else s

/-- The next hop a vertex passes on. -/
def inherited (s : V3State) (v : V3VertexId) : Option V3NextHop := s.nextHops[v]?.bind (·.head?)

end V3State

namespace V3Topology

section

variable (t : V3Topology)

/-- A confirmed point-to-point or virtual link of router `rid`. -/
def visitRouterLink (root rid : UInt32) (dist : Nat) (s : V3State) (l : V3RouterLink) : V3State :=
  let nextHop :=
    if rid = root then
      (t.linkLocalOf l.neighborRouterId l.neighborInterfaceId).map fun a => ⟨.v6 a, l.interfaceId⟩
    else s.inherited (.router rid)
  let s' := s.relax (.router rid) (.router l.neighborRouterId) (dist + l.metric.toNat) nextHop
  if rid = root ∧ l.kind = some .pointToPoint then
    { s' with adjacentRouters := s'.adjacentRouters.insert l.neighborRouterId }
  else s'

/-- A link of a router that is being visited at distance `dist`. -/
def visitLink (root rid : UInt32) (dist : Nat) (s : V3State) (l : V3RouterLink) : V3State :=
  match l.kind with
  | some .pointToPoint | some .virtualLink =>
    if !t.hasBacklink l.neighborRouterId rid then s else t.visitRouterLink root rid dist s l
  | some .transitNetwork =>
    if !t.lists ⟨l.neighborRouterId, l.neighborInterfaceId⟩ rid then s
    else
      let nextHop := if rid = root then none else s.inherited (.router rid)
      s.relax (.router rid) (.network l.neighborRouterId l.neighborInterfaceId)
        (dist + l.metric.toNat) nextHop
  | _ => s

/-- The link-local address of a router on a network the root is attached to. -/
def nextHopOnNetwork (root drRouter drInterface r : UInt32) : Option V3NextHop :=
  ((t.interfaceOnNetwork r drRouter drInterface).bind (t.linkLocalOf r)).map fun a =>
    ⟨.v6 a, (t.interfaceOnNetwork root drRouter drInterface).getD 0⟩

/-- A router attached to a network that is being visited. -/
def visitAttached (root drRouter drInterface : UInt32) (direct : Bool) (dist : Nat) (s : V3State)
    (r : UInt32) : V3State :=
  let nextHop :=
    if direct && r != root then t.nextHopOnNetwork root drRouter drInterface r
    else s.inherited (.network drRouter drInterface)
  let s' := s.relax (.network drRouter drInterface) (.router r) dist nextHop
  if direct && r != root then { s' with adjacentRouters := s'.adjacentRouters.insert r } else s'

/-- The body of the loop of `run_spf_v3`. -/
def visit (root : UInt32) (s : V3State) (v : V3VertexId) (dist : Nat) : V3State :=
  match v with
  | .router rid => (t.linksOf rid).foldl (t.visitLink root rid dist) s
  | .network r i =>
    let direct := s.parents[V3VertexId.network r i]? == some (.router root)
    (t.attached r i).foldl (t.visitAttached root r i direct dist) s

end

end V3Topology

/-! ## The distances are those of the search -/

theorem V3State.relax_front (s : V3State) (parent target : V3VertexId) (newDist : Nat)
    (nextHop : Option V3NextHop) :
    (s.relax parent target newDist nextHop).front = s.front.relax target newDist := by
  rw [Frontier.relax]
  fun_cases relax s parent target newDist nextHop with
  | case1 _ himp => exact (if_pos himp).symm
  | case2 himp | case3 himp | case4 himp | case5 _ himp => exact (if_neg himp).symm

namespace V3Topology

section

variable (t : V3Topology) (root rid : UInt32)

theorem visitRouterLink_front (dist : Nat) (s : V3State) (l : V3RouterLink) :
    (t.visitRouterLink root rid dist s l).front =
      s.front.relax (.router l.neighborRouterId) (dist + l.metric.toNat) := by
  rw [visitRouterLink]
  split <;> exact V3State.relax_front ..

theorem visitLink_front (dist : Nat) (s : V3State) (l : V3RouterLink) :
    (t.visitLink root rid dist s l).front =
      (if t.confirmed rid l then linkEdge l else none).elim s.front fun e =>
        s.front.relax e.1 (dist + e.2) := by
  have hrouter : (if (!t.hasBacklink l.neighborRouterId rid) = true then s
      else t.visitRouterLink root rid dist s l).front =
        (if t.hasBacklink l.neighborRouterId rid then
          some (.router l.neighborRouterId, l.metric.toNat) else none).elim s.front fun e =>
            s.front.relax e.1 (dist + e.2) := by
    cases t.hasBacklink l.neighborRouterId rid with
    | false => rfl
    | true => exact visitRouterLink_front ..
  rw [visitLink, linkEdge, confirmed]
  cases l.kind with
  | none => rfl
  | some kind =>
    cases kind with
    | pointToPoint => exact hrouter
    | virtualLink => exact hrouter
    | stubNetwork => rfl
    | transitNetwork =>
      dsimp only
      cases t.lists ⟨l.neighborRouterId, l.neighborInterfaceId⟩ rid with
      | false => rfl
      | true => exact V3State.relax_front ..

theorem visitAttached_front (root r i : UInt32) (direct : Bool) (dist : Nat) (s : V3State)
    (x : UInt32) :
    (t.visitAttached root r i direct dist s x).front = s.front.relax (.router x) dist := by
  rw [visitAttached]
  split <;> exact V3State.relax_front ..

theorem visit_front (s : V3State) (v : V3VertexId) (dist : Nat) :
    (t.visit root s v dist).front = s.front.expand (t.followed v) dist := by
  cases v with
  | router rid =>
    rw [followed, filterMap_filter]
    exact Frontier.front_foldl (t.visitLink_front root rid dist) (t.linksOf rid) s
  | network r i =>
    rw [followed, ← filterMap_eq_map]
    exact Frontier.front_foldl (fun s x => t.visitAttached_front root r i _ dist s x) _ s

end

/-- The order of the queue: the nearer vertex first, then the larger id. -/
def popsBefore (x y : V3VertexId × Nat) : Bool :=
  x.2 < y.2 || (x.2 == y.2 && compare y.1 x.1 == .lt)

/-- The run as an instance of the generic search. -/
def search (t : V3Topology) (root : UInt32) : Search V3VertexId V3State where
  graph := t.followedGraph
  front := V3State.front
  setHeap s queue := { s with queue := queue }
  visit := t.visit root
  before := popsBefore
  skipStale := false
  front_setHeap _ _ := rfl
  front_visit := t.visit_front root

end V3Topology

/-- The state before the first visit.  The root has a distance but is not a vertex of the
result. -/
def V3State.start (root : UInt32) : V3State where
  dist := (∅ : ExtTreeMap V3VertexId Nat compare).insert (.router root) 0
  vertices := ∅
  nextHops := ∅
  adjacentRouters := ∅
  parents := ∅
  queue := [(.router root, 0)]

/-- `run_spf_v3`, up to the routes that are attached to the tree afterwards. -/
def runSpfV3 (db : Lsdb) (root : UInt32) : V3State :=
  ((V3Topology.fromLsdb db).search root).run (.start root)

/-! ## The vertices of the result -/

namespace V3State

/-- The vertices of the result are those with a distance, but for the root. -/
def Tracks (root : UInt32) (s : V3State) : Prop :=
  s.dist[V3VertexId.router root]? = some 0 ∧
    ∀ v : V3VertexId, s.vertices[v]? = if v = .router root then none else s.dist[v]?

theorem tracks_start (root : UInt32) : Tracks root (.start root) := by
  refine ⟨by simp [start], fun v => ?_⟩
  by_cases hv : v = .router root
  · simp [start, hv]
  · simp [start, hv, Ne.symm hv]

theorem Tracks.relax {root : UInt32} {s : V3State} (h : Tracks root s)
    (parent target : V3VertexId) (newDist : Nat) (nextHop : Option V3NextHop) :
    Tracks root (s.relax parent target newDist nextHop) := by
  obtain ⟨hroot, hverts⟩ := h
  fun_cases V3State.relax s parent target newDist nextHop with
  | case2 | case3 | case4 | case5 => exact ⟨hroot, hverts⟩
  | case1 _ himp =>
    -- nothing is nearer than the root
    have hne : target ≠ .router root := by
      rintro rfl
      simp [Frontier.improves, front, hroot] at himp
    refine ⟨by simp [lookup_insert, hne, hroot], fun v => ?_⟩
    simp only [lookup_insert]
    by_cases hv : target = v
    · subst hv
      simp [hne]
    · simp [hv, hverts v]

end V3State

namespace V3Topology

variable {root : UInt32} {s : V3State}

theorem tracks_visitRouterLink (t : V3Topology) (rid : UInt32) (dist : Nat) (l : V3RouterLink)
    (h : s.Tracks root) : (t.visitRouterLink root rid dist s l).Tracks root := by
  rw [visitRouterLink]
  split <;> exact h.relax ..

theorem tracks_visitLink (t : V3Topology) (rid : UInt32) (dist : Nat) (l : V3RouterLink)
    (h : s.Tracks root) : (t.visitLink root rid dist s l).Tracks root := by
  fun_cases visitLink t root rid dist s l with
  | case1 | case3 | case5 | case7 => exact h
  | case2 | case4 => exact t.tracks_visitRouterLink rid dist l h
  | case6 => exact h.relax ..

theorem tracks_visitAttached (t : V3Topology) (r i : UInt32) (direct : Bool) (dist : Nat)
    (x : UInt32) (h : s.Tracks root) : (t.visitAttached root r i direct dist s x).Tracks root := by
  rw [visitAttached]
  split <;> exact h.relax ..

theorem tracks_visit (t : V3Topology) (v : V3VertexId) (dist : Nat) (h : s.Tracks root) :
    (t.visit root s v dist).Tracks root := by
  cases v with
  | router rid =>
    exact foldlRecOn (t.linksOf rid) _ h fun s hs l _ => t.tracks_visitLink rid dist l hs
  | network r i =>
    exact foldlRecOn (t.attached r i) _ h fun s hs x _ =>
      t.tracks_visitAttached r i _ dist x hs

end V3Topology

theorem runSpfV3_tracks (db : Lsdb) (root : UInt32) : (runSpfV3 db root).Tracks root := by
  refine (Search.run_invariant (fun s s' hs hstep => ?_) _ (V3State.tracks_start root)).1
  obtain ⟨rest, rfl | ⟨v, d, rfl⟩⟩ := Search.step_cases hstep
  · exact hs
  · exact V3Topology.tracks_visit _ v d hs

/-- The distances of `run_spf_v3` are the least costs over the links it follows. -/
theorem runSpfV3_dist_iff (db : Lsdb) (root : UInt32) (v : V3VertexId) (d : Nat) :
    (runSpfV3 db root).dist[v]? = some d ↔
      IsDist (V3Topology.fromLsdb db).followedGraph.Edge (.router root) v d :=
  Search.run_dist_iff (S := (V3Topology.fromLsdb db).search root) rfl v d

theorem runSpfV3_vertices_iff (db : Lsdb) {root : UInt32} {v : V3VertexId}
    (hv : v ≠ .router root) (d : Nat) :
    (runSpfV3 db root).vertices[v]? = some d ↔
      IsDist (V3Topology.fromLsdb db).followedGraph.Edge (.router root) v d := by
  rw [(runSpfV3_tracks db root).2 v, if_neg hv, runSpfV3_dist_iff]

universe u

section TwoWay

variable {V : Type u} (E F : V → V → Nat → Prop)

/-- A link both ends describe. -/
def TwoWay (v w : V) (c : Nat) : Prop := E v w c ∧ ∃ c', E w v c'

/-- No path over the links of `F` reaches a vertex, or reaches it at a cost, that paths
over two-way links do not. -/
def OneWayAddsNothing (root : V) : Prop :=
  ∀ v d, Path F root v d → ∃ d' ≤ d, Path (TwoWay E) root v d'

variable {E}

/-- A vertex that describes no link is on no two-way path. -/
theorem not_path_twoWay {root v : V} (hne : v ≠ root) (hv : ∀ w c, ¬ E v w c) (d : Nat) :
    ¬ Path (TwoWay E) root v d := by
  intro p
  cases p with
  | refl => exact hne rfl
  | snoc _ e =>
    obtain ⟨-, c, hback⟩ := e
    exact hv _ c hback

end TwoWay

/-! ## The two calculations -/

/-- The links the LSAs of a version 2 database describe. -/
def describes (db : Lsdb) : VertexId → VertexId → Nat → Prop := (Topology.fromLsdb db).graph.Edge

/-- The links the LSAs of a version 3 database describe. -/
def describesV3 (db : Lsdb) : V3VertexId → V3VertexId → Nat → Prop :=
  (V3Topology.fromLsdb db).graph.Edge

/-- The links `run_spf_v3` follows. -/
def followsV3 (db : Lsdb) : V3VertexId → V3VertexId → Nat → Prop :=
  (V3Topology.fromLsdb db).followedGraph.Edge

/-- The vertices of `run_spf` are those on two-way paths, with their least costs. -/
def SpfShortest (db : Lsdb) (root : UInt32) : Prop :=
  ∀ v d, (runSpf db root).vertices[v]? = some d ↔
    IsDist (TwoWay (describes db)) (.router root) v d

/-- The same of `run_spf_v3`, for the vertices other than the root. -/
def SpfV3Shortest (db : Lsdb) (root : UInt32) : Prop :=
  ∀ v, v ≠ .router root → ∀ d, (runSpfV3 db root).vertices[v]? = some d ↔
    IsDist (TwoWay (describesV3 db)) (.router root) v d

namespace V3Topology

variable {t : V3Topology}

theorem hasBacklink_of_edge {nbr r : UInt32} {c : Nat}
    (h : (V3VertexId.router r, c) ∈ t.edges (.router nbr)) : t.hasBacklink nbr r = true := by
  obtain ⟨l, hl, he⟩ := mem_filterMap.mp h
  refine any_eq_true.mpr ⟨l, hl, ?_⟩
  rw [linkEdge] at he
  split at he
  case h_1 hkind =>
    cases he
    simp [hkind]
  case h_2 hkind =>
    cases he
    simp [hkind]
  case h_3 => cases he
  case h_4 => cases he

theorem lists_of_edge {n i r : UInt32} {c : Nat}
    (h : (V3VertexId.router r, c) ∈ t.edges (.network n i)) : t.lists ⟨n, i⟩ r = true := by
  obtain ⟨x, hx, he⟩ := mem_map.mp h
  cases he
  rw [attached] at hx
  rw [lists]
  split at hx
  case h_1 => cases hx
  case h_2 => simpa using hx

/-- A two-way link is followed. -/
theorem followed_of_twoWay {v w : V3VertexId} {c : Nat} (h : TwoWay t.graph.Edge v w c) :
    t.followedGraph.Edge v w c := by
  obtain ⟨hedge, c', hback⟩ := h
  cases v with
  | network n i => exact hedge
  | router r =>
    obtain ⟨l, hl, he⟩ := mem_filterMap.mp hedge
    refine mem_filterMap.mpr ⟨l, mem_filter.mpr ⟨hl, ?_⟩, he⟩
    rw [linkEdge] at he
    rw [confirmed]
    split at he
    case h_1 =>
      cases he
      exact hasBacklink_of_edge hback
    case h_2 =>
      cases he
      exact hasBacklink_of_edge hback
    case h_3 =>
      cases he
      exact lists_of_edge hback
    case h_4 => cases he

end V3Topology

/-- Each calculation gives the shortest two-way paths exactly on the databases in which the
one-way links it follows add nothing; `run_spf_v3` never lists its root. -/
theorem spf_shortest_iff (db : Lsdb) (root : UInt32) :
    (SpfShortest db root ↔ OneWayAddsNothing (describes db) (describes db) (.router root)) ∧
      (SpfV3Shortest db root ↔
        OneWayAddsNothing (describesV3 db) (followsV3 db) (.router root)) ∧
      (runSpfV3 db root).vertices[V3VertexId.router root]? = none := by
  refine ⟨?_, ?_, ?_⟩
  · rw [OneWayAddsNothing, ← isDist_eq_iff fun v w c h => h.1]
    simp only [SpfShortest, runSpf_vertices_iff]
    rfl
  · have hsub (v w : V3VertexId) (c : Nat) (h : TwoWay (describesV3 db) v w c) :
        followsV3 db v w c := V3Topology.followed_of_twoWay h
    rw [OneWayAddsNothing, ← isDist_eq_iff hsub]
    constructor
    · intro h v d
      by_cases hv : v = .router root
      · rw [hv, isDist_self, isDist_self]
      · rw [← h v hv d, runSpfV3_vertices_iff db hv]
        rfl
    · intro h v hv d
      rw [runSpfV3_vertices_iff db hv]
      exact h v d
  · rw [(runSpfV3_tracks db root).2, if_pos rfl]

/-! ## One-way links -/

/-- Install LSAs into an empty database. -/
def database (lsas : List Lsa) : Lsdb := lsas.foldl (fun db l => (db.install l 0).1) .empty

/-- An LSA of the first sequence number. -/
def lsa (lsType : UInt16) (linkStateId advertisingRouter : UInt32) (body : Bytes) : Lsa :=
  ⟨⟨0, 0, lsType, linkStateId, advertisingRouter, initialSequenceNumber, 0,
    UInt16.ofNat (20 + body.length)⟩, body⟩

/-- Router 1 describes a link of cost 10 to router 2, which has no LSA. -/
def halfLink : Lsdb :=
  database [lsa lsTypeRouter 1 1 ([0, 0, 0, 1] ++ toBe32 2 ++ toBe32 0 ++ [1, 0] ++ toBe16 10)]

/-- The network of router 1 lists router 3, which has no LSA. -/
def halfAttached : Lsdb :=
  database
    [lsa v3TypeRouter 0 1
      ([0, 0, 0, 0] ++ [2, 0] ++ toBe16 10 ++ toBe32 1 ++ toBe32 1 ++ toBe32 1),
      lsa v3TypeNetwork 1 1 ([0, 0, 0, 0] ++ toBe32 1 ++ toBe32 3)]

/-- Both calculations reach a router that describes no link. -/
theorem oneWay_reached :
    ((runSpf halfLink 1).vertices[VertexId.router 2]? = some 10 ∧
        ∀ d, ¬ Path (TwoWay (describes halfLink)) (.router 1) (.router 2) d) ∧
      ((runSpfV3 halfAttached 1).vertices[V3VertexId.router 3]? = some 10 ∧
        ∀ d, ¬ Path (TwoWay (describesV3 halfAttached)) (.router 1) (.router 3) d) := by
  have hnone : (Topology.fromLsdb halfLink).edges (.router 2) = [] := by decide +kernel
  have hnoneV3 : (V3Topology.fromLsdb halfAttached).edges (.router 3) = [] := by decide +kernel
  refine ⟨⟨?_, not_path_twoWay (by decide) fun w c h => ?_⟩,
    ⟨?_, not_path_twoWay (by decide) fun w c h => ?_⟩⟩
  · rw [runSpf, Search.run_eq_runFor 2 _ (Option.isNone_iff_eq_none.mp (by decide +kernel))]
    decide +kernel
  · change (w, c) ∈ (Topology.fromLsdb halfLink).edges (.router 2) at h
    simp [hnone] at h
  · rw [runSpfV3, Search.run_eq_runFor 4 _ (Option.isNone_iff_eq_none.mp (by decide +kernel))]
    decide +kernel
  · change (w, c) ∈ (V3Topology.fromLsdb halfAttached).edges (.router 3) at h
    simp [hnoneV3] at h

end LibRouting.Ospf
