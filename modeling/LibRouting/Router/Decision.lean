/-
  Router/Decision.lean --- pipes between protocols and aggregates (`redistribution.rs`), and
  the decision process over them (`reselect`, `apply_selection`, `redistribute_route`,
  `recompute_aggregates`, `unoriginate` of `instance/mod.rs`).

  The five functions call each other.  Here each of them takes `apply_selection` as a
  parameter, and `applySelection` alone recurses, on a bound for the depth of the calls:
  `none` means that the bound was reached.

  None of them reads what the sessions have been sent.  What they export is kept as a
  list, in order, and carried out afterwards.
-/
import LibRouting.Bgp.Advertise
import LibRouting.Bgp.BestPath
import LibRouting.Rib.AdjRib
import LibRouting.Rib.LocRib

set_option autoImplicit false

namespace LibRouting.Router

open Foundation Core Bgp Rib

/-! ## Pipes -/

/-- The metric of a redistributed route. -/
inductive MetricPolicy where
  | inherit
  | fixed (metric : UInt32)
  | add (offset : UInt32)
  deriving DecidableEq, Repr

/-- `MetricPolicy::apply`; `add` saturates. -/
def MetricPolicy.apply : MetricPolicy → UInt32 → UInt32
  | inherit, m => m
  | fixed n, _ => n
  | add n, m => if m.toNat + n.toNat < 2 ^ 32 then m + n else 0xffffffff

/-- Routes of `source` are re-originated into `target`. -/
structure RedistributionPipe where
  source : Protocol
  target : Protocol
  metric : MetricPolicy := .inherit
  tag : UInt32 := 0
  allowPrefixes : List Prefix := []
  deriving DecidableEq, Repr

namespace RedistributionPipe

/-- `RedistributionPipe::matches`. -/
def matchesPrefix (pipe : RedistributionPipe) (p : Prefix) : Bool :=
  pipe.allowPrefixes.isEmpty || pipe.allowPrefixes.any fun allow => allow.containsPrefix p

/-- The pipe takes up this route. -/
def takes (pipe : RedistributionPipe) (route : Route) : Bool :=
  pipe.source = route.protocol && pipe.matchesPrefix route.key.pfx

/-- `pipe.tag` in the tag slot of a route: zero is no tag. -/
def routeTag (pipe : RedistributionPipe) : Option UInt32 :=
  if pipe.tag ≠ 0 then some pipe.tag else none

end RedistributionPipe

/-- An attribute the router sets on its own routes. -/
def ownAttribute (t : AttrType) (value : Bytes) : PathAttribute :=
  ⟨PathAttrFlags.new.setTransitive true, t, value⟩

/-- The attributes of a route the router originates: ORIGIN IGP, an empty AS_PATH and,
for IPv4 unicast, NEXT_HOP. -/
def originatedAttributes (family : NlriFamily) (nextHop : Option IpAddr) : PathAttributes :=
  let attrs := (PathAttributes.new.insert (ownAttribute .origin [0])).insert
    (ownAttribute .asPath [])
  match nextHop with
  | some nh => if family = .ipv4Unicast then attrs.insert (BgpPeer.nextHopAttr nh) else attrs
  | none => attrs

/-- The BGP route `redistribute_route` makes of a route.  It keeps the peer of its
source, for the split horizon. -/
def RedistributionPipe.bgpCopy (pipe : RedistributionPipe) (nowMs : UInt64) (route : Route) :
    Route where
  key := route.key
  origin := ⟨2, route.origin.peer⟩
  protocol := .bgp
  preference := ⟨Protocol.bgp.defaultAdminDistance, pipe.metric.apply route.preference.metric⟩
  nextHop := route.nextHop
  attributes := (originatedAttributes route.key.family route.nextHop).toAttributes
  ageMs := nowMs
  pathId := 0
  tag := pipe.routeTag

/-- The external destination handed to OSPFv2; `redistribute_route` always gives the
same metric type, forwarding address and P-bit. -/
structure ExternalDestination where
  pfx : Prefix
  metric : UInt32
  routeTag : UInt32
  deriving DecidableEq, Repr

/-- The external destination handed to OSPFv3, where a tag may be absent. -/
structure V3ExternalDestination where
  pfx : Prefix
  metric : UInt32
  routeTag : Option UInt32
  deriving DecidableEq, Repr

/-- The destination a pipe into OSPFv2 makes of a route. -/
def RedistributionPipe.external (pipe : RedistributionPipe) (route : Route) : ExternalDestination :=
  ⟨route.key.pfx, pipe.metric.apply route.preference.metric, pipe.tag⟩

/-- The destination a pipe into OSPFv3 makes of a route. -/
def RedistributionPipe.externalV3 (pipe : RedistributionPipe) (route : Route) :
    V3ExternalDestination :=
  ⟨route.key.pfx, pipe.metric.apply route.preference.metric, pipe.routeTag⟩

/-! ## Aggregates -/

/-- The options of an aggregate. -/
structure AggregateOptions where
  summaryOnly : Bool := false
  asSet : Bool := false
  deriving DecidableEq, Repr

/-- The registered aggregates. -/
abbrev AggregateTable : Type := Std.ExtTreeMap Prefix AggregateOptions compare

/-- `p` lies inside the aggregate and is longer. -/
def moreSpecific (agg p : Prefix) : Bool :=
  agg.containsPrefix p && decide (agg.prefixLen < p.prefixLen)

/-- `summary_only_suppresses`. -/
def summaryOnlySuppresses (aggregates : AggregateTable) (key : RouteKey) : Bool :=
  aggregates.toList.any fun e => e.2.summaryOnly && moreSpecific e.1 key.pfx

/-- The key of the route an aggregate is originated as. -/
def aggregateKey (agg : Prefix) : RouteKey := .new agg (.fromAddr agg.addr)

/-- The members of a list, each once, in ascending order: a `BTreeSet` of numbers. -/
def ascending (asns : List Asn) : List Asn := asns.dedup.insertionSort (· ≤ ·)

/-- The AS numbers of the AS_PATHs of contributing routes, confederation segments left
out. -/
def contributingAses (contributing : List PathAttributes) : List Asn :=
  ascending <| contributing.flatMap fun attrs =>
    match attrs.asPath with
    | none => []
    | some path => (path.segments.filter fun s => !s.kind.isConfed).flatMap AsPathSegment.ases

/-- The AS numbers of the AS_SET of a path. -/
def asSetOf (path : AsPath) : List Asn :=
  match path.segments.find? fun s => s.kind = .set with
  | none => []
  | some s => ascending s.ases

/-- The attributes of an aggregate: an AS_SET of the contributing AS numbers under
`as_set`, else an empty AS_PATH with ATOMIC_AGGREGATE; AGGREGATOR names the router. -/
def aggregateAttributes (options : AggregateOptions) (ases : List Asn)
    (aggregator : Asn × RouterId) : PathAttributes :=
  let attrs := PathAttributes.new.insert (ownAttribute .origin [0])
  let attrs :=
    if options.asSet then
      attrs.insert (ownAttribute .asPath (AsPath.encode4 ⟨[⟨.set, ases⟩]⟩))
    else
      (attrs.insert (ownAttribute .asPath [])).insert (ownAttribute .atomicAggregate [])
  attrs.insert ⟨(PathAttrFlags.new.setOptional true).setTransitive true, .aggregator,
    toBe32 aggregator.1 ++ toBe32 aggregator.2⟩

/-- A route the router originates itself. -/
def localRoute (key : RouteKey) (nextHop : Option IpAddr) (attrs : PathAttributes)
    (ageMs : UInt64) : Route where
  key := key
  origin := ⟨2, 0⟩
  protocol := .bgp
  preference := ⟨Protocol.bgp.defaultAdminDistance, 0⟩
  nextHop := nextHop
  attributes := attrs.toAttributes
  ageMs := ageMs
  pathId := 0
  tag := none

/-! ## State -/

/-- A call of the export pipeline. -/
inductive Export where
  /-- `export_selection`. -/
  | selection (key : RouteKey) (ranked : List Route)
  /-- `propagate_withdrawal`. -/
  | withdrawal (key : RouteKey)
  deriving DecidableEq

/-- What a change of the routing table may change. -/
structure RibState where
  locRib : LocRib := ∅
  originated : RouteTable := ∅
  redistributedBgp : RouteTable := ∅
  ospfExternals : Std.ExtTreeMap IpAddr ExternalDestination compare := ∅
  ospfV3Externals : Std.ExtTreeMap Prefix V3ExternalDestination compare := ∅
  exports : List Export := []

namespace RibState

section

variable (st : RibState)

/-- Call the export pipeline. -/
def exporting (e : Export) : RibState := { st with exports := st.exports ++ [e] }

/-- Put a route into the Loc-RIB for its key, whatever stands there. -/
def installBest (route : Route) : RibState :=
  { st with locRib := st.locRib.installSet route.key [route] }

/-- `unredistribute_route`. -/
def unredistributeRoute (key : RouteKey) : RibState :=
  { st with redistributedBgp := st.redistributedBgp.erase key }

/-- `ospf_redistribute`: destinations with one network share an entry. -/
def ospfRedistribute (dest : ExternalDestination) : RibState :=
  if dest.pfx.addr.isIpv4 then
    { st with ospfExternals := st.ospfExternals.insert dest.pfx.network dest }
  else st

/-- `ospf_redistribute_v3`: the destination is stored without host bits. -/
def ospfRedistributeV3 (dest : V3ExternalDestination) : RibState :=
  if dest.pfx.addr.isIpv4 then st
  else
    let pfx : Prefix := ⟨dest.pfx.network, dest.pfx.prefixLen⟩
    { st with ospfV3Externals := st.ospfV3Externals.insert pfx { dest with pfx } }

/-- `ospf_unredistribute`. -/
def ospfUnredistribute (pfx : Prefix) : RibState :=
  if pfx.addr.isIpv4 then { st with ospfExternals := st.ospfExternals.erase pfx.network }
  else
    { st with ospfV3Externals := st.ospfV3Externals.erase ⟨pfx.network, pfx.prefixLen⟩ }

end

end RibState

/-- What the decision process reads and does not change. -/
structure Decision where
  adjRibIn : AdjRibIn := ∅
  staticRoutes : RouteTable := ∅
  connectedRoutes : RouteTable := ∅
  directRib : RouteTable := ∅
  bestPath : BestPathConfig := {}
  addPathMaxPaths : Nat := 1
  pipes : List RedistributionPipe := []
  aggregates : AggregateTable := ∅
  /-- The AS number and identifier of the first session. -/
  aggregator : Asn × RouterId := (0, 0)
  nowMs : UInt64 := 0

namespace Decision

variable (d : Decision)

/-! ## Selection -/

/-- The Adj-RIB-In paths of a key. -/
def received (key : RouteKey) : List Route := d.adjRibIn.iterAll.filter fun r => r.key = key

/-- The candidates of `reselect`. -/
def candidates (st : RibState) (key : RouteKey) : List Route :=
  d.received key ++ (st.originated.get key).toList ++ (d.staticRoutes.get key).toList ++
    (d.connectedRoutes.get key).toList ++ (d.directRib.get key).toList

/-- The ranking: BGP's when every candidate is a BGP route, else the one route with the
best preference. -/
def rankCandidates (routes : List Route) : List Route :=
  if routes.all fun r => r.protocol = .bgp then
    (BestPath.rank d.bestPath routes).take d.addPathMaxPaths
  else (RouteSelector.select routes).toList

/-- `apply_selection`, as the functions below call it. -/
abbrev Apply : Type := RibState → RouteKey → List Route → Option RibState

/-- `reselect`. -/
def reselect (apply : Apply) (st : RibState) (key : RouteKey) : Option RibState :=
  apply st key (d.rankCandidates (d.candidates st key))

/-- `unoriginate`. -/
def unoriginate (apply : Apply) (st : RibState) (key : RouteKey) : Option RibState :=
  if st.originated.contains key then
    d.reselect apply
      ({ st with originated := st.originated.erase key }.unredistributeRoute key) key
  else some st

/-! ## Redistribution -/

/-- The route is the stored copy itself: the engine's own output. -/
def isCopy (st : RibState) (route : Route) : Bool :=
  (st.redistributedBgp.get route.key).any fun copy =>
    copy.protocol = route.protocol ∧ copy.origin = route.origin ∧
      copy.preference = route.preference ∧ copy.attributes = route.attributes ∧
      copy.nextHop = route.nextHop

/-- The stored copy is this one, its age aside. -/
def copyUnchanged (st : RibState) (copy : Route) : Bool :=
  (st.redistributedBgp.get copy.key).any fun old =>
    old.origin = copy.origin ∧ old.preference = copy.preference ∧
      old.attributes = copy.attributes ∧ old.nextHop = copy.nextHop ∧ old.tag = copy.tag

/-- Only unicast routes have a BGP copy. -/
def copiesFamily (family : NlriFamily) : Bool :=
  family = .ipv4Unicast || family = .ipv6Unicast

/-- One pipe of the loop of `redistribute_route`. -/
def redistributeInto (apply : Apply) (route : Route) (st : RibState)
    (pipe : RedistributionPipe) : Option RibState :=
  match pipe.target with
  | .bgp =>
    let copy := pipe.bgpCopy d.nowMs route
    if !copiesFamily route.key.family || copyUnchanged st copy then some st
    else
      -- the originated, static, connected and direct routes are not among the candidates
      apply { st with redistributedBgp := st.redistributedBgp.insert copy } route.key
        (d.rankCandidates (d.received route.key ++ [copy]))
  -- a destination of the other address family is ignored
  | .ospfv2 => some (st.ospfRedistribute (pipe.external route))
  | .ospfv3 => some (st.ospfRedistributeV3 (pipe.externalV3 route))
  | _ => some st

/-- `redistribute_route`. -/
def redistributeRoute (apply : Apply) (st : RibState) (route : Route) : Option RibState :=
  if isCopy st route then some st
  else (d.pipes.filter fun pipe => pipe.takes route).foldlM (d.redistributeInto apply route) st

/-! ## Aggregation -/

/-- The best routes inside an aggregate. -/
def contributing (best : List Route) (agg : Prefix) : List PathAttributes :=
  (best.filter fun r => moreSpecific agg r.key.pfx).map fun r => .ofAttributes r.attributes

/-- The AS_SET of the originated aggregate is not the one its contributing routes
give. -/
def asSetChanged (st : RibState) (key : RouteKey) (ases : List Asn) : Bool :=
  (((st.originated.get key).bind fun r => (PathAttributes.ofAttributes r.attributes).asPath).map
    fun path => decide (asSetOf path ≠ ases)).getD true

/-- The loop body of `recompute_aggregates`; `best` is the Loc-RIB when the loop was
entered. -/
def recomputeAggregate (apply : Apply) (best : List Route) (st : RibState)
    (entry : Prefix × AggregateOptions) : Option RibState := do
  let key := aggregateKey entry.1
  let inside := contributing best entry.1
  let ases := if entry.2.asSet then contributingAses inside else []
  let st ←
    (if st.originated.contains key && entry.2.asSet && asSetChanged st key ases then
      d.unoriginate apply st key
    else some st)
  if !inside.isEmpty && !st.originated.contains key then
    let route := localRoute key none (aggregateAttributes entry.2 ases d.aggregator) d.nowMs
    let st := st.installBest route
    some ({ st with originated := st.originated.insert route }.exporting (.selection key [route]))
  else if inside.isEmpty && st.originated.contains key then d.unoriginate apply st key
  else some st

/-- `recompute_aggregates`. -/
def recomputeAggregates (apply : Apply) (st : RibState) : Option RibState :=
  d.aggregates.toList.foldlM (d.recomputeAggregate apply st.locRib.iterBest) st

/-! ## The recursion -/

/-- `apply_selection` with its recursive calls given. -/
def applyWith (apply : Apply) : Apply := fun st key ranked =>
  match ranked with
  | [] =>
    d.recomputeAggregates apply <|
      ({ st with
        locRib := st.locRib.uninstall key }.exporting (.withdrawal key)).unredistributeRoute
        key
  | newBest :: _ => do
      let oldBest := st.locRib.best key
      let st := { st with locRib := st.locRib.installSet key ranked }
      let st ← (if oldBest = some newBest then some st else d.redistributeRoute apply st newBest)
      d.recomputeAggregates apply (st.exporting (.selection key ranked))

/-- `apply_selection`, with at most `fuel` nested calls. -/
def applySelection : Nat → Apply
  | 0 => fun _ _ _ => none
  | fuel + 1 => d.applyWith (applySelection fuel)

end Decision

end LibRouting.Router
