/-
  Router/Instance.lean --- the router (`instance/mod.rs`): its state, the entry points of
  the routing table and the import pipeline.

  `fuel` bounds the nested calls of the decision process.  An operation that reaches the
  bound, or that panics, does not return: `none`.
-/
import LibRouting.Foundation.TimerQueue
import LibRouting.Router.Export
import LibRouting.Router.Import

set_option autoImplicit false

namespace LibRouting.Router

open Foundation Core Bgp Policy Rib

/-! ## State -/

/-- The prefix counter of a session and its latches. -/
structure MaxPrefixState where
  exceeded : Bool := false
  thresholdWarned : Bool := false
  count : UInt32 := 0
  restartCooldownUntil : Option UInt64 := none
  deriving DecidableEq, Repr

/-- `u32::saturating_add`. -/
def saturatingSucc (n : UInt32) : UInt32 := if n = 0xffffffff then n else n + 1

/-- `u32::saturating_sub`. -/
def saturatingSub (n m : UInt32) : UInt32 := if m ≤ n then n - m else 0

namespace MaxPrefixState

section

variable (s : MaxPrefixState)

/-- One more prefix. -/
def counted : MaxPrefixState := { s with count := saturatingSucc s.count }

/-- Take off some routes; the number is cut to 32 bits. -/
def uncounted (n : Nat) (s : MaxPrefixState) : MaxPrefixState :=
  { s with count := saturatingSub s.count (UInt32.ofNat n) }

/-- The early warning of `check_max_prefix` is due. -/
def warnsAt (options : SessionOptions) (limit : UInt32) : Bool :=
  0 < options.maximumPrefixThreshold && 0 < s.count && s.count < limit &&
    UInt32.ofNat (limit.toNat * options.maximumPrefixThreshold.toNat / 100) ≤ s.count

/-- The limit is exceeded for the first time. -/
def trips (limit : UInt32) : Bool := limit < s.count && !s.exceeded

/-- The record after `check_max_prefix`. -/
def checked (options : SessionOptions) (limit : UInt32) (now : UInt64) : MaxPrefixState :=
  { s with
    thresholdWarned := s.thresholdWarned || s.warnsAt options limit
    exceeded := s.exceeded || s.trips limit
    restartCooldownUntil :=
      if s.trips limit ∧ options.maximumPrefixAction = .restart ∧
          options.maximumPrefixRestartTime ≠ 0 then
        some (saturatingAdd now (UInt64.ofNat (options.maximumPrefixRestartTime.toNat * 1000)))
      else s.restartCooldownUntil }

end

end MaxPrefixState

/-- Retention for a session that went down (RFC 4724, RFC 9494).  `refreshed` is a set:
only membership is read. -/
structure GracefulRestartState where
  restartExpiresAtMs : UInt64
  llgrDeadlines : Std.ExtTreeMap NlriFamily UInt64 compare := ∅
  markedStale : Bool := false
  refreshed : List (RouteKey × UInt32) := []

/-- The peer has announced the path again. -/
def GracefulRestartState.hasRefreshed (g : GracefulRestartState) (r : Route) : Bool :=
  g.refreshed.contains (r.key, r.pathId)

/-- What the sessions have announced, and the accounts kept of it. -/
structure Ingress where
  adjRibIn : AdjRibIn := ∅
  prePolicy : AdjRibIn := ∅
  maxPrefix : Std.ExtTreeMap UInt64 MaxPrefixState compare := ∅
  gracefulRestart : Std.ExtTreeMap UInt64 GracefulRestartState compare := ∅

/-- What the embedder sets for the whole router. -/
structure Settings where
  safety : Option SafetyNet := none
  hooks : HookChain := {}
  ebgpRequiresPolicy : Bool := false
  enforceFirstAs : Bool := false
  bestPath : BestPathConfig := {}
  addPathMaxPaths : Nat := 1

/-- The router: export side, import side, tables and settings. -/
structure DefaultRouter where
  egress : Egress := {}
  ingress : Ingress := {}
  rib : RibState := {}
  staticRoutes : RouteTable := ∅
  connectedRoutes : RouteTable := ∅
  directRib : RouteTable := ∅
  pipes : List RedistributionPipe := []
  aggregates : AggregateTable := ∅
  settings : Settings := {}
  sessionPolicy : Std.ExtTreeMap UInt64 SessionPolicy compare := ∅
  timers : TimerQueue UInt32 := []
  nowMs : UInt64 := 0
  nextHandle : UInt64 := 1
  administrativeClose : List UInt64 := []
  /-- The collision group and the transport role of the sessions that have one. -/
  collisionMeta : Std.ExtTreeMap UInt64 (UInt64 × Bool) compare := ∅

namespace DefaultRouter

/-- `DefaultRouter::new`. -/
def new : DefaultRouter := {}

variable (r : DefaultRouter)

/-- The session with this handle. -/
def session (h : UInt64) : Option Session := r.egress.sessions[h]?

/-- Replaces a session. -/
def setSession (h : UInt64) (s : Session) : DefaultRouter :=
  { r with egress := r.egress.setSession h s }

/-- The speaker that aggregates: the first session's. -/
def aggregator : Asn × RouterId :=
  (r.egress.sessions.toList.head?.map fun e =>
    (e.2.peer.cfg.localAs, e.2.peer.cfg.localBgpId)).getD (0, 0)

/-- What the decision process reads. -/
def decision : Decision where
  adjRibIn := r.ingress.adjRibIn
  staticRoutes := r.staticRoutes
  connectedRoutes := r.connectedRoutes
  directRib := r.directRib
  bestPath := r.settings.bestPath
  addPathMaxPaths := r.settings.addPathMaxPaths
  pipes := r.pipes
  aggregates := r.aggregates
  aggregator := r.aggregator
  nowMs := r.nowMs

/-- What the export pipeline reads. -/
def exportContext : ExportContext where
  hooks := r.settings.hooks
  ebgpRequiresPolicy := r.settings.ebgpRequiresPolicy
  sessionPolicy := r.sessionPolicy
  aggregates := r.aggregates
  nowMs := r.nowMs

/-! ## The routing table -/

/-- Change the routing table, then carry out what was exported on the way. -/
def onRib (change : Decision → RibState → Option RibState) : Option DefaultRouter := do
  let st ← change r.decision r.rib
  let egress ← st.exports.foldlM (Egress.perform r.exportContext) r.egress
  some { r with rib := { st with exports := [] }, egress }

variable (fuel : Nat)

/-- `reselect`. -/
def reselect (key : RouteKey) : Option DefaultRouter :=
  r.onRib fun d st => d.reselect (d.applySelection fuel) st key

/-- `reselect` for keys in turn. -/
def reselectAll (keys : List RouteKey) : Option DefaultRouter :=
  keys.foldlM (fun r key => r.reselect fuel key) r

/-- Install a route of the router's own and export it. -/
def originateRoute (route : Route) : Option DefaultRouter :=
  r.onRib fun _ st =>
    let st := st.installBest route
    some ({ st with originated := st.originated.insert route }.exporting
      (.selection route.key [route]))

section

variable (pfx : Prefix) (family : NlriFamily) (nextHop : Option IpAddr)

/-- `originate_family`. -/
def originateFamily : Option DefaultRouter :=
  r.originateRoute (localRoute (.new pfx family) nextHop (originatedAttributes family nextHop) 0)

/-- `originate_with_attributes`. -/
def originateWithAttributes (attributes : Attributes) : Option DefaultRouter :=
  let attrs := PathAttributes.ofAttributes attributes
  let attrs := match nextHop with
    | some nh => if attrs.nextHop.isNone then attrs.insert (BgpPeer.nextHopAttr nh) else attrs
    | none => attrs
  r.originateRoute (localRoute (.new pfx family) nextHop attrs 0)

/-- `unoriginate`. -/
def unoriginate (key : RouteKey) : Option DefaultRouter :=
  r.onRib fun d st => d.unoriginate (d.applySelection fuel) st key

/-- The route of a static or connected table. -/
def tableRoute (protocol : Protocol) (origin : RouteOrigin) (key : RouteKey)
    (nextHop : Option IpAddr) (metric : UInt32) (tag : Option UInt32) : Route where
  key := key
  origin := origin
  protocol := protocol
  preference := ⟨protocol.defaultAdminDistance, metric⟩
  nextHop := nextHop
  attributes := ∅
  ageMs := 0
  pathId := 0
  tag := tag

/-- Install a route of a static or connected table, offer it to the pipes and export
it. -/
def installLocal (route : Route) : Option DefaultRouter :=
  r.onRib fun d st => do
    let st ← d.redistributeRoute (d.applySelection fuel) (st.installBest route) route
    some (st.exporting (.selection route.key [route]))

/-- A static or connected route is gone. -/
def uninstallLocal (key : RouteKey) : Option DefaultRouter :=
  r.onRib fun d st => d.reselect (d.applySelection fuel) (st.unredistributeRoute key) key

/-- `install_static`. -/
def installStatic (metric : UInt32) (tag : Option UInt32) : Option DefaultRouter :=
  let route := tableRoute .static ⟨2, 0⟩ (.new pfx family) nextHop metric tag
  { r with staticRoutes := r.staticRoutes.insert route }.installLocal fuel route

/-- `uninstall_static`. -/
def uninstallStatic (key : RouteKey) : Option DefaultRouter :=
  if r.staticRoutes.contains key then
    { r with staticRoutes := r.staticRoutes.erase key }.uninstallLocal fuel key
  else some r

/-- `install_connected`. -/
def installConnected (metric : UInt32) (ifId : UInt64) : Option DefaultRouter :=
  let route := tableRoute .connected ⟨3, ifId⟩ (.new pfx family) nextHop metric none
  { r with connectedRoutes := r.connectedRoutes.insert route }.installLocal fuel route

end

/-- `uninstall_connected`. -/
def uninstallConnected (key : RouteKey) : Option DefaultRouter :=
  if r.connectedRoutes.contains key then
    { r with connectedRoutes := r.connectedRoutes.erase key }.uninstallLocal fuel key
  else some r

/-- `recompute_aggregates`. -/
def recomputeAggregates : Option DefaultRouter :=
  r.onRib fun d st => d.recomputeAggregates (d.applySelection fuel) st

/-- `reflush_summary_only_specifics`. -/
def reflushSummaryOnlySpecifics (agg : Prefix) : Option DefaultRouter :=
  r.onRib fun _ st => some <|
    (st.locRib.toList.filter fun e => moreSpecific agg e.1.pfx).foldl
      (fun st e => st.exporting (.selection e.1 e.2)) st

/-- `add_aggregate`. -/
def addAggregate (agg : Prefix) : Option DefaultRouter :=
  { r with aggregates := r.aggregates.insert agg {} }.recomputeAggregates fuel

/-- `add_aggregate_with_options`. -/
def addAggregateWithOptions (agg : Prefix) (options : AggregateOptions) : Option DefaultRouter := do
  let before := (r.aggregates[agg]?).any AggregateOptions.summaryOnly
  let r ← { r with aggregates := r.aggregates.insert agg options }.recomputeAggregates fuel
  if before = options.summaryOnly then some r else r.reflushSummaryOnlySpecifics agg

/-- `remove_aggregate`. -/
def removeAggregate (agg : Prefix) : Option DefaultRouter :=
  if r.aggregates.contains agg then
    { r with aggregates := r.aggregates.erase agg }.unoriginate fuel (aggregateKey agg)
  else some r

/-- `add_redistribution_pipe`: the Loc-RIB is offered to all pipes again. -/
def addRedistributionPipe (pipe : RedistributionPipe) : Option DefaultRouter :=
  { r with pipes := r.pipes ++ [pipe] }.onRib fun d st =>
    st.locRib.iterBest.foldlM (d.redistributeRoute (d.applySelection fuel)) st

/-- `remove_redistribution_pipe`. -/
def removeRedistributionPipe (source target : Protocol) : Option DefaultRouter :=
  let pipes := r.pipes.filter fun p => ¬(p.source = source ∧ p.target = target)
  let r' := { r with pipes }
  if pipes.length < r.pipes.length ∧ target = .bgp then
    r'.onRib fun d st => st.redistributedBgp.keys.foldlM
      (fun st key => d.reselect (d.applySelection fuel) (st.unredistributeRoute key) key) st
  else some r'

/-- One route that OSPF or Babel installs (`apply_runtime_delta`). -/
def directInstall (route : Route) : Option DefaultRouter :=
  let r := { r with directRib := r.directRib.insert route }
  let key := route.key
  let otherSide := !(r.decision.received key).isEmpty || r.rib.originated.contains key ||
    r.rib.redistributedBgp.contains key || r.staticRoutes.contains key
  if otherSide then r.reselect fuel key
  else
    -- a connected route of the key does not count as another contributor
    r.onRib fun d st => d.redistributeRoute (d.applySelection fuel)
      { st with locRib := st.locRib.install route } route

/-- One key that OSPF or Babel withdraws (`apply_runtime_delta`). -/
def directWithdraw (key : RouteKey) : Option DefaultRouter :=
  match r.directRib.get key with
  | none => some { r with rib := { r.rib with locRib := r.rib.locRib.uninstall key } }
  | some withdrawn =>
    { r with directRib := r.directRib.erase key }.onRib fun d st =>
      let sourced := (st.redistributedBgp.get key).any fun (copy : Route) =>
        copy.origin.peer = withdrawn.origin.peer
      d.reselect (d.applySelection fuel) (if sourced then st.unredistributeRoute key else st) key

/-- `apply_runtime_delta`. -/
def applyRuntimeDelta (installed : List Route) (withdrawn : List RouteKey) :
    Option DefaultRouter := do
  let r ← installed.foldlM (fun r route => r.directInstall fuel route) r
  withdrawn.foldlM (fun r key => r.directWithdraw fuel key) r

/-! ## Import -/

/-- What `import_route` reads of the session a route came from. -/
def importConfig (h : UInt64) : ImportConfig :=
  match r.session h with
  | none =>
    -- no session, no per-session gate
    { peer := { localAs := 0, peerAs := 0, localBgpId := 0 }
      safety := r.settings.safety
      hooks := r.settings.hooks }
  | some s =>
    { peer := s.peer.cfg
      peerAddress := s.options.peerAddress
      localAsTolerance := s.options.localAsTolerance
      safety := r.settings.safety
      enforceFirstAs := r.settings.enforceFirstAs
      ebgpRequiresPolicy := r.settings.ebgpRequiresPolicy
      hasImportPolicy := (r.sessionPolicy[h]?).any SessionPolicy.hasImport
      hooks := r.settings.hooks }

end DefaultRouter

namespace Ingress

/-- `soft_reconfig_inbound` sessions keep the route as it was received. -/
def retainRaw (keep : Bool) (g : Ingress) (route : Route) : Ingress :=
  if keep then { g with prePolicy := g.prePolicy.feedPrePolicy route.origin route } else g

section

variable (g : Ingress) (session : UInt64)

/-- Note that a path was announced while its session resynchronizes. -/
def noteRefreshed (route : Route) : Ingress :=
  { g with gracefulRestart := g.gracefulRestart.modify session fun s =>
      { s with refreshed := (route.key, route.pathId) :: s.refreshed } }

/-- Store an admitted route and count it when its path is new. -/
def store (route : Route) : Ingress :=
  let session := route.origin.peer
  let maxPrefix :=
    match g.adjRibIn.get route.origin route.key route.pathId with
    | some _ => g.maxPrefix
    | none => g.maxPrefix.insert session (g.maxPrefix[session]?.getD {}).counted
  { g with adjRibIn := g.adjRibIn.feedPrePolicy route.origin route, maxPrefix }

/-- Take off routes of the account of a session, if it has one. -/
def uncount (n : Nat) : Ingress :=
  { g with maxPrefix := g.maxPrefix.modify session (MaxPrefixState.uncounted n) }

/-- Set the account of a session, if it has one, to its routes with an external origin. -/
def recount : Ingress :=
  let count := UInt32.ofNat (g.adjRibIn.iterOrigin ⟨0, session⟩).length
  { g with maxPrefix := g.maxPrefix.modify session fun st => { st with count } }

/-- Remove a path. -/
def remove (origin : RouteOrigin) (key : RouteKey) (pathId : UInt32) : Ingress :=
  { g with adjRibIn := g.adjRibIn.withdraw origin key pathId }.uncount origin.peer 1

end

end Ingress

namespace DefaultRouter

variable (r : DefaultRouter)

/-- The session keeps the routes it receives as they are. -/
def keepsRaw (h : UInt64) : Bool := (r.session h).any fun s => s.options.softReconfigInbound

/-- A denied direction is noted in the policy record of the session. -/
def notePolicy (h : UInt64) : DefaultRouter :=
  { r with sessionPolicy := r.sessionPolicy.insertIfNew h {} }

/-- Hand the buffered output of a session to its connection (`flush_peer_output`). -/
def flushPeerOutput (h : UInt64) : DefaultRouter :=
  match r.session h with
  | none => r
  | some s => r.setSession h s.flush

/-- Send a Cease NOTIFICATION with a subcode. -/
def cease (h : UInt64) (subcode : UInt8) : Option DefaultRouter :=
  match r.session h with
  | none => some r
  | some s => do
      let p ← (s.peer.enqueue (.notification ⟨BgpErrorCode.cease, subcode, []⟩)).toOption
      some (r.setSession h { s with peer := p })

/-- `check_max_prefix`.  Its events are left out; the session is not closed here. -/
def checkMaxPrefix (h : UInt64) : Option DefaultRouter :=
  match r.session h, r.ingress.maxPrefix[h]? with
  | some s, some st =>
    match s.options.maximumPrefix with
    | none => some r
    | some limit =>
      let maxPrefix := r.ingress.maxPrefix.insert h (st.checked s.options limit r.nowMs)
      let r := { r with ingress := { r.ingress with maxPrefix } }
      if st.trips limit && decide (s.options.maximumPrefixAction ≠ .warn) then
        (r.cease h 1).map (·.flushPeerOutput h)
      else some r
  | _, _ => some r

variable (fuel : Nat)

/-- `import_route`. -/
def importRoute (route : Route) : Option DefaultRouter :=
  let c := r.importConfig route.origin.peer
  let r := { r with ingress := r.ingress.retainRaw (r.keepsRaw route.origin.peer) route }
  if c.rfc8212Denies then some (r.notePolicy route.origin.peer)
  else
    match c.admitRoute r.nowMs route with
    | none => some r
    | some route => do
        let g := (r.ingress.noteRefreshed route.origin.peer route).store route
        let r ← { r with ingress := g }.reselect fuel route.key
        r.checkMaxPrefix route.origin.peer

/-- `withdraw_from_session`. -/
def withdrawFromSession (origin : RouteOrigin) (key : RouteKey) (pathId : UInt32) :
    Option DefaultRouter :=
  let g := { r.ingress with prePolicy := r.ingress.prePolicy.withdraw origin key pathId }
  match g.adjRibIn.get origin key pathId with
  | none => some { r with ingress := g }
  | some _ => { r with ingress := g.remove origin key pathId }.reselect fuel key

/-- The raw routes that the import hooks admit at this time. -/
def softAdmitted (h : UInt64) : List Route :=
  (r.ingress.prePolicy.iterOrigin ⟨0, h⟩).filterMap fun route =>
    r.settings.hooks.runImport { route with ageMs := r.nowMs }

/-- The Adj-RIB-In and the restart record after `soft_reconfig_inbound`. -/
def softReimport (h : UInt64) : Ingress :=
  (r.softAdmitted h).foldl
    (fun g route =>
      { g.noteRefreshed h route with adjRibIn := g.adjRibIn.feedPrePolicy route.origin route })
    { r.ingress with adjRibIn := r.ingress.adjRibIn.clearFor ⟨0, h⟩ }

/-- The keys `soft_reconfig_inbound` selects for again, in order. -/
def softKeys (h : UInt64) : List RouteKey :=
  let before := (r.ingress.adjRibIn.iterOrigin ⟨0, h⟩).map Route.key
  let after := (r.softAdmitted h).map Route.key
  ((before ++ after).foldl (fun s k => s.insert k) (∅ : Std.ExtTreeSet RouteKey compare)).toList

/-- `soft_reconfig_inbound`: only the import hooks run again, and only on routes of an
external session. -/
def softReconfigInbound (h : UInt64) : Option DefaultRouter :=
  if (r.ingress.prePolicy.iterOrigin ⟨0, h⟩).isEmpty then some r
  else do
    let r ← { r with ingress := r.softReimport h }.reselectAll fuel (r.softKeys h)
    some { r with ingress := r.ingress.recount h }

end DefaultRouter

end LibRouting.Router
