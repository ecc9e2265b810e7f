/-
  Router/Sessions.lean --- the sessions of the router (`instance/mod.rs`): actions of the
  state machine, teardown and retention, timers, and the operations of the embedder.

  OSPF and Babel enter as the routes they install and withdraw.  Events, statistics,
  monitoring and the mark of a lost collision, which only the embedder reads, are left out.
-/
import LibRouting.Router.Instance
import LibRouting.Router.Transports

set_option autoImplicit false

namespace LibRouting.Router

open Foundation Core Bgp Policy Rib

/-! ## Timers -/

/-- `timer_ids`. -/
def timerCode : TimerId → Nat
  | .connectRetry => 1
  | .hold => 2
  | .keepalive => 3
  | .idleHold => 4

/-- `encode_timer`: the low 24 bits of the session and the code. -/
def encodeTimer (session : UInt64) (id : TimerId) : UInt32 :=
  UInt32.ofNat (session.toNat % 2 ^ 24 * 2 ^ 8 + timerCode id)

/-- The session half of `decode_timer`. -/
def timerSession (id : UInt32) : UInt64 := UInt64.ofNat (id.toNat / 2 ^ 8)

/-- The event an expired timer is. -/
def timerEvent (id : UInt32) : Option BgpEvent :=
  match id.toNat % 2 ^ 8 with
  | 1 => some .timerConnectRetry
  | 2 => some .timerHoldExpired
  | 3 => some .timerKeepalive
  | 4 => some .timerIdleHold
  | _ => none

/-! ## Retention -/

/-- The two origins of a session. -/
def originsOf (session : UInt64) : List RouteOrigin := [⟨0, session⟩, ⟨1, session⟩]

/-- Add the LLGR_STALE community (`insert_community`). -/
def markStale (route : Route) : Route :=
  let attrs := PathAttributes.ofAttributes route.attributes
  if attrs.hasCommunity Community.llgrStale then
    { route with attributes := attrs.toAttributes }
  else
    { route with attributes := (attrs.insert
        ⟨(PathAttrFlags.new.setOptional true).setTransitive true, .communities,
          (attrs.communities ++ [Community.llgrStale]).flatMap toBe32⟩).toAttributes }

/-- What `enter_llgr_period` makes of a route. -/
def GracefulRestartState.staled (s : GracefulRestartState) (route : Route) : Option Route :=
  if s.hasRefreshed route then some route
  else if (PathAttributes.ofAttributes route.attributes).hasCommunity Community.noLlgr ||
      !s.llgrDeadlines.contains route.key.family then none
  else some (markStale route)

namespace Ingress

/-- The routes a session holds. -/
def held (g : Ingress) (session : UInt64) : List Route :=
  (originsOf session).flatMap g.adjRibIn.iterOrigin

/-- Drop everything a session has announced (the tables of `session_down_cleanup`). -/
def purge (g : Ingress) (session : UInt64) : Ingress :=
  (originsOf session).foldl
    (fun g o => { g with adjRibIn := g.adjRibIn.clearFor o, prePolicy := g.prePolicy.clearFor o })
    (g.uncount session (g.held session).length)

/-- The latches of the max-prefix check are released. -/
def unlatched (g : Ingress) (h : UInt64) : Ingress :=
  { g with maxPrefix := g.maxPrefix.modify h fun st =>
      { st with exceeded := false, thresholdWarned := false } }

/-- One origin of the loop of `enter_llgr_period`. -/
def stale (s : GracefulRestartState) (session : UInt64) (g : Ingress) (o : RouteOrigin) : Ingress :=
  { g with adjRibIn := g.adjRibIn.mutateOrigin o s.staled }.uncount session
    (g.adjRibIn.removedBy o s.staled)

/-- The keys of the routes a peer has not announced again. -/
def unrefreshed (s : GracefulRestartState) (g : Ingress) (session : UInt64) : List RouteKey :=
  ((g.held session).filter fun r => !s.hasRefreshed r).map Route.key

end Ingress

namespace DefaultRouter

variable (r : DefaultRouter) (fuel : Nat)

/-- `session_down_cleanup`. -/
def sessionDownCleanup (h : UInt64) : Option DefaultRouter :=
  let affected := (r.ingress.held h).map Route.key
  if affected.isEmpty then some r
  else
    let egress := (originsOf h).foldl
      (fun (e : Egress) o => { e with adjRibOut := e.adjRibOut.clearFor o }) r.egress
    { r with ingress := r.ingress.purge h, egress }.reselectAll fuel affected

/-- The deadlines of the long-lived period of a session that goes down now. -/
def llgrDeadlines (s : Session) (restartTime : UInt16) : Std.ExtTreeMap NlriFamily UInt64 compare :=
  s.peer.negotiatedLlgrFamilies.foldl
    (fun deadlines t =>
      let llst := (s.options.llgrMaxStaleTime.map (min t.2)).getD t.2
      deadlines.insert t.1 (saturatingAdd
        (saturatingAdd r.nowMs (UInt64.ofNat (restartTime.toNat * 1000)))
        (UInt64.ofNat (llst.toNat * 1000))))
    ∅

/-- The session ends on purpose: its routes are not retained. -/
def goodbye (h : UInt64) (s : Session) : Bool :=
  !s.wasEstablished || s.peer.receivedNotification || r.administrativeClose.contains h

section

variable (h : UInt64) (family : NlriFamily) (state : GracefulRestartState)

/-- The retention a session gets when it goes down now. -/
def retention : Option GracefulRestartState :=
  match r.session h with
  | none => none
  | some s =>
    if r.goodbye h s then none
    else
      let restartTime := s.peer.negotiatedGracefulRestartTime.getD 0
      let llgrDeadlines := r.llgrDeadlines s restartTime
      if 0 < restartTime || !llgrDeadlines.isEmpty then
        some
          { restartExpiresAtMs := saturatingAdd r.nowMs (UInt64.ofNat (restartTime.toNat * 1000))
            llgrDeadlines }
      else none

/-- `teardown_bgp_session`.  A session that is retained already keeps its deadlines. -/
def teardownBgpSession : Option DefaultRouter :=
  let r := { r with egress := r.egress.clearMrai h, ingress := r.ingress.unlatched h }
  match r.retention h with
  | none => r.sessionDownCleanup fuel h
  | some state =>
    if r.ingress.gracefulRestart.contains h then some r
    else
      let gracefulRestart := r.ingress.gracefulRestart.insert h state
      some { r with ingress := { r.ingress with gracefulRestart } }

/-- `enter_llgr_period`. -/
def enterLlgrPeriod : Option DefaultRouter :=
  let affected := r.ingress.unrefreshed state h
  let ingress := (originsOf h).foldl (Ingress.stale state h) r.ingress
  affected.foldlM
    (fun r key => do
      let r ← r.reselect fuel key
      let egress ← r.egress.withdrawStaleFromNonLlgrSessions r.nowMs key
      some { r with egress })
    { r with ingress }

/-- `purge_unrefreshed_family`: one path at a time, each followed by the decision
process. -/
def purgeUnrefreshedFamily : Option DefaultRouter :=
  (originsOf h).foldlM
    (fun (r : DefaultRouter) o =>
      ((r.ingress.adjRibIn.iterOrigin o).filter fun route =>
          route.key.family = family && !state.hasRefreshed route).foldlM
        (fun (r : DefaultRouter) route =>
          { r with ingress :=
              { r.ingress with adjRibIn := r.ingress.adjRibIn.withdraw o route.key route.pathId
                }.uncount h 1 }.reselect fuel route.key)
        r)
    r

/-- Drop the deadline of a family; the record goes with its last deadline. -/
def endFamily : DefaultRouter :=
  let llgrDeadlines := state.llgrDeadlines.erase family
  let gracefulRestart :=
    if llgrDeadlines.isEmpty then r.ingress.gracefulRestart.erase h
    else r.ingress.gracefulRestart.insert h { state with llgrDeadlines }
  { r with ingress := { r.ingress with gracefulRestart } }

/-- End a family's retention and remove what the peer did not announce again. -/
def finishFamily : Option DefaultRouter :=
  match r.ingress.gracefulRestart[h]? with
  | none => some r
  | some state => (r.endFamily h family state).purgeUnrefreshedFamily fuel h family state

/-- `on_end_of_rib`. -/
def onEndOfRib : Option DefaultRouter :=
  r.finishFamily fuel h family

end

section

variable (h : UInt64)

/-- The restart window of one session has elapsed (the first loop of
`process_graceful_restart`). -/
def restartExpired : Option DefaultRouter :=
  match r.ingress.gracefulRestart[h]? with
  | none => some r
  | some state =>
    let marked := r.ingress.gracefulRestart.insert h { state with markedStale := true }
    let kept : DefaultRouter := { r with ingress := { r.ingress with gracefulRestart := marked } }
    if state.llgrDeadlines.isEmpty then
      if (r.session h).any Session.established then some kept
      else
        let gracefulRestart := r.ingress.gracefulRestart.erase h
        { r with ingress := { r.ingress with gracefulRestart } }.sessionDownCleanup fuel h
    else kept.enterLlgrPeriod fuel h state

/-- `process_graceful_restart`. -/
def processGracefulRestart : Option DefaultRouter := do
  let expired := (r.ingress.gracefulRestart.toList.filter fun e =>
    !e.2.markedStale && e.2.restartExpiresAtMs ≤ r.nowMs).map (·.1)
  let r ← expired.foldlM (fun r h => r.restartExpired fuel h) r
  let families := r.ingress.gracefulRestart.toList.flatMap fun e =>
    if e.2.markedStale then
      (e.2.llgrDeadlines.toList.filter fun d => d.2 ≤ r.nowMs).map fun d => (e.1, d.1)
    else []
  families.foldlM (fun r f => r.finishFamily fuel f.1 f.2) r

/-! ## Actions -/

/-- Arm a timer; the time it fires at does not exceed the clock's range. -/
def arm (id : TimerId) (afterMs : Nat) : DefaultRouter :=
  let now := r.nowMs.toNat
  { r with timers := r.timers.arm now (encodeTimer h id) (min afterMs (2 ^ 64 - 1 - now)) }

/-- One action of `dispatch_bgp_actions`. -/
def dispatchAction (r : DefaultRouter) : BgpAction → Option DefaultRouter
  | .setTimer id afterMs => some (r.arm h id afterMs)
  | .cancelTimer id => some { r with timers := r.timers.cancel (encodeTimer h id) }
  | .close => r.teardownBgpSession fuel h
  | .installRoute route =>
    r.importRoute fuel (stampPeerSource
      ((r.session route.origin.peer).bind fun s => s.options.peerAddress) route)
  | .withdrawRoute key pathId => r.withdrawFromSession fuel ⟨0, h⟩ key pathId
  | .routeRefreshRequested family => do
      let egress ← r.egress.reannounceToSession r.exportContext r.rib.locRib h family
      some { r with egress }
  | .endOfRib family => r.onEndOfRib fuel h family
  | .beginOfRouteRefresh _ | .emit _ => some r

/-- The router's mark of a session follows the state machine. -/
def syncEstablished : DefaultRouter :=
  match r.session h with
  | none => r
  | some s => r.setSession h { s with established := s.peer.established }

/-- `dispatch_bgp_actions`. -/
def dispatchBgpActions (actions : List BgpAction) : Option DefaultRouter := do
  let r ← actions.foldlM (dispatchAction fuel h) (r.syncEstablished h)
  some (r.flushPeerOutput h)

/-- Give an event to the state machine of a session and carry out its actions. -/
def stepPeer (s : Session) (ev : BgpEvent) : Option DefaultRouter := do
  let stepped ← (s.peer.step ev).toOption
  (r.setSession h { s with peer := stepped.1 }).dispatchBgpActions fuel h stepped.2

/-! ## Operations -/

/-- The fields of `SessionConfig` of a BGP session. -/
structure SessionConfig where
  localAs : Asn
  peerAs : Asn
  localBgpId : RouterId
  holdTime : UInt16 := 90
  keepalive : UInt16 := 0
  asn4 : Bool := true
  routeRefresh : Bool := true
  enhancedRouteRefresh : Bool := true
  addPath : Bool := false
  gracefulRestart : Bool := false
  gracefulRestartTime : UInt16 := 120
  longLivedGr : Bool := false
  longLivedStaleTime : UInt32 := 0
  mpFamilies : List NlriFamily := []
  defaultIpv4Unicast : Bool := true
  localAddress : Option IpAddr := none
  extendedNextHop : List (UInt16 × UInt8 × UInt16) := []
  routeReflectorClient : Bool := false
  routeReflector : RouteReflectorConfig := {}
  collisionGroup : Option UInt64 := none
  locallyInitiated : Bool := false
  options : SessionOptions := {}
  mraiMs : UInt64 := 0
  deriving DecidableEq, Repr

/-- The configuration of the state machine. -/
def SessionConfig.peerConfig (c : SessionConfig) (h : UInt64) : PeerConfig where
  localAs := c.localAs
  peerAs := c.peerAs
  localBgpId := c.localBgpId
  holdTime := c.holdTime
  keepalive := c.keepalive
  asn4 := c.asn4
  routeRefresh := c.routeRefresh
  enhancedRr := c.enhancedRouteRefresh
  addPath := c.addPath
  gracefulRestart := c.gracefulRestart
  gracefulRestartTime := c.gracefulRestartTime
  longLived := c.longLivedGr
  longLivedStaleTime := c.longLivedStaleTime
  mpFamilies := c.mpFamilies
  defaultIpv4Unicast := c.defaultIpv4Unicast
  localAddress := c.localAddress
  extendedNextHop := c.extendedNextHop
  routeReflectorClient := c.routeReflectorClient
  routeReflector := c.routeReflector
  peerId := h

/-- `add_session`: the first session brings a safety net for its AS.  The counter of
handles does not overflow. -/
def addSession (c : SessionConfig) : Option DefaultRouter :=
  let h := r.nextHandle
  if h.toNat + 1 = 2 ^ 64 then none
  else
    let e := r.egress.setSession h { peer := .new (c.peerConfig h), options := c.options }
    let safety := r.settings.safety.getD { localAs := c.localAs }
    let collisionMeta := match c.collisionGroup with
      | none => r.collisionMeta
      | some group => r.collisionMeta.insert h (group, c.locallyInitiated)
    some { r with
      collisionMeta
      nextHandle := h + 1
      egress := e.setMrai h { intervalMs := c.mraiMs }
      settings := { r.settings with safety := some safety } }

/-- `remove_session`. -/
def removeSession : Option DefaultRouter :=
  match r.session h with
  | none => some r
  | some _ =>
    let egress : Egress :=
      { sessions := r.egress.sessions.erase h
        adjRibOut := (originsOf h).foldl AdjRibOut.clearFor r.egress.adjRibOut
        mrai := r.egress.mrai.erase h }
    let ingress : Ingress :=
      { r.ingress with
        prePolicy := (originsOf h).foldl AdjRibIn.clearFor r.ingress.prePolicy
        maxPrefix := r.ingress.maxPrefix.erase h
        gracefulRestart := r.ingress.gracefulRestart.erase h }
    let routes := r.ingress.adjRibIn.iterAll.filter fun route => route.origin.peer = h
    routes.foldlM (fun r route => r.withdrawFromSession fuel route.origin route.key route.pathId)
      { r with
        egress
        ingress
        sessionPolicy := r.sessionPolicy.erase h
        collisionMeta := r.collisionMeta.erase h }

/-- `start_session`. -/
def startSession : Option DefaultRouter :=
  let r := { r with egress := r.egress.clearMrai h }
  match r.session h with
  | none => some r
  | some s => do
      let started ← (s.peer.reset.step .manualStart).toOption
      let opened ← (started.1.step .transportOpen).toOption
      let r ← (r.setSession h { s with peer := opened.1 }).dispatchBgpActions fuel h
        (started.2 ++ opened.2)
      let r := match r.session h with
        | none => r
        | some s => r.setSession h { s with established := false, wasEstablished := false }
      some { r with administrativeClose := r.administrativeClose.filter (· ≠ h) }

/-- The initial dump, and the note that policy denies it. -/
def onBgpEstablished : Option DefaultRouter := do
  let denied := (r.session h).any fun s => r.exportContext.deniesExport h s.peer.cfg
  let egress ← r.egress.onBgpEstablished r.exportContext r.rib.locRib h
  let r := { r with egress }
  some (if denied then r.notePolicy h else r)

/-- What the resolution of collisions reads. -/
def transports : Transports where
  sessions := r.egress.sessions.toList.map fun e => (e.1, e.2.peer)
  collisionMeta := r.collisionMeta.toList
  collisionLost := []

/-- `close_collision_loser`. -/
def closeCollisionLoser (loser : UInt64) : Option DefaultRouter :=
  match r.session loser with
  | none => some r
  | some s => do
      let p ← (BgpPeer.enqueue { s.peer with outBuf := [] }
        (.notification ⟨BgpErrorCode.cease, 7, []⟩)).toOption
      r.stepPeer fuel loser { s with peer := p } .manualStop

/-- The collision that an OPEN on the session has led to. -/
def collision (before after : BgpState) : Option Closing :=
  if before = .openSent ∧ (after = .openConfirm ∨ after = .established) then
    r.transports.resolveConnectionCollision h
  else none

/-- The router whose session has taken in bytes. -/
def fed (s : Session) (p : BgpPeer) : DefaultRouter :=
  r.setSession h
    { s with
      peer := p
      established := p.established
      wasEstablished := s.wasEstablished || p.established }

/-- The second phase of `feed_input_at`: the dump for a session that has come up, and the
actions of its state machine. -/
def applyFed (newlyEstablished : Bool) (actions : List BgpAction) : Option DefaultRouter := do
  let r ← (if newlyEstablished then r.onBgpEstablished h else some r)
  r.dispatchBgpActions fuel h actions

/-- `feed_input`.  A collision is resolved before anything else is done; the actions of a
session that has lost are dropped. -/
def feedInput (bytes : Bytes) : Option DefaultRouter :=
  match r.session h with
  | none => some r
  | some s =>
    if bytes = [] then some r
    else do
      let fed ← (s.peer.feedBytes bytes).toOption
      let r := r.fed h s fed.1
      match r.collision h s.peer.state fed.1.state with
      | none => r.applyFed fuel h (fed.1.established && !s.established) fed.2
      | some closing => do
          let r ← r.closeCollisionLoser fuel closing.loser
          if closing.loser = h then some r
          else r.applyFed fuel h (fed.1.established && !s.established) fed.2

/-- `close_session`. -/
def closeSession : Option DefaultRouter :=
  match r.session h with
  | none => some r
  | some s => r.stepPeer fuel h s .transportClose

/-- `shutdown_session`: a session that is not idle is told. -/
def shutdownSession : Option DefaultRouter :=
  match r.session h with
  | none => some r
  | some s =>
    if s.peer.state = .idle then r.closeSession fuel h
    else do
      let r ← r.cease h 2
      { r with administrativeClose := h :: r.administrativeClose }.closeSession fuel h

/-- One expired timer. -/
def expire (r : DefaultRouter) (id : UInt32) : Option DefaultRouter :=
  match r.session (timerSession id), timerEvent id with
  | some s, some ev => r.stepPeer fuel (timerSession id) s ev
  | _, _ => some r

/-- `tick`, with the order in which the due timers leave the heap. -/
def tick (now : UInt64) (order : PopOrder UInt32) : Option DefaultRouter := do
  let expired := r.timers.due now.toNat order
  let r ← expired.foldlM (expire fuel)
    { r with nowMs := now, timers := r.timers.pending now.toNat }
  let egress ← r.egress.flushMrai r.nowMs
  { r with egress }.processGracefulRestart fuel

/-- `set_session_policy`: a changed export declaration is applied to every key at
once. -/
def setSessionPolicy (hasImport hasExport : Bool) : Option DefaultRouter :=
  match r.session h with
  | none => some r
  | some _ =>
    let changed := !((r.sessionPolicy[h]?).any fun p => p.hasExport = hasExport)
    let r := { r with sessionPolicy := r.sessionPolicy.insert h ⟨hasImport, hasExport⟩ }
    if !changed then some r
    else do
      let work := r.rib.locRib.toList.map fun e =>
        (e.1, exportWorkFor r.exportContext r.egress h e.1 e.2)
      let egress ← work.foldlM (fun (e : Egress) w => e.transmit r.nowMs h w.1 w.2) r.egress
      some { r with egress }

/-- `set_mrai`. -/
def setMrai (intervalMs : UInt64) : Option DefaultRouter :=
  match r.session h with
  | none => some r
  | some _ => do
      let egress ← r.egress.setInterval r.nowMs h intervalMs
      some { r with egress }

/-- `request_route_refresh`. -/
def requestRouteRefresh (family : NlriFamily) : Option DefaultRouter :=
  match r.session h with
  | none => some r
  | some s => do
      let p ← (s.peer.enqueueRouteRefresh ⟨family, .normal⟩).toOption
      some ((r.setSession h { s with peer := p }).flushPeerOutput h)

/-- The settings of a session that may change while it is down. -/
inductive SessionChange where
  | addPath (on : Bool)
  | extendedNextHop (tuples : List (UInt16 × UInt8 × UInt16))
  | mpFamilies (families : List NlriFamily)
  | localAddress (addr : IpAddr)
  | defaultIpv4Unicast (on : Bool)
  | localAsTolerance (tolerance : UInt32)
  | softReconfigInbound (on : Bool)
  deriving DecidableEq, Repr

/-- The session with one setting changed. -/
def SessionChange.apply (s : Session) : SessionChange → Session
  | .addPath on => { s with peer := { s.peer with cfg := { s.peer.cfg with addPath := on } } }
  | .extendedNextHop tuples =>
    { s with peer := { s.peer with cfg := { s.peer.cfg with extendedNextHop := tuples } } }
  | .mpFamilies families =>
    { s with peer := { s.peer with cfg := { s.peer.cfg with mpFamilies := families } } }
  | .localAddress addr =>
    { s with peer := { s.peer with cfg := { s.peer.cfg with localAddress := some addr } } }
  | .defaultIpv4Unicast on =>
    { s with peer := { s.peer with cfg := { s.peer.cfg with defaultIpv4Unicast := on } } }
  | .localAsTolerance tolerance =>
    { s with options := { s.options with localAsTolerance := tolerance } }
  | .softReconfigInbound on =>
    { s with options := { s.options with softReconfigInbound := on } }

/-- The `set_session_*` functions: refused while the session is established. -/
def configureSession (change : SessionChange) : DefaultRouter :=
  match r.session h with
  | none => r
  | some s => if s.peer.established then r else r.setSession h (change.apply s)

/-- The settings of the router that the embedder may change at any time. -/
inductive SettingChange where
  | safetyNet (net : SafetyNet)
  | hooks (chain : HookChain)
  | ebgpRequiresPolicy (on : Bool)
  | enforceFirstAs (on : Bool)
  | bestPath (config : BestPathConfig)
  | addPathMaxPaths (maxPaths : Nat)

/-- The settings with one of them changed; at least one path is kept. -/
def SettingChange.apply (s : Settings) : SettingChange → Settings
  | .safetyNet net => { s with safety := some net }
  | .hooks chain => { s with hooks := chain }
  | .ebgpRequiresPolicy on => { s with ebgpRequiresPolicy := on }
  | .enforceFirstAs on => { s with enforceFirstAs := on }
  | .bestPath config => { s with bestPath := config }
  | .addPathMaxPaths maxPaths => { s with addPathMaxPaths := max maxPaths 1 }

/-- `drain_output`: the embedder collects what a session has sent. -/
def drainOutput : DefaultRouter :=
  match r.session h with
  | none => r
  | some s => r.setSession h { s with output := [] }

end

end DefaultRouter

open DefaultRouter (SessionConfig SessionChange SettingChange)

/-- The operations of the embedder. -/
inductive RouterOp where
  | addSession (config : SessionConfig)
  | removeSession (h : UInt64)
  | startSession (h : UInt64)
  | closeSession (h : UInt64)
  | shutdownSession (h : UInt64)
  | configureSession (h : UInt64) (change : SessionChange)
  | feedInput (h : UInt64) (bytes : Bytes)
  | drainOutput (h : UInt64)
  | tick (now : UInt64) (order : PopOrder UInt32)
  | softReconfigInbound (h : UInt64)
  | setSessionPolicy (h : UInt64) (hasImport hasExport : Bool)
  | setMrai (h : UInt64) (intervalMs : UInt64)
  | requestRouteRefresh (h : UInt64) (family : NlriFamily)
  | configure (change : SettingChange)
  | originateFamily (pfx : Prefix) (family : NlriFamily) (nextHop : Option IpAddr)
  | originateWithAttributes (pfx : Prefix) (family : NlriFamily) (nextHop : Option IpAddr)
      (attributes : Attributes)
  | unoriginate (key : RouteKey)
  | installStatic (pfx : Prefix) (family : NlriFamily) (nextHop : Option IpAddr)
      (metric : UInt32) (tag : Option UInt32)
  | uninstallStatic (key : RouteKey)
  | installConnected (pfx : Prefix) (family : NlriFamily) (nextHop : Option IpAddr)
      (metric : UInt32) (ifId : UInt64)
  | uninstallConnected (key : RouteKey)
  | addAggregate (agg : Prefix)
  | addAggregateWithOptions (agg : Prefix) (options : AggregateOptions)
  | removeAggregate (agg : Prefix)
  | addRedistributionPipe (pipe : RedistributionPipe)
  | removeRedistributionPipe (source target : Protocol)
  | runtimeDelta (installed : List Route) (withdrawn : List RouteKey)
  | ospfRedistribute (dest : ExternalDestination)
  | ospfRedistributeV3 (dest : V3ExternalDestination)
  | ospfUnredistribute (pfx : Prefix)

/-- Carry out one operation. -/
def DefaultRouter.perform (fuel : Nat) (r : DefaultRouter) : RouterOp → Option DefaultRouter
  | .addSession config => r.addSession config
  | .removeSession h => r.removeSession fuel h
  | .startSession h => r.startSession fuel h
  | .closeSession h => r.closeSession fuel h
  | .shutdownSession h => r.shutdownSession fuel h
  | .configureSession h change => some (r.configureSession h change)
  | .feedInput h bytes => r.feedInput fuel h bytes
  | .drainOutput h => some (r.drainOutput h)
  | .tick now order => r.tick fuel now order
  | .softReconfigInbound h => r.softReconfigInbound fuel h
  | .setSessionPolicy h hasImport hasExport => r.setSessionPolicy h hasImport hasExport
  | .setMrai h intervalMs => r.setMrai h intervalMs
  | .requestRouteRefresh h family => r.requestRouteRefresh h family
  | .configure change => some { r with settings := change.apply r.settings }
  | .originateFamily pfx family nextHop => r.originateFamily pfx family nextHop
  | .originateWithAttributes pfx family nextHop attributes =>
    r.originateWithAttributes pfx family nextHop attributes
  | .unoriginate key => r.unoriginate fuel key
  | .installStatic pfx family nextHop metric tag =>
    r.installStatic fuel pfx family nextHop metric tag
  | .uninstallStatic key => r.uninstallStatic fuel key
  | .installConnected pfx family nextHop metric ifId =>
    r.installConnected fuel pfx family nextHop metric ifId
  | .uninstallConnected key => r.uninstallConnected fuel key
  | .addAggregate agg => r.addAggregate fuel agg
  | .addAggregateWithOptions agg options => r.addAggregateWithOptions fuel agg options
  | .removeAggregate agg => r.removeAggregate fuel agg
  | .addRedistributionPipe pipe => r.addRedistributionPipe fuel pipe
  | .removeRedistributionPipe source target => r.removeRedistributionPipe fuel source target
  | .runtimeDelta installed withdrawn => r.applyRuntimeDelta fuel installed withdrawn
  | .ospfRedistribute dest => some { r with rib := r.rib.ospfRedistribute dest }
  | .ospfRedistributeV3 dest => some { r with rib := r.rib.ospfRedistributeV3 dest }
  | .ospfUnredistribute pfx => some { r with rib := r.rib.ospfUnredistribute pfx }

/-! ## The other side of a session -/

/-- The configuration of the neighbour that a session expects. -/
def DefaultRouter.SessionConfig.neighbour (c : SessionConfig) (id : RouterId) : PeerConfig :=
  { c.peerConfig 0 with localAs := c.peerAs, peerAs := c.localAs, localBgpId := id }

/-- The OPEN and the KEEPALIVE with which a neighbour brings its session up. -/
def greeting (cfg : PeerConfig) : Bytes :=
  frameWire false (.open cfg.openMessage) ++ frameWire false .keepalive

/-- The frame of an UPDATE. -/
def updateFrame (u : Update) : Bytes := frameWire false (.update u)

end LibRouting.Router
