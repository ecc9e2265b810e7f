/-
  Router/Export.lean --- from the Loc-RIB to the sessions (`instance/mod.rs`, the export
  pipeline).
-/
import LibRouting.Bgp.Fsm
import LibRouting.Policy.Safety
import LibRouting.Rib.AdjRib
import LibRouting.Router.Decision

set_option autoImplicit false

namespace LibRouting.Router

open Foundation Core Bgp Policy Rib

/-! ## Sessions -/

/-- What to do past the prefix limit. -/
inductive MaxPrefixAction where
  | warn
  | teardown
  | restart
  deriving DecidableEq, Repr

/-- The settings of a session that the router reads and its state machine does not. -/
structure SessionOptions where
  peerAddress : Option IpAddr := none
  localAsTolerance : UInt32 := 0
  softReconfigInbound : Bool := false
  maximumPrefix : Option UInt32 := none
  maximumPrefixAction : MaxPrefixAction := .warn
  maximumPrefixThreshold : UInt8 := 75
  maximumPrefixRestartTime : UInt32 := 0
  llgrMaxStaleTime : Option UInt32 := none
  deriving DecidableEq, Repr

/-- A BGP session of the router. -/
structure Session where
  peer : BgpPeer
  options : SessionOptions := {}
  /-- What the session has sent and the embedder has not collected. -/
  output : Bytes := []
  established : Bool := false
  wasEstablished : Bool := false
  deriving DecidableEq

/-- The BGP sessions of the router. -/
abbrev Sessions : Type := Std.ExtTreeMap UInt64 Session compare

/-- Move what the state machine has buffered to the connection. -/
def Session.flush (s : Session) : Session :=
  { s with peer := { s.peer with outBuf := [] }, output := s.output ++ s.peer.outBuf }

/-- The session as a destination of the Adj-RIB-Out. -/
def destOf (session : UInt64) : RouteOrigin := ⟨0, session⟩

/-- `u64::saturating_add`. -/
def saturatingAdd (a b : UInt64) : UInt64 :=
  if a.toNat + b.toNat < 2 ^ 64 then a + b else 0xffffffffffffffff

/-! ## State -/

/-- Routes held back, and until when. -/
structure PendingMraiUpdate where
  routes : List Route
  dueMs : UInt64
  deriving DecidableEq

/-- The advertisement interval of a session and what it holds back. -/
structure MraiState where
  intervalMs : UInt64 := 0
  lastSent : Std.ExtTreeMap RouteKey UInt64 compare := ∅
  pending : Std.ExtTreeMap RouteKey PendingMraiUpdate compare := ∅

/-- The sessions and what they have been sent. -/
structure Egress where
  sessions : Sessions := ∅
  adjRibOut : AdjRibOut := ∅
  mrai : Std.ExtTreeMap UInt64 MraiState compare := ∅

/-- Which directions of a session have an explicit policy (RFC 8212). -/
structure SessionPolicy where
  hasImport : Bool := false
  hasExport : Bool := false
  deriving DecidableEq, Repr

/-- What the export pipeline reads and does not change. -/
structure ExportContext where
  hooks : HookChain := {}
  ebgpRequiresPolicy : Bool := false
  sessionPolicy : Std.ExtTreeMap UInt64 SessionPolicy compare := ∅
  aggregates : AggregateTable := ∅
  nowMs : UInt64 := 0

/-- The export half of `rfc8212_denies`. -/
def ExportContext.deniesExport (c : ExportContext) (session : UInt64) (cfg : PeerConfig) : Bool :=
  c.ebgpRequiresPolicy && cfg.peerRole.isExternal &&
    !((c.sessionPolicy[session]?).any SessionPolicy.hasExport)

namespace Egress

/-- The MRAI record of a session; one that is missing is as good as a fresh one. -/
def mraiOf (e : Egress) (session : UInt64) : MraiState := e.mrai[session]?.getD {}

/-- Replaces the interval state of a session. -/
def setMrai (e : Egress) (session : UInt64) (m : MraiState) : Egress :=
  { e with mrai := e.mrai.insert session m }

/-- Replaces a session. -/
def setSession (e : Egress) (h : UInt64) (s : Session) : Egress :=
  { e with sessions := e.sessions.insert h s }

/-- `session_peer_bgp_id` of the session a route came from. -/
def originatorOf (e : Egress) (route : Route) : Option RouterId :=
  (e.sessions[route.origin.peer]?).bind fun s => s.peer.peerBgpId

end Egress

/-- Offer routes to a session one after the other; returns those it took. -/
def offer (originator : Route → Option RouterId) :
    BgpPeer → List Route → Option (BgpPeer × List Route)
  | p, [] => some (p, [])
  | p, route :: rest => do
      let sent ← (p.advertiseWithOriginator route (originator route)).toOption
      let more ← offer originator sent.1 rest
      some (more.1, if sent.2 then route :: more.2 else more.2)

/-! ## One key -/

/-- The path identifier a path of the ranking is sent under on an Add-Path session. -/
def slotId (slot : Nat) : UInt32 := UInt32.ofNat (slot + 1)

/-- What the session should have for a key: `desired` of `export_work_for`. -/
def desired (c : ExportContext) (session : UInt64) (peer : BgpPeer) (key : RouteKey)
    (ranked : List Route) : List Route :=
  if summaryOnlySuppresses c.aggregates key || c.deniesExport session peer.cfg then []
  else if peer.addPathTxFor key.family then
    ranked.zipIdx.filterMap fun entry =>
      if entry.1.protocol = .bgp ∧ entry.1.origin.peer ≠ session then
        c.hooks.runExportTo { entry.1 with pathId := slotId entry.2 } session
      else none
  else
    match ranked with
    | [] => []
    | best :: _ =>
      if best.protocol = .bgp ∧ best.origin.peer ≠ session then
        (c.hooks.runExportTo { best with pathId := 0 } session).toList
      else []

/-- The difference between what was sent and what should be: what to advertise and which
identifiers to withdraw. -/
def exportDelta (current : List (UInt32 × Route)) (wanted : List Route) :
    List Route × List UInt32 :=
  let changed := current.filterMap fun e =>
    (wanted.find? fun r => r.pathId = e.1).bind fun new => if new = e.2 then none else some new
  let added := wanted.filter fun r => !current.any fun e => e.1 = r.pathId
  let gone := (current.filter fun e => !wanted.any fun r => r.pathId = e.1).map (·.1)
  (changed ++ added, gone)

/-- `export_work_for`. -/
def exportWorkFor (c : ExportContext) (e : Egress) (session : UInt64) (key : RouteKey)
    (ranked : List Route) : List Route × List UInt32 :=
  match e.sessions[session]? with
  | none => ([], [])
  | some s =>
    if s.peer.established then
      exportDelta (e.adjRibOut.pathsFor (destOf session) key)
        (desired c session s.peer key ranked)
    else ([], [])

namespace Egress

/-! ## Sending -/

section

variable (now : UInt64) (e : Egress) (session : UInt64)

/-- Record routes as sent. -/
def recordSent (routes : List Route) : Egress :=
  { e with adjRibOut :=
      routes.foldl (fun rib r => rib.advertise (destOf session) r r.pathId) e.adjRibOut }

/-- Record identifiers of a key as withdrawn. -/
def recordWithdrawn (key : RouteKey) (ids : List UInt32) : Egress :=
  { e with adjRibOut :=
      ids.foldl (fun rib id => rib.suppress (destOf session) key id) e.adjRibOut }

/-- `send_advertisement_set`. -/
def sendAdvertisementSet (routes : List Route) : Option Egress :=
  match routes, e.sessions[session]? with
  | [], _ | _, none => some e
  | first :: _, some s => do
      let sent ← offer e.originatorOf s.peer routes
      let e := e.setSession session (Session.flush { s with peer := sent.1 })
      if sent.2 = [] then some e
      else
        -- one accepted path records the whole set, the refused ones too
        let m := e.mraiOf session
        let e := e.setMrai session { m with lastSent := m.lastSent.insert first.key now }
        some (e.recordSent session routes)

/-- `queue_or_send_advertisement`. -/
def queueOrSendAdvertisement (routes : List Route) : Option Egress :=
  match routes with
  | [] => some e
  | first :: _ =>
    let m := e.mraiOf session
    match m.lastSent[first.key]? with
    | some last =>
      let dueMs := saturatingAdd last m.intervalMs
      if m.intervalMs ≠ 0 ∧ now < dueMs then
        some (e.setMrai session
          { m with pending := m.pending.insert first.key ⟨routes, dueMs⟩ })
      else e.sendAdvertisementSet now session routes
    | none => e.sendAdvertisementSet now session routes

/-- `send_withdrawal`. -/
def sendWithdrawal (key : RouteKey) (ids : List UInt32) : Option Egress :=
  match e.sessions[session]? with
  | none => some e
  | some s => do
      let p ← (s.peer.withdrawPaths (ids.map fun id => ⟨id, key.pfx⟩) key.family).toOption
      let e := e.setSession session (Session.flush { s with peer := p })
      if p.outBuf = [] then some e
      else
        let m := e.mraiOf session
        let e := e.setMrai session { m with lastSent := m.lastSent.insert key now }
        some (e.recordWithdrawn session key ids)

/-- `queue_or_send_withdrawal`: withdrawals are never delayed. -/
def queueOrSendWithdrawal (key : RouteKey) (ids : List UInt32) : Option Egress :=
  let m := e.mraiOf session
  (e.setMrai session { m with pending := m.pending.erase key }).sendWithdrawal now session key ids

/-- Carry out the work for one session and key. -/
def transmit (key : RouteKey) (work : List Route × List UInt32) : Option Egress := do
  let e ← (if work.2 = [] then some e else e.queueOrSendWithdrawal now session key work.2)
  if work.1 = [] then some e else e.queueOrSendAdvertisement now session work.1

/-- `export_selection`: the work of every session is determined first. -/
def exportSelection (c : ExportContext) (e : Egress) (key : RouteKey) (ranked : List Route) :
    Option Egress :=
  (e.sessions.keys.map fun h => (h, exportWorkFor c e h key ranked)).foldlM
    (fun e work => e.transmit c.nowMs work.1 key work.2) e

/-- Withdraw all that some sessions have been sent for a key. -/
def withdrawFrom (wanted : Session → Bool) (key : RouteKey) : Option Egress :=
  ((e.sessions.toList.filter fun entry => wanted entry.2 &&
      !(e.adjRibOut.txPathIds (destOf entry.1) key).isEmpty).map (·.1)).foldlM
    (fun e h => e.queueOrSendWithdrawal now h key (e.adjRibOut.txPathIds (destOf h) key)) e

/-- `propagate_withdrawal`. -/
def propagateWithdrawal (key : RouteKey) : Option Egress :=
  e.withdrawFrom now (fun s => s.peer.established) key

/-- `withdraw_stale_from_non_llgr_sessions`. -/
def withdrawStaleFromNonLlgrSessions (key : RouteKey) : Option Egress :=
  e.withdrawFrom now (fun s => s.peer.established && !s.peer.llgrNegotiated) key

/-- Carry out one call of the export pipeline. -/
def perform (c : ExportContext) (e : Egress) : Export → Option Egress
  | .selection key ranked => e.exportSelection c key ranked
  | .withdrawal key => e.propagateWithdrawal c.nowMs key

/-- Take the due updates of a session out of its queue. -/
def takeDue (m : MraiState) : List (List Route) × MraiState :=
  ((m.pending.filter fun _ u => u.dueMs ≤ now).toList.map fun entry => entry.2.routes,
    { m with pending := m.pending.filter fun _ u => now < u.dueMs })

/-- `flush_mrai`: all queues are emptied before the first update is sent. -/
def flushMrai : Option Egress :=
  let due := e.mrai.toList.flatMap fun entry => (takeDue now entry.2).1.map (entry.1, ·)
  due.foldlM (fun e u => e.sendAdvertisementSet now u.1 u.2)
    { e with mrai := e.mrai.map fun _ m => (takeDue now m).2 }

/-- `set_mrai` on a session that exists; no interval sends what is queued. -/
def setInterval (intervalMs : UInt64) : Option Egress :=
  let m : MraiState := { e.mraiOf session with intervalMs := intervalMs }
  if intervalMs = 0 then
    (m.pending.toList.map fun entry => entry.2.routes).foldlM
      (fun e routes => e.sendAdvertisementSet now session routes)
      (e.setMrai session { m with pending := ∅ })
  else some (e.setMrai session m)

/-! ## Whole tables -/

/-- The families a session speaks, as the initial dump sees them. -/
def dumpFamilies (cfg : PeerConfig) : List NlriFamily :=
  cfg.mpFamilies.foldl (fun fams f => if fams.contains f then fams else fams ++ [f])
    [.ipv4Unicast]

/-- The paths of one family that the initial dump considers. -/
def dumpSnapshot (peer : BgpPeer) (rib : LocRib) (family : NlriFamily) : List Route :=
  if peer.addPathTxFor family then
    (rib.toList.filter fun entry => entry.1.family = family).flatMap fun entry =>
      entry.2.zipIdx.filterMap fun slot =>
        if slot.1.origin.peer ≠ session ∧ slot.1.protocol = .bgp then
          some { slot.1 with pathId := slotId slot.2 }
        else none
  else
    -- a single path keeps the identifier it was received with
    rib.iterBest.filter fun r =>
      r.key.family = family ∧ r.origin.peer ≠ session ∧ r.protocol = .bgp

/-- The routes the export policy leaves of a snapshot. -/
def permitted (c : ExportContext) (session : UInt64) (cfg : PeerConfig) (routes : List Route) :
    List Route :=
  if c.deniesExport session cfg then []
  else routes.filterMap fun r => c.hooks.runExportTo r session

/-- `on_bgp_established`: the initial dump. -/
def onBgpEstablished (c : ExportContext) (rib : LocRib) (e : Egress) (session : UInt64) :
    Option Egress :=
  match e.sessions[session]? with
  | none => some e
  | some s => do
      let snapshot := (dumpFamilies s.peer.cfg).flatMap (dumpSnapshot session s.peer rib)
      let sent ← offer e.originatorOf s.peer (permitted c session s.peer.cfg snapshot)
      let p ← sent.1.sendEndOfRib.toOption
      some ((e.setSession session (Session.flush { s with peer := p })).recordSent session sent.2)

/-- The paths of one family that a refresh considers; neither the protocol of a path nor
a summary-only aggregate matters here. -/
def refreshSnapshot (peer : BgpPeer) (rib : LocRib) (family : NlriFamily) : List Route :=
  (rib.toList.filter fun entry => entry.1.family = family).flatMap fun entry =>
    if peer.addPathTxFor family then
      entry.2.zipIdx.filterMap fun slot =>
        if slot.1.origin.peer ≠ session then some { slot.1 with pathId := slotId slot.2 } else none
    else entry.2.head?.toList.filter fun r => r.origin.peer ≠ session

/-- Withdraw what a session has been sent for some keys. -/
def withdrawAll (peer : BgpPeer) (family : NlriFamily) (prior : List (RouteKey × List UInt32)) :
    Option BgpPeer :=
  prior.foldlM (fun p entry =>
    (p.withdrawPaths (entry.2.map fun id => ⟨id, entry.1.pfx⟩) family).toOption) peer

/-- `reannounce_to_session`. -/
def reannounceToSession (c : ExportContext) (rib : LocRib) (e : Egress) (session : UInt64)
    (family : NlriFamily) : Option Egress :=
  match e.sessions[session]? with
  | none => some e
  | some s =>
    if !s.peer.established then some e
    else do
      let prior := e.adjRibOut.advertisedKeys (destOf session) family
      let began ← (s.peer.beginEnhancedRouteRefresh family).toOption
      let p ← withdrawAll began.1 family prior
      let e := prior.foldl (fun e entry => e.recordWithdrawn session entry.1 entry.2) e
      let sent ← offer e.originatorOf p
        (permitted c session p.cfg (refreshSnapshot session p rib family))
      let p ← sent.1.sendEndOfRib.toOption
      let p ← (if began.2 then (p.endEnhancedRouteRefresh family).toOption else some p)
      let e := e.setSession session (Session.flush { s with peer := p })
      some (e.recordSent session sent.2)

/-- Forget what waits for a session and when it was last sent. -/
def clearMrai : Egress :=
  { e with mrai := e.mrai.modify session fun m => { m with lastSent := ∅, pending := ∅ } }

end

end Egress

end LibRouting.Router
