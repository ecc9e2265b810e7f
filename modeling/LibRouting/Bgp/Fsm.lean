/-
  Bgp/Fsm.lean --- the session state machine (`fsm.rs`).

  A session is a value; `step` returns the session after an event together with
  the actions it asks of its embedder.  The MP decoders can panic, so the
  transition is an `Outcome` without errors: `abort` is the only way not to
  return.
-/
import LibRouting.Bgp.Codec.Encode
import LibRouting.Bgp.MpNlri
import LibRouting.Bgp.Peer
import LibRouting.Bgp.WellKnown

set_option autoImplicit false

namespace LibRouting.Bgp

open Foundation Core Outcome List

/-- The states of RFC 4271 §8. -/
inductive BgpState where
  | idle
  | connect
  | active
  | openSent
  | openConfirm
  | established
  deriving DecidableEq, Repr

/-- The events of the machine. -/
inductive BgpEvent where
  | manualStart
  | manualStop
  | transportOpen
  | transportFatal
  | transportClose
  | message (m : BgpMessage)
  | parseError (n : BgpNotification)
  | timerConnectRetry
  | timerHoldExpired
  | timerKeepalive
  | timerIdleHold
  deriving DecidableEq, Repr

/-- `timer_ids`. -/
inductive TimerId where
  | connectRetry
  | hold
  | keepalive
  | idleHold
  deriving DecidableEq, Repr

/-- The events a session emits. -/
inductive Event where
  | peerStateChange (session : UInt64) (peerState : String)
  | log (text : String)
  deriving DecidableEq, Repr

/-- What a transition asks of the embedder.  Timers are one-shot, in
milliseconds. -/
inductive BgpAction where
  | setTimer (id : TimerId) (afterMs : Nat)
  | cancelTimer (id : TimerId)
  | close
  | installRoute (route : Route)
  | withdrawRoute (key : RouteKey) (pathId : UInt32)
  | routeRefreshRequested (family : NlriFamily)
  | beginOfRouteRefresh (family : NlriFamily)
  | endOfRib (family : NlriFamily)
  | emit (event : Event)
  deriving DecidableEq

/-- One direction of `PeerMessageStats`. -/
structure MessageCounts where
  opens : Nat := 0
  updates : Nat := 0
  notifications : Nat := 0
  keepalives : Nat := 0
  routeRefreshes : Nat := 0
  deriving DecidableEq, Repr

/-- `count_sent` and `count_received`. -/
def MessageCounts.count (c : MessageCounts) : BgpMessage → MessageCounts
  | .open _ => { c with opens := c.opens + 1 }
  | .update _ => { c with updates := c.updates + 1 }
  | .notification _ => { c with notifications := c.notifications + 1 }
  | .keepalive => { c with keepalives := c.keepalives + 1 }
  | .routeRefresh _ => { c with routeRefreshes := c.routeRefreshes + 1 }

/-- One BGP session. -/
structure BgpPeer where
  cfg : PeerConfig
  codec : BgpCodec
  state : BgpState := .idle
  negotiatedHoldTime : UInt16 := 0
  peerBgpId : Option RouterId := none
  peerAs : Option Asn := none
  peerCapabilities : List Capability := []
  addPathTx : List NlriFamily := []
  addPathRx : List NlriFamily := []
  extendedNextHop : List (UInt16 × UInt8 × UInt16) := []
  outBuf : Bytes := []
  sent : MessageCounts := {}
  received : MessageCounts := {}
  holdRemaining : Nat := 0
  keepaliveRemaining : Nat := 0
  established : Bool := false
  receivedCeaseCollision : Bool := false
  receivedNotification : Bool := false
  deriving DecidableEq, Repr

namespace BgpPeer
variable {p q : BgpPeer} {u : Update} {actions : List BgpAction} {msg : BgpMessage}
  {state : BgpState} {o : Open} {ev : BgpEvent}

/-- `BgpPeer::new`. -/
def new (cfg : PeerConfig) : BgpPeer := { cfg, codec := { asn4 := cfg.asn4 } }

section

variable (p : BgpPeer)

/-- ADD-PATH was negotiated for sending. -/
def addPathTxFor (family : NlriFamily) : Bool := p.addPathTx.contains family

/-- ADD-PATH was negotiated for receiving. -/
def addPathRxFor (family : NlriFamily) : Bool := p.addPathRx.contains family

/-- The peer advertised a capability with this code. -/
def peerOffers (code : CapabilityCode) : Bool :=
  p.peerCapabilities.any fun c => c.code = code

/-- `route_refresh_negotiated`. -/
def routeRefreshNegotiated : Bool :=
  p.cfg.routeRefresh && p.peerOffers .routeRefresh

/-- `enhanced_route_refresh_negotiated`. -/
def enhancedRouteRefreshNegotiated : Bool :=
  p.routeRefreshNegotiated && p.cfg.enhancedRr &&
    p.peerCapabilities.any fun c => c.code = .enhancedRouteRefresh ∧ c.value = []

/-- `llgr_negotiated`. -/
def llgrNegotiated : Bool :=
  p.cfg.longLived && p.cfg.gracefulRestart && p.peerOffers .gracefulRestart &&
    p.peerOffers .longLivedGracefulRestart

/-- `extended_next_hop_for(1, 1, 2)`: IPv4 NLRI may have an IPv6 next hop. -/
def ipv4OverIpv6 : Bool := p.extendedNextHop.contains (1, 1, 2)

/-! ## Sending -/

/-- `send_msg`: append the encoded message and count it; says whether encoding
succeeded. -/
def sendMsg (msg : BgpMessage) : Outcome Empty (BgpPeer × Bool) := do
  match ← (p.codec.encodeVec msg).attempt with
  | .ok bytes => pure ({ p with outBuf := p.outBuf ++ bytes, sent := p.sent.count msg }, true)
  | .error _ => pure (p, false)

/-- Send a message whose outcome the caller ignores (`enqueue_open`,
`enqueue_keepalive`, `enqueue_notification`). -/
def enqueue (msg : BgpMessage) : Outcome Empty BgpPeer :=
  Prod.fst <$> p.sendMsg msg

end

/-- The message is appended to the output, or it does not encode and nothing
changes. -/
theorem enqueue_ok (h : p.enqueue msg = ok q) :
    (∃ bytes, p.codec.encodeVec msg = ok bytes ∧
      q = { p with outBuf := p.outBuf ++ bytes, sent := p.sent.count msg }) ∨
    (∃ e, p.codec.encodeVec msg = err e) ∧ q = p := by
  unfold enqueue sendMsg at h
  cases henc : p.codec.encodeVec msg with
  | ok bytes =>
    rw [henc] at h
    cases h
    exact .inl ⟨bytes, rfl, rfl⟩
  | err e =>
    rw [henc] at h
    cases h
    exact .inr ⟨⟨e, rfl⟩, rfl⟩
  | abort =>
    rw [henc] at h
    cases h

/-! ## OPEN -/

section

variable (p : BgpPeer) (o : Open)

/-- The capabilities of a received OPEN. -/
def openCapabilities : List Capability :=
  o.params.flatMap fun prm => if prm.paramType = 2 then Capability.decodeSet prm.value else []

/-- The session after an acceptable OPEN: what was negotiated. -/
def negotiate (peerAs : Asn) : BgpPeer :=
  let caps := openCapabilities o
  let directions := p.cfg.negotiatedDirections (caps.flatMap Capability.asAddPath)
  let tuples := (caps.filterMap Capability.asExtendedNextHop).flatten
  let hold := min o.holdTime p.cfg.holdTime
  { p with
    peerBgpId := some o.bgpId
    peerAs := some peerAs
    peerCapabilities := caps
    addPathTx := directions.1
    addPathRx := directions.2
    codec := { p.codec with addPathTx := directions.1, addPathRx := directions.2 }
    extendedNextHop := p.cfg.negotiatedTuples tuples
    negotiatedHoldTime := hold
    holdRemaining := hold.toNat * 1000
    keepaliveRemaining := (min p.cfg.keepaliveInterval (max (hold / 3) 1)).toNat * 1000 }

/-- Refuse an OPEN with the given subcode. -/
def refuseOpen (subcode : UInt8) : Outcome Empty (BgpPeer × BgpState × List BgpAction) := do
  let p ← p.enqueue (.notification ⟨BgpErrorCode.open, subcode, []⟩)
  pure (p, .idle, [.close])

/-- Four-octet AS numbers need both sides (RFC 6793 §4.2.2).  The width is agreed
per session, so only the codec changes. -/
def agreeWidth : BgpPeer :=
  { p with codec := { p.codec with asn4 :=
      p.cfg.asn4 && (openCapabilities o).any fun c => c.code = .fourOctetAs } }

/-- The AS number of the sender of an OPEN. -/
def openSenderAs : Asn :=
  (((openCapabilities o).find? fun c => c.code = .fourOctetAs).bind
    Capability.asFourOctet).getD o.myAs

/-- `handle_open_in_opensent`. -/
def handleOpenInOpensent : Outcome Empty (BgpPeer × BgpState × List BgpAction) :=
  if o.version ≠ 4 then p.refuseOpen BgpOpenErrorSubcode.unsupportedVersion
  else
    let p := p.agreeWidth o
    let peerAs := openSenderAs o
    if peerAs ≠ p.cfg.peerAs ∧ !p.cfg.confederationMember then
      p.refuseOpen BgpOpenErrorSubcode.badPeerAs
    else if o.bgpId = p.cfg.localBgpId then p.refuseOpen BgpOpenErrorSubcode.badBgpIdentifier
    else if o.holdTime ≠ 0 ∧ o.holdTime < 3 then
      p.refuseOpen BgpOpenErrorSubcode.unacceptableHoldTime
    else
      let p := p.negotiate o peerAs
      if 0 < p.negotiatedHoldTime then do
        let p ← p.enqueue .keepalive
        pure (p, .openConfirm,
          [.setTimer .hold p.holdRemaining, .setTimer .keepalive p.keepaliveRemaining])
      else pure (p, .openConfirm, [])

end

/-! ## UPDATE -/

section

variable (p : BgpPeer) (attrs : PathAttributes) (u : Update)

/-- The End-of-RIB marker an UPDATE may be (RFC 4724 §4). -/
def endOfRibActions : List BgpAction :=
  if u.withdrawn = [] ∧ u.nlri = [] then
    match u.attributes.get .mpUnreachNlri with
    | some attr =>
      match attr.value with
      | [h, l, safi] =>
        if u.attributes.attrs.length = 1 then [.endOfRib ⟨fromBe16 h l, safi⟩] else []
      | _ => []
    | none =>
      if u.attributes.attrs = [] ∧ p.cfg.ipv4UnicastActive then [.endOfRib .ipv4Unicast] else []
  else []

/-- The paths the plain section withdraws. -/
def plainWithdrawn : List (RouteKey × UInt32) :=
  if p.cfg.ipv4UnicastActive then u.withdrawn.map fun w => (.new w.pfx .ipv4Unicast, w.pathId)
  else []

/-- The family in front of an MP attribute value. -/
def mpFamily : Bytes → Option NlriFamily
  | h :: l :: safi :: _ => some ⟨fromBe16 h l, safi⟩
  | _ => none

/-- The paths MP_UNREACH_NLRI withdraws.  A value that does not decode is skipped. -/
def mpWithdrawn : Outcome Empty (List (RouteKey × UInt32)) :=
  match u.attributes.get .mpUnreachNlri with
  | none => ok []
  | some attr =>
    match mpFamily attr.value with
    | none => ok []
    | some family =>
      if family.isLabeledUnicast then
        match LabeledNlri.decodeMpUnreach attr.value (p.addPathRxFor family) with
        | some (_, entries) => ok (entries.map fun e => (.new e.pfx family, e.pathId))
        | none => ok []
      else do
        match ← (MpUnreach.decodeEx attr.value (p.addPathRxFor family)).attempt with
        | .ok mp => pure (mp.nlri.map fun w => (.new w.pfx mp.family, w.pathId))
        | .error _ => pure []

/-- The paths an UPDATE withdraws. -/
def withdrawn : Outcome Empty (List (RouteKey × UInt32)) :=
  (p.plainWithdrawn u ++ ·) <$> p.mpWithdrawn u

/-- The attributes an announcement needs (RFC 4271 §6.3). -/
def requiredAttributes : Bool :=
  attrs.origin.isSome && (attrs.asPath.isSome || attrs.as4Path.isSome) &&
    (attrs.nextHop.isSome || (attrs.get .mpReachNlri).isSome)

/-- RFC 4271 §5.3: an unknown attribute is relayed with the Partial bit when it is
transitive and dropped otherwise. -/
def relayUnknown : PathAttributes :=
  (attrs.retain fun a =>
    match a.attrType with
    | .other _ => a.flags.transitive
    | _ => true).mapFlags fun a =>
    match a.attrType with
    | .other _ => a.flags.setPartial true
    | _ => a.flags

theorem relayUnknown_get {t : AttrType} (ht : ∀ c, t ≠ .other c) :
    (relayUnknown attrs).get t = attrs.get t := by
  rw [relayUnknown, PathAttributes.get_mapFlags, PathAttributes.get_retain]
  cases h : attrs.get t with
  | none => rfl
  | some a =>
    obtain ⟨flags, attrType, value⟩ := a
    obtain rfl : attrType = t := PathAttributes.attrType_of_get h
    cases attrType with
    | other c => exact absurd rfl (ht c)
    | _ => rfl

end

section

variable (p : BgpPeer) (cfg : PeerConfig)

/-- The AS_PATH reconstructed from AS_PATH at the configured width and
AS4_PATH. -/
def canonicalPath (attrs : PathAttributes) : AsPath :=
  match attrs.asPathWire cfg.asn4 with
  | some wire => AsPath.reconcileAs4 wire attrs.as4Path
  | none => attrs.as4Path.getD .new

/-- The attribute list a route is stored with: unknown attributes relayed, AS_PATH
in its four-octet form, AS4_PATH merged into it. -/
def normalize (attrs : PathAttributes) : PathAttributes :=
  let relayed := relayUnknown attrs
  let path := canonicalPath cfg relayed
  let bare := relayed.remove .as4Path
  if path.segments ≠ [] then
    bare.insert ⟨PathAttrFlags.new.setTransitive true, .asPath, path.encode4⟩
  else bare

/-- `origin`: the session, tagged 1 when it is internal. -/
def routeOrigin : RouteOrigin :=
  ⟨if p.cfg.peerRole.isInternal then 1 else 0, p.cfg.peerId⟩

/-- A path an UPDATE announces, as it is handed to `announce`; a labelled one has its stack. -/
structure Announcement where
  pfx : Prefix
  family : NlriFamily
  pathId : UInt32
  nextHop : Option IpAddr
  stack : Option LabelStack

namespace Announcement

variable (x : Announcement)

/-- What identifies the path. -/
def path : RouteKey × UInt32 := (.new x.pfx x.family, x.pathId)

/-- A labelled route keeps its stack in the private label attribute. -/
def attributes (attrs : PathAttributes) : PathAttributes :=
  match x.stack with
  | none => attrs
  | some stack => attrs.setLabelStack stack

/-- The route an announcement becomes. -/
def route (p : BgpPeer) (path : AsPath) (attrs : PathAttributes) : Route where
  key := .new x.pfx x.family
  origin := p.routeOrigin
  protocol := .bgp
  preference := ⟨Protocol.bgp.defaultAdminDistance, UInt32.ofNat path.length⟩
  nextHop := x.nextHop
  attributes := (x.attributes attrs).toAttributes
  ageMs := 0
  pathId := x.pathId
  tag := none

end Announcement

/-- The announcements of the plain section. -/
def plainAnnouncements (u : Update) : List Announcement :=
  if p.cfg.ipv4UnicastActive then
    u.nlri.map fun n => ⟨n.pfx, .ipv4Unicast, n.pathId, u.attributes.nextHop, none⟩
  else []

/-- The announcements of MP_REACH_NLRI. -/
def mpAnnouncements (u : Update) : Outcome Empty (List Announcement) :=
  match u.attributes.get .mpReachNlri with
  | none => ok []
  | some attr =>
    match mpFamily attr.value with
    | none => ok []
    | some family =>
      if family.isLabeledUnicast then
        match LabeledNlri.decodeMpReach attr.value (p.addPathRxFor family) with
        | some (_, nextHop, entries) =>
          ok (entries.map fun e =>
            ⟨e.pfx, family, e.pathId, some nextHop.primary, some e.labelStack⟩)
        | none => ok []
      else do
        match ← (MpReach.decodeEx attr.value (p.addPathRxFor family)).attempt with
        | .ok mp => pure (mp.nlri.map fun n =>
          ⟨n.pfx, mp.family, n.pathId, some mp.nextHop.primary, none⟩)
        | .error _ => pure []

/-- All announcements of an UPDATE. -/
def announcements (u : Update) : Outcome Empty (List Announcement) :=
  (p.plainAnnouncements u ++ ·) <$> p.mpAnnouncements u

/-- AS_CONFED segments come from outside the confederation. -/
def confedLeak (attrs : PathAttributes) : Bool :=
  !p.cfg.confedPeer && (canonicalPath p.cfg (relayUnknown attrs)).hasConfed

/-- The routes of the UPDATE are kept: the attributes are complete and no AS_CONFED
segment comes from outside the confederation. -/
def accepted (attrs : PathAttributes) : Bool := requiredAttributes attrs && !p.confedLeak attrs

/-- The log line for AS_CONFED segments from outside the confederation. -/
def confedLog : BgpAction :=
  let asn := cfg.peerAs.toNat
  .emit (.log (s!"bgp: peer AS{asn}: AS_PATH carries AS_CONFED_* segments from a " ++
    "non-confederation peer (RFC 5065 §5); routes rejected"))

end

/-- `handle_update_in_established`. -/
def handleUpdateInEstablished (p : BgpPeer) (u : Update) : Outcome Empty (List BgpAction) := do
  let gone ← p.withdrawn u
  -- a value that panics the decoder does so whether or not the routes are kept
  let xs ← p.announcements u
  let path := canonicalPath p.cfg (relayUnknown u.attributes)
  let attrs := normalize p.cfg u.attributes
  pure (p.endOfRibActions u ++ gone.map (fun w => .withdrawRoute w.1 w.2) ++
    (if p.confedLeak u.attributes then [confedLog p.cfg] else []) ++
    if p.accepted u.attributes then xs.map fun x => .installRoute (x.route p path attrs) else [])

theorem mem_endOfRibActions {a : BgpAction} (h : a ∈ p.endOfRibActions u) :
    ∃ family, a = .endOfRib family := by
  unfold endOfRibActions at h
  repeat' split at h
  all_goals simp_all

/-- What an UPDATE asks of the embedder. -/
theorem handleUpdateInEstablished_cases (h : p.handleUpdateInEstablished u = ok actions)
    {a : BgpAction} (ha : a ∈ actions) :
    (∃ family, a = .endOfRib family) ∨ (∃ key pathId, a = .withdrawRoute key pathId) ∨
      (∃ e, a = .emit e) ∨
      ∃ r, a = .installRoute r ∧ r.origin = p.routeOrigin ∧ r.protocol = .bgp := by
  obtain ⟨gone, -, h⟩ := bind_eq_ok.mp h
  obtain ⟨xs, -, h⟩ := bind_eq_ok.mp h
  cases h
  simp only [mem_append, mem_ite_nil_right, mem_map, mem_singleton] at ha
  obtain ((ha | ⟨w, -, rfl⟩) | ⟨-, rfl⟩) | ⟨-, x, -, rfl⟩ := ha
  · exact .inl (mem_endOfRibActions ha)
  · exact .inr (.inl ⟨_, _, rfl⟩)
  · exact .inr (.inr (.inl ⟨_, rfl⟩))
  · exact .inr (.inr (.inr ⟨_, rfl, rfl, rfl⟩))

/-- An UPDATE never closes the session: a malformed attribute drops its routes
only. -/
theorem handleUpdateInEstablished_not_close (h : p.handleUpdateInEstablished u = ok actions) :
    .close ∉ actions := by
  intro hc
  obtain ⟨_, hc⟩ | ⟨_, _, hc⟩ | ⟨_, hc⟩ | ⟨_, hc, -⟩ := handleUpdateInEstablished_cases h hc <;>
    cases hc

/-! ## Transitions -/

section

variable (p : BgpPeer)

/-- The session goes down: the embedder closes the transport. -/
def closed (actions : List BgpAction) : BgpPeer × List BgpAction :=
  ({ p with established := false, state := .idle }, actions ++ [.close])

/-- What a ROUTE-REFRESH asks for (RFC 2918, RFC 7313). -/
def routeRefreshActions (r : RouteRefresh) : List BgpAction :=
  if p.routeRefreshNegotiated then
    match r.subtype with
    | .normal => [.routeRefreshRequested r.family]
    | .beginOfRib =>
      if p.enhancedRouteRefreshNegotiated then [.beginOfRouteRefresh r.family] else []
    | .endOfRib => if p.enhancedRouteRefreshNegotiated then [.endOfRib r.family] else []
    | .unknown => []
  else []

/-- Re-arm the hold timer. -/
def rearmHold : List BgpAction :=
  [.cancelTimer .hold, .setTimer .hold (p.negotiatedHoldTime.toNat * 1000)]

/-- A received NOTIFICATION is fatal in every state (RFC 4271 §6.8). -/
def notificationReceived (n : BgpNotification) : BgpPeer × List BgpAction :=
  let code := n.errorCode.toNat
  let sub := n.errorSubcode.toNat
  closed { p with
      receivedNotification := true
      receivedCeaseCollision := p.receivedCeaseCollision ||
        (n.errorCode == BgpErrorCode.cease && n.errorSubcode == 7) }
    [.emit (.peerStateChange p.cfg.peerId "Idle (notification received)"),
      .emit (.log s!"peer sent NOTIFICATION code={code} sub={sub} — closing session")]

/-- `BgpPeer::step`. -/
def step (ev : BgpEvent) : Outcome Empty (BgpPeer × List BgpAction) :=
  match p.state, ev with
  | .idle, .manualStart => ok ({ p with state := .connect }, [.setTimer .connectRetry 5000])
  | .connect, .transportOpen | .active, .transportOpen => do
      let p ← p.enqueue (.open p.cfg.openMessage)
      pure ({ p with state := .openSent }, [])
  | .connect, .timerConnectRetry => ok ({ p with state := .active }, [])
  | .openSent, .message (.open o) => do
      let (p, state, actions) ← p.handleOpenInOpensent o
      pure ({ p with state }, actions)
  | .openConfirm, .message .keepalive =>
    ok ({ p with established := true, state := .established },
      [.emit (.peerStateChange p.cfg.peerId "Established")])
  | .established, .message .keepalive =>
    ok ({ p with holdRemaining := p.negotiatedHoldTime.toNat * 1000 }, p.rearmHold)
  | .established, .message (.routeRefresh r) => ok (p, p.routeRefreshActions r)
  | .established, .message (.update u) => do
      let actions ← p.handleUpdateInEstablished u
      pure (p, actions ++ p.rearmHold)
  | .established, .timerKeepalive => do
      let p ← p.enqueue .keepalive
      pure (p, [.setTimer .keepalive p.keepaliveRemaining])
  | .established, .timerHoldExpired => do
      let p ← p.enqueue (.notification ⟨BgpErrorCode.holdTimerExpired, 0, []⟩)
      pure (p.closed [])
  | _, .manualStop | _, .transportFatal | _, .transportClose => ok (p.closed [])
  | _, .message (.notification n) => ok (p.notificationReceived n)
  | _, .parseError n => do
      let p ← p.enqueue (.notification n)
      pure (p.closed [])
  | _, _ => ok (p, [])

/-- `BgpPeer::reset`. -/
def reset : BgpPeer :=
  { new p.cfg with sent := p.sent, received := p.received }

end

/-! ## Transitions, one by one -/

/-- The state machine without its output. -/
def still (p : BgpPeer) : BgpPeer := { p with outBuf := [], sent := {} }

theorem still_enqueue (h : p.enqueue msg = ok q) : q.still = p.still := by
  obtain ⟨bytes, -, rfl⟩ | ⟨-, rfl⟩ := enqueue_ok h <;> rfl

/-- The action tells the embedder something and asks for nothing. -/
def IsEmit (a : BgpAction) : Prop := ∃ e, a = .emit e

/-- The event ends a session that is in the given state. -/
def Ends (state : BgpState) : BgpEvent → Prop
  | .manualStop | .transportFatal | .transportClose | .message (.notification _)
  | .parseError _ => True
  | .timerHoldExpired => state = .established
  | _ => False

/-- The session sends a NOTIFICATION, or nothing. -/
def Notifies (p q : BgpPeer) : Prop := q = p ∨ ∃ n, p.enqueue (.notification n) = ok q

/-- What `step` can do. -/
inductive Transition (p : BgpPeer) : BgpEvent → BgpPeer → List BgpAction → Prop
  | ignored (ev : BgpEvent) (hev : p.state = .openSent → ∀ o, ev ≠ .message (.open o)) :
      Transition p ev p []
  | started (hs : p.state = .idle) :
      Transition p .manualStart { p with state := .connect } [.setTimer .connectRetry 5000]
  | opened {q : BgpPeer} (hs : p.state = .connect ∨ p.state = .active)
      (hq : p.enqueue (.open p.cfg.openMessage) = ok q) :
      Transition p .transportOpen { q with state := .openSent } []
  | retried (hs : p.state = .connect) :
      Transition p .timerConnectRetry { p with state := .active } []
  | refused {p₀ q : BgpPeer} {subcode : UInt8} (o : Open) (hs : p.state = .openSent)
      (hp₀ : p₀ = p ∨ p₀ = p.agreeWidth o)
      (hq : p₀.enqueue (.notification ⟨BgpErrorCode.open, subcode, []⟩) = ok q) :
      Transition p (.message (.open o)) { q with state := .idle } [.close]
  | accepted {p₁ q : BgpPeer} {actions : List BgpAction} (o : Open) (hs : p.state = .openSent)
      (hp₁ : p₁ = (p.agreeWidth o).negotiate o (openSenderAs o))
      (hq : 0 < p₁.negotiatedHoldTime ∧ p₁.enqueue .keepalive = ok q ∧ actions =
          [.setTimer .hold q.holdRemaining, .setTimer .keepalive q.keepaliveRemaining] ∨
        ¬ 0 < p₁.negotiatedHoldTime ∧ q = p₁ ∧ actions = []) :
      Transition p (.message (.open o)) { q with state := .openConfirm } actions
  | confirmed (hs : p.state = .openConfirm) :
      Transition p (.message .keepalive) { p with established := true, state := .established }
        [.emit (.peerStateChange p.cfg.peerId "Established")]
  | heard (hs : p.state = .established) :
      Transition p (.message .keepalive)
        { p with holdRemaining := p.negotiatedHoldTime.toNat * 1000 } p.rearmHold
  | refreshed (r : RouteRefresh) (hs : p.state = .established) :
      Transition p (.message (.routeRefresh r)) p (p.routeRefreshActions r)
  | updated {actions : List BgpAction} (u : Update) (hs : p.state = .established)
      (hu : p.handleUpdateInEstablished u = ok actions) :
      Transition p (.message (.update u)) p (actions ++ p.rearmHold)
  | kept {q : BgpPeer} (hs : p.state = .established) (hq : p.enqueue .keepalive = ok q) :
      Transition p .timerKeepalive q [.setTimer .keepalive q.keepaliveRemaining]
  | down {q : BgpPeer} {emits : List BgpAction} (ev : BgpEvent) (notified collided : Bool)
      (hends : Ends p.state ev) (hemits : ∀ a ∈ emits, IsEmit a)
      (hq : Notifies
        { p with receivedNotification := notified, receivedCeaseCollision := collided } q) :
      Transition p ev { q with established := false, state := .idle } (emits ++ [.close])

/-- The session goes down and tells the embedder nothing else. -/
theorem Transition.closed {r : BgpPeer} (hends : Ends p.state ev) (hq : p.Notifies q)
    (h : ok (q.closed []) = (ok (r, actions) : Outcome Empty _)) : Transition p ev r actions := by
  cases h
  have hno : ∀ a ∈ ([] : List BgpAction), IsEmit a := by simp
  exact .down ev p.receivedNotification p.receivedCeaseCollision hends hno hq

theorem handleOpenInOpensent_transition (hs : p.state = .openSent)
    (h : p.handleOpenInOpensent o = ok (q, state, actions)) :
    Transition p (.message (.open o)) { q with state } actions := by
  have hrefuse : ∀ {p₀ : BgpPeer} {subcode : UInt8}, p₀ = p ∨ p₀ = p.agreeWidth o →
      p₀.refuseOpen subcode = ok (q, state, actions) →
      Transition p (.message (.open o)) { q with state } actions := by
    intro p₀ subcode hp₀ h
    obtain ⟨q, henq, h⟩ := bind_eq_ok.mp h
    cases h
    exact .refused o hs hp₀ henq
  unfold handleOpenInOpensent at h
  split at h
  · exact hrefuse (.inl rfl) h
  dsimp only at h
  iterate 3
    split at h
    · exact hrefuse (.inr rfl) h
  split at h
  · rename_i hhold
    obtain ⟨q, henq, h⟩ := bind_eq_ok.mp h
    cases h
    exact .accepted o hs rfl (.inl ⟨hhold, henq, rfl⟩)
  · rename_i hhold
    cases h
    exact .accepted o hs rfl (.inr ⟨hhold, rfl, rfl⟩)

theorem step_transition (h : p.step ev = ok (q, actions)) : Transition p ev q actions := by
  have hopened : ∀ {q : BgpPeer}, p.state = .connect ∨ p.state = .active →
      (p.enqueue (.open p.cfg.openMessage) >>= fun p => pure ({ p with state := .openSent }, [])) =
        (ok (q, actions) : Outcome Empty _) → Transition p .transportOpen q actions := by
    intro q hs h
    obtain ⟨p', henq, h⟩ := bind_eq_ok.mp h
    cases h
    exact .opened hs henq
  unfold BgpPeer.step at h
  split at h
  · rename_i hs
    cases h
    exact .started hs
  · exact hopened (.inl (by assumption)) h
  · exact hopened (.inr (by assumption)) h
  · rename_i hs
    cases h
    exact .retried hs
  · rename_i o hs
    obtain ⟨⟨p', state, as⟩, hopen, h⟩ := bind_eq_ok.mp h
    cases h
    exact handleOpenInOpensent_transition hs hopen
  · rename_i hs
    cases h
    exact .confirmed hs
  · rename_i hs
    cases h
    exact .heard hs
  · rename_i r hs
    cases h
    exact .refreshed r hs
  · rename_i u hs
    obtain ⟨as, hu, h⟩ := bind_eq_ok.mp h
    cases h
    exact .updated u hs hu
  · rename_i hs
    obtain ⟨p', henq, h⟩ := bind_eq_ok.mp h
    cases h
    exact .kept hs henq
  · rename_i hs
    obtain ⟨p', henq, h⟩ := bind_eq_ok.mp h
    exact .closed hs (.inr ⟨_, henq⟩) h
  iterate 3
    · exact .closed trivial (.inl rfl) h
  · cases h
    exact .down _ _ _ trivial (by simp [IsEmit]) (.inl rfl)
  · obtain ⟨p', henq, h⟩ := bind_eq_ok.mp h
    exact .closed trivial (.inr ⟨_, henq⟩) h
  · cases h
    exact .ignored _ fun hs o ho => by simp_all

/-- A transition keeps what only depends on the configuration, what was negotiated and the
output, if the messages it sends and an OPEN keep it. -/
theorem Transition.preserves {P : BgpPeer → Prop} (h : Transition p ev q actions) (hp : P p)
    (hsame : ∀ {q : BgpPeer} {state established holdRemaining notified collided}, P q →
      P { q with
        state, established, holdRemaining
        receivedNotification := notified, receivedCeaseCollision := collided })
    (hsend : ∀ {p msg q}, P p → (∀ o, msg = .open o → o = p.cfg.openMessage) →
      p.enqueue msg = ok q → P q)
    (hopen : ∀ o, ev = .message (.open o) →
      P (p.agreeWidth o) ∧ P ((p.agreeWidth o).negotiate o (openSenderAs o))) : P q := by
  cases h with
  | ignored | refreshed | updated => exact hp
  | started | retried | confirmed | heard => exact hsame hp
  | opened _ hq => exact hsame (hsend hp (fun o ho => (BgpMessage.open.inj ho).symm) hq)
  | refused o _ hp₀ hq =>
    obtain rfl | rfl := hp₀
    · exact hsame (hsend hp (by simp) hq)
    · exact hsame (hsend (hopen o rfl).1 (by simp) hq)
  | accepted o _ hp₁ hq =>
    subst hp₁
    obtain ⟨-, hq, -⟩ | ⟨-, rfl, -⟩ := hq
    · exact hsame (hsend (hopen o rfl).2 (by simp) hq)
    · exact hsame (hopen o rfl).2
  | kept _ hq => exact hsend hp (by simp) hq
  | down _ _ _ _ _ hq =>
    obtain rfl | ⟨n, hq⟩ := hq
    · exact hsame (q := p) hp
    · exact hsame (hsend (hsame (q := p) hp) (by simp) hq)

/-! ## Negotiated framing

The codec and the session each keep the Add-Path families; no transition lets the
two drift apart. -/

/-- The codec frames NLRI as the session negotiated it. -/
structure Framed (p : BgpPeer) : Prop where
  tx : p.codec.addPathTx = p.addPathTx
  rx : p.codec.addPathRx = p.addPathRx

theorem Framed.enqueue (h : p.Framed) (henq : p.enqueue msg = ok q) : q.Framed := by
  obtain ⟨bytes, -, rfl⟩ | ⟨-, rfl⟩ := enqueue_ok henq
  · exact ⟨h.tx, h.rx⟩
  · exact h

/-- Every transition keeps the framing of the codec that of the session. -/
theorem Framed.step (h : p.Framed) (hstep : p.step ev = ok (q, actions)) : q.Framed :=
  (step_transition hstep).preserves h (fun h => ⟨h.tx, h.rx⟩) (fun h _ henq => h.enqueue henq)
    fun _ _ => ⟨⟨h.tx, h.rx⟩, rfl, rfl⟩

/-! ## The byte stream -/

/-- Replace the carry-over of the codec. -/
def holding (p : BgpPeer) (buf : Bytes) : BgpPeer :=
  { p with codec := { p.codec with carryover := buf } }

/-- The event a decoding error is reported as. -/
def decodeErrorEvent : BgpError → BgpEvent
  | .notification n => .parseError n
  | .codec text => .parseError
      ⟨BgpErrorCode.update, BgpUpdateErrorSubcode.malformedAttributeList, text.toUTF8.toList⟩

/-- The counters after a decoding error: one that carries a NOTIFICATION counts as
received. -/
def countError (p : BgpPeer) : BgpError → BgpPeer
  | .notification _ =>
    { p with received :=
        { p.received with notifications := p.received.notifications + 1 } }
  | .codec _ => p

/-- The loop of `feed_bytes` over the buffered bytes: one frame a turn, until the
buffer holds no complete frame or a frame does not decode. -/
def feedLoop (p : BgpPeer) (buf : Bytes) : Outcome Empty (BgpPeer × List BgpAction) :=
  match tryDecodeFrame buf (p.codec.rxAddPath .ipv4Unicast) with
  | .abort => abort
  | .ok none => ok (p.holding buf, [])
  | .ok (some (n, msg)) =>
    if _h : 0 < n ∧ n ≤ buf.length then do
      let (p, actions) ←
        { p.holding (buf.drop n) with received := p.received.count msg }.step (.message msg)
      let (p, more) ← feedLoop p (buf.drop n)
      pure (p, actions ++ more)
    else abort
  | .err e => ((p.holding buf).countError e).step (decodeErrorEvent e)
termination_by buf.length
decreasing_by
  simp only [length_drop]
  omega

/-- `feed_bytes`. -/
def feedBytes (p : BgpPeer) (bytes : Bytes) : Outcome Empty (BgpPeer × List BgpAction) :=
  p.feedLoop (p.codec.carryover ++ bytes)

end BgpPeer

/-! ## Restarts and refreshes

What two speakers agreed on restarts, and the refresh markers of RFC 7313. -/

namespace Capability

/-- The restart time of `as_graceful_restart`: the low twelve bits. -/
def asGracefulRestart (c : Capability) : Option UInt16 :=
  match c.code, c.value with
  | .gracefulRestart, h :: l :: _ => some (fromBe16 h l &&& 0x0fff)
  | _, _ => none

/-- `as_long_lived_gr`: family and stale time of each seven-octet tuple. -/
def asLongLivedGr (c : Capability) : Option (List (NlriFamily × UInt32)) :=
  if c.code = .longLivedGracefulRestart ∧ c.value.length % 7 = 0 then some (chunks c.value)
  else none
where
  /-- The complete tuples. -/
  chunks : Bytes → List (NlriFamily × UInt32)
    | h :: l :: safi :: _ :: a :: b :: c :: rest =>
      (⟨fromBe16 h l, safi⟩, fromBe32 0 a b c) :: chunks rest
    | _ => []

end Capability

namespace BgpPeer

/-- `negotiated_graceful_restart_time`. -/
def negotiatedGracefulRestartTime (p : BgpPeer) : Option UInt16 :=
  if p.cfg.gracefulRestart then p.peerCapabilities.findSome? Capability.asGracefulRestart else none

/-- `negotiated_llgr_families`. -/
def negotiatedLlgrFamilies (p : BgpPeer) : List (NlriFamily × UInt32) :=
  if p.llgrNegotiated then
    ((p.peerCapabilities.filterMap Capability.asLongLivedGr).flatten).filter fun t =>
      0 < t.2 && p.cfg.grFamilies.contains t.1
  else []

/-- `enqueue_route_refresh`; its callers ignore whether the message was sent. -/
def enqueueRouteRefresh (p : BgpPeer) (r : RouteRefresh) : Outcome Empty BgpPeer :=
  if p.established && p.routeRefreshNegotiated then p.enqueue (.routeRefresh r) else ok p

/-- `begin_enhanced_route_refresh`: whether the marker was sent is the result. -/
def beginEnhancedRouteRefresh (p : BgpPeer) (family : NlriFamily) :
    Outcome Empty (BgpPeer × Bool) :=
  if p.enhancedRouteRefreshNegotiated && p.established then
    p.sendMsg (.routeRefresh ⟨family, .beginOfRib⟩)
  else ok (p, false)

/-- `end_enhanced_route_refresh`. -/
def endEnhancedRouteRefresh (p : BgpPeer) (family : NlriFamily) : Outcome Empty BgpPeer :=
  if p.enhancedRouteRefreshNegotiated then p.enqueueRouteRefresh ⟨family, .endOfRib⟩ else ok p

end BgpPeer

end LibRouting.Bgp
