/-
  Ldp/Engine.lean --- the LDP engine: sessions, connections and label bindings
  (`lr-ldp`: `engine.rs`, `mapping.rs`, `transit.rs`).

  Discovery is read-only here: connections and PDUs look adjacencies up and never
  change them.
-/
import LibRouting.Ldp.Session

set_option autoImplicit false

namespace LibRouting.Ldp

open Foundation Core
open Std (ExtTreeMap)

/-! ## Label information base -/

/-- Labels by prefix. -/
abbrev Bindings : Type := ExtTreeMap Prefix GenericLabel compare

/-- The label information base: bindings heard per peer, and our own. -/
structure LabelMappingStore where
  received : ExtTreeMap LdpId Bindings compare := ∅
  advertised : Bindings := ∅

namespace LabelMappingStore

section

variable (lib : LabelMappingStore) (peer : LdpId)

/-- `label_from`. -/
def labelFrom (key : Prefix) : Option GenericLabel :=
  lib.received[peer]?.bind (·[key]?)

/-- The bindings of a peer, none for a peer that has no entry. -/
def bindingsFrom : Bindings := lib.received.getD peer ∅

/-- Replaces what `peer` has advertised. -/
def setBindings (b : Bindings) : LabelMappingStore :=
  { lib with received := lib.received.insert peer b }

/-- `learn`; the flag says whether the binding is new or changed. -/
def learn (key : Prefix) (label : GenericLabel) : LabelMappingStore × Bool :=
  if lib.labelFrom peer key = some label then (lib, false)
  else (lib.setBindings peer ((lib.bindingsFrom peer).insert key label), true)

/-- `unlearn`; the flag says whether there was a binding. -/
def unlearn (key : Prefix) : LabelMappingStore × Bool :=
  match lib.received[peer]? with
  | none => (lib, false)
  | some b => (lib.setBindings peer (b.erase key), b.contains key)

/-- `unlearn_peer`. -/
def unlearnPeer : LabelMappingStore :=
  { lib with received := lib.received.erase peer }

/-- `unlearn_by_label`. -/
def unlearnByLabel (label : GenericLabel) : LabelMappingStore × List Prefix :=
  match lib.received[peer]? with
  | none => (lib, [])
  | some b =>
    let removed := (b.toList.filter (·.2 = label)).map (·.1)
    (lib.setBindings peer (removed.foldl (·.erase ·) b), removed)

/-- `unlearn_all_from`. -/
def unlearnAllFrom : LabelMappingStore × List Prefix :=
  match lib.received[peer]? with
  | none => (lib, [])
  | some b => (lib.setBindings peer ∅, b.keys)

end

end LabelMappingStore

/-! ## Transit labels -/

/-- What a peer advertised for a FEC. -/
structure PeerBinding where
  label : GenericLabel
  hopCount : Option UInt8
  pathVector : List UInt32
  receivedSeq : Nat
  deriving DecidableEq, Repr

/-- `same_wire_attrs`. -/
def PeerBinding.sameWireAttrs (a b : PeerBinding) : Bool :=
  a.label = b.label && a.hopCount = b.hopCount && a.pathVector = b.pathVector

/-- The pool of labels for transit prefixes. -/
structure TransitAllocator where
  labelMin : Nat
  labelMax : Nat
  next : Nat
  allocated : Bindings := ∅
  used : Std.ExtTreeSet Nat compare := ∅

namespace TransitAllocator

/-- The first label from `cursor` on that is not in use. -/
def firstFree (a : TransitAllocator) (cursor : Nat) : Option Nat :=
  if a.labelMax < cursor then none
  else if a.used.contains cursor then a.firstFree (cursor + 1)
  else some cursor
termination_by a.labelMax + 1 - cursor

section

variable (a : TransitAllocator) (p : Prefix)

/-- `find_free`: from the cursor to the top of the range, then once from its bottom up
to the cursor. -/
def findFree : Option Nat :=
  match a.firstFree a.next with
  | some c => some c
  | none =>
    if a.next = a.labelMin then none
    else (a.firstFree a.labelMin).filter (· < a.next)

/-- `allocate`. -/
def allocate : TransitAllocator × Option GenericLabel :=
  match a.allocated[p]? with
  | some label => (a, some label)
  | none =>
    match a.findFree with
    | none => (a, none)
    | some c =>
      let label : GenericLabel := ⟨UInt32.ofNat c⟩
      ({ a with
        next := c + 1, allocated := a.allocated.insert p label, used := a.used.insert c },
        some label)

/-- `release`. -/
def release : TransitAllocator × Option GenericLabel :=
  match a.allocated[p]? with
  | none => (a, none)
  | some label =>
    ({ a with
      allocated := a.allocated.erase p
      used := a.used.erase label.value.toNat
      next := min a.next label.value.toNat }, some label)

/-- `label_of`. -/
def labelOf : Option GenericLabel := a.allocated[p]?

end

end TransitAllocator

/-- The downstream bindings of a FEC and the next hop among them. -/
structure TransitFec where
  bindings : ExtTreeMap LdpId PeerBinding compare := ∅
  nh : Option LdpId := none
  allocatedSeq : Option Nat := none

/-- The binding of the next hop. -/
def TransitFec.nextHop (fec : TransitFec) : Option PeerBinding := fec.nh.bind (fec.bindings[·]?)

/-! ## Engine -/

/-- How a Hello came: on the link or by targeted discovery. -/
inductive DiscoveryKind where
  | link
  | targeted
  deriving DecidableEq, Repr

/-- A neighbour heard by Hellos. -/
structure HelloAdjacency where
  peerId : LdpId
  kind : DiscoveryKind
  source : IpAddr
  transportAddr : IpAddr
  dualStack : Option TransportPreference
  deriving DecidableEq, Repr

/-- The configuration the engine hands to its sessions. -/
structure LdpEngineConfig where
  localId : LdpId
  keepaliveTime : UInt16
  maxPduLen : UInt16
  advertisement : AdvertisementMode
  interfaceAddresses : List IpAddr
  loopDetection : Bool
  hopCountLimit : UInt8
  pathVectorLimit : UInt8
  transitAllocation : Bool
  gracefulRestart : Bool
  grReconnectMs : UInt32
  grRecoveryMs : UInt32
  grNeighborLivenessMs : Nat
  grMaxRecoveryMs : Nat
  deriving DecidableEq, Repr

/-- What the engine reports to its embedder. -/
inductive EngineEvent where
  | loopDetected (peer : LdpId) (pfx : Prefix) (reason : String)
  | sessionUp (peer : LdpId) (conn : UInt64) (params : NegotiatedParams)
  | sessionDown (peer : LdpId) (reason : SessionDownReason) (graceful : Bool)
  | closeConnection (conn : UInt64)
  | mappingLearned (peer : LdpId) (pfx : Prefix) (label : GenericLabel)
  | mappingWithdrawn (peer : LdpId) (prefixes : List Prefix)
  | mappingReleased (peer : LdpId) (pfx : Prefix)
  | addressReceived (peer : LdpId) (addresses : AddressList)
  | notificationReceived (peer : LdpId) (status : Status)
  | unknownMessage (peer : LdpId) (message : RawMessage)
  | addressWithdrawn (peer : LdpId) (addresses : AddressList)
  | labelAbortReceived (peer : LdpId) (messageId requestMessageId : UInt32)
      (prefixes : List Prefix)
  | transitSwapChanged (pfx : Prefix) (inLabel : GenericLabel) (nextHop : IpAddr)
      (outLabel : GenericLabel)
  | transitSwapRemoved (pfx : Prefix) (inLabel : GenericLabel)
  | transitLabelExhausted (pfx : Prefix)
  deriving DecidableEq, Repr

/-- A session and the transport it rides on. -/
structure LdpSessionState where
  session : LdpSession
  conn : UInt64
  /-- The transport rides on IPv6. -/
  afV6 : Bool
  /-- The peer advertised the Dual-Stack capability. -/
  peerDualStack : Bool
  deriving DecidableEq, Repr

/-- FECs kept for a peer that is restarting, until the deadline. -/
structure GrState where
  fecs : List Prefix
  deadline : Instant
  deriving DecidableEq, Repr

/-- The engine: adjacencies, sessions and what is buffered per transport. -/
structure LdpEngine where
  cfg : LdpEngineConfig
  adjacencies : List HelloAdjacency
  sessions : ExtTreeMap LdpId LdpSessionState compare := ∅
  /-- Accepted connections whose peer is not known yet, and whether they ride on IPv6. -/
  awaitingInit : ExtTreeMap UInt64 (LdpSession × Bool) compare := ∅
  pendingConnect : List LdpId := []
  lib : LabelMappingStore := {}
  transit : ExtTreeMap Prefix TransitFec compare := ∅
  transitAllocator : TransitAllocator
  inBufs : ExtTreeMap UInt64 Bytes compare := ∅
  outBufs : ExtTreeMap UInt64 Bytes compare := ∅
  transitSeq : Nat := 0
  grStale : ExtTreeMap LdpId GrState compare := ∅
  grRecovering : ExtTreeMap LdpId GrState compare := ∅
  events : List EngineEvent := []
  nextMessageId : UInt32 := 1

/-- `effective_max_pdu`. -/
def effectiveMaxPdu (s : LdpSession) : UInt16 :=
  match s.negotiated with
  | some n => n.maxPduLen
  | none => defaultMaxPduLen

/-- Message bodies packed into PDU bodies of at most `maxBody` octets, as far as single
messages allow. -/
def packBodies (maxBody : Nat) : Bytes → List Bytes → List Bytes
  | cur, [] => if cur.isEmpty then [] else [cur]
  | cur, m :: ms =>
    if cur.length + m.length > maxBody ∧ ¬ cur.isEmpty then cur :: packBodies maxBody m ms
    else packBodies maxBody (cur ++ m) ms

/-- The bytes of `encode_outgoing`; messages without a wire form are dropped. -/
def encodePdus (sender : LdpId) (maxPduLen : UInt16) (outgoing : List LdpMessage) : Bytes :=
  let wires := outgoing.filterMap fun m => (encodeMessage m).toOption
  (packBodies (maxPduLen.toNat - 6) [] wires).flatMap fun body =>
    pduHeader sender body.length ++ body

namespace LdpEngine

section

variable (e : LdpEngine) (peer : LdpId) (conn : UInt64)

/-- `adjacency_for_peer`. -/
def adjacencyForPeer : Option HelloAdjacency :=
  e.adjacencies.find? (·.peerId = peer)

/-- `peer_reach_addr`. -/
def peerReachAddr : Option IpAddr :=
  let adj := (e.adjacencies.find? fun a => a.peerId = peer && a.kind = .link).or
    (e.adjacencyForPeer peer)
  adj.map fun a =>
    match a.kind with
    | .link => a.source
    | .targeted => a.transportAddr

/-- Queues an event for the embedder. -/
def pushEvent (ev : EngineEvent) : LdpEngine :=
  { e with events := e.events ++ [ev] }

/-- Bytes for a connection. -/
def appendOut (b : Bytes) : LdpEngine :=
  { e with outBufs := e.outBufs.insert conn (e.outBufs.getD conn [] ++ b) }

/-- Change the session of a peer, if there is one. -/
def modifySession (f : LdpSession → LdpSession) : LdpEngine :=
  match e.sessions[peer]? with
  | none => e
  | some st => { e with sessions := e.sessions.insert peer { st with session := f st.session } }

/-- Forgets the session with `peer`. -/
def removeSession : LdpEngine :=
  { e with sessions := e.sessions.erase peer }

/-- Take the next message id and send the message it goes into, if the session exists. -/
def sendNumbered (message : UInt32 → LdpMessage) : LdpEngine :=
  { e with nextMessageId := e.nextMessageId + 1 }.modifySession peer
    (·.send (message e.nextMessageId))

/-- `encode_outgoing`. -/
def encodeOutgoing (outgoing : List LdpMessage) (maxPduLen : UInt16) : LdpEngine :=
  if outgoing.isEmpty then e
  else e.appendOut conn (encodePdus e.cfg.localId maxPduLen outgoing)

/-- `flush_session`. -/
def flushSession : LdpEngine :=
  match e.sessions[peer]? with
  | none => e
  | some st =>
    (e.modifySession peer LdpSession.drained).encodeOutgoing conn st.session.outgoing
      (effectiveMaxPdu st.session)

/-- The session of a peer leaves, its last messages go out. -/
def dropSession : LdpEngine :=
  match e.sessions[peer]? with
  | none => e
  | some st =>
    (e.removeSession peer).encodeOutgoing conn st.session.outgoing (effectiveMaxPdu st.session)

end

/-- `peer_conn_of`. -/
def peerConnOf (e : LdpEngine) (peer : LdpId) : UInt64 :=
  match e.sessions[peer]? with
  | some st => st.conn
  | none => 0

/-- The message goes to a peer and onto the wire. -/
def sendAndFlush (message : UInt32 → LdpMessage) (e : LdpEngine) (peer : LdpId) : LdpEngine :=
  let e' := e.sendNumbered peer message
  e'.flushSession peer (e'.peerConnOf peer)

section

variable (e : LdpEngine) (peer : LdpId) (p : Prefix)

/-- The operational peers; with `v6`, those that may see IPv6 FECs. -/
def operationalPeers (v6 : Bool) : List LdpId :=
  (e.sessions.toList.filter fun (_, st) =>
    st.session.isOperational && (!v6 || st.afV6 || st.peerDualStack)).map (·.1)

/-! ### Transit -/

/-- `transit_advertised_attributes`. -/
def transitAdvertisedAttributes (b : PeerBinding) : Option (Option UInt8 × Option (List UInt32)) :=
  let pathVector :=
    if e.cfg.loopDetection then some (b.pathVector ++ [e.cfg.localId.lsrNumber]) else none
  match b.hopCount with
  | none => some (none, pathVector)
  | some h =>
    if h = 0 then some (none, pathVector)
    else if h = 255 then none
    else some (some (h + 1), pathVector)

/-- `advertise_transit`. -/
def advertiseTransit (label : GenericLabel) (nh : PeerBinding) : LdpEngine :=
  match e.transitAdvertisedAttributes nh with
  | none => e
  | some (hopCount, pathVector) =>
    (e.operationalPeers (!p.isIpv4)).foldl
      (sendAndFlush fun messageId => .labelMapping {
        messageId, label, hopCount, pathVector
        fec := .ofPrefix p, requestMessageId := none }) e

/-- `send_withdraw_all`. -/
def sendWithdrawAll : LdpEngine :=
  (e.operationalPeers false).foldl
    (sendAndFlush fun messageId => .labelWithdraw {
      messageId, fec := .ofPrefix p, label := none }) e

/-- The dataplane hears where the FEC goes now. -/
def surfaceSwap (label : GenericLabel) (nh : LdpId) (b : PeerBinding) : LdpEngine :=
  match e.peerReachAddr nh with
  | none => e
  | some nextHop => e.pushEvent (.transitSwapChanged p label nextHop b.label)

/-- `transit_on_learn`. -/
def transitOnLearn (label : GenericLabel) (hopCount : Option UInt8) (pathVector : List UInt32) :
    LdpEngine :=
  if !e.cfg.transitAllocation then e
  else if e.lib.advertised.contains p then e
  else
    let seq := e.transitSeq + 1
    let binding : PeerBinding := { label, hopCount, pathVector, receivedSeq := seq }
    let fec := e.transit.getD p {}
    let unchanged := fec.nextHop.any (·.sameWireAttrs binding)
    let isFirst := fec.nh.isNone
    let nh := fec.nh.getD peer
    let fec' := { fec with bindings := fec.bindings.insert peer binding, nh := some nh }
    let e := { e with transitSeq := seq, transit := e.transit.insert p fec' }
    match fec'.bindings[nh]? with
    | none => e
    | some nhBinding =>
      let (allocator, allocated) := e.transitAllocator.allocate p
      match allocated with
      | none => { e with transit := e.transit.erase p }.pushEvent (.transitLabelExhausted p)
      | some local_ =>
        let fresh := (e.transitAllocator.labelOf p).isNone
        let e := { e with
          transitAllocator := allocator
          transit :=
            if fresh then e.transit.insert p { fec' with allocatedSeq := some seq }
            else e.transit }
        let e := if isFirst || !unchanged then e.advertiseTransit p local_ nhBinding else e
        if isFirst || (peer = nh && !unchanged) then e.surfaceSwap p local_ nh nhBinding else e

/-- Undo a transit LSP that lost its next hop: withdraw it upstream and release the
bindings that only reflected it. -/
def transitTeardown (reflected : List (LdpId × PeerBinding)) : LdpEngine :=
  let e := { e with transit := e.transit.erase p }
  let (allocator, released) := e.transitAllocator.release p
  match released with
  | none => e
  | some inLabel =>
    let e := { e with transitAllocator := allocator }.sendWithdrawAll ⟨p.network, p.prefixLen⟩
    let e := reflected.foldl (fun e (id, b) =>
      let (lib, had) := e.lib.unlearn id p
      let e := { e with lib := lib }
      if had then
        sendAndFlush (fun messageId => .labelRelease {
          messageId, fec := .ofPrefix p, label := some b.label, status := none }) e id
      else e) e
    e.pushEvent (.transitSwapRemoved p inLabel)

/-- `transit_on_unlearn`. -/
def transitOnUnlearn : LdpEngine :=
  if !e.cfg.transitAllocation then e
  else
    match e.transit[p]? with
    | none => e
    | some fec =>
      if !fec.bindings.contains peer then e
      else
        let bindings := fec.bindings.erase peer
        let wasNh := fec.nh = some peer
        -- only bindings that predate our own allocation can take over
        let nh :=
          if wasNh then
            (bindings.toList.find? fun (_, b) =>
              match fec.allocatedSeq with
              | some seq => b.receivedSeq < seq
              | none => true).map (·.1)
          else fec.nh
        let fec' := { fec with bindings, nh }
        let e := { e with transit := e.transit.insert p fec' }
        match nh with
        | none => e.transitTeardown p bindings.toList
        | some nh =>
          match e.transitAllocator.labelOf p, bindings[nh]? with
          | some local_, some nhBinding =>
            if wasNh then (e.advertiseTransit p local_ nhBinding).surfaceSwap p local_ nh nhBinding
            else e
          | _, _ => e

/-! ### Graceful restart -/

/-- `gr_advise`. -/
def grAdvise : Option FtSessionParams :=
  if e.cfg.gracefulRestart then some ⟨e.cfg.grReconnectMs, e.cfg.grRecoveryMs⟩ else none

/-- `gr_should_retain`. -/
def grShouldRetain (reason : SessionDownReason) (peerGr : Option FtSessionParams) : Bool :=
  (reason = .transportClosed || reason = .keepAliveExpired) && e.cfg.gracefulRestart &&
    peerGr.isSome

/-- Forget a binding of a peer; a prefix that had one joins the list. -/
def unlearnOne (acc : LdpEngine × List Prefix) (p : Prefix) : LdpEngine × List Prefix :=
  let (lib, had) := acc.1.lib.unlearn peer p
  ({ acc.1 with lib := lib }, if had then acc.2 ++ [p] else acc.2)

/-- Forget bindings of a peer one by one; returns the prefixes that had one. -/
def unlearnEach (fecs : List Prefix) : LdpEngine × List Prefix :=
  fecs.foldl (unlearnOne peer) (e, [])

/-- The embedder hears which prefixes a peer has lost, if any. -/
def surfaceWithdrawn (prefixes : List Prefix) : LdpEngine :=
  if prefixes.isEmpty then e else e.pushEvent (.mappingWithdrawn peer prefixes)

/-- `gr_purge_stale`. -/
def grPurgeStale (fecs : List Prefix) : LdpEngine × List Prefix :=
  let (e, prefixes) := e.unlearnEach peer fecs
  (prefixes.foldl (·.transitOnUnlearn peer ·) e, prefixes)

/-- `gr_on_session_up`. -/
def grOnSessionUp (now : Instant) (peer : LdpId) (peerGr : Option FtSessionParams) : LdpEngine :=
  match e.grStale[peer]? with
  | none => { e with grRecovering := e.grRecovering.erase peer }
  | some stale =>
    let e := { e with grStale := e.grStale.erase peer }
    let recoveryMs := (peerGr.map fun g => g.recoveryMs.toNat).getD 0
    if recoveryMs = 0 then
      let (e, prefixes) := e.grPurgeStale peer stale.fecs
      let e := e.surfaceWithdrawn peer prefixes
      { e with grRecovering := e.grRecovering.erase peer }
    else
      let deadline := now + min recoveryMs e.cfg.grMaxRecoveryMs
      { e with grRecovering := e.grRecovering.insert peer ⟨stale.fecs, deadline⟩ }

/-- `gr_on_mapping_received`. -/
def grOnMappingReceived : LdpEngine :=
  match e.grRecovering[peer]? with
  | none => e
  | some rec_ =>
    { e with grRecovering := e.grRecovering.insert peer { rec_ with fecs := rec_.fecs.erase p } }

/-! ### Session events -/

/-- `check_received_attributes`: why the message has been in a loop. -/
def checkReceivedAttributes (hopCount : Option UInt8) (pathVector : Option (List UInt32)) :
    Option String :=
  if !e.cfg.loopDetection then none
  else if hopCount.any fun h => h ≠ 0 && h > e.cfg.hopCountLimit then
    some "hop count exceeds the configured maximum"
  else if pathVector.any (·.contains e.cfg.localId.lsrNumber) then
    some "path vector contains the local LSR Id"
  else if pathVector.any (·.length > e.cfg.pathVectorLimit.toNat) then
    some "path vector exceeds the maximum allowable length"
  else none

end

section

variable (e : LdpEngine) (now : Instant) (peer : LdpId)

/-- The interface addresses the peer may see. -/
def advertisedAddresses : List IpAddr :=
  let (afV6, dual) :=
    match e.sessions[peer]? with
    | some st => (st.afV6, st.peerDualStack)
    | none => (false, false)
  e.cfg.interfaceAddresses.filter fun a => if a.isIpv4 then !afV6 || dual else afV6 || dual

/-- A transit FEC for a session that came up. -/
def offerTransit (e : LdpEngine) (entry : Prefix × PeerBinding) : LdpEngine :=
  match e.sessions[peer]? with
  | none => e
  | some st =>
    if !entry.1.isIpv4 && !(st.afV6 || st.peerDualStack) then e
    else
      match e.transitAllocator.labelOf entry.1, e.transitAdvertisedAttributes entry.2 with
      | some label, some (hopCount, pathVector) =>
        e.sendNumbered peer fun messageId => .labelMapping {
          messageId, label, hopCount, pathVector
          fec := .ofPrefix entry.1, requestMessageId := none }
      | _, _ => e

/-- `SessionUp`. -/
def onSessionUp (conn : UInt64) (params : NegotiatedParams) : LdpEngine :=
  let e := (e.pushEvent (.sessionUp peer conn params)).grOnSessionUp now peer
    params.peerGracefulRestart
  let addresses := e.advertisedAddresses peer
  let e :=
    if addresses.isEmpty then e else e.modifySession peer (·.sendAddressMessage ⟨addresses⟩)
  if e.cfg.transitAllocation then
    (e.transit.toList.filterMap fun (p, fec) => fec.nextHop.map (p, ·)).foldl (offerTransit peer) e
  else e

/-- The bindings of a peer and what was kept for its restart are gone. -/
def forgetPeer : LdpEngine :=
  { e with
    grStale := e.grStale.erase peer
    grRecovering := e.grRecovering.erase peer
    lib := e.lib.unlearnPeer peer }

/-- `SessionDown`. -/
def onSessionDown (conn : UInt64) (reason : SessionDownReason) : LdpEngine :=
  let e := e.pushEvent (.closeConnection conn)
  let peerGr := e.sessions[peer]?.bind (·.session.negotiated) |>.bind (·.peerGracefulRestart)
  if e.grShouldRetain reason peerGr then
    let window := min ((peerGr.map fun g => g.reconnectMs.toNat).getD 0) e.cfg.grNeighborLivenessMs
    { e with
      grStale := e.grStale.insert peer ⟨(e.lib.bindingsFrom peer).keys, now + window⟩
      grRecovering := e.grRecovering.erase peer }.pushEvent (.sessionDown peer reason true)
  else
    let e := (e.pushEvent (.sessionDown peer reason false)).forgetPeer peer
    e.transit.keys.foldl (·.transitOnUnlearn peer ·) e

/-- A prefix of a looping Label Mapping. -/
def rejectMapping (m : LabelMappingMsg) (reason : String) (e : LdpEngine) (p : Prefix) :
    LdpEngine :=
  let (lib, had) := e.lib.unlearn peer p
  let e := { e with lib := lib }
  let e := if had then e.transitOnUnlearn peer p else e
  let e := e.sendNumbered peer fun messageId => .labelRelease {
    messageId, fec := .ofPrefix p, label := some m.label
    status := some ⟨.loopDetected, m.messageId, 0x0400⟩ }
  e.pushEvent (.loopDetected peer p reason)

/-- A prefix of an acceptable Label Mapping. -/
def acceptMapping (m : LabelMappingMsg) (e : LdpEngine) (p : Prefix) : LdpEngine :=
  let (lib, changed) := e.lib.learn peer p m.label
  let e := { e with lib := lib }
  let e :=
    if changed then
      (e.pushEvent (.mappingLearned peer p m.label)).transitOnLearn peer p m.label m.hopCount
        (m.pathVector.getD [])
    else e
  e.grOnMappingReceived peer p

/-- The answer to a Label Request for one prefix. -/
def answerRequest (m : LabelRequestMsg) (e : LdpEngine) (p : Prefix) : LdpEngine :=
  let messageId := e.nextMessageId
  let transit :=
    if e.cfg.transitAllocation then do
      let fec ← e.transit[p]?
      let binding ← fec.nextHop
      let (hopCount, pathVector) ← e.transitAdvertisedAttributes binding
      let label ← e.transitAllocator.labelOf p
      pure (label, hopCount, pathVector)
    else none
  let e := { e with nextMessageId := messageId + 1 }
  let mapping (label : GenericLabel) (hopCount : Option UInt8)
      (pathVector : Option (List UInt32)) : LdpMessage :=
    .labelMapping {
      messageId, label, hopCount, pathVector
      fec := .ofPrefix p, requestMessageId := some m.messageId }
  match transit, e.lib.advertised[p]? with
  | some (label, hopCount, pathVector), _ =>
    e.modifySession peer (·.send (mapping label hopCount pathVector))
  | none, some label => e.modifySession peer (·.send (mapping label (some 1) none))
  | none, none => e.modifySession peer (·.enqueueNotification ⟨.noRoute, m.messageId, 0x0401⟩)

/-- `LabelWithdrawReceived`. -/
def onLabelWithdraw (m : LabelWithdrawMsg) : LdpEngine :=
  let (e, prefixes) :=
    if m.fec.isWildcard then
      let (lib, prefixes) :=
        match m.label with
        | some label => e.lib.unlearnByLabel peer label
        | none => e.lib.unlearnAllFrom peer
      ({ e with lib := lib }, prefixes)
    else e.unlearnEach peer m.fec.prefixes
  let e := e.sendNumbered peer fun messageId => .labelRelease {
    messageId, fec := m.fec, label := m.label, status := none }
  prefixes.foldl (·.transitOnUnlearn peer ·) (e.surfaceWithdrawn peer prefixes)

/-- One event of `absorb_session_events`. -/
def absorbEvent (conn : UInt64) (e : LdpEngine) : SessionEvent → LdpEngine
  | .sessionUp params => e.onSessionUp now peer conn params
  | .sessionDown reason => e.onSessionDown now peer conn reason
  | .notificationReceived status => e.pushEvent (.notificationReceived peer status)
  | .addressReceived addresses => e.pushEvent (.addressReceived peer addresses)
  | .addressWithdrawReceived addresses => e.pushEvent (.addressWithdrawn peer addresses)
  | .labelMappingReceived m =>
    match e.checkReceivedAttributes m.hopCount m.pathVector with
    | some reason => m.fec.prefixes.foldl (rejectMapping peer m reason) e
    | none => m.fec.prefixes.foldl (acceptMapping peer m) e
  | .labelRequestReceived m =>
    match e.checkReceivedAttributes m.hopCount m.pathVector with
    | some reason =>
      m.fec.prefixes.foldl (fun e p => e.pushEvent (.loopDetected peer p reason))
        (e.modifySession peer
          (·.enqueueNotification ⟨.loopDetected, m.messageId, 0x0401⟩))
    | none => m.fec.prefixes.foldl (answerRequest peer m) e
  | .labelWithdrawReceived m => e.onLabelWithdraw peer m
  | .labelReleaseReceived m =>
    m.fec.prefixes.foldl (fun e p => e.pushEvent (.mappingReleased peer p)) e
  | .labelAbortReceived m =>
    e.pushEvent (.labelAbortReceived peer m.messageId m.requestMessageId m.fec.prefixes)
  | .unknownMessage raw => e.pushEvent (.unknownMessage peer raw)

/-- `absorb_session_events` and what every caller does next: a session that went down
is dropped, another one flushed. -/
def absorbSessionEvents (conn : UInt64) (events : List SessionEvent) : LdpEngine :=
  let e := events.foldl (absorbEvent now peer conn) e
  let down := events.any fun
    | .sessionDown _ => true
    | _ => false
  if down then e.dropSession peer conn else e.flushSession peer conn

/-! ### Connections -/

/-- The configuration of a new session. -/
def sessionConfig (role : SessionRole) (peer : Option LdpId) : SessionConfig where
  localId := e.cfg.localId
  role := role
  peer := peer
  keepaliveTime := e.cfg.keepaliveTime
  maxPduLen := e.cfg.maxPduLen
  advertisement := e.cfg.advertisement
  supportsDownstreamUnsolicited := true
  supportsDownstreamOnDemand := true
  loopDetection := e.cfg.loopDetection
  pathVectorLimit := e.cfg.pathVectorLimit
  gracefulRestart := e.grAdvise

/-- `entry(conn).or_default()` on both buffers. -/
def openBuffers (conn : UInt64) : LdpEngine :=
  { e with
    inBufs := e.inBufs.insertIfNew conn []
    outBufs := e.outBufs.insertIfNew conn [] }

/-- `register_session`. -/
def registerSession (conn : UInt64) (session : LdpSession) (afV6 peerDualStack : Bool) :
    LdpEngine :=
  let st : LdpSessionState := { session := session.start now, conn, afV6, peerDualStack }
  ({ e with sessions := e.sessions.insert peer st }.openBuffers conn).absorbSessionEvents now peer
    conn []

/-- `on_connected`. -/
def onConnected (conn : UInt64) (peer : LdpId) : LdpEngine :=
  let e := { e with pendingConnect := e.pendingConnect.filter (· ≠ peer) }
  if e.sessions.contains peer then e.pushEvent (.closeConnection conn)
  else
    let (afV6, dual) :=
      match e.adjacencyForPeer peer with
      | some a => (!a.source.isIpv4, a.dualStack.isSome)
      | none => (false, false)
    e.registerSession now peer conn { cfg := e.sessionConfig .active (some peer) } afV6 dual

end

section

variable (e : LdpEngine) (now : Instant) (conn : UInt64)

/-- `on_accepted`. -/
def onAccepted (localAddr : IpAddr) : LdpEngine :=
  let session : LdpSession := { cfg := e.sessionConfig .passive none }
  { e with
    awaitingInit := e.awaitingInit.insert conn (session, !localAddr.isIpv4) }.openBuffers conn

/-- The peer whose session rides on a connection. -/
def peerOn : Option LdpId :=
  (e.sessions.toList.find? fun (_, st) => st.conn = conn).map (·.1)

/-- Forgets what is buffered for the transport. -/
def dropBuffers : LdpEngine :=
  { e with inBufs := e.inBufs.erase conn, outBufs := e.outBufs.erase conn }

/-- `on_closed`. -/
def onClosed : LdpEngine :=
  let e := e.dropBuffers conn
  match e.peerOn conn with
  | none => { e with awaitingInit := e.awaitingInit.erase conn }
  | some peer =>
    match e.sessions[peer]? with
    | none => e
    | some st =>
      let (session, events) := st.session.transitionDown .transportClosed
      let e := (e.modifySession peer fun _ => session)
      let e' := events.foldl (absorbEvent now peer conn) e
      if events.isEmpty then e' else e'.dropSession peer conn

/-- A first PDU from a label space without a Hello adjacency. -/
def rejectNoHello : LdpEngine :=
  let reject : LdpMessage := .notification {
    messageId := e.nextMessageId, status := ⟨.sessionRejectedNoHello, 0, 0x0200⟩ }
  ({ e with nextMessageId := e.nextMessageId + 1 }.appendOut conn
    (encodePdus e.cfg.localId 0xffff [reject])).pushEvent (.closeConnection conn)

/-- A PDU goes to the session of the label space it names as its sender, whatever
connection it came in on.  Returns the peer whose session handled it. -/
def deliverPdu (pdu : LdpPdu) (pduLen : Nat) : LdpEngine × Option LdpId :=
  let peer := pdu.sender
  match e.sessions[peer]? with
  | none => (e, none)
  | some st =>
    let max := effectiveMaxPdu st.session
    if pduLen > max.toNat then
      let session := st.session.enqueueNotification ⟨.badPduLength, 0, 0⟩
      let e := (e.encodeOutgoing conn session.outgoing max).removeSession peer
      (((e.pushEvent (.closeConnection conn)).pushEvent
        (.sessionDown peer .protocolError false)).forgetPeer peer, some peer)
    else
      let (session, events) := st.session.feedPdu pdu now
      ((e.modifySession peer fun _ => session).absorbSessionEvents now peer st.conn events,
        some peer)

/-- `handle_session_pdu`, with the peer whose session handled the PDU. -/
def handleSessionPdu (pdu : LdpPdu) (pduLen : Nat) : LdpEngine × Option LdpId :=
  match e.awaitingInit[conn]? with
  | none => e.deliverPdu now conn pdu pduLen
  | some (session, afV6) =>
    let e := { e with awaitingInit := e.awaitingInit.erase conn }
    match e.adjacencyForPeer pdu.sender with
    | none => (e.rejectNoHello conn, none)
    | some adj =>
      if e.sessions.contains pdu.sender then (e.pushEvent (.closeConnection conn), none)
      else
        (e.registerSession now pdu.sender conn session afV6 adj.dualStack.isSome).deliverPdu
          now conn pdu pduLen

/-- The loop of `pump_connection`, with the peers whose sessions handled a PDU. -/
def pump (now : Instant) (conn : UInt64) (e : LdpEngine) (buf : Bytes) (handled : List LdpId) :
    LdpEngine × List LdpId :=
  match _h : decode buf with
  | .ok (some (pdu, consumed)) =>
    let (e', peer) := e.handleSessionPdu now conn pdu (consumed - 4)
    pump now conn e' (buf.drop consumed) (handled ++ peer.toList)
  | .ok none => ({ e with inBufs := e.inBufs.insert conn buf }, handled)
  | .error _ => ((e.pushEvent (.closeConnection conn)).onClosed now conn, handled)
termination_by buf.length
decreasing_by
  have := decode_consumed _h
  simp only [List.length_drop]
  omega

/-- `feed_tcp`. -/
def feedTcp (bytes : Bytes) : LdpEngine × List LdpId :=
  pump now conn { e with inBufs := e.inBufs.erase conn } (e.inBufs.getD conn [] ++ bytes) []

end

end LdpEngine

end LibRouting.Ldp
