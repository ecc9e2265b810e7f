/-
  Ldp/Session.lean --- the LDP session state machine (`lr-ldp`: `session.rs`).

  Times are milliseconds.  A handler returns the session and the events it surfaces.
-/
import LibRouting.Ldp.Message

set_option autoImplicit false

namespace LibRouting.Ldp

open Foundation Core

/-- A point in time, in milliseconds. -/
abbrev Instant : Type := Nat

/-- The states of RFC 5036 §2.5.4. -/
inductive SessionState where
  | nonExistent
  | initialized
  | openRec
  | openSent
  | operational
  deriving DecidableEq, Repr

/-- Which side opens the transport. -/
inductive SessionRole where
  | active
  | passive
  deriving DecidableEq, Repr

/-- What a session is configured with. -/
structure SessionConfig where
  localId : LdpId
  role : SessionRole
  peer : Option LdpId
  keepaliveTime : UInt16
  maxPduLen : UInt16
  advertisement : AdvertisementMode
  supportsDownstreamUnsolicited : Bool
  supportsDownstreamOnDemand : Bool
  loopDetection : Bool
  pathVectorLimit : UInt8
  gracefulRestart : Option FtSessionParams
  deriving DecidableEq, Repr

/-- The parameters both Initializations agree on. -/
structure NegotiatedParams where
  keepaliveTime : UInt16
  maxPduLen : UInt16
  advertisement : AdvertisementMode
  loopDetection : Bool
  peerPathVectorLimit : UInt8
  peerGracefulRestart : Option FtSessionParams
  deriving DecidableEq, Repr

/-- Why a session ended. -/
inductive SessionDownReason where
  | peerNotification (code : StatusCode)
  | keepAliveExpired
  | transportClosed
  | protocolError
  | parameterMismatch
  | localShutdown
  deriving DecidableEq, Repr

/-- What a session reports to the engine. -/
inductive SessionEvent where
  | sessionUp (params : NegotiatedParams)
  | sessionDown (reason : SessionDownReason)
  | notificationReceived (status : Status)
  | addressReceived (addresses : AddressList)
  | addressWithdrawReceived (addresses : AddressList)
  | labelMappingReceived (m : LabelMappingMsg)
  | labelRequestReceived (m : LabelRequestMsg)
  | labelWithdrawReceived (m : LabelWithdrawMsg)
  | labelReleaseReceived (m : LabelReleaseMsg)
  | labelAbortReceived (m : LabelAbortMsg)
  | unknownMessage (m : RawMessage)
  deriving DecidableEq, Repr

/-- One LDP session. -/
structure LdpSession where
  cfg : SessionConfig
  state : SessionState := .nonExistent
  peer : Option LdpId := none
  negotiated : Option NegotiatedParams := none
  nextMessageId : UInt32 := 1
  outgoing : List LdpMessage := []
  lastRx : Option Instant := none
  lastTx : Instant := 0
  keepaliveSendInterval : Nat := 0
  down : Bool := false
  deriving DecidableEq, Repr

namespace LdpSession

section

variable (s : LdpSession)

/-- Queue a message under the next message id. -/
def enqueue (message : UInt32 → LdpMessage) : LdpSession :=
  { s with
    outgoing := s.outgoing ++ [message s.nextMessageId]
    nextMessageId := s.nextMessageId + 1 }

/-- Queue a message that carries its id already. -/
def send (m : LdpMessage) : LdpSession :=
  { s with outgoing := s.outgoing ++ [m] }

/-- `enqueue_notification`. -/
def enqueueNotification (status : Status) : LdpSession :=
  s.enqueue fun messageId => .notification { messageId, status }

/-- The notification of `send_shutdown`, `reject` and `nak_and_down`. -/
def notify (now : Instant) (status : Status) : LdpSession :=
  { s.enqueueNotification status with lastTx := now }

/-- `send_address_message`. -/
def sendAddressMessage (addresses : AddressList) : LdpSession :=
  s.enqueue fun messageId => .address { messageId, addresses }

/-- `drain_outgoing`. -/
def drained : LdpSession := { s with outgoing := [] }

/-- `is_operational`. -/
def isOperational : Bool := s.state == .operational

/-- The Initialization message this speaker sends. -/
def initMessage (receiver : LdpId) (messageId : UInt32) : LdpMessage :=
  .initialization {
    messageId
    params := {
      protocolVersion := ldpVersion
      keepaliveTime := s.cfg.keepaliveTime
      advertisement := s.cfg.advertisement
      loopDetection := s.cfg.loopDetection
      pathVectorLimit := s.cfg.pathVectorLimit
      maxPduLen := s.cfg.maxPduLen
      receiver }
    ftSession := s.cfg.gracefulRestart }

/-- `start`. -/
def start (now : Instant) : LdpSession :=
  match s.cfg.role with
  | .active =>
    { s.enqueue (s.initMessage (s.cfg.peer.getD default)) with
      lastTx := now, state := .openSent }
  | .passive => { s with state := .initialized }

/-- `transition_down`. -/
def transitionDown (reason : SessionDownReason) : LdpSession × List SessionEvent :=
  if s.down then (s, [])
  else ({ s with down := true, state := .nonExistent }, [.sessionDown reason])

/-- `reject`. -/
def reject (now : Instant) (code : StatusCode) (messageId : UInt32) :
    LdpSession × List SessionEvent :=
  (s.notify now ⟨code, messageId, 0x0200⟩).transitionDown .parameterMismatch

/-- `nak_and_down` with the one status and reason it is called with. -/
def nakAndDown (now : Instant) (msg : LdpMessage) : LdpSession × List SessionEvent :=
  (s.notify now ⟨.badMessageLength, msg.messageId, msg.messageType⟩).transitionDown .protocolError

/-- A proposal of 255 or less means the default. -/
def proposedMaxPduLen (len : UInt16) : UInt16 := if len ≤ 255 then defaultMaxPduLen else len

/-- Disagreement resolves to Downstream Unsolicited. -/
def resolvedAdvertisement (params : SessionParams) : AdvertisementMode :=
  if params.advertisement = s.cfg.advertisement then params.advertisement
  else .downstreamUnsolicited

/-- The parameters agreed on. -/
def negotiate (init : InitMsg) : NegotiatedParams where
  keepaliveTime := min init.params.keepaliveTime s.cfg.keepaliveTime
  maxPduLen := min (proposedMaxPduLen init.params.maxPduLen) (proposedMaxPduLen s.cfg.maxPduLen)
  advertisement := s.resolvedAdvertisement init.params
  loopDetection := init.params.loopDetection && s.cfg.loopDetection
  peerPathVectorLimit := init.params.pathVectorLimit
  peerGracefulRestart := init.ftSession

/-- `handle_init`. -/
def handleInit (init : InitMsg) (now : Instant) : LdpSession × List SessionEvent :=
  if init.params.receiver ≠ s.cfg.localId then
    s.reject now .sessionRejectedNoHello init.messageId
  else if init.params.protocolVersion ≠ ldpVersion then
    s.reject now .badProtocolVersion init.messageId
  else if init.params.keepaliveTime = 0 then
    s.reject now .sessionRejectedBadKeepaliveTime init.messageId
  else
    let supported :=
      match s.resolvedAdvertisement init.params with
      | .downstreamUnsolicited => s.cfg.supportsDownstreamUnsolicited
      | .downstreamOnDemand => s.cfg.supportsDownstreamOnDemand
    if !supported then s.reject now .sessionRejectedParametersAdvMode init.messageId
    else
      let s' := { s with negotiated := some (s.negotiate init) }
      let replied :=
        match s.cfg.role with
        | .passive => s'.enqueue (s'.initMessage (s'.peer.getD init.params.receiver))
        | .active => s'
      ({ replied.enqueue .keepAlive with lastTx := now, state := .openRec }, [])

/-- `handle_operational`. -/
def handleOperational (msg : LdpMessage) (now : Instant) : LdpSession × List SessionEvent :=
  match msg with
  | .keepAlive _ | .hello _ => (s, [])
  | .notification n =>
    if n.status.code.isFatal then
      let s' :=
        if n.status.code ≠ .shutdown then s.notify now ⟨n.status.code, 0, 0⟩ else s
      let (s', events) := s'.transitionDown (.peerNotification n.status.code)
      (s', .notificationReceived n.status :: events)
    else (s, [.notificationReceived n.status])
  | .address m => (s, [.addressReceived m.addresses])
  | .addressWithdraw m => (s, [.addressWithdrawReceived m.addresses])
  | .labelMapping m => (s, [.labelMappingReceived m])
  | .labelRequest m => (s, [.labelRequestReceived m])
  | .labelWithdraw m => (s, [.labelWithdrawReceived m])
  | .labelRelease m => (s, [.labelReleaseReceived m])
  | .labelAbortRequest m => (s, [.labelAbortReceived m])
  | .initialization _ => s.nakAndDown now msg
  | .unknown raw =>
    if raw.uBit then (s, [.unknownMessage raw])
    else (s.notify now ⟨.unknownMessageType, raw.messageId, raw.msgType &&& 0x7fff⟩, [])

/-- One message of `feed_pdu`; the flag says whether the loop goes on. -/
def feedMessage (msg : LdpMessage) (now : Instant) : LdpSession × List SessionEvent × Bool :=
  match s.state with
  | .nonExistent => (s, [], false)
  | .initialized | .openSent =>
    match msg with
    | .initialization init =>
      let (s', events) := s.handleInit init now
      (s', events, s'.state ≠ .nonExistent)
    | _ =>
      let (s', events) := s.nakAndDown now msg
      (s', events, false)
  | .openRec =>
    match msg with
    | .keepAlive _ =>
      let s' := { s with state := .operational }
      match s.negotiated with
      | some n =>
        ({ s' with keepaliveSendInterval := (max n.keepaliveTime.toNat 1) * 1000 / 3 },
          [.sessionUp n], true)
      | none => (s', [], true)
    | _ =>
      let (s', events) := s.nakAndDown now msg
      (s', events, false)
  | .operational =>
    let (s', events) := s.handleOperational msg now
    (s', events, true)

/-- The loop of `feed_pdu`. -/
def feedMessages (now : Instant) : LdpSession → List LdpMessage → LdpSession × List SessionEvent
  | s, [] => (s, [])
  | s, m :: ms =>
    match s.feedMessage m now with
    | (s', events, false) => (s', events)
    | (s', events, true) =>
      let (s'', more) := feedMessages now s' ms
      (s'', events ++ more)

/-- `feed_pdu`. -/
def feedPdu (pdu : LdpPdu) (now : Instant) : LdpSession × List SessionEvent :=
  if s.down then (s, [])
  else
    feedMessages now { s with peer := s.peer.or (some pdu.sender), lastRx := some now } pdu.messages

end

end LdpSession

end LibRouting.Ldp
