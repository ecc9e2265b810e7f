/-
  Ldp/Message.lean --- LDP messages and PDU framing (`lr-ldp`: `message.rs`).
-/
import LibRouting.Ldp.Tlv

set_option autoImplicit false

namespace LibRouting.Ldp

open Foundation Core List

/-! ## Messages -/

/-- Notification message. -/
structure NotificationMsg where
  messageId : UInt32
  status : Status
  unknownTlvs : List RawTlv := []
  deriving DecidableEq, Repr

/-- Hello message. -/
structure HelloMsg where
  messageId : UInt32
  params : HelloParams
  transportAddr : Option IpAddr
  transportAddrV6 : Option IpAddr
  configSeq : Option UInt32
  dualStack : Option TransportPreference
  unknownTlvs : List RawTlv := []
  deriving DecidableEq, Repr

/-- Initialization message. -/
structure InitMsg where
  messageId : UInt32
  params : SessionParams
  ftSession : Option FtSessionParams
  unknownTlvs : List RawTlv := []
  deriving DecidableEq, Repr

/-- An Address or Address Withdraw message. -/
structure AddressMsg where
  messageId : UInt32
  addresses : AddressList
  unknownTlvs : List RawTlv := []
  deriving DecidableEq, Repr

/-- Label Mapping message. -/
structure LabelMappingMsg where
  messageId : UInt32
  fec : Fec
  label : GenericLabel
  hopCount : Option UInt8
  pathVector : Option (List UInt32)
  requestMessageId : Option UInt32
  unknownTlvs : List RawTlv := []
  deriving DecidableEq, Repr

/-- Label Request message. -/
structure LabelRequestMsg where
  messageId : UInt32
  fec : Fec
  hopCount : Option UInt8
  pathVector : Option (List UInt32)
  unknownTlvs : List RawTlv := []
  deriving DecidableEq, Repr

/-- Label Withdraw message. -/
structure LabelWithdrawMsg where
  messageId : UInt32
  fec : Fec
  label : Option GenericLabel
  unknownTlvs : List RawTlv := []
  deriving DecidableEq, Repr

/-- Label Release message. -/
structure LabelReleaseMsg where
  messageId : UInt32
  fec : Fec
  label : Option GenericLabel
  status : Option Status
  unknownTlvs : List RawTlv := []
  deriving DecidableEq, Repr

/-- Label Abort Request message. -/
structure LabelAbortMsg where
  messageId : UInt32
  fec : Fec
  requestMessageId : UInt32
  unknownTlvs : List RawTlv := []
  deriving DecidableEq, Repr

/-- A message of an unknown type, kept as octets. -/
structure RawMessage where
  uBit : Bool
  msgType : UInt16
  messageId : UInt32
  tlvs : List RawTlv
  deriving DecidableEq, Repr

/-- An LDP message of any type. -/
inductive LdpMessage where
  | notification (m : NotificationMsg)
  | hello (m : HelloMsg)
  | initialization (m : InitMsg)
  | keepAlive (messageId : UInt32)
  | address (m : AddressMsg)
  | addressWithdraw (m : AddressMsg)
  | labelMapping (m : LabelMappingMsg)
  | labelRequest (m : LabelRequestMsg)
  | labelWithdraw (m : LabelWithdrawMsg)
  | labelRelease (m : LabelReleaseMsg)
  | labelAbortRequest (m : LabelAbortMsg)
  | unknown (m : RawMessage)
  deriving DecidableEq, Repr

namespace LdpMessage

/-- `message_type`. -/
def messageType : LdpMessage → UInt16
  | notification _ => 0x0001
  | hello _ => 0x0100
  | initialization _ => 0x0200
  | keepAlive _ => 0x0201
  | address _ => 0x0300
  | addressWithdraw _ => 0x0301
  | labelMapping _ => 0x0400
  | labelRequest _ => 0x0401
  | labelWithdraw _ => 0x0402
  | labelRelease _ => 0x0403
  | labelAbortRequest _ => 0x0404
  | unknown m => m.msgType &&& 0x7fff

/-- `u_bit`. -/
def uBit : LdpMessage → Bool
  | unknown m => m.uBit
  | _ => false

/-- `message_id`. -/
def messageId : LdpMessage → UInt32
  | notification m => m.messageId
  | hello m => m.messageId
  | initialization m => m.messageId
  | keepAlive i => i
  | address m => m.messageId
  | addressWithdraw m => m.messageId
  | labelMapping m => m.messageId
  | labelRequest m => m.messageId
  | labelWithdraw m => m.messageId
  | labelRelease m => m.messageId
  | labelAbortRequest m => m.messageId
  | unknown m => m.messageId

end LdpMessage

/-- A PDU: the sender and its messages. -/
structure LdpPdu where
  sender : LdpId
  messages : List LdpMessage
  deriving DecidableEq, Repr

/-! ## Decoding -/

/-- A TLV of a known type, or the raw octets of another. -/
inductive ParsedTlv where
  | fec (v : Fec)
  | addressList (v : AddressList)
  | genericLabel (v : GenericLabel)
  | helloParams (v : HelloParams)
  | sessionParams (v : SessionParams)
  | ftSession (v : FtSessionParams)
  | status (v : Status)
  | hopCount (v : UInt8)
  | pathVector (v : List UInt32)
  | transportAddress (v : IpAddr)
  | configSequenceNumber (v : UInt32)
  | labelRequestMessageId (v : UInt32)
  | dualStackCapability (v : TransportPreference)
  | raw (v : RawTlv)
  deriving DecidableEq, Repr

namespace ParsedTlv

/-- The value of a FEC TLV; the projections below read the other types alike. -/
def fec? : ParsedTlv → Option Fec
  | fec v => some v
  | _ => none

def addressList? : ParsedTlv → Option AddressList
  | addressList v => some v
  | _ => none

def genericLabel? : ParsedTlv → Option GenericLabel
  | genericLabel v => some v
  | _ => none

def helloParams? : ParsedTlv → Option HelloParams
  | helloParams v => some v
  | _ => none

def sessionParams? : ParsedTlv → Option SessionParams
  | sessionParams v => some v
  | _ => none

def ftSession? : ParsedTlv → Option FtSessionParams
  | ftSession v => some v
  | _ => none

def status? : ParsedTlv → Option Status
  | status v => some v
  | _ => none

def hopCount? : ParsedTlv → Option UInt8
  | hopCount v => some v
  | _ => none

def pathVector? : ParsedTlv → Option (List UInt32)
  | pathVector v => some v
  | _ => none

def transportV4? : ParsedTlv → Option IpAddr
  | transportAddress (.v4 a) => some (.v4 a)
  | _ => none

def transportV6? : ParsedTlv → Option IpAddr
  | transportAddress (.v6 a) => some (.v6 a)
  | _ => none

def configSequenceNumber? : ParsedTlv → Option UInt32
  | configSequenceNumber v => some v
  | _ => none

def labelRequestMessageId? : ParsedTlv → Option UInt32
  | labelRequestMessageId v => some v
  | _ => none

def dualStackCapability? : ParsedTlv → Option TransportPreference
  | dualStackCapability v => some v
  | _ => none

def raw? : ParsedTlv → Option RawTlv
  | raw v => some v
  | _ => none

end ParsedTlv

/-- TLV types that are registered but have no value reader: they are kept raw, with
both flag bits dropped. -/
def unreadTlvTypes : List UInt16 :=
  [0x0201, 0x0202, 0x0301, 0x0302, 0x0303, 0x0501, 0x0502, 0x0601]

/-- One TLV of `parse_tlv_stream`. -/
def parseTlv (header : UInt16) (value : Bytes) : Except ParseError ParsedTlv :=
  let tlvType := header &&& 0x3fff
  match tlvType.toNat with
  | 0x0100 => .fec <$> Fec.decodeValue value
  | 0x0101 => .addressList <$> AddressList.decodeValue value
  | 0x0103 => .hopCount <$> decodeHopCount value
  | 0x0104 => .pathVector <$> decodePathVector value
  | 0x0200 => .genericLabel <$> GenericLabel.decodeValue value
  | 0x0300 => .status <$> Status.decodeValue value
  | 0x0400 => .helloParams <$> HelloParams.decodeValue value
  | 0x0401 | 0x0403 => .transportAddress <$> decodeTransportAddress value
  | 0x0402 => .configSequenceNumber <$> decodeConfigSequenceNumber value
  | 0x0500 => .sessionParams <$> SessionParams.decodeValue value
  | 0x0503 => .ftSession <$> FtSessionParams.decodeValue value
  | 0x0600 => .labelRequestMessageId <$> decodeLabelRequestMessageId value
  | 0x0701 => .dualStackCapability <$> TransportPreference.decodeValue value
  | _ =>
    if unreadTlvTypes.contains tlvType then .ok (.raw ⟨false, false, tlvType, value⟩)
    else .ok (.raw ⟨header &&& 0x8000 ≠ 0, header &&& 0x4000 ≠ 0, tlvType, value⟩)

/-- `parse_tlv_stream` from offset `off`. -/
def parseTlvStream (off : Nat) : Bytes → Except ParseError (List ParsedTlv)
  | [] => .ok []
  | h₁ :: h₂ :: l₁ :: l₂ :: rest =>
    let len := (fromBe16 l₁ l₂).toNat
    if rest.length < len then .error ⟨.truncated, off, "truncated TLV value"⟩
    else do
      let t ← parseTlv (fromBe16 h₁ h₂) (rest.take len)
      let ts ← parseTlvStream (off + 4 + len) (rest.drop len)
      pure (t :: ts)
  | _ => .error ⟨.truncated, off, "truncated TLV header"⟩
termination_by body => body.length
decreasing_by
  simp only [length_cons, length_drop]
  omega

/-- The value of a TLV the message must have. -/
def mandatory {α : Type} (context : String) (tlvs : List ParsedTlv)
    (f : ParsedTlv → Option α) : Except ParseError α :=
  match tlvs.findSome? f with
  | some v => .ok v
  | none => .error ⟨.badLength, 8, context⟩

/-- The typed message of `parse_message`. -/
def typedMessage (uBit : Bool) (msgType : UInt16) (messageId : UInt32)
    (tlvs : List ParsedTlv) : Except ParseError LdpMessage :=
  let unknownTlvs := tlvs.filterMap ParsedTlv.raw?
  match msgType.toNat with
  | 0x0001 => do
      let status ← mandatory "Notification without a Status TLV" tlvs ParsedTlv.status?
      pure (.notification { messageId, status, unknownTlvs })
  | 0x0100 => do
      let params ← mandatory "Hello without Common Hello Parameters TLV" tlvs
        ParsedTlv.helloParams?
      pure (.hello {
        messageId, params, unknownTlvs
        transportAddr := tlvs.findSome? ParsedTlv.transportV4?
        transportAddrV6 := tlvs.findSome? ParsedTlv.transportV6?
        configSeq := tlvs.findSome? ParsedTlv.configSequenceNumber?
        dualStack := tlvs.findSome? ParsedTlv.dualStackCapability? })
  | 0x0200 => do
      let params ← mandatory "Initialization without Common Session Parameters TLV" tlvs
        ParsedTlv.sessionParams?
      pure (.initialization {
        messageId, params, unknownTlvs
        ftSession := tlvs.findSome? ParsedTlv.ftSession? })
  | 0x0201 => pure (.keepAlive messageId)
  | 0x0300 => do
      let addresses ← mandatory "Address without Address List TLV" tlvs ParsedTlv.addressList?
      pure (.address { messageId, addresses, unknownTlvs })
  | 0x0301 => do
      let addresses ← mandatory "Address Withdraw without Address List TLV" tlvs
        ParsedTlv.addressList?
      pure (.addressWithdraw { messageId, addresses, unknownTlvs })
  | 0x0400 => do
      let fec ← mandatory "Label Mapping without FEC TLV" tlvs ParsedTlv.fec?
      let label ← mandatory "Label Mapping without Label TLV" tlvs ParsedTlv.genericLabel?
      pure (.labelMapping {
        messageId, fec, label, unknownTlvs
        hopCount := tlvs.findSome? ParsedTlv.hopCount?
        pathVector := tlvs.findSome? ParsedTlv.pathVector?
        requestMessageId := tlvs.findSome? ParsedTlv.labelRequestMessageId? })
  | 0x0401 => do
      let fec ← mandatory "Label Request without FEC TLV" tlvs ParsedTlv.fec?
      pure (.labelRequest {
        messageId, fec, unknownTlvs
        hopCount := tlvs.findSome? ParsedTlv.hopCount?
        pathVector := tlvs.findSome? ParsedTlv.pathVector? })
  | 0x0402 => do
      let fec ← mandatory "message without FEC TLV" tlvs ParsedTlv.fec?
      pure (.labelWithdraw {
        messageId, fec, unknownTlvs, label := tlvs.findSome? ParsedTlv.genericLabel? })
  | 0x0403 => do
      let fec ← mandatory "message without FEC TLV" tlvs ParsedTlv.fec?
      pure (.labelRelease {
        messageId, fec, unknownTlvs
        label := tlvs.findSome? ParsedTlv.genericLabel?
        status := tlvs.findSome? ParsedTlv.status? })
  | 0x0404 => do
      let fec ← mandatory "Label Abort Request without FEC TLV" tlvs ParsedTlv.fec?
      let requestMessageId ← mandatory
        "Label Abort Request without Label Request Message ID TLV" tlvs
        ParsedTlv.labelRequestMessageId?
      pure (.labelAbortRequest { messageId, fec, requestMessageId, unknownTlvs })
  | _ => pure (.unknown { uBit, msgType, messageId, tlvs := unknownTlvs })

/-- `parse_message`. -/
def parseMessage : Bytes → Except ParseError LdpMessage
  | h₁ :: h₂ :: l₁ :: l₂ :: i₁ :: i₂ :: i₃ :: i₄ :: rest =>
    let header := fromBe16 h₁ h₂
    let msgLen := (fromBe16 l₁ l₂).toNat
    if msgLen < 4 then
      .error ⟨.badLength, 2, "message length smaller than the Message ID"⟩
    else if rest.length + 8 < 4 + msgLen then .error ⟨.truncated, 4, "truncated message body"⟩
    else do
      let tlvs ← parseTlvStream 0 (rest.take (msgLen - 4))
      typedMessage (header &&& 0x8000 ≠ 0) (header &&& 0x7fff) (fromBe32 i₁ i₂ i₃ i₄) tlvs
  | _ => .error ⟨.truncated, 0, "truncated message header"⟩

/-- The messages of a PDU, from offset `off`. -/
def parseMessages (off : Nat) : Bytes → Except ParseError (List LdpMessage)
  | [] => .ok []
  | h₁ :: h₂ :: l₁ :: l₂ :: rest =>
    let msgLen := (fromBe16 l₁ l₂).toNat
    if fromBe16 h₁ h₂ &&& 0x7fff = 0 then
      .error ⟨.unknownType, off, "message type 0 is not a valid LDP message"⟩
    else if msgLen < 4 then
      .error ⟨.badLength, off + 2, "message length smaller than the Message ID"⟩
    else if rest.length < msgLen then
      .error ⟨.badLength, off + 2, "message extends past the PDU boundary"⟩
    else do
      let m ← parseMessage (h₁ :: h₂ :: l₁ :: l₂ :: rest.take msgLen)
      let ms ← parseMessages (off + 4 + msgLen) (rest.drop msgLen)
      pure (m :: ms)
  | _ => .error ⟨.badLength, off, "trailing garbage instead of a message header"⟩
termination_by b => b.length
decreasing_by
  simp only [length_cons, length_drop]
  omega

/-- `LdpCodec::decode`: nothing yet, or a PDU and the octets it took. -/
def decode (b : Bytes) : Except ParseError (Option (LdpPdu × Nat)) :=
  match b with
  | v₁ :: v₂ :: l₁ :: l₂ :: rest =>
    let pduLen := (fromBe16 l₁ l₂).toNat
    if fromBe16 v₁ v₂ ≠ ldpVersion then
      .error ⟨.invalidValue, 0, "unsupported LDP protocol version"⟩
    else if pduLen < 6 then
      .error ⟨.badLength, 2, "PDU length smaller than the LDP Identifier"⟩
    else if rest.length < pduLen then .ok none
    else
      match LdpId.fromBytes (rest.take 6) with
      | none => .error (.truncated "LDP Identifier")
      | some sender => do
          let messages ← parseMessages 10 ((rest.take pduLen).drop 6)
          pure (some (⟨sender, messages⟩, 4 + pduLen))
  | _ => .ok none

theorem decode_consumed {b : Bytes} {pdu : LdpPdu} {n : Nat}
    (h : decode b = .ok (some (pdu, n))) : 0 < n ∧ n ≤ b.length := by
  unfold decode at h
  split at h
  · rename_i v₁ v₂ l₁ l₂ rest
    dsimp only at h
    split_ifs at h with hver hshort hmore
    · cases h
    split at h
    · cases h
    rename_i sender _
    cases hm : parseMessages 10 ((rest.take (fromBe16 l₁ l₂).toNat).drop 6) with
    | error e =>
      rw [hm] at h
      cases h
    | ok messages =>
      rw [hm] at h
      obtain ⟨-, rfl⟩ := Prod.mk.inj (Option.some.inj (Except.ok.inj h))
      simp only [length_cons]
      omega
  · cases h

/-! ## Encoding -/

/-- `write_tlv`. -/
def writeTlv (header : UInt16) (value : Except EncodeError Bytes) : Except EncodeError Bytes := do
  let v ← value
  if v.length > 0xffff then .error ⟨"TLV exceeds 65535 octets"⟩
  else pure (toBe16 header ++ toBe16 (UInt16.ofNat v.length) ++ v)

/-- A TLV that may be absent. -/
def writeOption {α : Type} (header : UInt16) (f : α → Except EncodeError Bytes) :
    Option α → Except EncodeError Bytes
  | none => .ok []
  | some a => writeTlv header (f a)

/-- `write_raw_tlv`. -/
def writeRawTlv (r : RawTlv) : Except EncodeError Bytes :=
  writeTlv ((if r.uBit then 0x8000 else 0) ||| (if r.fBit then 0x4000 else 0) |||
    (r.tlvType &&& 0x3fff)) (.ok r.value)

/-- A transport address, its TLV type by its family. -/
def writeTransportAddress : Option IpAddr → Except EncodeError Bytes
  | none => .ok []
  | some a => writeTlv (if a.isIpv4 then 0x0401 else 0x0403) (.ok a.octets)

/-- The TLVs one after the other. -/
def writeAll (parts : List (Except EncodeError Bytes)) : Except EncodeError Bytes := do
  let written ← parts.mapM id
  pure written.flatten

/-- The TLVs of a message, in the order they are written. -/
def messageTlvs : LdpMessage → List (Except EncodeError Bytes)
  | .notification m => writeTlv 0x0300 (.ok m.status.encode) :: m.unknownTlvs.map writeRawTlv
  | .hello m =>
    [writeTlv 0x0400 (.ok m.params.encode),
      writeTransportAddress m.transportAddr, writeTransportAddress m.transportAddrV6,
      writeOption 0x8701 (fun t => .ok t.encode) m.dualStack,
      writeOption 0x0402 (fun c => .ok (toBe32 c)) m.configSeq] ++ m.unknownTlvs.map writeRawTlv
  | .initialization m =>
    [writeTlv 0x0500 (.ok m.params.encode),
      writeOption 0x8503 (fun f => .ok f.encode) m.ftSession] ++ m.unknownTlvs.map writeRawTlv
  | .keepAlive _ => []
  | .address m | .addressWithdraw m =>
    writeTlv 0x0101 m.addresses.encode :: m.unknownTlvs.map writeRawTlv
  | .labelMapping m =>
    [writeTlv 0x0100 m.fec.encode, writeTlv 0x0200 m.label.encode,
      writeOption 0x0103 (fun h => .ok [h]) m.hopCount,
      writeOption 0x0104 (fun v => .ok (v.flatMap toBe32)) m.pathVector,
      writeOption 0x0600 (fun r => .ok (toBe32 r)) m.requestMessageId] ++
    m.unknownTlvs.map writeRawTlv
  | .labelRequest m =>
    [writeTlv 0x0100 m.fec.encode, writeOption 0x0103 (fun h => .ok [h]) m.hopCount,
      writeOption 0x0104 (fun v => .ok (v.flatMap toBe32)) m.pathVector] ++
    m.unknownTlvs.map writeRawTlv
  | .labelWithdraw m =>
    [writeTlv 0x0100 m.fec.encode, writeOption 0x0200 GenericLabel.encode m.label] ++
    m.unknownTlvs.map writeRawTlv
  | .labelRelease m =>
    [writeTlv 0x0100 m.fec.encode, writeOption 0x0200 GenericLabel.encode m.label,
      writeOption 0x0300 (fun s => .ok s.encode) m.status] ++ m.unknownTlvs.map writeRawTlv
  | .labelAbortRequest m =>
    [writeTlv 0x0100 m.fec.encode, writeTlv 0x0600 (.ok (toBe32 m.requestMessageId))] ++
    m.unknownTlvs.map writeRawTlv
  | .unknown m => m.tlvs.map writeRawTlv

/-- `encode_message`. -/
def encodeMessage (m : LdpMessage) : Except EncodeError Bytes := do
  let tlvs ← writeAll (messageTlvs m)
  if 4 + tlvs.length > 0xffff then .error ⟨"message exceeds 65535 octets"⟩
  else
    pure (toBe16 ((if m.uBit then 0x8000 else 0) ||| (m.messageType &&& 0x7fff)) ++
      toBe16 (UInt16.ofNat (4 + tlvs.length)) ++ toBe32 m.messageId ++ tlvs)

/-- The header of a PDU with `body` octets of messages; the length field is cut to 16
bits (`close_pdu`). -/
def pduHeader (sender : LdpId) (body : Nat) : Bytes :=
  toBe16 ldpVersion ++ toBe16 (UInt16.ofNat (6 + body)) ++ sender.asBytes

end LibRouting.Ldp
