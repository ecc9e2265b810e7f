/-
  Ldp/Tlv.lean --- LDP identifiers and TLV values (`lr-ldp`: `pdu.rs`, `tlv.rs`).

  A TLV value has a reader and a writer.  Readers fail with a `ParseError`, writers
  with the reason the value has no wire form.
-/
import LibRouting.Core.Addr
import Mathlib.Tactic.SplitIfs

set_option autoImplicit false

namespace LibRouting.Ldp

open Foundation Core List

/-! ## Errors -/

/-- What a parse error is about. -/
inductive ErrorKind where
  | truncated
  | invalidValue
  | unknownType
  | badLength
  | unsupported
  deriving DecidableEq, Repr

/-- A parse error and where it was met. -/
structure ParseError where
  kind : ErrorKind
  offset : Nat
  context : String
  deriving DecidableEq, Repr

/-- `ParseError::truncated`. -/
def ParseError.truncated (context : String) : ParseError := ⟨.truncated, 0, context⟩

/-- `EncodeError::InvalidValue`; a buffer is never full here, it grows. -/
structure EncodeError where
  reason : String
  deriving DecidableEq, Repr

/-! ## Identifiers -/

/-- The six-octet LDP identifier: LSR id and label space. -/
structure LdpId where
  lsrId : Octets 4
  labelSpace : UInt16
  deriving DecidableEq, Repr

namespace LdpId

instance : Inhabited LdpId := ⟨⟨default, 0⟩⟩

instance : Ord LdpId := ⟨compareLex (compareOn fun i => i.lsrId.bytes) (compareOn labelSpace)⟩

instance : Std.TransOrd LdpId := inferInstanceAs (Std.TransCmp (compareLex _ _))

instance : Std.LawfulEqOrd LdpId where
  eq_of_compare := by
    rintro ⟨a, n⟩ ⟨b, m⟩ h
    obtain ⟨hid, rfl⟩ : a.bytes = b.bytes ∧ n = m := eq_of_compareLex h
    obtain rfl := Octets.ext hid
    rfl

/-- `as_bytes`. -/
def asBytes (i : LdpId) : Bytes := i.lsrId.bytes ++ toBe16 i.labelSpace

/-- `from_bytes`. -/
def fromBytes : Bytes → Option LdpId
  | a :: b :: c :: d :: s₁ :: s₂ :: _ => some ⟨⟨[a, b, c, d], rfl⟩, fromBe16 s₁ s₂⟩
  | _ => none

/-- The LSR id as a number. -/
def lsrNumber (i : LdpId) : UInt32 :=
  match i.lsrId.bytes with
  | [a, b, c, d] => fromBe32 a b c d
  | _ => 0

end LdpId

/-- The protocol version, and the PDU length used until one is negotiated. -/
def ldpVersion : UInt16 := 1
def defaultMaxPduLen : UInt16 := 4096

/-- Label advertisement discipline. -/
inductive AdvertisementMode where
  | downstreamUnsolicited
  | downstreamOnDemand
  deriving DecidableEq, Repr

/-! ## Values -/

/-- A 20-bit label in a 32-bit field. -/
structure GenericLabel where
  value : UInt32
  deriving DecidableEq, Repr

namespace GenericLabel

/-- A label has 20 bits. -/
def isValid (l : GenericLabel) : Bool := l.value ≤ 0xfffff

/-- Refuses a label of more than 20 bits. -/
def encode (l : GenericLabel) : Except EncodeError Bytes :=
  if l.isValid then .ok (toBe32 l.value) else .error ⟨"label exceeds 20 bits"⟩

/-- Takes any 32-bit value. -/
def decodeValue : Bytes → Except ParseError GenericLabel
  | [a, b, c, d] => .ok ⟨fromBe32 a b c d⟩
  | _ => .error ⟨.badLength, 0, "Generic Label value must be 4 octets"⟩

end GenericLabel

/-- An element of a FEC TLV. -/
inductive FecElement where
  | pfx (p : Prefix)
  | wildcard
  deriving DecidableEq, Repr

namespace FecElement

/-- The element types. -/
def typeWildcard : UInt8 := 1
def typePrefix : UInt8 := 2

/-- `encode`. -/
def encode : FecElement → Except EncodeError Bytes
  | wildcard => .ok [typeWildcard]
  | pfx ⟨.v4 a, len⟩ =>
    if len > 32 then .error ⟨"invalid IPv4 prefix length"⟩
    else .ok (typePrefix :: toBe16 1 ++ [len] ++ a.bytes.take (Prefix.octetCount len))
  | pfx ⟨.v6 a, len⟩ =>
    if len > 128 then .error ⟨"invalid IPv6 prefix length"⟩
    else .ok (typePrefix :: toBe16 2 ++ [len] ++ a.bytes.take (Prefix.octetCount len))

/-- `decode` at offset `base` of the value; returns what is left. -/
def decode (base : Nat) : Bytes → Except ParseError (FecElement × Bytes)
  | [] => .error (.truncated "FEC element")
  | typ :: rest =>
    if typ = typeWildcard then .ok (wildcard, rest)
    else if typ = typePrefix then
      match rest with
      | f₁ :: f₂ :: len :: body =>
        let af := fromBe16 f₁ f₂
        if af ≠ 1 ∧ af ≠ 2 then
          .error ⟨.unsupported, base + 1, "unsupported FEC address family"⟩
        else if len.toNat > (if af = 1 then 32 else 128) then
          .error ⟨.invalidValue, base + 3, "invalid prefix length for FEC address family"⟩
        else
          let want := Prefix.octetCount len
          if body.length < want then .error (.truncated "Prefix FEC element bytes")
          else
            let addr := body.take want
            .ok (pfx (if af = 1 then .newV4 (.padded 4 addr) len
              else .newV6 (.padded 16 addr) len), body.drop want)
      | _ => .error (.truncated "Prefix FEC element")
    else .error ⟨.unknownType, base, "unknown FEC element type"⟩

theorem decode_length_lt {base : Nat} {v rest : Bytes} {e : FecElement}
    (h : decode base v = .ok (e, rest)) : rest.length < v.length := by
  cases v with
  | nil => cases h
  | cons typ tail =>
    simp only [decode] at h
    split_ifs at h with hwild hpfx
    · cases h
      simp
    split at h
    · split_ifs at h
      all_goals
        cases h
        simp only [length_cons, length_drop]
        omega
    · cases h

end FecElement

/-- The value of a FEC TLV. -/
structure Fec where
  elements : List FecElement
  deriving DecidableEq, Repr

namespace Fec

/-- `Fec::prefix`. -/
def ofPrefix (p : Prefix) : Fec := ⟨[.pfx p]⟩

/-- The FEC is the wildcard and nothing else. -/
def isWildcard (f : Fec) : Bool := f.elements == [.wildcard]

/-- The prefixes among the elements: the ones the engine acts on. -/
def prefixes (f : Fec) : List Prefix :=
  f.elements.filterMap fun
    | .pfx p => some p
    | .wildcard => none

/-- The elements one after the other. -/
def encode (f : Fec) : Except EncodeError Bytes := do
  let parts ← f.elements.mapM FecElement.encode
  pure parts.flatten

/-- The loop of `decode_value`. -/
def decodeElements (base : Nat) (v : Bytes) : Except ParseError (List FecElement) :=
  match _hv : v with
  | [] => .ok []
  | _ :: _ =>
    match _h : FecElement.decode base v with
    | .error e => .error e
    | .ok (e, rest) => do
        let es ← decodeElements (base + (v.length - rest.length)) rest
        pure (e :: es)
termination_by v.length
decreasing_by
  subst _hv
  exact FecElement.decode_length_lt _h

/-- `decode_value`. -/
def decodeValue (v : Bytes) : Except ParseError Fec := do
  let elements ← decodeElements 0 v
  pure ⟨elements⟩

end Fec

/-- The value of an Address List TLV. -/
structure AddressList where
  addresses : List IpAddr
  deriving DecidableEq, Repr

namespace AddressList

/-- `family`. -/
def family (a : AddressList) : Except EncodeError UInt16 :=
  match a.addresses with
  | .v4 _ :: _ =>
    if a.addresses.any (!·.isIpv4) then .error ⟨"mixed-family address list"⟩ else .ok 1
  | .v6 _ :: _ => .ok 2
  | [] => .error ⟨"empty address list"⟩

/-- One family for the whole list. -/
def encode (a : AddressList) : Except EncodeError Bytes := do
  let af ← a.family
  pure (toBe16 af ++ a.addresses.flatMap IpAddr.octets)

/-- The addresses of `n` octets each. -/
def chunks (n : Nat) (mk : Bytes → IpAddr) (v : Bytes) : List IpAddr :=
  if _h : n = 0 ∨ v = [] then [] else mk (v.take n) :: chunks n mk (v.drop n)
termination_by v.length
decreasing_by
  rw [not_or] at _h
  have := length_pos_iff.mpr _h.2
  simp only [length_drop]
  omega

/-- `decode_value`. -/
def decodeValue : Bytes → Except ParseError AddressList
  | f₁ :: f₂ :: rest =>
    let af := fromBe16 f₁ f₂
    if af ≠ 1 ∧ af ≠ 2 then .error ⟨.unsupported, 0, "unsupported Address List family"⟩
    else
      let n := if af = 1 then 4 else 16
      if rest.length % n ≠ 0 then
        .error ⟨.badLength, 2, "Address List body is not a multiple of the family size"⟩
      else if af = 1 then .ok ⟨chunks 4 (fun b => .v4 (.padded 4 b)) rest⟩
      else .ok ⟨chunks 16 (fun b => .v6 (.padded 16 b)) rest⟩
  | _ => .error (.truncated "Address List family")

end AddressList

/-- The value of a Common Hello Parameters TLV. -/
structure HelloParams where
  holdTime : UInt16
  targeted : Bool
  requestTargeted : Bool
  deriving DecidableEq, Repr

namespace HelloParams

/-- Hold time, then the two flag bits. -/
def encode (p : HelloParams) : Bytes :=
  toBe16 p.holdTime ++
    toBe16 ((if p.targeted then 0x8000 else 0) ||| (if p.requestTargeted then 0x4000 else 0))

/-- Reserved bits are ignored. -/
def decodeValue : Bytes → Except ParseError HelloParams
  | [h₁, h₂, f₁, f₂] =>
    let flags := fromBe16 f₁ f₂
    .ok ⟨fromBe16 h₁ h₂, flags &&& 0x8000 ≠ 0, flags &&& 0x4000 ≠ 0⟩
  | _ => .error ⟨.badLength, 0, "Common Hello Parameters value must be 4 octets"⟩

end HelloParams

/-- The value of a Common Session Parameters TLV. -/
structure SessionParams where
  protocolVersion : UInt16
  keepaliveTime : UInt16
  advertisement : AdvertisementMode
  loopDetection : Bool
  pathVectorLimit : UInt8
  maxPduLen : UInt16
  receiver : LdpId
  deriving DecidableEq, Repr

namespace SessionParams

/-- The fourteen octets of RFC 5036 §3.5.3. -/
def encode (p : SessionParams) : Bytes :=
  toBe16 p.protocolVersion ++ toBe16 p.keepaliveTime ++
    [(if p.advertisement = .downstreamOnDemand then 0x80 else 0) |||
        (if p.loopDetection then 0x40 else 0), p.pathVectorLimit] ++
    toBe16 p.maxPduLen ++ p.receiver.asBytes

/-- Reserved bits are ignored. -/
def decodeValue : Bytes → Except ParseError SessionParams
  | [v₁, v₂, k₁, k₂, flags, limit, m₁, m₂, a, b, c, d, s₁, s₂] =>
    .ok {
      protocolVersion := fromBe16 v₁ v₂
      keepaliveTime := fromBe16 k₁ k₂
      advertisement :=
        if flags &&& 0x80 ≠ 0 then .downstreamOnDemand else .downstreamUnsolicited
      loopDetection := flags &&& 0x40 ≠ 0
      pathVectorLimit := limit
      maxPduLen := fromBe16 m₁ m₂
      receiver := ⟨⟨[a, b, c, d], rfl⟩, fromBe16 s₁ s₂⟩ }
  | _ => .error ⟨.badLength, 0, "Common Session Parameters value must be 14 octets"⟩

end SessionParams

/-- Fatal bit, forward bit and 30 bits of status data. -/
structure StatusCode where
  value : UInt32
  deriving DecidableEq, Repr

namespace StatusCode

/-- A status code with the E bit. -/
def fatal (data : UInt32) : StatusCode := ⟨data ||| 0x80000000⟩

/-- The status codes the session and the engine send. -/
def badProtocolVersion : StatusCode := fatal 0x2
def badPduLength : StatusCode := fatal 0x3
def unknownMessageType : StatusCode := ⟨0x4⟩
def badMessageLength : StatusCode := fatal 0x5
def shutdown : StatusCode := fatal 0xa
def loopDetected : StatusCode := ⟨0xb⟩
def noRoute : StatusCode := ⟨0xd⟩
def sessionRejectedNoHello : StatusCode := fatal 0x10
def sessionRejectedParametersAdvMode : StatusCode := fatal 0x11
def keepaliveTimerExpired : StatusCode := fatal 0x14
def sessionRejectedBadKeepaliveTime : StatusCode := fatal 0x18

/-- `is_fatal`. -/
def isFatal (c : StatusCode) : Bool := c.value &&& 0x80000000 ≠ 0

end StatusCode

/-- The value of a Status TLV. -/
structure Status where
  code : StatusCode
  messageId : UInt32
  messageType : UInt16
  deriving DecidableEq, Repr

namespace Status

/-- Code, message id and message type. -/
def encode (s : Status) : Bytes :=
  toBe32 s.code.value ++ toBe32 s.messageId ++ toBe16 s.messageType

/-- Exactly ten octets. -/
def decodeValue : Bytes → Except ParseError Status
  | [a, b, c, d, i, j, k, l, t₁, t₂] =>
    .ok ⟨⟨fromBe32 a b c d⟩, fromBe32 i j k l, fromBe16 t₁ t₂⟩
  | _ => .error ⟨.badLength, 0, "Status value must be 10 octets"⟩

end Status

/-- A value of one octet. -/
def decodeHopCount : Bytes → Except ParseError UInt8
  | [h] => .ok h
  | _ => .error ⟨.badLength, 0, "Hop Count value must be 1 octet"⟩

/-- The LSR ids of a path vector, four octets each. -/
def lsrIds : Bytes → List UInt32
  | a :: b :: c :: d :: rest => fromBe32 a b c d :: lsrIds rest
  | _ => []

/-- LSR ids, four octets each. -/
def decodePathVector (v : Bytes) : Except ParseError (List UInt32) :=
  if v.length % 4 ≠ 0 then
    .error ⟨.badLength, 0, "Path Vector value must be a multiple of 4 octets"⟩
  else .ok (lsrIds v)

/-- A value of four octets. -/
def decodeWord (context : String) : Bytes → Except ParseError UInt32
  | [a, b, c, d] => .ok (fromBe32 a b c d)
  | _ => .error ⟨.badLength, 0, context⟩

/-- One 32-bit word. -/
def decodeConfigSequenceNumber : Bytes → Except ParseError UInt32 :=
  decodeWord "Config Sequence Number value must be 4 octets"

/-- One 32-bit word. -/
def decodeLabelRequestMessageId : Bytes → Except ParseError UInt32 :=
  decodeWord "Label Request Message ID value must be 4 octets"

/-- The length tells the family. -/
def decodeTransportAddress (v : Bytes) : Except ParseError IpAddr :=
  if h : v.length = 4 then .ok (.v4 ⟨v, h⟩)
  else if h : v.length = 16 then .ok (.v6 ⟨v, h⟩)
  else .error ⟨.badLength, 0, "Transport Address value must be 4 or 16 octets"⟩

/-- The preferred transport of a dual-stack peer (RFC 7552). -/
inductive TransportPreference where
  | ipv4
  | ipv6
  deriving DecidableEq, Repr

namespace TransportPreference

/-- The preference as it is encoded. -/
def trNibble : TransportPreference → UInt8
  | ipv4 => 4
  | ipv6 => 6

/-- `DualStackCapability::encode_value`. -/
def encode (t : TransportPreference) : Bytes := [t.trNibble <<< 4, 0, 0, 0]

/-- `DualStackCapability::decode_value`. -/
def decodeValue : Bytes → Except ParseError TransportPreference
  | a :: _ :: _ :: _ :: _ =>
    if a >>> 4 = 4 then .ok ipv4
    else if a >>> 4 = 6 then .ok ipv6
    else .error ⟨.invalidValue, 0, "unrecognized TR value in Dual-Stack capability"⟩
  | _ => .error ⟨.badLength, 0, "Dual-Stack capability value shorter than 4 octets"⟩

end TransportPreference

/-- The graceful-restart timers of an FT Session TLV, in milliseconds. -/
structure FtSessionParams where
  reconnectMs : UInt32
  recoveryMs : UInt32
  deriving DecidableEq, Repr

namespace FtSessionParams

/-- Flags, two reserved octets and the two times. -/
def encode (f : FtSessionParams) : Bytes :=
  toBe16 1 ++ [0, 0] ++ toBe32 f.reconnectMs ++ toBe32 f.recoveryMs

/-- Flags are not read. -/
def decodeValue : Bytes → Except ParseError FtSessionParams
  | [_, _, _, _, a, b, c, d, i, j, k, l] => .ok ⟨fromBe32 a b c d, fromBe32 i j k l⟩
  | _ => .error ⟨.badLength, 0, "FT Session TLV value must be 12 octets"⟩

end FtSessionParams

/-- An unrecognised TLV, kept verbatim. -/
structure RawTlv where
  uBit : Bool
  fBit : Bool
  tlvType : UInt16
  value : Bytes
  deriving DecidableEq, Repr

end LibRouting.Ldp
