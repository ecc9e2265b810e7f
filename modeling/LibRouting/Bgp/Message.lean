/-
  Bgp/Message.lean --- BGP messages and errors (`message/`, `error.rs`).
-/
import LibRouting.Bgp.PathAttr

set_option autoImplicit false

namespace LibRouting.Bgp

open Foundation Core

/-! ## Errors -/

/-- The body of a NOTIFICATION. -/
structure BgpNotification where
  errorCode : UInt8
  errorSubcode : UInt8
  data : Bytes
  deriving DecidableEq, Repr

/-- `BgpErrorCode` as the octet on the wire. -/
def BgpErrorCode.header : UInt8 := 1
/-- NOTIFICATION error codes (RFC 4271 §4.5). -/
def BgpErrorCode.open : UInt8 := 2
def BgpErrorCode.update : UInt8 := 3
def BgpErrorCode.holdTimerExpired : UInt8 := 4
def BgpErrorCode.fsmError : UInt8 := 5
def BgpErrorCode.cease : UInt8 := 6

/-- Message header error subcodes. -/
def BgpHeaderErrorSubcode.connectionNotSynchronized : UInt8 := 1
def BgpHeaderErrorSubcode.badMessageLength : UInt8 := 2
def BgpHeaderErrorSubcode.badMessageType : UInt8 := 3

/-- OPEN message error subcodes. -/
def BgpOpenErrorSubcode.unsupportedVersion : UInt8 := 1
def BgpOpenErrorSubcode.badPeerAs : UInt8 := 2
def BgpOpenErrorSubcode.badBgpIdentifier : UInt8 := 3
def BgpOpenErrorSubcode.unacceptableHoldTime : UInt8 := 6
def BgpOpenErrorSubcode.badOpenLength : UInt8 := 8

/-- UPDATE message error subcodes. -/
def BgpUpdateErrorSubcode.malformedAttributeList : UInt8 := 1
def BgpUpdateErrorSubcode.missingWellKnownAttribute : UInt8 := 3
def BgpUpdateErrorSubcode.attributeLengthError : UInt8 := 5
def BgpUpdateErrorSubcode.malformedAsPath : UInt8 := 12

/-- What a decoder reports.  `Truncated` is never built by the BGP decoders. -/
inductive BgpError where
  | notification (n : BgpNotification)
  | codec (text : String)
  deriving DecidableEq, Repr

/-! ## Messages -/

/-- An optional parameter of an OPEN. -/
structure OpenParam where
  paramType : UInt8
  value : Bytes
  deriving DecidableEq, Repr

/-- An OPEN message. -/
structure Open where
  version : UInt8
  myAs : Asn
  holdTime : UInt16
  bgpId : RouterId
  params : List OpenParam
  deriving DecidableEq, Repr

/-- One NLRI entry; the path id is meaningful under Add-Path only. -/
structure Nlri where
  pathId : UInt32
  pfx : Prefix
  deriving DecidableEq, Repr

/-- An UPDATE message. -/
structure Update where
  withdrawn : List Nlri
  attributes : PathAttributes
  nlri : List Nlri
  deriving DecidableEq, Repr

/-- The subtype octet of a ROUTE-REFRESH (RFC 7313). -/
inductive RouteRefreshSubtype where
  | normal
  | beginOfRib
  | endOfRib
  | unknown
  deriving DecidableEq, Repr

namespace RouteRefreshSubtype

/-- The octet on the wire. -/
def toU8 : RouteRefreshSubtype → UInt8
  | normal => 0
  | beginOfRib => 1
  | endOfRib => 2
  | unknown => 0xff

/-- `RouteRefreshSubtype::from_u8(..).unwrap_or(Unknown)` (RFC 7313 §3.2: an
unknown subtype is ignored, not an error). -/
def fromU8 (v : UInt8) : RouteRefreshSubtype :=
  if v = 0 then normal else if v = 1 then beginOfRib else if v = 2 then endOfRib else unknown

@[simp] theorem fromU8_toU8 (s : RouteRefreshSubtype) : fromU8 s.toU8 = s := by
  cases s <;> rfl

end RouteRefreshSubtype

/-- A ROUTE-REFRESH message. -/
structure RouteRefresh where
  family : NlriFamily
  subtype : RouteRefreshSubtype
  deriving DecidableEq, Repr

/-- A BGP message of any type. -/
inductive BgpMessage where
  | open (o : Open)
  | update (u : Update)
  | notification (n : BgpNotification)
  | keepalive
  | routeRefresh (r : RouteRefresh)
  deriving DecidableEq, Repr

/-- The message type octet. -/
def BgpMessage.kind : BgpMessage → UInt8
  | .open _ => 1
  | update _ => 2
  | notification _ => 3
  | keepalive => 4
  | routeRefresh _ => 5

/-- The UPDATE a message is. -/
def BgpMessage.update? : BgpMessage → Option Update
  | .update u => some u
  | _ => none

/-- `BgpHeader::LEN`. -/
def headerLen : Nat := 19

/-- The 16-octet marker. -/
def marker : Bytes := List.replicate 16 0xff

end LibRouting.Bgp
