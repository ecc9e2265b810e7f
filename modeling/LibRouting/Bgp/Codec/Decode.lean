/-
  Bgp/Codec/Decode.lean --- the message decoders (`codec.rs`,
  `path/mp_nlri.rs`).

  Every slice and index expression of the source is an `index`, `slice` or
  `readBe` here, so an out-of-range access shows up as `abort`.  A loop over a
  section is a `scan`; its turn sees the section from the cursor on.
-/
import LibRouting.Foundation.Outcome
import LibRouting.Bgp.Message

set_option autoImplicit false

namespace LibRouting.Bgp

open Foundation Core Outcome BgpHeaderErrorSubcode

/-! ## NLRI sections -/

/-- The RFC 7911 path identifier in front of an entry: its value and how many
octets it took. -/
def readPathId {ε : Type} (addPath : Bool) (truncated : ε) (rest : Bytes) :
    Outcome ε (UInt32 × Nat) :=
  if addPath then
    if rest.length < 4 then err truncated
    else do
      let id ← readBe32 rest 0
      pure (id, 4)
  else ok (0, 0)

/-- One turn of `decode_nlri_set`. -/
def decodeNlriTurn (addPath : Bool) (out : List Nlri) (i : Nat) (rest : Bytes) :
    Outcome String (List Nlri × Nat) := do
  let (pathId, k) ← readPathId addPath s!"truncated NLRI at offset {i}" rest
  let pl ← index rest k
  let k := k + 1
  let at_ := i + k
  let len := pl.toNat
  if 32 < pl then
    err s!"invalid IPv4 prefix length {len} at offset {at_}"
  else if rest.length < k + Prefix.octetCount pl then
    err s!"truncated NLRI at offset {at_}"
  else do
    let a ← slice rest k (k + Prefix.octetCount pl)
    pure (out ++ [⟨pathId, .newV4 (.padded 4 a) pl⟩], k + Prefix.octetCount pl)

/-- `decode_nlri_set`: the plain IPv4 sections of an UPDATE. -/
def decodeNlriSet (bytes : Bytes) (addPath : Bool) : Outcome String (List Nlri) :=
  scan (decodeNlriTurn addPath) [] 0 bytes

/-! ## Path attributes -/

/-- An UPDATE Message Error. -/
def updateError {α : Type} (subcode : UInt8) (data : Bytes) : Outcome BgpError α :=
  err (.notification ⟨BgpErrorCode.update, subcode, data⟩)

/-- One turn of `decode_path_attributes`. -/
def decodeAttrTurn (out : PathAttributes) (_ : Nat) (rest : Bytes) :
    Outcome BgpError (PathAttributes × Nat) :=
  if rest.length < 3 then updateError BgpUpdateErrorSubcode.attributeLengthError []
  else do
    let flags ← PathAttrFlags.mk <$> index rest 0
    let tyByte ← index rest 1
    let lenSize := if flags.extendedLength then 2 else 1
    let attrLen ←
      if flags.extendedLength then
        if rest.length < 4 then updateError BgpUpdateErrorSubcode.attributeLengthError []
        else UInt16.toNat <$> readBe16 rest 2
      else UInt8.toNat <$> index rest 2
    if rest.length < 2 + lenSize + attrLen then
      updateError BgpUpdateErrorSubcode.attributeLengthError []
    else do
      let value ← slice rest (2 + lenSize) (2 + lenSize + attrLen)
      -- RFC 4271 §6.3: a repeated attribute is a malformed list
      if (out.get (AttrType.fromU8 tyByte)).isSome then
        updateError BgpUpdateErrorSubcode.malformedAttributeList [tyByte]
      else pure (out.insert ⟨flags, AttrType.fromU8 tyByte, value⟩, 2 + lenSize + attrLen)

/-- `decode_path_attributes`. -/
def decodePathAttributes (bytes : Bytes) : Outcome BgpError PathAttributes :=
  scan decodeAttrTurn .new 0 bytes

/-! ## Message bodies -/

/-- `decode_update`. -/
def decodeUpdate (body : Bytes) (addPath : Bool) : Outcome BgpError Update :=
  if body.length < 4 then updateError BgpUpdateErrorSubcode.malformedAttributeList []
  else do
    let withdrawnLen ← UInt16.toNat <$> readBe16 body 0
    if body.length < 2 + withdrawnLen then
      updateError BgpUpdateErrorSubcode.malformedAttributeList []
    else do
      let withdrawnBytes ← slice body 2 (2 + withdrawnLen)
      let withdrawn ← (decodeNlriSet withdrawnBytes addPath).mapErr .codec
      if body.length < 2 + withdrawnLen + 2 then
        updateError BgpUpdateErrorSubcode.malformedAttributeList []
      else do
        let attrLen ← UInt16.toNat <$> readBe16 body (2 + withdrawnLen)
        if body.length < 2 + withdrawnLen + 2 + attrLen then
          updateError BgpUpdateErrorSubcode.attributeLengthError []
        else do
          let attrBytes ←
            slice body (2 + withdrawnLen + 2) (2 + withdrawnLen + 2 + attrLen)
          let attributes ← decodePathAttributes attrBytes
          let nlriBytes ← slice body (2 + withdrawnLen + 2 + attrLen) body.length
          let nlri ← (decodeNlriSet nlriBytes addPath).mapErr .codec
          pure ⟨withdrawn, attributes, nlri⟩

/-- A Bad OPEN Length error. -/
def badOpenLength {α : Type} : Outcome BgpError α :=
  err (.notification ⟨BgpErrorCode.open, BgpOpenErrorSubcode.badOpenLength, []⟩)

/-- The parameter loop of `decode_open` over the declared parameter region.  It
stops when fewer than two octets are left. -/
def decodeParams (region : Bytes) : Outcome BgpError (List OpenParam) :=
  match region with
  | pt :: pl :: rest =>
    if rest.length < pl.toNat then badOpenLength
    else (⟨pt, rest.take pl.toNat⟩ :: ·) <$> decodeParams (rest.drop pl.toNat)
  | _ => ok []
termination_by region.length
decreasing_by
  simp only [List.length_cons, List.length_drop]
  omega

/-- `decode_open`. -/
def decodeOpen (body : Bytes) : Outcome BgpError Open :=
  if body.length < 10 then badOpenLength
  else do
    let version ← index body 0
    let myAs ← readBe16 body 1
    let holdTime ← readBe16 body 3
    let bgpId ← readBe32 body 5
    let paramsLen ← UInt8.toNat <$> index body 9
    if body.length < 10 + paramsLen then badOpenLength
    else do
      let region ← slice body 10 (10 + paramsLen)
      let params ← decodeParams region
      pure ⟨version, myAs.toUInt32, holdTime, bgpId, params⟩

/-- A Message Header Error. -/
def headerError {α : Type} (subcode : UInt8) (data : Bytes) : Outcome BgpError α :=
  err (.notification ⟨BgpErrorCode.header, subcode, data⟩)

/-- `decode_notification`: a body without code and subcode reads as a Bad Message
Length header error. -/
def decodeNotification : Bytes → BgpNotification
  | code :: sub :: data => ⟨code, sub, data⟩
  | _ => ⟨BgpErrorCode.header, badMessageLength, []⟩

/-- `decode_route_refresh`. -/
def decodeRouteRefresh : Bytes → Outcome BgpError RouteRefresh
  | [a, b, sub, safi] => ok ⟨⟨fromBe16 a b, safi⟩, RouteRefreshSubtype.fromU8 sub⟩
  | _ => headerError badMessageLength []

/-- `decode_body`. -/
def decodeBody (kind : UInt8) (body : Bytes) (addPath : Bool) : Outcome BgpError BgpMessage :=
  if kind = 1 then .open <$> decodeOpen body
  else if kind = 2 then .update <$> decodeUpdate body addPath
  else if kind = 3 then ok (.notification (decodeNotification body))
  else if kind = 4 then
    if body = [] then ok .keepalive
    else headerError badMessageLength []
  else if kind = 5 then .routeRefresh <$> decodeRouteRefresh body
  else headerError badMessageType [kind]

/-- `try_decode_frame`: the first frame of the buffer and how many octets it
took, or `none` when the frame is not complete yet. -/
def tryDecodeFrame (buf : Bytes) (addPath : Bool) : Outcome BgpError (Option (Nat × BgpMessage)) :=
  if buf.length < headerLen then ok none
  else do
    let head ← slice buf 0 16
    if head ≠ marker then
      headerError connectionNotSynchronized (head.take 4)
    else do
      let len ← readBe16 buf 16
      if len.toNat < 19 ∨ 4096 < len.toNat then
        headerError badMessageLength (toBe16 len)
      else if buf.length < len.toNat then ok none
      else do
        let kind ← index buf 18
        let body ← slice buf headerLen (headerLen + (len.toNat - headerLen))
        let msg ← decodeBody kind body addPath
        pure (some (len.toNat, msg))

/-! ## The stream decoder -/

/-- The BGP codec: the carry-over of the stream decoder and the negotiated
framing. -/
structure BgpCodec where
  carryover : Bytes := []
  asn4 : Bool := false
  addPathTx : List NlriFamily := []
  addPathRx : List NlriFamily := []
  deriving DecidableEq, Repr

namespace BgpCodec

/-- `tx_add_path`. -/
def txAddPath (c : BgpCodec) (family : NlriFamily) : Bool := c.addPathTx.contains family

/-- `rx_add_path`. -/
def rxAddPath (c : BgpCodec) (family : NlriFamily) : Bool := c.addPathRx.contains family

/-- `decode_bgp`: append the chunk to the carry-over and pull one frame.  On an
error the carry-over keeps what was appended. -/
def decodeBgp (c : BgpCodec) (chunk : Bytes) :
    Outcome Empty (BgpCodec × Except BgpError (Option BgpMessage)) := do
  let buf := c.carryover ++ chunk
  match ← (tryDecodeFrame buf (c.rxAddPath .ipv4Unicast)).attempt with
  | .error e => pure ({ c with carryover := buf }, .error e)
  | .ok none => pure ({ c with carryover := buf }, .ok none)
  | .ok (some (n, msg)) => pure ({ c with carryover := buf.drop n }, .ok (some msg))

end BgpCodec

end LibRouting.Bgp
