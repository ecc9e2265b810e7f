/-
  Bgp/Codec/Encode.lean --- the message encoder (`codec.rs`).

  The encoders write field by field and backpatch their lengths, truncating each
  length to the width of its field.  Next to every encoder stands the byte string
  it writes (`nlriWire`, `attrWire`, `openWire`, `updateWire`), with the lemma
  that the encoder is a `put` of it.
-/
import LibRouting.Foundation.WriteBuf
import LibRouting.Bgp.Codec.Decode

set_option autoImplicit false

namespace LibRouting.Bgp

open Foundation Core Outcome WriteBuf List

variable {msg : BgpMessage} {n : Nlri} {out : WriteBuf} {c : BgpCodec} (addPath : Bool)

/-- `EncodeError`. -/
inductive EncodeError where
  | bufferFull
  | invalidValue (text : String)
  deriving DecidableEq, Repr

/-- `put_bytes(..).ok_or(EncodeError::BufferFull)`. -/
def putBytes : Bytes → WriteBuf → Outcome EncodeError WriteBuf := put .bufferFull

/-! ## NLRI -/

/-- `encode_nlri`. -/
def encodeNlri (addPath : Bool) (entry : Nlri) (w : WriteBuf) : Outcome EncodeError WriteBuf :=
  if entry.pfx.isIpv4 then do
    let w ← putBytes (if addPath then toBe32 entry.pathId else []) w
    let w ← putBytes [entry.pfx.prefixLen] w
    let octets ← slice entry.pfx.addr.octets 0 (Prefix.octetCount entry.pfx.prefixLen)
    putBytes octets w
  else err (.invalidValue "NLRI in legacy section must be IPv4")

/-- The bytes of one entry of a plain section. -/
def nlriWire (addPath : Bool) (n : Nlri) : Bytes :=
  (if addPath then toBe32 n.pathId else []) ++
    ([n.pfx.prefixLen] ++ n.pfx.addr.octets.take (Prefix.octetCount n.pfx.prefixLen))

theorem octets_length_of_isIpv4 {p : Prefix} (h : p.isIpv4 = true) : p.addr.octets.length = 4 := by
  obtain ⟨addr, pl⟩ := p
  cases addr with
  | v4 a => exact a.length_eq
  | v6 a => cases h

theorem writes_encodeNlri (h4 : n.pfx.isIpv4 = true) (hpl : Prefix.octetCount n.pfx.prefixLen ≤ 4) :
    Writes .bufferFull (encodeNlri addPath n) (nlriWire addPath n) := by
  have hslice : (slice n.pfx.addr.octets 0 (Prefix.octetCount n.pfx.prefixLen) :
      Outcome EncodeError Bytes) =
      ok (n.pfx.addr.octets.take (Prefix.octetCount n.pfx.prefixLen)) := by
    rw [slice_of_le (Nat.zero_le _) (by rwa [octets_length_of_isIpv4 h4])]
    rfl
  intro w
  simp only [encodeNlri, h4, if_true, hslice, ok_bind]
  exact ((writes_put _ _).put_bind _).put_bind _ w

theorem encodeNlri_ok {addPath : Bool} {w w' : WriteBuf} (h : encodeNlri addPath n w = ok w') :
    n.pfx.isIpv4 = true ∧ Prefix.octetCount n.pfx.prefixLen ≤ 4 := by
  unfold encodeNlri at h
  split at h
  · rename_i h4
    refine ⟨h4, ?_⟩
    obtain ⟨w₁, -, h⟩ := bind_eq_ok.mp h
    obtain ⟨w₂, -, h⟩ := bind_eq_ok.mp h
    obtain ⟨octets, hslice, -⟩ := bind_eq_ok.mp h
    have hlen := octets_length_of_isIpv4 h4
    by_contra hle
    simp [slice, hlen, hle] at hslice
  · cases h

/-! ## Path attributes -/

/-- The flags octet an attribute is sent with: a long value forces the extended
length. -/
def wireFlags (a : PathAttribute) : PathAttrFlags :=
  if 255 < a.value.length then a.flags.setExtended true else a.flags

/-- The length field those flags call for, truncated to its width. -/
def lengthField (flags : PathAttrFlags) (n : Nat) : Bytes :=
  if flags.extendedLength then toBe16 (UInt16.ofNat n) else [UInt8.ofNat n]

/-- `encode_path_attribute`. -/
def encodePathAttribute (a : PathAttribute) (w : WriteBuf) : Outcome EncodeError WriteBuf := do
  let w ← putBytes [(wireFlags a).bits] w
  let w ← putBytes [a.attrType.toU8] w
  let w ← putBytes (lengthField (wireFlags a) a.value.length) w
  putBytes a.value w

/-- The bytes of one attribute. -/
def attrWire (a : PathAttribute) : Bytes :=
  [(wireFlags a).bits] ++
    ([a.attrType.toU8] ++ (lengthField (wireFlags a) a.value.length ++ a.value))

theorem writes_encodePathAttribute (a : PathAttribute) :
    Writes .bufferFull (encodePathAttribute a) (attrWire a) :=
  (((writes_put _ _).put_bind _).put_bind _).put_bind _

/-! ## Message bodies -/

/-- `my_as.as_u16().unwrap_or(23456)`. -/
def wireAs (a : Asn) : UInt16 := (asU16 a).getD 23456

/-- One optional parameter of an OPEN. -/
def encodeParam (p : OpenParam) (w : WriteBuf) : Outcome EncodeError WriteBuf := do
  let w ← putBytes [p.paramType] w
  let w ← putBytes [UInt8.ofNat p.value.length] w
  putBytes p.value w

/-- `encode_open`. -/
def encodeOpen (o : Open) (w : WriteBuf) : Outcome EncodeError WriteBuf := do
  let w ← putBytes [o.version] w
  let w ← putBytes (toBe16 (wireAs o.myAs)) w
  let w ← putBytes (toBe16 o.holdTime) w
  let w ← putBytes (toBe32 o.bgpId) w
  withLength .bufferFull 1 (fun n => [UInt8.ofNat n]) (putAll encodeParam o.params) w

/-- The bytes of one optional parameter. -/
def paramWire (p : OpenParam) : Bytes :=
  [p.paramType] ++ ([UInt8.ofNat p.value.length] ++ p.value)

/-- The bytes of an OPEN body. -/
def openWire (o : Open) : Bytes :=
  [o.version] ++ (toBe16 (wireAs o.myAs) ++ (toBe16 o.holdTime ++ (toBe32 o.bgpId ++
    ([UInt8.ofNat (o.params.flatMap paramWire).length] ++ o.params.flatMap paramWire))))

theorem writes_encodeOpen (o : Open) : Writes .bufferFull (encodeOpen o) (openWire o) := by
  have hparam : ∀ p ∈ o.params, Writes .bufferFull (encodeParam p) (paramWire p) :=
    fun p _ => ((writes_put _ _).put_bind _).put_bind _
  have hblock : Writes .bufferFull
      (withLength .bufferFull 1 (fun n => [UInt8.ofNat n]) (putAll encodeParam o.params))
      ([UInt8.ofNat (o.params.flatMap paramWire).length] ++ o.params.flatMap paramWire) :=
    writes_withLength (writes_putAll o.params hparam) rfl
  exact (((hblock.put_bind _).put_bind _).put_bind _).put_bind _

/-- A two-octet length field. -/
def length16 (n : Nat) : Bytes := toBe16 (UInt16.ofNat n)

/-- The attributes an UPDATE is sent with: the private tags stay behind. -/
def sentAttributes (attributes : PathAttributes) : PathAttributes :=
  attributes.retain fun a => !a.attrType.isPrivate

/-- `encode_update`. -/
def encodeUpdate (u : Update) (addPath : Bool) (w : WriteBuf) : Outcome EncodeError WriteBuf := do
  let w ← withLength .bufferFull 2 length16 (putAll (encodeNlri addPath) u.withdrawn) w
  let w ← withLength .bufferFull 2 length16
    (putAll encodePathAttribute (sentAttributes u.attributes).attrs) w
  putAll (encodeNlri addPath) u.nlri w

/-- The bytes of an UPDATE body. -/
def updateWire (addPath : Bool) (u : Update) : Bytes :=
  let withdrawn := u.withdrawn.flatMap (nlriWire addPath)
  let attributes := (sentAttributes u.attributes).attrs.flatMap attrWire
  (length16 withdrawn.length ++ withdrawn) ++
    ((length16 attributes.length ++ attributes) ++ u.nlri.flatMap (nlriWire addPath))

/-- Every plain entry of the UPDATE is an IPv4 prefix with its length in range. -/
def Update.PlainIpv4 (u : Update) : Prop :=
  ∀ n ∈ u.withdrawn ++ u.nlri, n.pfx.isIpv4 = true ∧ Prefix.octetCount n.pfx.prefixLen ≤ 4

theorem writes_encodeUpdate {u : Update} (h : u.PlainIpv4) :
    Writes .bufferFull (encodeUpdate u addPath) (updateWire addPath u) := by
  have hwd : ∀ n ∈ u.withdrawn, Writes .bufferFull (encodeNlri addPath n) (nlriWire addPath n) :=
    fun n hn => writes_encodeNlri addPath (h n (by simp [hn])).1 (h n (by simp [hn])).2
  have hnlri : ∀ n ∈ u.nlri, Writes .bufferFull (encodeNlri addPath n) (nlriWire addPath n) :=
    fun n hn => writes_encodeNlri addPath (h n (by simp [hn])).1 (h n (by simp [hn])).2
  have hfield : ∀ n, (length16 n).length = 2 := fun n => toBe16_length _
  exact (writes_withLength (writes_putAll _ hwd) (hfield _)).bind
    ((writes_withLength (writes_putAll _ fun a _ => writes_encodePathAttribute a)
      (hfield _)).bind (writes_putAll _ hnlri))

/-- `encode_notification`. -/
def encodeNotification (n : BgpNotification) (w : WriteBuf) : Outcome EncodeError WriteBuf := do
  let w ← putBytes [n.errorCode] w
  let w ← putBytes [n.errorSubcode] w
  putBytes n.data w

/-- `encode_route_refresh`. -/
def encodeRouteRefresh (r : RouteRefresh) (w : WriteBuf) : Outcome EncodeError WriteBuf := do
  let w ← putBytes (toBe16 r.family.afi) w
  let w ← putBytes [r.subtype.toU8] w
  putBytes [r.family.safi] w

/-- The body of a message. -/
def encodeBody (addPath : Bool) : BgpMessage → WriteBuf → Outcome EncodeError WriteBuf
  | .open o => encodeOpen o
  | .update u => encodeUpdate u addPath
  | .notification n => encodeNotification n
  | .keepalive => ok
  | .routeRefresh r => encodeRouteRefresh r

/-- The bytes of a message body. -/
def bodyWire (addPath : Bool) : BgpMessage → Bytes
  | .open o => openWire o
  | .update u => updateWire addPath u
  | .notification n => [n.errorCode] ++ ([n.errorSubcode] ++ n.data)
  | .keepalive => []
  | .routeRefresh r => toBe16 r.family.afi ++ ([r.subtype.toU8] ++ [r.family.safi])

/-- The plain sections of the message, if it has any, can be encoded. -/
def BgpMessage.PlainIpv4 : BgpMessage → Prop
  | .update u => u.PlainIpv4
  | _ => True

theorem writes_encodeBody {m : BgpMessage} (h : m.PlainIpv4) :
    Writes .bufferFull (encodeBody addPath m) (bodyWire addPath m) := by
  cases m with
  | «open» o => exact writes_encodeOpen o
  | update u => exact writes_encodeUpdate addPath h
  | notification n => exact ((writes_put _ _).put_bind _).put_bind _
  | keepalive => exact fun w => (put_nil _ w).symm
  | routeRefresh r => exact ((writes_put _ _).put_bind _).put_bind _

/-! ## Frames -/

/-- `BgpCodec::encode`: the number of octets written and the buffer after. -/
def BgpCodec.encode (c : BgpCodec) (msg : BgpMessage) (out : WriteBuf) :
    Outcome EncodeError (Nat × WriteBuf) :=
  if out.remaining < headerLen + 8 then err .bufferFull
  else do
    let start := out.written.length
    let w ← putBytes marker out
    let w ← backpatched .bufferFull 2
      (fun w => do
        let w ← putBytes [msg.kind] w
        encodeBody (c.txAddPath .ipv4Unicast) msg w)
      (fun _ w => length16 (w.written.length - start)) w
    pure (w.written.length - start, w)

/-- `BgpCodec::encode_vec`. -/
def BgpCodec.encodeVec (c : BgpCodec) (msg : BgpMessage) : Outcome EncodeError Bytes := do
  let (n, w) ← c.encode msg (.new 4096)
  pure (w.written.take n)

/-- The length of the frame of a message. -/
def frameLength (addPath : Bool) (msg : BgpMessage) : Nat :=
  headerLen + (bodyWire addPath msg).length

/-- The bytes of a frame. -/
def frameWire (addPath : Bool) (msg : BgpMessage) : Bytes :=
  marker ++ (length16 (frameLength addPath msg) ++ ([msg.kind] ++ bodyWire addPath msg))

theorem frameWire_length (msg : BgpMessage) :
    (frameWire addPath msg).length = frameLength addPath msg := by
  simp only [frameWire, frameLength, length_append, length16, toBe16_length, marker,
    length_replicate, length_cons, length_nil, headerLen]
  omega

/-- The encoder is a `put` of the frame. -/
theorem encode_eq (c : BgpCodec) (h : msg.PlainIpv4) (out : WriteBuf) :
    c.encode msg out =
      if out.remaining < headerLen + 8 then err .bufferFull
      else (fun w => (frameLength (c.txAddPath .ipv4Unicast) msg, w)) <$>
        put .bufferFull (frameWire (c.txAddPath .ipv4Unicast) msg) out := by
  set addPath := c.txAddPath .ipv4Unicast with haddPath
  have hbody := (writes_encodeBody addPath h).put_bind [msg.kind]
  unfold BgpCodec.encode
  split
  · rfl
  rename_i hroom
  have hmarker : out.written.length + marker.length ≤ out.capacity := by
    simp only [WriteBuf.remaining, headerLen] at hroom
    simp only [marker, length_replicate]
    omega
  have hfield : (length16 (frameLength addPath msg)).length = 2 := toBe16_length _
  have hpatch := backpatched_eq EncodeError.bufferFull hbody hfield
    (fun _ w => length16 (w.written.length - out.written.length))
    ⟨out.capacity, out.written ++ marker, by simpa using hmarker⟩
    (by
      intro start w' _ hw'
      rw [hw']
      simp only [frameLength, length_append, marker, length_replicate,
        length_cons, length_nil, headerLen]
      congr 1
      omega)
  have hput : put EncodeError.bufferFull (frameWire addPath msg) out =
      put .bufferFull (length16 (frameLength addPath msg) ++
        ([msg.kind] ++ bodyWire addPath msg))
        ⟨out.capacity, out.written ++ marker, by simpa using hmarker⟩ := by
    rw [frameWire, ← put_bind_put, put_of_fits hmarker, ok_bind]
  rw [← hput] at hpatch
  simp only [putBytes, put_of_fits hmarker, ok_bind, ← haddPath]
  rw [hpatch]
  cases hres : put EncodeError.bufferFull (frameWire addPath msg) out with
  | err e => rfl
  | abort => rfl
  | ok w =>
    obtain ⟨-, -, hw⟩ := put_eq_ok_iff.mp hres
    simp only [ok_bind, pure_eq_ok, map_ok, hw, length_append, frameWire_length,
      Nat.add_sub_cancel_left]

theorem encode_of_fits (c : BgpCodec) (h : msg.PlainIpv4) (hmin : headerLen + 8 ≤ out.remaining)
    (hfit : frameLength (c.txAddPath .ipv4Unicast) msg ≤ out.remaining) :
    ∃ out', c.encode msg out = ok (frameLength (c.txAddPath .ipv4Unicast) msg, out') ∧
      out'.written = out.written ++ frameWire (c.txAddPath .ipv4Unicast) msg := by
  have hroom : out.written.length + (frameWire (c.txAddPath .ipv4Unicast) msg).length ≤
      out.capacity := by
    simp only [WriteBuf.remaining, headerLen] at hmin hfit
    rw [frameWire_length]
    omega
  exact ⟨_, by rw [encode_eq c h, if_neg (by omega), put_of_fits hroom, map_ok], rfl⟩

theorem plainIpv4_of_encode_ok {r : Nat × WriteBuf} (h : c.encode msg out = ok r) :
    msg.PlainIpv4 := by
  unfold BgpCodec.encode at h
  split at h
  · cases h
  obtain ⟨w, -, h⟩ := bind_eq_ok.mp h
  obtain ⟨w', hbody, -⟩ := bind_eq_ok.mp h
  obtain ⟨v, v', hbody⟩ := backpatched_ok hbody
  obtain ⟨v₁, -, hbody⟩ := bind_eq_ok.mp hbody
  cases msg with
  | update u =>
    obtain ⟨v₂, hwd, hbody⟩ := bind_eq_ok.mp hbody
    obtain ⟨v₃, -, hnlri⟩ := bind_eq_ok.mp hbody
    obtain ⟨_, _, hwd⟩ := backpatched_ok hwd
    intro n hn
    have hn' : ∃ w w', encodeNlri (c.txAddPath .ipv4Unicast) n w = ok w' := by
      rcases mem_append.mp hn with hn | hn
      · exact putAll_ok hwd n hn
      · exact putAll_ok hnlri n hn
    obtain ⟨_, _, hn'⟩ := hn'
    exact encodeNlri_ok hn'
  | «open» _ | notification _ | keepalive | routeRefresh _ => trivial

theorem encodeVec_eq (c : BgpCodec) (h : msg.PlainIpv4) :
    c.encodeVec msg =
      if frameLength (c.txAddPath .ipv4Unicast) msg ≤ 4096 then
        ok (frameWire (c.txAddPath .ipv4Unicast) msg)
      else err .bufferFull := by
  have hrem : (WriteBuf.new 4096).remaining = 4096 := rfl
  split
  · rename_i hfit
    have hmin : headerLen + 8 ≤ (WriteBuf.new 4096).remaining := by
      rw [hrem, headerLen]; omega
    obtain ⟨out', hok, hout⟩ := encode_of_fits c h hmin (by rwa [hrem])
    have htake : out'.written.take (frameLength (c.txAddPath .ipv4Unicast) msg) =
        frameWire (c.txAddPath .ipv4Unicast) msg := by
      rw [hout, ← frameWire_length]
      exact take_length
    simp only [BgpCodec.encodeVec, hok, ok_bind, htake, pure_eq_ok]
  · rename_i hfit
    rw [BgpCodec.encodeVec, encode_eq c h, if_neg (by rw [hrem, headerLen]; omega),
      put_of_not_fits]
    · rfl
    · rw [frameWire_length]
      exact fun hle => hfit (by simpa [WriteBuf.new] using hle)

theorem encodeVec_ok_iff {bytes : Bytes} :
    c.encodeVec msg = ok bytes ↔ msg.PlainIpv4 ∧
      frameLength (c.txAddPath .ipv4Unicast) msg ≤ 4096 ∧
      bytes = frameWire (c.txAddPath .ipv4Unicast) msg := by
  constructor
  · intro h
    have hplain : msg.PlainIpv4 := by
      obtain ⟨r, hr, -⟩ := bind_eq_ok.mp h
      exact plainIpv4_of_encode_ok hr
    rw [encodeVec_eq c hplain] at h
    split at h
    · rename_i hfit
      exact ⟨hplain, hfit, (Outcome.ok.inj h).symm⟩
    · cases h
  · rintro ⟨hplain, hfit, rfl⟩
    rw [encodeVec_eq c hplain, if_pos hfit]

end LibRouting.Bgp
