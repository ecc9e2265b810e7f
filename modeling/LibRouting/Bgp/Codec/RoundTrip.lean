/-
  Bgp/Codec/RoundTrip.lean --- what a receiver reads from an encoded message.

  The wire form of a message does not carry everything the message holds: an AS
  number above 65535 does not fit the OPEN, the private attribute tags are not
  sent, and a path identifier needs the Add-Path framing.  `received` is the
  message as the other side sees it; a frame decodes to it whenever the OPEN
  parameter block fits its length octet.
-/
import LibRouting.Bgp.Codec.Encode
import LibRouting.Bgp.Codec.Safety

set_option autoImplicit false

namespace LibRouting.Bgp

open Foundation Core Outcome WriteBuf List

variable {n : Nat} {addPath : Bool} {a : PathAttribute} {msg : BgpMessage} {u : Update}

/-! ## Messages with a wire form -/

/-- The prefix length is in range for the family and no octet behind the ones it
covers is set. -/
def CanonicalPrefix (p : Prefix) : Prop :=
  Prefix.octetCount p.prefixLen ≤ p.addr.octets.length ∧
    p.addr.octets.drop (Prefix.octetCount p.prefixLen) =
      replicate (p.addr.octets.length - Prefix.octetCount p.prefixLen) 0
  deriving Decidable

/-- Prefixes and attribute types are in the form the decoders produce. -/
def BgpMessage.Canonical : BgpMessage → Prop
  | .update u => (∀ n ∈ u.withdrawn ++ u.nlri, CanonicalPrefix n.pfx) ∧
      ∀ a ∈ u.attributes.attrs, a.attrType.Canonical
  | _ => True

instance : (m : BgpMessage) → Decidable m.Canonical
  | .update _ => inferInstanceAs (Decidable (_ ∧ _))
  | .open _ | .notification _ | .keepalive | .routeRefresh _ => inferInstanceAs (Decidable True)

/-- The optional parameters of an OPEN fit their length octet. -/
def BgpMessage.ParamsFit : BgpMessage → Prop
  | .open o => (o.params.flatMap paramWire).length ≤ 255
  | _ => True

instance : (m : BgpMessage) → Decidable m.ParamsFit
  | .open _ => inferInstanceAs (Decidable (_ ≤ _))
  | .update _ | .notification _ | .keepalive | .routeRefresh _ => inferInstanceAs (Decidable True)

/-- An NLRI entry as received: without Add-Path the path identifier is lost. -/
def receivedNlri (addPath : Bool) (n : Nlri) : Nlri :=
  { n with pathId := if addPath then n.pathId else 0 }

/-- An attribute as received. -/
def receivedAttr (a : PathAttribute) : PathAttribute := { a with flags := wireFlags a }

@[simp] theorem receivedAttr_attrType (a : PathAttribute) :
    (receivedAttr a).attrType = a.attrType := rfl

/-- An attribute list as received: the private tags are not sent. -/
def receivedAttributes (p : PathAttributes) : PathAttributes where
  attrs := (sentAttributes p).attrs.map receivedAttr
  nodup := by
    rw [map_map]
    exact (sentAttributes p).nodup

theorem receivedAttributes_get (p : PathAttributes) (t : AttrType) :
    (receivedAttributes p).get t = if t.isPrivate then none else (p.get t).map receivedAttr := by
  have hget : (receivedAttributes p).get t = ((sentAttributes p).get t).map receivedAttr := by
    rw [PathAttributes.get, receivedAttributes, find?_map]
    rfl
  rw [hget, sentAttributes, PathAttributes.get_retain_type p fun t => !t.isPrivate]
  cases t.isPrivate <;> simp

/-- A message as the other side sees it. -/
def BgpMessage.received (addPath : Bool) : BgpMessage → BgpMessage
  | .open o => .open { o with myAs := (wireAs o.myAs).toUInt32 }
  | .update u => .update ⟨u.withdrawn.map (receivedNlri addPath), receivedAttributes u.attributes,
      u.nlri.map (receivedNlri addPath)⟩
  | m => m

/-! ## Sections -/

theorem toNat_ofNat_of_le16 (h : n ≤ 65535) : (UInt16.ofNat n).toNat = n := by
  rw [UInt16.toNat_ofNat']; omega

theorem toNat_ofNat_of_le8 (h : n ≤ 255) : (UInt8.ofNat n).toNat = n := by
  rw [UInt8.toNat_ofNat']; omega

theorem nlriEntry_nlriWire (addPath : Bool) {n : Nlri} (h4 : n.pfx.isIpv4 = true)
    (hc : CanonicalPrefix n.pfx) :
    NlriEntry ipv4Form addPath (nlriWire addPath n) (receivedNlri addPath n) := by
  obtain ⟨id, ⟨addr, pl⟩⟩ := n
  cases addr with
  | v6 a => cases h4
  | v4 a =>
    obtain ⟨hpl, hzero⟩ := hc
    simp only [IpAddr.octets, a.length_eq] at hpl hzero
    have hpad : Octets.padded 4 (a.bytes.take (Prefix.octetCount pl)) = a :=
      a.padded_take hzero hpl
    have hbody : (a.bytes.take (Prefix.octetCount pl)).length = Prefix.octetCount pl := by
      simp [hpl]
    have hentry := NlriEntry.intro (.wire addPath id) (rfl : ipv4Form = _) hbody hpl
    rwa [hpad] at hentry

/-- A section of encoded entries reads as those entries, one turn each. -/
theorem nlriTurns_flatMap {form : AddressForm} {wire : Nlri → Bytes} (xs : List Nlri)
    (h : ∀ n ∈ xs, NlriEntry form addPath (wire n) (receivedNlri addPath n)) (out : List Nlri) :
    Turns (NlriPush form addPath) out (xs.flatMap wire) (out ++ xs.map (receivedNlri addPath)) := by
  induction xs generalizing out with
  | nil => simpa using Turns.nil out
  | cons n xs ih =>
    have hpush : NlriPush form addPath out (wire n) (out ++ [receivedNlri addPath n]) :=
      ⟨_, h n (by simp), rfl⟩
    have := Turns.cons hpush (ih (fun m hm => h m (by simp [hm])) _)
    simpa using this

section

variable (addPath : Bool)

theorem decodeNlriSet_flatMap (xs : List Nlri)
    (h : ∀ n ∈ xs, n.pfx.isIpv4 = true ∧ CanonicalPrefix n.pfx) :
    decodeNlriSet (xs.flatMap (nlriWire addPath)) addPath = ok (xs.map (receivedNlri addPath)) :=
  (decodeNlriSet_ok_iff _ _ _).mpr (nlriTurns_flatMap xs
    (fun n hn => nlriEntry_nlriWire addPath (h n hn).1 (h n hn).2) [])

theorem attrEntry_attrWire (hc : a.attrType.Canonical) (hlen : a.value.length ≤ 65535) :
    AttrEntry (attrWire a) (receivedAttr a) := by
  have hheader : ∃ n, AttrHeader (wireFlags a).bits a.attrType.toU8 ((wireFlags a).bits ::
      a.attrType.toU8 :: lengthField (wireFlags a) a.value.length) n ∧ a.value.length = n := by
    cases hext : (wireFlags a).extendedLength with
    | true =>
      simp only [lengthField, hext, if_true]
      exact ⟨_, .extended hext, by rw [fromBe16_toBe16, toNat_ofNat_of_le16 hlen]⟩
    | false =>
      -- the short form is only chosen for a value that fits one octet
      have hshort : a.value.length ≤ 255 := by
        by_contra hlong
        have : wireFlags a = a.flags.setExtended true := if_pos (by omega)
        rw [this] at hext
        simp [PathAttrFlags.extendedLength, PathAttrFlags.setExtended,
          PathAttrFlags.has_set PathAttrFlags.extendedLengthBit (by decide)] at hext
      simp only [lengthField, hext, Bool.false_eq_true, if_false]
      exact ⟨_, .short hext, (toNat_ofNat_of_le8 hshort).symm⟩
  obtain ⟨n, hheader, hn⟩ := hheader
  have hentry := AttrEntry.intro hheader hn
  rwa [show AttrType.fromU8 a.attrType.toU8 = a.attrType from hc] at hentry

theorem attrBytes_flatMap (as : List PathAttribute)
    (h : ∀ a ∈ as, a.attrType.Canonical ∧ a.value.length ≤ 65535) :
    AttrBytes (as.flatMap attrWire) (as.map receivedAttr) := by
  induction as with
  | nil => exact .nil
  | cons a as ih =>
    have ha := h a (by simp)
    exact .cons (attrEntry_attrWire ha.1 ha.2) (ih fun b hb => h b (by simp [hb]))

theorem decodePathAttributes_flatMap (p : PathAttributes) (hc : ∀ a ∈ p.attrs, a.attrType.Canonical)
    (hlen : ((sentAttributes p).attrs.flatMap attrWire).length ≤ 65535) :
    decodePathAttributes ((sentAttributes p).attrs.flatMap attrWire) =
      ok (receivedAttributes p) := by
  have hfit : ∀ a ∈ (sentAttributes p).attrs, a.attrType.Canonical ∧ a.value.length ≤ 65535 := by
    intro a ha
    refine ⟨hc a (mem_filter.mp ha).1, ?_⟩
    have hwire : a.value.length ≤ (attrWire a).length := by
      simp only [attrWire, length_append]; omega
    have hle : (attrWire a).length ≤ ((sentAttributes p).attrs.flatMap attrWire).length := by
      obtain ⟨s, t, hst⟩ := append_of_mem ha
      simp only [hst, flatMap_append, flatMap_cons, length_append]
      omega
    omega
  exact (decodePathAttributes_attrBytes (attrBytes_flatMap _ hfit) _).mpr rfl

/-! ## Bodies -/

theorem decodeParams_flatMap (ps : List OpenParam)
    (h : (ps.flatMap paramWire).length ≤ 255) : decodeParams (ps.flatMap paramWire) = ok ps := by
  induction ps with
  | nil => simp [decodeParams]
  | cons p ps ih =>
    simp only [flatMap_cons, length_append] at h
    have hlen : p.value.length ≤ 255 := by
      simp only [paramWire, length_append] at h; omega
    have hcons : (p :: ps).flatMap paramWire =
        p.paramType :: UInt8.ofNat p.value.length :: (p.value ++ ps.flatMap paramWire) := by
      simp [paramWire]
    rw [hcons, decodeParams, toNat_ofNat_of_le8 hlen, if_neg (by simp), take_left,
      drop_left, ih (by omega)]
    rfl

theorem decodeOpen_openWire (o : Open) (h : (o.params.flatMap paramWire).length ≤ 255) :
    decodeOpen (openWire o) = ok { o with myAs := (wireAs o.myAs).toUInt32 } := by
  set region := o.params.flatMap paramWire with hregion
  have hlong : ¬ (openWire o).length < 10 := by
    simp only [openWire, length_append, toBe16_length, toBe32_length, length_cons]
    omega
  have hplen : ¬ (openWire o).length < 10 + region.length := by
    simp only [openWire, length_append, toBe16_length, toBe32_length, length_cons,
      length_nil, ← hregion]
    omega
  have hslice : (slice (openWire o) 10 (10 + region.length) : Outcome BgpError Bytes) =
      ok region := by
    have hsplit : openWire o = ([o.version] ++ toBe16 (wireAs o.myAs) ++ toBe16 o.holdTime ++
        toBe32 o.bgpId ++ [UInt8.ofNat region.length]) ++ region ++ [] := by
      simp [openWire, ← hregion]
    rw [hsplit]
    exact slice_append _ _ _ rfl rfl
  have hversion : (index (openWire o) 0 : Outcome BgpError UInt8) = ok o.version := rfl
  have has : (readBe16 (openWire o) 1 : Outcome BgpError UInt16) = ok (wireAs o.myAs) :=
    readBe16_toBe16 [o.version] _ _ rfl
  have hhold : (readBe16 (openWire o) 3 : Outcome BgpError UInt16) = ok o.holdTime :=
    readBe16_toBe16 ([o.version] ++ toBe16 (wireAs o.myAs)) _ _ rfl
  have hid : (readBe32 (openWire o) 5 : Outcome BgpError UInt32) = ok o.bgpId := by
    rw [← fromBe32_toBe32 o.bgpId]
    rfl
  have hlen : (index (openWire o) 9 : Outcome BgpError UInt8) =
      ok (UInt8.ofNat region.length) := rfl
  simp only [decodeOpen, hlong, if_false, hversion, has, hhold, hid, hlen, ok_bind, map_ok,
    toNat_ofNat_of_le8 h, hplen, hslice]
  rw [hregion, decodeParams_flatMap _ h]
  rfl

/-- An encoded UPDATE is read section by section; the attributes come back whatever
the sections hold. -/
theorem decodeUpdate_updateWire_eq (u : Update)
    (hattr : ∀ a ∈ u.attributes.attrs, a.attrType.Canonical)
    (hlen : (updateWire addPath u).length ≤ 65535) :
    decodeUpdate (updateWire addPath u) addPath =
      (decodeNlriSet (u.withdrawn.flatMap (nlriWire addPath)) addPath).mapErr .codec >>= fun wd =>
        (decodeNlriSet (u.nlri.flatMap (nlriWire addPath)) addPath).mapErr .codec >>= fun nlri =>
          ok ⟨wd, receivedAttributes u.attributes, nlri⟩ := by
  set wd := u.withdrawn.flatMap (nlriWire addPath) with hwd
  set attrs := (sentAttributes u.attributes).attrs.flatMap attrWire with hattrs
  set nlri := u.nlri.flatMap (nlriWire addPath) with hnlri
  have hwire : updateWire addPath u =
      (length16 wd.length ++ wd) ++ ((length16 attrs.length ++ attrs) ++ nlri) := rfl
  have hlength16 : ∀ n, (length16 n).length = 2 := fun n => toBe16_length _
  rw [hwire] at hlen ⊢
  simp only [length_append, hlength16] at hlen
  have hprefixed {b : Bytes} (hb : b.length ≤ 65535) (r : Bytes) :
      LengthPrefixed (length16 b.length ++ b ++ r) b r :=
    ⟨.ofNat b.length, rfl, (toNat_ofNat_of_le16 hb).symm⟩
  have hdecAttrs : decodePathAttributes attrs = ok (receivedAttributes u.attributes) :=
    decodePathAttributes_flatMap u.attributes hattr (show attrs.length ≤ 65535 by omega)
  rw [decodeUpdate_split addPath (hprefixed (by omega) _)
    (by simp only [length_append, hlength16]; omega)]
  simp only [decodeUpdateTail_split (hprefixed (show attrs.length ≤ 65535 by omega) nlri),
    hdecAttrs, ok_bind]

theorem decodeUpdate_updateWire (u : Update)
    (hpfx : ∀ n ∈ u.withdrawn ++ u.nlri, n.pfx.isIpv4 = true ∧ CanonicalPrefix n.pfx)
    (hattr : ∀ a ∈ u.attributes.attrs, a.attrType.Canonical)
    (hlen : (updateWire addPath u).length ≤ 65535) :
    decodeUpdate (updateWire addPath u) addPath =
      ok ⟨u.withdrawn.map (receivedNlri addPath), receivedAttributes u.attributes,
        u.nlri.map (receivedNlri addPath)⟩ := by
  rw [decodeUpdate_updateWire_eq addPath u hattr hlen,
    decodeNlriSet_flatMap addPath u.withdrawn fun n hn => hpfx n (by simp [hn]),
    decodeNlriSet_flatMap addPath u.nlri fun n hn => hpfx n (by simp [hn])]
  rfl

theorem decodeBody_bodyWire (hplain : msg.PlainIpv4) (hc : msg.Canonical) (hparams : msg.ParamsFit)
    (hlen : (bodyWire addPath msg).length ≤ 65535) :
    decodeBody msg.kind (bodyWire addPath msg) addPath = ok (msg.received addPath) := by
  cases msg with
  | «open» o =>
    simp only [decodeBody, BgpMessage.kind, bodyWire, if_true, decodeOpen_openWire o hparams,
      map_ok, BgpMessage.received]
  | update u =>
    have hpfx : ∀ n ∈ u.withdrawn ++ u.nlri, n.pfx.isIpv4 = true ∧ CanonicalPrefix n.pfx :=
      fun n hn => ⟨(hplain n hn).1, hc.1 n hn⟩
    have hdec := decodeUpdate_updateWire addPath u hpfx hc.2 hlen
    simp only [decodeBody, BgpMessage.kind, bodyWire, if_true, hdec, map_ok,
      BgpMessage.received]
    rfl
  | notification n | keepalive => rfl
  | routeRefresh r =>
    obtain ⟨⟨afi, safi⟩, subtype⟩ := r
    show BgpMessage.routeRefresh <$> decodeRouteRefresh
      (toBe16 afi ++ ([subtype.toU8] ++ [safi])) = _
    simp only [toBe16, cons_append, nil_append, decodeRouteRefresh, fromBe16_toBe16,
      RouteRefreshSubtype.fromU8_toU8, map_ok]
    rfl

/-! ## Frames -/

/-- A frame of legal size is read as its body, and all of it is consumed, whatever NLRI
framing the two sides use. -/
theorem tryDecodeFrame_frameWire_eq (tx addPath : Bool) (msg : BgpMessage)
    (hsize : frameLength tx msg ≤ 4096) :
    tryDecodeFrame (frameWire tx msg) addPath =
      (fun m => some (frameLength tx msg, m)) <$>
        decodeBody msg.kind (bodyWire tx msg) addPath := by
  set n := frameLength tx msg with hn
  have hnlen : n = 19 + (bodyWire tx msg).length := rfl
  have htotal : (frameWire tx msg).length = n := frameWire_length tx msg
  have hframe : frameWire tx msg = (marker ++ length16 n ++ [msg.kind]) ++
      bodyWire tx msg ++ [] := by
    simp [frameWire, ← hn]
  have hmarker : (slice (frameWire tx msg) 0 16 : Outcome BgpError Bytes) = ok marker := by
    exact slice_append [] marker (length16 n ++ ([msg.kind] ++ bodyWire tx msg)) rfl rfl
  have hread : (readBe16 (frameWire tx msg) 16 : Outcome BgpError UInt16) =
      ok (UInt16.ofNat n) := readBe16_toBe16 marker _ _ rfl
  have htoNat : (UInt16.ofNat n).toNat = n := toNat_ofNat_of_le16 (by omega)
  have hkind : (index (frameWire tx msg) 18 : Outcome BgpError UInt8) = ok msg.kind := rfl
  have hbody : (slice (frameWire tx msg) headerLen (headerLen + (n - headerLen)) :
      Outcome BgpError Bytes) = ok (bodyWire tx msg) := by
    rw [hframe]
    refine slice_append _ _ _ rfl ?_
    simp only [headerLen, hnlen, length_append, marker, length_replicate, length16,
      toBe16_length, length_cons, length_nil]
    omega
  have h₁ : ¬ n < headerLen := by
    rw [hnlen, headerLen]; omega
  have h₂ : ¬ (n < 19 ∨ 4096 < n) := by omega
  simp only [tryDecodeFrame, htotal, h₁, if_false, hmarker, ok_bind, ne_eq, not_true, hread,
    htoNat, h₂, lt_irrefl, hkind, hbody]
  rfl

/-- With canonical contents it decodes to the message as received. -/
theorem tryDecodeFrame_frameWire (hplain : msg.PlainIpv4) (hc : msg.Canonical)
    (hparams : msg.ParamsFit) (hsize : frameLength addPath msg ≤ 4096) :
    tryDecodeFrame (frameWire addPath msg) addPath =
      ok (some (frameLength addPath msg, msg.received addPath)) := by
  have hlen : (bodyWire addPath msg).length ≤ 65535 := by
    simp only [frameLength] at hsize; omega
  rw [tryDecodeFrame_frameWire_eq addPath addPath msg hsize,
    decodeBody_bodyWire addPath hplain hc hparams hlen, map_ok]

end

theorem received_attributes {u' : Update} (hattr : ∀ a ∈ u.attributes.attrs, a.attrType.Canonical)
    (hsize : frameLength addPath (.update u) ≤ 4096)
    (h : tryDecodeFrame (frameWire addPath (.update u)) addPath = ok (some (n, .update u'))) :
    u'.attributes = receivedAttributes u.attributes := by
  have hlen : (updateWire addPath u).length ≤ 65535 := by
    simp only [frameLength, bodyWire] at hsize; omega
  have hkind : ∀ b, decodeBody (BgpMessage.update u).kind b addPath =
      .update <$> decodeUpdate b addPath := fun _ => rfl
  rw [tryDecodeFrame_frameWire_eq addPath addPath _ hsize, hkind, bodyWire,
    decodeUpdate_updateWire_eq addPath u hattr hlen] at h
  obtain ⟨_, h, heq⟩ := map_eq_ok.mp h
  obtain ⟨v, hv, rfl⟩ := map_eq_ok.mp h
  obtain ⟨wd, -, hv⟩ := bind_eq_ok.mp hv
  obtain ⟨nlri, -, hv⟩ := bind_eq_ok.mp hv
  cases hv
  cases heq
  rfl

theorem putAll_encodeNlri_refuses (addPath : Bool) {xs : List Nlri}
    (hc : ∀ n ∈ xs, CanonicalPrefix n.pfx) (hbad : ∃ n ∈ xs, n.pfx.isIpv4 = false) :
    Refuses (putAll (encodeNlri addPath) xs) := by
  have hrefuse : ∀ n : Nlri, n.pfx.isIpv4 = false → Refuses (encodeNlri addPath n) :=
    fun n hn w => ⟨.invalidValue "NLRI in legacy section must be IPv4",
      by simp only [encodeNlri, hn, Bool.false_eq_true, if_false]⟩
  have hentry : ∀ n ∈ xs, Writes .bufferFull (encodeNlri addPath n) (nlriWire addPath n) ∨
      Refuses (encodeNlri addPath n) := by
    intro n hn
    cases h4 : n.pfx.isIpv4 with
    | true =>
      exact .inl (writes_encodeNlri addPath h4 (octets_length_of_isIpv4 h4 ▸ (hc n hn).1))
    | false => exact .inr (hrefuse n h4)
  obtain ⟨n, hn, h4⟩ := hbad
  exact putAll_refuses xs hentry ⟨n, hn, hrefuse n h4⟩

theorem encodeUpdate_refuses (addPath : Bool) (hc : (BgpMessage.update u).Canonical)
    (hbad : ∃ n ∈ u.withdrawn ++ u.nlri, n.pfx.isIpv4 = false) :
    Refuses (encodeUpdate u addPath) := by
  have hcw : ∀ n ∈ u.withdrawn, CanonicalPrefix n.pfx := fun n hn => hc.1 n (by simp [hn])
  have hcn : ∀ n ∈ u.nlri, CanonicalPrefix n.pfx := fun n hn => hc.1 n (by simp [hn])
  have hfield : ∀ n, (length16 n).length = 2 := fun n => toBe16_length _
  by_cases hw : ∃ n ∈ u.withdrawn, n.pfx.isIpv4 = false
  · exact (backpatched_refuses _ _ (putAll_encodeNlri_refuses addPath hcw hw) _).bind _
  have hw4 : ∀ n ∈ u.withdrawn,
      Writes .bufferFull (encodeNlri addPath n) (nlriWire addPath n) := by
    intro n hn
    have h4 : n.pfx.isIpv4 = true := by
      by_contra hne
      exact hw ⟨n, hn, by simpa using hne⟩
    exact writes_encodeNlri addPath h4 (octets_length_of_isIpv4 h4 ▸ (hcw n hn).1)
  have hn : ∃ n ∈ u.nlri, n.pfx.isIpv4 = false := by
    obtain ⟨n, hn, h4⟩ := hbad
    rcases mem_append.mp hn with hn | hn
    · exact absurd ⟨n, hn, h4⟩ hw
    · exact ⟨n, hn, h4⟩
  exact (writes_withLength (writes_putAll _ hw4) (hfield _)).bind_refuses
    ((writes_withLength (writes_putAll _ fun a _ => writes_encodePathAttribute a)
      (hfield _)).bind_refuses (putAll_encodeNlri_refuses addPath hcn hn))

/-- Encoding either writes the frame or, with an IPv6 entry in a plain section,
is refused whatever the buffer. -/
theorem plainIpv4_or_encode_err (c : BgpCodec) (hc : msg.Canonical) :
    msg.PlainIpv4 ∨ ∀ out, ∃ e, c.encode msg out = err e := by
  cases msg with
  | update u =>
    by_cases hbad : ∃ n ∈ u.withdrawn ++ u.nlri, n.pfx.isIpv4 = false
    · right
      intro out
      unfold BgpCodec.encode
      split
      · exact ⟨_, rfl⟩
      have hbody : Refuses fun w => putBytes [(BgpMessage.update u).kind] w >>=
          encodeBody (c.txAddPath .ipv4Unicast) (.update u) :=
        (writes_put _ _).bind_refuses (encodeUpdate_refuses _ hc hbad)
      obtain ⟨e, he⟩ := (writes_put EncodeError.bufferFull marker).bind_refuses
        (backpatched_refuses .bufferFull 2 hbody
          fun _ w => length16 (w.written.length - out.written.length)) out
      refine ⟨e, ?_⟩
      simp only [putBytes] at he ⊢
      cases hput : put EncodeError.bufferFull marker out with
      | abort => simp [hput] at he
      | err e' => simpa [hput] using he
      | ok w =>
        rw [hput, ok_bind] at he
        rw [ok_bind, he, err_bind]
    · left
      intro n hn
      have h4 : n.pfx.isIpv4 = true := by
        by_contra hne
        exact hbad ⟨n, hn, by simpa using hne⟩
      exact ⟨h4, octets_length_of_isIpv4 h4 ▸ (hc.1 n hn).1⟩
  | «open» _ | notification _ | keepalive | routeRefresh _ => exact .inl trivial

/-- What encoding and decoding a message gives, for a message of legal size or into a buffer
with room for at most one message of maximum size.  Encoding succeeds only if the frame
fits, and then a decoder with the same framing consumes all of it and yields the message as
received; a message over the maximum size is an error. -/
theorem encode_roundTrip (c d : BgpCodec) (msg : BgpMessage) (out : WriteBuf)
    (hc : msg.Canonical) (hcarry : d.carryover = [])
    (hroom : out.remaining ≤ 4096 ∨ frameLength (c.txAddPath .ipv4Unicast) msg ≤ 4096)
    (hsame : d.rxAddPath .ipv4Unicast = c.txAddPath .ipv4Unicast) :
    (∀ n out', msg.ParamsFit → c.encode msg out = ok (n, out') →
      ∃ bytes, out'.written = out.written ++ bytes ∧ bytes.length = n ∧
        d.decodeBgp bytes = ok (d, .ok (some (msg.received (c.txAddPath .ipv4Unicast))))) ∧
    (4096 < frameLength (c.txAddPath .ipv4Unicast) msg → ∃ e, c.encode msg out = err e) := by
  set addPath := c.txAddPath .ipv4Unicast with haddPath
  rcases plainIpv4_or_encode_err c hc with hplain | hrefused
  · rw [encode_eq c hplain, ← haddPath]
    split
    · exact ⟨fun _ _ _ h => by simp at h, fun _ => ⟨_, rfl⟩⟩
    constructor
    · intro n out' hparams hok
      cases hput : put EncodeError.bufferFull (frameWire addPath msg) out with
      | err e | abort => simp [hput] at hok
      | ok w =>
        rw [hput, map_ok] at hok
        obtain ⟨rfl, rfl⟩ := Prod.mk.inj (Outcome.ok.inj hok)
        obtain ⟨hfit, -, hw⟩ := put_eq_ok_iff.mp hput
        refine ⟨_, hw, frameWire_length addPath msg, ?_⟩
        have hsize : frameLength addPath msg ≤ 4096 := by
          rw [frameWire_length] at hfit
          simp only [WriteBuf.remaining] at hroom
          omega
        have hdec := tryDecodeFrame_frameWire addPath hplain hc hparams hsize
        have hdrop : (frameWire addPath msg).drop (frameLength addPath msg) = [] :=
          drop_eq_nil_of_le (frameWire_length addPath msg).le
        obtain ⟨carryover, asn4, tx, rx⟩ := d
        subst hcarry
        simp only [BgpCodec.decodeBgp, nil_append, hsame, hdec, Outcome.attempt, ok_bind,
          hdrop, pure_eq_ok]
    · intro hbig
      refine ⟨.bufferFull, ?_⟩
      rw [put_of_not_fits]
      · rfl
      · rw [frameWire_length]
        simp only [WriteBuf.remaining] at hroom
        omega
  · obtain ⟨e, he⟩ := hrefused out
    exact ⟨fun _ _ _ h => by simp [he] at h, fun _ => ⟨e, he⟩⟩

/-- An UPDATE with an announced and a withdrawn path, sent and read with path
identifiers. -/
theorem encode_roundTrip_addPath :
    let c : BgpCodec := { addPathTx := [.ipv4Unicast], addPathRx := [.ipv4Unicast] }
    let u : Update := ⟨[⟨7, .newV4 (.padded 4 [10]) 8⟩],
      PathAttributes.new.insert ⟨⟨0x40⟩, .origin, [0]⟩, [⟨9, .newV4 (.padded 4 [192, 0, 2]) 24⟩]⟩
    ∃ n out' bytes, c.encode (.update u) (.new 4096) = ok (n, out') ∧ out'.written = bytes ∧
      bytes.length = n ∧ c.decodeBgp bytes = ok (c, .ok (some (.update u))) := by
  intro c u
  have hplain : (BgpMessage.update u).PlainIpv4 := by
    show Update.PlainIpv4 u
    unfold Update.PlainIpv4
    decide
  have hmin : headerLen + 8 ≤ (WriteBuf.new 4096).remaining := by decide
  obtain ⟨out', hok, -⟩ := encode_of_fits c hplain hmin (by decide)
  obtain ⟨bytes, hout, hlen, hdec⟩ := (encode_roundTrip c c (.update u) (.new 4096) (by decide)
    rfl (.inl (by decide)) rfl).1 _ out' trivial hok
  exact ⟨_, out', bytes, hok, hout, hlen, hdec⟩

/-- Three messages that do not come back equal: an OPEN from a four-octet AS (the
two-octet field carries AS_TRANS), an UPDATE with a private attribute, and an
UPDATE with a path identifier on a session without Add-Path. -/
theorem encode_loses_information :
    let announce (id : UInt32) (attrs : PathAttributes) : BgpMessage :=
      .update ⟨[], attrs, [⟨id, .newV4 (.padded 4 [192, 0, 2]) 24⟩]⟩
    let private_ := PathAttributes.new.insert ⟨⟨0xc0⟩, .lrIgpMetric, [0, 0, 0, 5]⟩
    ∀ pair ∈ [(BgpMessage.open ⟨4, 70000, 180, 0x0a000001, []⟩,
        BgpMessage.open ⟨4, 23456, 180, 0x0a000001, []⟩),
        (announce 0 private_, announce 0 .new), (announce 7 .new, announce 0 .new)],
      pair.1.Canonical ∧ pair.1.ParamsFit ∧
      (·.2.written) <$> BgpCodec.encode {} pair.1 (.new 4096) = ok (frameWire false pair.1) ∧
      BgpCodec.decodeBgp {} (frameWire false pair.1) = ok ({}, .ok (some pair.2)) ∧
      pair.2 ≠ pair.1 := by
  decide +kernel

end LibRouting.Bgp
