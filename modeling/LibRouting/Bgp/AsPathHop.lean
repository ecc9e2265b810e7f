/-
  Bgp/AsPathHop.lean --- an AS_PATH from one speaker to the next (RFC 6793).

  The sender writes AS_PATH at its configured width and never writes AS4_PATH;
  the receiver reads it at its own configured width.  The width the OPEN exchange
  agreed on (`agreeWidth`) is used by neither.
-/
import LibRouting.Bgp.Advertise
import LibRouting.Bgp.Codec.RoundTrip

set_option autoImplicit false

namespace LibRouting.Bgp

open Foundation Core Outcome BgpPeer AsPath List

/-! ## What a hop should do -/

/-- AS_TRANS stands for an AS number that does not fit two octets. -/
def asTrans (a : Asn) : Asn := if a ≤ 0xffff then a else 23456

/-- The received attributes carry the sender's path: a four-octet receiver
reconstructs it, and on a two-octet session AS_PATH has AS_TRANS for the AS numbers
that do not fit and AS4_PATH has the path itself. -/
structure HopKeepsPath (sender receiver : PeerConfig) (path : AsPath)
    (received : PathAttributes) : Prop where
  reconstructs : receiver.asn4 = true → canonicalPath receiver (relayUnknown received) = path
  narrow : (sender.asn4 && receiver.asn4) = false →
    received.read .asPath decode = some (path.mapAsns asTrans) ∧
      ((∃ a ∈ path.asns, 0xffff < a) → received.as4Path = some path)

instance (sender receiver : PeerConfig) (path : AsPath) (received : PathAttributes) :
    Decidable (HopKeepsPath sender receiver path received) :=
  decidable_of_iff
    ((receiver.asn4 = true → canonicalPath receiver (relayUnknown received) = path) ∧
      ((sender.asn4 && receiver.asn4) = false →
        received.read .asPath decode = some (path.mapAsns asTrans) ∧
          ((∃ a ∈ path.asns, 0xffff < a) → received.as4Path = some path)))
    ⟨fun h => ⟨h.1, h.2⟩, fun h => ⟨h.reconstructs, h.narrow⟩⟩

/-- The paths that survive: segments fit their count octet, and both sides write
and read the same width, or there is nothing whose width matters. -/
def PathSurvives (sender receiver : PeerConfig) (path : AsPath) : Prop :=
  (∀ s ∈ path.segments, s.ases.length ≤ 255) ∧
    (sender.asn4 = true ∧ receiver.asn4 = true ∨ path.asns = [] ∨
      sender.asn4 = false ∧ receiver.asn4 = false ∧ ∀ a ∈ path.asns, a ≤ 0xffff)
  deriving Decidable

/-! ## What the code does -/

/-- A received UPDATE carries AS_PATH at the width the sender is configured with,
and no AS4_PATH. -/
theorem received_asPath {s : BgpPeer} {route : Route} {originator : Option RouterId}
    {u : Update} (hu : s.egressUpdate route originator = some u) :
    (∃ flags, (receivedAttributes u.attributes).get .asPath = some ⟨flags, .asPath,
      (outgoingPath s.cfg (.ofAttributes route.attributes)).encodeAt s.cfg.asn4⟩) ∧
    (receivedAttributes u.attributes).get .as4Path = none := by
  have hpath : u.attributes.get .asPath = _ := egressUpdate_get hu (by decide) (by decide)
  have has4 : u.attributes.get .as4Path = _ := egressUpdate_get hu (by decide) (by decide)
  have hprivate : AttrType.asPath.isPrivate = false ∧ AttrType.as4Path.isPrivate = false :=
    ⟨rfl, rfl⟩
  rw [receivedAttributes_get, receivedAttributes_get, hprivate.1, hprivate.2, hpath, has4]
  constructor
  · refine ⟨wireFlags (asPathAttr s.cfg (outgoingPath s.cfg (.ofAttributes route.attributes))), ?_⟩
    simp [egressAsPath, asPathAttr, receivedAttr]
  · simp [egressAsPath, asPathAttr]

section Hop

variable {received : PathAttributes} {flags : PathAttrFlags} {value : Bytes}

/-- Without AS4_PATH the receiver's path is AS_PATH at its configured width; an
unreadable one is empty. -/
theorem canonicalPath_of_get (receiver : PeerConfig)
    (hpath : received.get .asPath = some ⟨flags, .asPath, value⟩)
    (has4 : received.get .as4Path = none) :
    canonicalPath receiver (relayUnknown received) =
      (decodeInner value receiver.asn4).getD .new := by
  have hpath' : (relayUnknown received).get .asPath = some ⟨flags, .asPath, value⟩ := by
    rw [relayUnknown_get received (by simp), hpath]
  have has4' : (relayUnknown received).as4Path = none := by
    rw [PathAttributes.as4Path, PathAttributes.read, relayUnknown_get received (by simp), has4]
    rfl
  have hwire : (relayUnknown received).asPathWire receiver.asn4 =
      decodeInner value receiver.asn4 := by
    rw [PathAttributes.asPathWire, PathAttributes.read, hpath']
    cases receiver.asn4 <;> rfl
  rw [canonicalPath, hwire, has4']
  cases decodeInner value receiver.asn4 <;> rfl

theorem clamp_eq_asTrans_iff (a : Asn) : AsPath.clamp a = asTrans a ↔ a ≤ 0xffff := by
  have hclamp : AsPath.clamp a = if a ≤ 0xffff then a else 0xffff := rfl
  rw [hclamp, asTrans]
  by_cases h : a ≤ 0xffff
  · simp [h]
  · simp only [h, if_false, iff_false]
    decide

theorem mapAsns_clamp_eq_asTrans_iff (p : AsPath) :
    p.mapAsns AsPath.clamp = p.mapAsns asTrans ↔ ∀ a ∈ p.asns, a ≤ 0xffff := by
  obtain ⟨segs⟩ := p
  simp only [mapAsns, AsPath.mk.injEq, map_inj_left, AsPathSegment.mk.injEq, true_and,
    clamp_eq_asTrans_iff, AsPath.asns, mem_flatMap]
  constructor
  · rintro h a ⟨s, hs, ha⟩
    exact h s hs a ha
  · intro h s hs a ha
    exact h a ⟨s, hs, ha⟩

theorem decode_encodeAt_of_asns_nil {path : AsPath} (hnil : path.asns = [])
    (hseg : ∀ s ∈ path.segments, s.ases.length ≤ 255) (wide wide' : Bool) :
    decodeInner (path.encodeAt wide) wide' = some path := by
  rw [encodeAt_eq_of_asns_nil hnil wide wide', decode_encodeAt hseg,
    mapAsns_eq_self (by simp [hnil])]

theorem reads_wide_iff (path : AsPath) (wide : Bool) :
    (decodeInner (path.encodeAt wide) true).getD .new = path ↔
      (∀ s ∈ path.segments, s.ases.length ≤ 255) ∧ (wide = true ∨ path.asns = []) := by
  constructor
  · intro h
    cases hdec : decodeInner (path.encodeAt wide) true with
    | none =>
      obtain rfl : AsPath.new = path := by simpa [hdec] using h
      exact ⟨by simp [AsPath.new], .inr rfl⟩
    | some q =>
      obtain rfl : q = path := by simpa [hdec] using h
      refine ⟨(decodeInner_length hdec).2, ?_⟩
      cases wide with
      | true => exact .inl rfl
      | false =>
        have hid : q.mapAsns id = q := mapAsns_eq_self fun _ _ => rfl
        exact .inr (asns_eq_nil_of_decode_other (hdec.trans (by rw [hid])))
  · rintro ⟨hseg, rfl | hnil⟩
    · rw [decode_encodeAt hseg]
      exact mapAsns_eq_self fun _ _ => rfl
    · rw [decode_encodeAt_of_asns_nil hnil hseg]
      rfl

theorem reads_narrow_iff (path : AsPath) (wide : Bool) :
    decodeInner (path.encodeAt wide) false = some (path.mapAsns asTrans) ∧
        (∀ a ∈ path.asns, a ≤ 0xffff) ↔
      (∀ s ∈ path.segments, s.ases.length ≤ 255) ∧
        (path.asns = [] ∨ wide = false ∧ ∀ a ∈ path.asns, a ≤ 0xffff) := by
  constructor
  · rintro ⟨hdec, hsmall⟩
    refine ⟨fun s hs => ?_, ?_⟩
    · have := (decodeInner_length hdec).2 ⟨s.kind, s.ases.map asTrans⟩
        (mem_map_of_mem hs)
      simpa using this
    · cases wide with
      | true => exact .inl (asns_eq_nil_of_decode_other hdec)
      | false => exact .inr ⟨rfl, hsmall⟩
  · rintro ⟨hseg, hnil | ⟨rfl, hsmall⟩⟩
    · rw [decode_encodeAt_of_asns_nil hnil hseg]
      have hself : path.mapAsns asTrans = path := mapAsns_eq_self (by simp [hnil])
      exact ⟨by rw [hself], by simp [hnil]⟩
    · rw [decode_encodeAt hseg]
      exact ⟨congrArg some ((mapAsns_clamp_eq_asTrans_iff path).mpr hsmall), hsmall⟩

theorem hopKeepsPath_iff (sender receiver : PeerConfig) (path : AsPath)
    (hpath : received.get .asPath = some ⟨flags, .asPath, path.encodeAt sender.asn4⟩)
    (has4 : received.get .as4Path = none) :
    HopKeepsPath sender receiver path received ↔ PathSurvives sender receiver path := by
  have hread : received.read .asPath decode =
      decodeInner (path.encodeAt sender.asn4) false := by
    rw [PathAttributes.read, hpath]
    rfl
  have hnone : received.as4Path = none := by
    rw [PathAttributes.as4Path, PathAttributes.read, has4]
    rfl
  have hkeeps : HopKeepsPath sender receiver path received ↔
      (receiver.asn4 = true →
        (decodeInner (path.encodeAt sender.asn4) receiver.asn4).getD .new = path) ∧
      ((sender.asn4 && receiver.asn4) = false →
        decodeInner (path.encodeAt sender.asn4) false = some (path.mapAsns asTrans) ∧
          ∀ a ∈ path.asns, a ≤ 0xffff) := by
    have hcanon := canonicalPath_of_get receiver hpath has4
    have hbig : ((∃ a ∈ path.asns, 0xffff < a) → received.as4Path = some path) ↔
        ∀ a ∈ path.asns, a ≤ 0xffff := by
      rw [hnone]
      constructor
      · intro h a ha
        by_contra hlt
        cases h ⟨a, ha, UInt32.not_le.mp hlt⟩
      · rintro h ⟨a, ha, hlt⟩
        exact absurd (h a ha) (UInt32.not_le.mpr hlt)
    rw [← hbig, ← hread, ← hcanon]
    exact ⟨fun h => ⟨h.reconstructs, h.narrow⟩, fun h => ⟨h.1, h.2⟩⟩
  rw [hkeeps, reads_narrow_iff, PathSurvives]
  cases hs : sender.asn4 <;> cases hr : receiver.asn4
  · simp
  · rw [reads_wide_iff]
    constructor
    · rintro ⟨hwide, -⟩
      obtain ⟨hseg, hnil⟩ := hwide rfl
      exact ⟨hseg, .inr (.inl (by simpa using hnil))⟩
    · rintro ⟨hseg, hnil⟩
      have hnil : path.asns = [] := by simpa using hnil
      exact ⟨fun _ => ⟨hseg, .inr hnil⟩, fun _ => ⟨hseg, .inl hnil⟩⟩
  · simp
  · rw [reads_wide_iff]
    simp

end Hop

/-! ## The hop -/

/-- An UPDATE that `advertise` appended, as the other side decodes it, carries the
outgoing path exactly when the path survives the widths of the two sides. -/
theorem asPath_survives_iff (s s' r : BgpPeer) (route : Route) (originator : Option RouterId)
    (bytes : Bytes) (n : Nat) (u : Update)
    (hsend : s.advertiseWithOriginator route originator = ok (s', true))
    (hbytes : s'.outBuf = s.outBuf ++ bytes)
    (hdec : tryDecodeFrame bytes (s.codec.txAddPath .ipv4Unicast) = ok (some (n, .update u))) :
    HopKeepsPath s.cfg r.cfg (outgoingPath s.cfg (.ofAttributes route.attributes))
        u.attributes ↔
      PathSurvives s.cfg r.cfg (outgoingPath s.cfg (.ofAttributes route.attributes)) := by
  obtain ⟨sent, hsent, henq⟩ := advertise_true hsend
  obtain ⟨frame, henc, rfl⟩ | ⟨-, rfl⟩ := enqueue_ok henq
  · obtain rfl : frame = bytes := append_cancel_left hbytes
    obtain ⟨-, hsize, rfl⟩ := encodeVec_ok_iff.mp henc
    have hcanon := PathAttributes.canonical_iff.mp (canonical_egressUpdate hsent)
    rw [received_attributes hcanon hsize hdec]
    obtain ⟨⟨flags, hpath⟩, has4⟩ := received_asPath hsent
    exact hopKeepsPath_iff s.cfg r.cfg _ hpath has4
  · -- nothing was appended, so there is no frame to decode
    obtain rfl : bytes = [] := by simpa using hbytes
    simp [tryDecodeFrame, headerLen] at hdec

/-- The session of a speaker that has sent its OPEN, once the OPEN and the first
KEEPALIVE of the other side are in. -/
def openExchange (cfg other : PeerConfig) : Outcome Empty BgpPeer := do
  let p := { BgpPeer.new cfg with state := .openSent }
  let (p, _) ← p.step (.message ((BgpMessage.open other.openMessage).received false))
  let (p, _) ← p.step (.message .keepalive)
  pure p

/-- A route of an AS above 65535, without attributes of its own. -/
def localRoute : Route where
  key := .new (.newV4 (.padded 4 [192, 0, 2]) 24) .ipv4Unicast
  origin := ⟨2, 0⟩
  protocol := .bgp
  preference := ⟨20, 0⟩
  nextHop := some (.v4 (.padded 4 [10, 0, 0, 1]))
  attributes := ∅
  ageMs := 0
  pathId := 0
  tag := none

/-- Between two four-octet speakers the path of an AS above 65535 arrives. -/
theorem asPath_survives_wide :
    let wide : PeerConfig := { localAs := 70000, peerAs := 65002, localBgpId := 1 }
    let peer : PeerConfig := { localAs := 65002, peerAs := 70000, localBgpId := 2 }
    ∃ (s s' : BgpPeer) (u : Update), openExchange wide peer = ok s ∧
      s.advertiseWithOriginator localRoute none = ok (s', true) ∧
      HopKeepsPath s.cfg peer (outgoingPath s.cfg (.ofAttributes localRoute.attributes))
        u.attributes := by
  intro wide peer
  have hrun : ∃ s, openExchange wide peer = ok s ∧ s.cfg = wide ∧
      ∃ r, s.advertiseWithOriginator localRoute none = ok r ∧ r.2 = true ∧
        r.1.outBuf = s.outBuf ++ r.1.outBuf.drop s.outBuf.length ∧
        ∃ d, tryDecodeFrame (r.1.outBuf.drop s.outBuf.length) (s.codec.txAddPath .ipv4Unicast) =
          ok d ∧ ∃ m ∈ d, ∃ u ∈ m.2.update?, m.2 = .update u := by
    decide +kernel
  obtain ⟨s, hs, hcfg, ⟨s', sent⟩, hsend, rfl, hbytes, d, hdec, ⟨n, msg⟩, rfl, u, -, rfl⟩ := hrun
  refine ⟨s, s', u, hs, hsend, ?_⟩
  refine (asPath_survives_iff s s' (.new peer) localRoute none _ n u hsend hbytes hdec).mpr ?_
  rw [hcfg]
  decide +kernel

/-- Towards a two-octet speaker the session agrees on two octets, but the path goes
out in four. -/
theorem asPath_lost_on_two_octet_session :
    let wide : PeerConfig := { localAs := 70000, peerAs := 65002, localBgpId := 1 }
    let old : PeerConfig :=
      { localAs := 65002, peerAs := 70000, localBgpId := 2, asn4 := false }
    ∃ s, openExchange wide old = ok s ∧ s.codec.asn4 = false ∧
      ∃ r, s.advertiseWithOriginator localRoute none = ok r ∧ r.2 = true ∧
        ∃ d, tryDecodeFrame (r.1.outBuf.drop s.outBuf.length) (s.codec.txAddPath .ipv4Unicast) =
          ok d ∧ ∃ m ∈ d, ∃ u ∈ m.2.update?,
            ¬ HopKeepsPath wide old (outgoingPath wide (.ofAttributes localRoute.attributes))
              u.attributes := by
  decide +kernel

end LibRouting.Bgp
