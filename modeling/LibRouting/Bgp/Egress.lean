/-
  Bgp/Egress.lean --- what the other side of a session reads from the UPDATEs this
  side appends.

  The receiver is a session with the same negotiated framing (`Mirrors`); what it
  reads is defined by its own handling of an UPDATE (`announced`, `withdrawn`).
-/
import LibRouting.Bgp.Advertise
import LibRouting.Bgp.Codec.MpRoundTrip

set_option autoImplicit false

namespace LibRouting.Bgp

open Foundation Core Outcome PathAttributes List

namespace BgpPeer

/-! ## The receiver -/

/-- The paths an UPDATE announces to this session. -/
def announced (r : BgpPeer) (u : Update) : Outcome Empty (List (RouteKey × UInt32)) :=
  (·.map Announcement.path) <$> r.announcements u

/-- `r` reads what `s` writes: the framing is the one they negotiated, and `r` accepts
IPv4 unicast. -/
structure Mirrors (s r : BgpPeer) : Prop where
  sends : s.Framed
  receives : r.Framed
  agree : ∀ family, r.addPathRxFor family = s.addPathTxFor family
  active : r.cfg.ipv4UnicastActive = true

/-- The bytes are one UPDATE, which announces and withdraws these paths. -/
def Delivers (r : BgpPeer) (bytes : Bytes) (announces withdraws : List (RouteKey × UInt32)) :
    Prop :=
  ∃ u, tryDecodeFrame bytes (r.codec.rxAddPath .ipv4Unicast) =
      ok (some (bytes.length, .update u)) ∧
    r.announced u = ok announces ∧ r.withdrawn u = ok withdraws

/-- The UPDATE is appended and delivers these paths. -/
def Appends (s r : BgpPeer) (u : Update) (announces withdraws : List (RouteKey × UInt32)) : Prop :=
  ∃ s' bytes, s.enqueue (.update u) = ok s' ∧ s'.outBuf = s.outBuf ++ bytes ∧
    Delivers r bytes announces withdraws

/-- A path as the other side knows it: the identifier is sent under Add-Path only. -/
def sentPath (s : BgpPeer) (family : NlriFamily) (n : Nlri) : RouteKey × UInt32 :=
  (.new n.pfx family, if s.addPathTxFor family then n.pathId else 0)

/-- An UPDATE as the other side decodes it. -/
def receivedUpdate (addPath : Bool) (u : Update) : Update :=
  ⟨u.withdrawn.map (receivedNlri addPath), receivedAttributes u.attributes,
    u.nlri.map (receivedNlri addPath)⟩

section Receiver

variable {s r : BgpPeer} {u : Update}

theorem Mirrors.txAddPath (h : Mirrors s r) (family : NlriFamily) :
    s.codec.txAddPath family = s.addPathTxFor family := by
  simp only [BgpCodec.txAddPath, addPathTxFor, h.sends.tx]

theorem Mirrors.rxAddPath (h : Mirrors s r) (family : NlriFamily) :
    r.codec.rxAddPath family = s.addPathTxFor family := by
  rw [← h.agree family]
  simp only [BgpCodec.rxAddPath, addPathRxFor, h.receives.rx]

theorem received_value {attrs : PathAttributes} {t : AttrType} (ht : t.isPrivate = false) :
    ((receivedAttributes attrs).get t).map (·.value) = (attrs.get t).map (·.value) := by
  rw [receivedAttributes_get, ht]
  exact Option.map_map ..

theorem mpAnnouncements_absent (h : (u.attributes.get .mpReachNlri).map (·.value) = none) :
    (·.map Announcement.path) <$> r.mpAnnouncements u = ok [] := by
  rw [mpAnnouncements, Option.map_eq_none_iff.mp h]
  rfl

theorem mpWithdrawn_absent (h : (u.attributes.get .mpUnreachNlri).map (·.value) = none) :
    r.mpWithdrawn u = ok [] := by
  rw [mpWithdrawn, Option.map_eq_none_iff.mp h]

theorem mpAnnouncements_plain (hm : Mirrors s r) (m : MpReach)
    (hget : (u.attributes.get .mpReachNlri).map (·.value) =
      some (m.encodeEx (s.addPathTxFor m.family)))
    (hlabeled : m.family.isLabeledUnicast = false)
    (hnet : ∀ n ∈ m.nlri, NetworkPrefix m.family n.pfx)
    (hnh : NextHopFits m.family m.nextHop.encode) :
    (·.map Announcement.path) <$> r.mpAnnouncements u = ok (m.nlri.map (s.sentPath m.family)) := by
  obtain ⟨attr, hget, hvalue⟩ := Option.map_eq_some_iff.mp hget
  obtain ⟨nextHop, hdec⟩ := m.decodeEx_encodeEx (s.addPathTxFor m.family) hnet hnh
  have hfam : mpFamily (m.encodeEx (s.addPathTxFor m.family)) = some m.family := by
    simp only [MpReach.encodeEx, toBe16, cons_append, nil_append, mpFamily, fromBe16_toBe16]
  simp only [mpAnnouncements, hget, hfam, hlabeled, Bool.false_eq_true, if_false, hm.agree, hvalue,
    hdec, attempt, ok_bind, pure_eq_ok, map_ok, map_map]
  rfl

theorem mpAnnouncements_labeled (hm : Mirrors s r) {family : NlriFamily} {nextHop : MpNextHop}
    {entries : List LabeledNlri}
    (hget : (u.attributes.get .mpReachNlri).map (·.value) =
      some (LabeledNlri.encodeMpReach family nextHop entries (s.addPathTxFor family)))
    (hlabeled : family.isLabeledUnicast = true)
    (hnet : ∀ e ∈ entries, NetworkPrefix family e.pfx ∧ e.Fits)
    (hnh : NextHopFits family nextHop.encode) :
    (·.map Announcement.path) <$> r.mpAnnouncements u =
      ok (entries.map fun e => s.sentPath family ⟨e.pathId, e.pfx⟩) := by
  obtain ⟨attr, hget, hvalue⟩ := Option.map_eq_some_iff.mp hget
  obtain ⟨nh, hdec⟩ := LabeledNlri.decodeMpReach_encodeMpReach (s.addPathTxFor family) nextHop
    entries hlabeled hnh hnet
  have hfam : mpFamily (LabeledNlri.encodeMpReach family nextHop entries (s.addPathTxFor family)) =
      some family := by
    simp only [LabeledNlri.encodeMpReach, toBe16, cons_append, nil_append, mpFamily,
      fromBe16_toBe16]
  simp only [mpAnnouncements, hget, hfam, hlabeled, if_true, hm.agree, hvalue, hdec, map_ok,
    map_map]
  rfl

theorem mpWithdrawn_plain (hm : Mirrors s r) (m : MpUnreach)
    (hget : (u.attributes.get .mpUnreachNlri).map (·.value) =
      some (m.encodeEx (s.addPathTxFor m.family)))
    (hlabeled : m.family.isLabeledUnicast = false)
    (hnet : ∀ n ∈ m.nlri, NetworkPrefix m.family n.pfx) :
    r.mpWithdrawn u = ok (m.nlri.map (s.sentPath m.family)) := by
  obtain ⟨attr, hget, hvalue⟩ := Option.map_eq_some_iff.mp hget
  have hdec := m.decodeEx_encodeEx (s.addPathTxFor m.family) hnet
  have hfam : mpFamily (m.encodeEx (s.addPathTxFor m.family)) = some m.family := by
    simp only [MpUnreach.encodeEx, toBe16, cons_append, nil_append, mpFamily, fromBe16_toBe16]
  simp only [mpWithdrawn, hget, hfam, hlabeled, Bool.false_eq_true, if_false, hm.agree,
    hvalue, hdec, attempt, ok_bind, pure_eq_ok, map_map]
  rfl

theorem mpWithdrawn_labeled (hm : Mirrors s r) {family : NlriFamily}
    {entries : List LabeledNlri}
    (hget : (u.attributes.get .mpUnreachNlri).map (·.value) =
      some (LabeledNlri.encodeMpUnreach family entries (s.addPathTxFor family)))
    (hlabeled : family.isLabeledUnicast = true)
    (hnet : ∀ e ∈ entries, NetworkPrefix family e.pfx ∧ e.Fits) :
    r.mpWithdrawn u = ok (entries.map fun e => s.sentPath family ⟨e.pathId, e.pfx⟩) := by
  obtain ⟨attr, hget, hvalue⟩ := Option.map_eq_some_iff.mp hget
  have hdec := LabeledNlri.decodeMpUnreach_encodeMpUnreach (s.addPathTxFor family) entries
    hlabeled hnet
  have hfam : mpFamily (LabeledNlri.encodeMpUnreach family entries (s.addPathTxFor family)) =
      some family := by
    simp only [LabeledNlri.encodeMpUnreach, toBe16, cons_append, nil_append, mpFamily,
      fromBe16_toBe16]
  simp only [mpWithdrawn, hget, hfam, hlabeled, if_true, hm.agree, hvalue, hdec, map_map]
  rfl

/-- An UPDATE that fits is appended and delivers its own sections and what the receiver reads
from its MP attributes. -/
theorem enqueue_delivers (hm : Mirrors s r)
    (hnet : ∀ n ∈ u.withdrawn ++ u.nlri, n.pfx.isIpv4 = true ∧ CanonicalPrefix n.pfx)
    (hattrs : u.attributes.Canonical)
    (hsize : frameLength (s.addPathTxFor .ipv4Unicast) (.update u) ≤ 4096)
    {reach unreach : List (RouteKey × UInt32)}
    (hreach : (·.map Announcement.path) <$> r.mpAnnouncements
      (receivedUpdate (s.addPathTxFor .ipv4Unicast) u) = ok reach)
    (hunreach : r.mpWithdrawn (receivedUpdate (s.addPathTxFor .ipv4Unicast) u) = ok unreach) :
    Appends s r u (u.nlri.map (s.sentPath .ipv4Unicast) ++ reach)
      (u.withdrawn.map (s.sentPath .ipv4Unicast) ++ unreach) := by
  have hsent : ∀ xs : List Nlri, xs.map (s.sentPath .ipv4Unicast) =
      (xs.map (receivedNlri (s.addPathTxFor .ipv4Unicast))).map fun n =>
        (RouteKey.new n.pfx .ipv4Unicast, n.pathId) := fun xs => by
    rw [map_map]
    rfl
  set addPath := s.addPathTxFor .ipv4Unicast with haddPath
  have htx : s.codec.txAddPath .ipv4Unicast = addPath := hm.txAddPath _
  have hrx : r.codec.rxAddPath .ipv4Unicast = addPath := hm.rxAddPath _
  have hplain : u.PlainIpv4 := fun n hn =>
    ⟨(hnet n hn).1, octets_length_of_isIpv4 (hnet n hn).1 ▸ (hnet n hn).2.1⟩
  have hcanon : (BgpMessage.update u).Canonical :=
    ⟨fun n hn => (hnet n hn).2, canonical_iff.mp hattrs⟩
  have henc : s.codec.encodeVec (.update u) = ok (frameWire addPath (.update u)) :=
    encodeVec_ok_iff.mpr ⟨hplain, by rwa [htx], by rw [htx]⟩
  refine ⟨{ s with outBuf := s.outBuf ++ frameWire addPath (.update u),
                   sent := s.sent.count (.update u) },
    frameWire addPath (.update u), ?_, rfl, receivedUpdate addPath u, ?_, ?_, ?_⟩
  · simp only [enqueue, sendMsg, henc, attempt, ok_bind, pure_eq_ok, map_ok]
  · rw [hrx, frameWire_length]
    exact tryDecodeFrame_frameWire addPath hplain hcanon trivial hsize
  · obtain ⟨xs, hxs, rfl⟩ := map_eq_ok.mp hreach
    simp only [announced, announcements, hxs, map_ok, map_append, plainAnnouncements, hm.active,
      if_true]
    simp only [receivedUpdate, map_map, hsent]
    rfl
  · simp only [withdrawn, hunreach, map_ok, plainWithdrawn, hm.active, if_true, hsent]
    rfl

end Receiver

/-! ## Announcements -/

/-- A route the encoders can carry.  In the plain section, that is an IPv4 prefix with no
octet behind its length, and no MP attribute left over from where it was learned; in
MP_REACH_NLRI, a network of the family, labels that fit their length octet and, for AFI 2, no
IPv4 next hop.  The UPDATE is of legal size. -/
structure Announceable (s : BgpPeer) (route : Route) (originator : Option RouterId) : Prop where
  plain : ∀ u ∈ s.egressUpdate route originator, u.nlri ≠ [] →
    (route.key.pfx.isIpv4 = true ∧ CanonicalPrefix route.key.pfx) ∧
      (ofAttributes route.attributes).get .mpReachNlri = none ∧
      (ofAttributes route.attributes).get .mpUnreachNlri = none
  network : ∀ u ∈ s.egressUpdate route originator, u.nlri = [] →
    NetworkPrefix route.key.family route.key.pfx
  nextHop : route.key.family.afi = 2 →
    ∀ nh ∈ (s.egressAttributes route originator).2, nh.isIpv4 = false
  labels : route.key.family.isLabeledUnicast = true →
    ∀ stack ∈ (ofAttributes route.attributes).labelStack,
      24 * stack.length + route.key.pfx.prefixLen.toNat ≤ 255
  size : ∀ u ∈ s.egressUpdate route originator,
    frameLength (s.addPathTxFor .ipv4Unicast) (.update u) ≤ 4096

section Announce

variable {s r : BgpPeer} {route : Route} {originator : Option RouterId} {attrs : PathAttributes}
  {value : Bytes}

theorem nextHopFits_mpNextHop {family : NlriFamily} {p : Prefix} (hnet : NetworkPrefix family p)
    {ip : IpAddr} (h : family.afi = 2 → ip.isIpv4 = false) :
    NextHopFits family (mpNextHop ip).encode := by
  rcases hnet.cases with ⟨hafi, -⟩ | ⟨hafi, -⟩
  · left
    refine ⟨hafi, ?_⟩
    cases ip with
    | v4 a => exact .inl a.length_eq
    | v6 a => exact .inr a.length_eq
  · right
    refine ⟨hafi, ?_⟩
    cases ip with
    | v4 a => cases h hafi
    | v6 a => exact .inl a.length_eq

theorem labelStack_ne_nil {stack : LabelStack} (h : attrs.labelStack = some stack) :
    stack ≠ [] := by
  obtain ⟨attr, -, h⟩ := Option.bind_eq_some_iff.mp h
  unfold LabelStack.decode4octet at h
  split at h
  · cases h
  split at h
  · cases h
  rename_i hne _
  unfold LabelStack.decodeEntries at h
  split at h
  · contradiction
  · dsimp only at h
    split at h
    · split at h
      · cases h
        simp
      · cases h
    · obtain ⟨rest, -, rfl⟩ := Option.map_eq_some_iff.mp h
      simp
  · cases h

/-- The label stack a labelled route is sent with is the one it is stored with. -/
theorem egressAttributes_labelStack (s : BgpPeer) (route : Route) (originator : Option RouterId) :
    (s.egressAttributes route originator).1.labelStack =
      (ofAttributes route.attributes).labelStack := by
  unfold labelStack
  rw [egressAttributes_get s route originator (by decide),
    egressAsPath_get _ _ (by decide) (by decide)]

section

variable (hm : Mirrors s r) (hroute : Announceable s route originator)
include hm hroute

/-- The receiver reads the path of the route from its MP_REACH_NLRI. -/
theorem mpReachValue_announced (hnet : NetworkPrefix route.key.family route.key.pfx)
    (hvalue : MpReachValue s route (s.egressAttributes route originator).1
      (s.egressAttributes route originator).2 value)
    {u : Update} (hget : (u.attributes.get .mpReachNlri).map (·.value) = some value) :
    (·.map Announcement.path) <$> r.mpAnnouncements u =
      ok [s.sentPath route.key.family ⟨route.pathId, route.key.pfx⟩] := by
  have hnh := hroute.nextHop
  generalize hnext : (s.egressAttributes route originator).2 = nextHop at hvalue hnh
  cases hvalue with
  | labeled hlabeled hstack =>
    rename_i stack nh
    rw [egressAttributes_labelStack] at hstack
    refine mpAnnouncements_labeled hm hget hlabeled (forall_mem_singleton.mpr ?_)
      (nextHopFits_mpNextHop hnet fun h => hnh h nh rfl)
    exact ⟨hnet, labelStack_ne_nil hstack, hroute.labels hlabeled stack hstack⟩
  | overIpv6 hfam =>
    rename_i a
    exact mpAnnouncements_plain hm
      ⟨route.key.family, .v4OverV6 a, [⟨route.pathId, route.key.pfx⟩]⟩ hget (by rw [hfam]; rfl)
      (forall_mem_singleton.mpr hnet) (.inl ⟨by rw [hfam]; rfl, .inr a.length_eq⟩)
  | plain hlabeled _ =>
    rename_i nh _
    exact mpAnnouncements_plain hm
      ⟨route.key.family, mpNextHop nh, [⟨route.pathId, route.key.pfx⟩]⟩ hget hlabeled
      (forall_mem_singleton.mpr hnet) (nextHopFits_mpNextHop hnet fun h => hnh h nh rfl)

/-- `advertise` on a route it does not refuse. -/
theorem egressUpdate_delivers {u : Update} (hu : s.egressUpdate route originator = some u) :
    Appends s r u [s.sentPath route.key.family ⟨route.pathId, route.key.pfx⟩] [] := by
  have hinherited : ∀ t ∈ [AttrType.mpReachNlri, .mpUnreachNlri],
      (s.egressAttributes route originator).1.get t =
        (ofAttributes route.attributes).get t := by
    intro t ht
    obtain rfl | rfl : t = .mpReachNlri ∨ t = .mpUnreachNlri := by simpa using ht
    all_goals
      rw [egressAttributes_get s route originator (by decide),
        egressAsPath_get _ _ (by decide) (by decide)]
  have hsize := hroute.size u hu
  have hcanon := canonical_egressUpdate hu
  rcases egressUpdate_cases hu with ⟨hfam, attrs, rfl, hattrs⟩ | ⟨base, value, rfl, -, hvalue⟩
  · obtain ⟨hnet, hreach, hunreach⟩ := hroute.plain _ hu (by simp)
    rw [← hinherited _ (by simp)] at hreach hunreach
    rw [hfam]
    refine enqueue_delivers (u := ⟨[], attrs, [_]⟩) hm (by simpa using hnet) hcanon hsize
      (mpAnnouncements_absent ((received_value rfl).trans ?_))
      (mpWithdrawn_absent ((received_value rfl).trans ?_)) <;>
      rcases hattrs with rfl | ⟨ip, rfl⟩ <;> simp [nextHopAttr, hreach, hunreach]
  · exact enqueue_delivers (u := ⟨[], withMpReach base value, []⟩) hm (by simp) hcanon hsize
      (mpReachValue_announced hm hroute (hroute.network _ hu rfl) hvalue
        ((received_value rfl).trans (by simp [withMpReach])))
      (mpWithdrawn_absent ((received_value rfl).trans (by simp [withMpReach])))

end

end Announce

/-! ## Withdrawals -/

/-- Paths `withdraw_paths` can carry in one UPDATE: prefixes as in an announcement, of a
family that is active for the peer, within the size of a message. -/
structure Withdrawable (s : BgpPeer) (entries : List Nlri) (family : NlriFamily) : Prop where
  active : family = .ipv4Unicast → s.cfg.ipv4UnicastActive = true
  network : ∀ e ∈ entries, if family = .ipv4Unicast ∧ !s.ipv4OverIpv6 then
    e.pfx.isIpv4 = true ∧ CanonicalPrefix e.pfx else NetworkPrefix family e.pfx
  size : frameLength (s.addPathTxFor .ipv4Unicast) (.update (s.withdrawUpdate entries family)) ≤
    4096

section Withdraw

variable {s r : BgpPeer} {entries : List Nlri} {family : NlriFamily}

theorem fits_implicitNull {e : Nlri} (h : NetworkPrefix family e.pfx) :
    LabeledNlri.Fits ⟨e.pathId, [Label.newValue Label.implicitNull.value], e.pfx⟩ := by
  refine ⟨by simp, ?_⟩
  show 24 * 1 + e.pfx.prefixLen.toNat ≤ 255
  have hlen : Prefix.octetCount e.pfx.prefixLen ≤ 16 := by
    rcases h.cases with ⟨-, _, -, hle, -⟩ | ⟨-, _, -, hle, -⟩ <;> omega
  simp only [Prefix.octetCount] at hlen
  omega

/-- An UPDATE with nothing but an MP_UNREACH_NLRI delivers its withdrawals. -/
theorem mpUnreach_delivers (hm : Mirrors s r) {u : Update} {value : Bytes}
    {withdraws : List (RouteKey × UInt32)} (hu : u = ⟨[], PathAttributes.new.insert
      ⟨PathAttrFlags.new.setOptional true, .mpUnreachNlri, value⟩, []⟩)
    (hsize : frameLength (s.addPathTxFor .ipv4Unicast) (.update u) ≤ 4096)
    (hread : ∀ {u' : Update}, (u'.attributes.get .mpUnreachNlri).map (·.value) = some value →
      r.mpWithdrawn u' = ok withdraws) :
    Appends s r u [] withdraws := by
  have happends := enqueue_delivers hm (by simp [hu]) (by rw [hu]; exact canonical_new.insert rfl)
    hsize (mpAnnouncements_absent ((received_value rfl).trans (by simp [hu])))
    (hread ((received_value rfl).trans (by simp [hu])))
  rw [hu] at happends ⊢
  exact happends

theorem withdrawUpdate_delivers (hm : Mirrors s r) (hw : Withdrawable s entries family) :
    Appends s r (s.withdrawUpdate entries family) [] (entries.map (s.sentPath family)) := by
  have hsize := hw.size
  have hnet := hw.network
  unfold withdrawUpdate at hsize ⊢
  by_cases hplain : family = .ipv4Unicast ∧ (!s.ipv4OverIpv6) = true
  · have hlabeled : ¬ family.isLabeledUnicast = true := by rw [hplain.1]; decide
    simp only [if_neg hlabeled, if_pos hplain] at hsize hnet ⊢
    rw [hplain.1]
    have happends := enqueue_delivers (u := ⟨entries, .new, []⟩) hm (by simpa using hnet)
      canonical_new hsize (mpAnnouncements_absent (received_value rfl))
      (mpWithdrawn_absent (received_value rfl))
    simpa using happends
  simp only [if_neg hplain] at hsize hnet ⊢
  split_ifs at hsize ⊢ with hlabeled
  · refine mpUnreach_delivers hm rfl hsize fun hget => ?_
    have hread := mpWithdrawn_labeled hm hget hlabeled (forall_mem_map.mpr fun n hn =>
      ⟨hnet n hn, fits_implicitNull (hnet n hn)⟩)
    rwa [map_map] at hread
  · exact mpUnreach_delivers hm rfl hsize fun hget => mpWithdrawn_plain hm ⟨family, entries⟩
      hget (Bool.eq_false_iff.mpr hlabeled) hnet

end Withdraw

/-! ## The contract -/

theorem not_delivers_nil (r : BgpPeer) (announces withdraws : List (RouteKey × UInt32)) :
    ¬ Delivers r [] announces withdraws := by
  rintro ⟨u, hdec, -⟩
  cases hdec

/-- What an established session tells the other side.  `advertise` leaves the session as
it is when it returns false; it returns true exactly when it appended one UPDATE, which
announces the path of the route and withdraws nothing.  `withdraw_paths` appends one
UPDATE, which withdraws the listed paths and announces nothing. -/
theorem egress_contract {s r : BgpPeer} (hm : Mirrors s r) (hest : s.established = true) :
    (∀ route originator s', s.advertiseWithOriginator route originator = ok (s', false) →
      s' = s) ∧
    (∀ route originator, Announceable s route originator →
      ∃ s' sent, s.advertiseWithOriginator route originator = ok (s', sent) ∧
        (sent = true ↔ ∃ bytes, s'.outBuf = s.outBuf ++ bytes ∧
          Delivers r bytes [s.sentPath route.key.family ⟨route.pathId, route.key.pfx⟩] [])) ∧
    (∀ entries family, Withdrawable s entries family →
      ∃ s' bytes, s.withdrawPaths entries family = ok s' ∧ s'.outBuf = s.outBuf ++ bytes ∧
        Delivers r bytes [] (entries.map (s.sentPath family))) := by
  refine ⟨?_, ?_, ?_⟩
  · intro route originator s' h
    unfold advertiseWithOriginator at h
    cases hu : s.egressUpdate route originator with
    | none =>
      rw [hu] at h
      cases h
      rfl
    | some u =>
      rw [hu] at h
      obtain ⟨_, -, ⟨⟩⟩ := map_eq_ok.mp h
  · intro route originator hroute
    unfold advertiseWithOriginator
    cases hu : s.egressUpdate route originator with
    | none =>
      refine ⟨s, false, rfl, by simp, ?_⟩
      rintro ⟨bytes, hout, hdel⟩
      obtain rfl : bytes = [] := by simpa using hout
      exact absurd hdel (not_delivers_nil _ _ _)
    | some u =>
      obtain ⟨s', bytes, henq, hout, hdel⟩ := egressUpdate_delivers hm hroute hu
      refine ⟨s', true, ?_, fun _ => ⟨bytes, hout, hdel⟩, fun _ => rfl⟩
      simp [henq]
  · intro entries family hw
    have hactive : ¬ (family = .ipv4Unicast ∧ (!s.cfg.ipv4UnicastActive) = true) := by
      rintro ⟨hfam, hnot⟩
      simp [hw.active hfam] at hnot
    obtain ⟨s', bytes, henq, hout, hdel⟩ := withdrawUpdate_delivers hm hw
    refine ⟨s', bytes, ?_, hout, hdel⟩
    unfold withdrawPaths
    rw [if_neg (by simp [hest]), if_neg hactive, henq]

/-- An established session of the given configuration, nothing beyond it negotiated. -/
def establishedAs (cfg : PeerConfig) : BgpPeer :=
  { new cfg with state := .established, established := true }

/-- An established session with path identifiers for IPv6 unicast. -/
def sharing (cfg : PeerConfig) : BgpPeer :=
  { establishedAs cfg with
    addPathTx := [.ipv6Unicast], addPathRx := [.ipv6Unicast]
    codec := { addPathTx := [.ipv6Unicast], addPathRx := [.ipv6Unicast] } }

/-- A path to 2001:db8::/32 with a MED and a community. -/
def sharedRoute : Route where
  key := .new (.newV6 (.padded 16 [0x20, 0x01, 0x0d, 0xb8]) 32) .ipv6Unicast
  origin := ⟨2, 0⟩
  protocol := .bgp
  preference := ⟨20, 0⟩
  nextHop := some (.v6 (.padded 16 [0xfe, 0x80]))
  attributes := ((PathAttributes.new.insert ⟨⟨0x80⟩, .multiExitDisc, [0, 0, 0, 5]⟩).insert
    ⟨⟨0xc0⟩, .communities, [0xfd, 0xe9, 0, 1]⟩).toAttributes
  ageMs := 0
  pathId := 7
  tag := none

/-- The contract between two sessions with path identifiers for IPv6 unicast, for a route that
is sent and for the withdrawal of two of its paths. -/
theorem egress_contract_addPath :
    let s := sharing { localAs := 65001, peerAs := 65002, localBgpId := 1 }
    let r := sharing { localAs := 65002, peerAs := 65001, localBgpId := 2 }
    let key := sharedRoute.key
    (∃ s', s.advertiseWithOriginator sharedRoute none = ok (s', true) ∧
      ∃ bytes, s'.outBuf = s.outBuf ++ bytes ∧ Delivers r bytes [(key, 7)] []) ∧
    (∃ s' bytes, s.withdrawPaths [⟨7, key.pfx⟩, ⟨9, key.pfx⟩] .ipv6Unicast = ok s' ∧
      s'.outBuf = s.outBuf ++ bytes ∧ Delivers r bytes [] [(key, 7), (key, 9)]) := by
  intro s r key
  have hm : Mirrors s r := ⟨⟨rfl, rfl⟩, ⟨rfl, rfl⟩, fun _ => rfl, rfl⟩
  have hroute : Announceable s sharedRoute none := by
    constructor <;> decide +kernel
  have hw : Withdrawable s [⟨7, key.pfx⟩, ⟨9, key.pfx⟩] .ipv6Unicast := by
    constructor <;> decide +kernel
  obtain ⟨-, hadv, hwd⟩ := egress_contract hm rfl
  obtain ⟨s', sent, hsend, hiff⟩ := hadv sharedRoute none hroute
  have hrun : ∃ res, s.advertiseWithOriginator sharedRoute none = ok res ∧ res.2 = true := by
    decide +kernel
  obtain ⟨res, hres, htrue⟩ := hrun
  obtain rfl : res = (s', sent) := Outcome.ok.inj (hres.symm.trans hsend)
  obtain rfl : sent = true := htrue
  exact ⟨⟨s', hsend, hiff.mp rfl⟩, hwd _ _ hw⟩

/-- A peer that is not activated for IPv4 unicast is sent no IPv4 withdrawal. -/
theorem withdrawPaths_inactive :
    let s := establishedAs
      { localAs := 65001, peerAs := 65002, localBgpId := 1, defaultIpv4Unicast := false }
    s.established = true ∧
      s.withdrawPaths [⟨0, .newV4 (.padded 4 [192, 0, 2]) 24⟩] .ipv4Unicast = ok s := by
  decide +kernel

end BgpPeer

end LibRouting.Bgp
