/-
  Bgp/Advertise.lean --- egress UPDATE generation (`advertise.rs`).

  `egressUpdate` is everything `advertise_with_originator` does before it sends:
  the gates, the rewriting of the attributes and the choice of the NLRI encoding.
  `none` is a route that is refused for this peer.
-/
import LibRouting.Bgp.Fsm

set_option autoImplicit false

namespace LibRouting.Bgp

open Foundation Core Outcome List Option

namespace BgpPeer

/-! ## Gates -/

/-- The early returns of `advertise_with_originator` that `can_advertise` decides too: the
iBGP split horizon (RFC 4271 §10) and the OTC rule. -/
def roleGates (p : BgpPeer) (route : Route) (attrs : PathAttributes) : Bool :=
  !(route.origin.proto == 1 && route.protocol = .bgp && p.cfg.peerRole.isInternal &&
    !p.cfg.routeReflectorClient) &&
  otcCanAdvertise (attrs.otc.getD 0) p.cfg.otcRole

/-- All the early returns of `advertise_with_originator`. -/
def egressGates (p : BgpPeer) (route : Route) (attrs : PathAttributes) : Bool :=
  p.established &&
  (route.key.family ≠ .ipv4Unicast || p.cfg.ipv4UnicastActive) &&
  p.roleGates route attrs &&
  (!attrs.hasCommunity Community.llgrStale || p.llgrNegotiated)

/-! ## Attributes -/

section

variable (cfg : PeerConfig) (attrs : PathAttributes)

/-- The AS_PATH of the outgoing route (RFC 4271 §5.1.2, RFC 5065 §4.1). -/
def outgoingPath : AsPath :=
  let path := attrs.asPath.getD .new
  if cfg.peerRole.prependsAsPath && !cfg.routeServerClient then
    match cfg.peerRole with
    | .confederationExternal => path.prependConfed cfg.localAs
    | .ebgp =>
      match cfg.confederation with
      | some confed => path.stripConfed.prepend (confed.externalAs.getD cfg.localAs)
      | none => path.prepend cfg.localAs
    | _ => path
  else path

/-- The AS_PATH attribute, written at the width the speaker is configured with. -/
def asPathAttr (path : AsPath) : PathAttribute :=
  ⟨PathAttrFlags.new.setTransitive true, .asPath, path.encodeAt cfg.asn4⟩

/-- The attributes with the path that goes out. -/
def egressAsPath : PathAttributes :=
  ((attrs.remove .asPath).remove .as4Path).insert (asPathAttr cfg (outgoingPath cfg attrs))

/-- LOCAL_PREF goes to internal peers only (RFC 4271 §5.1.5). -/
def egressLocalPref : PathAttributes :=
  if cfg.peerRole.isInternal then
    if attrs.localPref.isNone then attrs.setLocalPref 100 else attrs
  else attrs.remove .localPref

end

/-- `next_hop_attr`. -/
def nextHopAttr (ip : IpAddr) : PathAttribute :=
  ⟨PathAttrFlags.new.setTransitive true, .nextHop, ip.octets⟩

section

variable (p : BgpPeer) (route : Route) (attrs : PathAttributes)

/-- Replace the NEXT_HOP attribute. -/
def setNextHop (ip : IpAddr) : PathAttributes :=
  (attrs.remove .nextHop).insert (nextHopAttr ip)

/-- Next-hop-self towards an external peer.  An IPv6 source serves IPv4 NLRI only
where the extended next hop was negotiated (RFC 5549), and an IPv4 source never
serves IPv6 NLRI. -/
def nextHopSelf (family : NlriFamily) (source : IpAddr) (attrs : PathAttributes)
    (nextHop : Option IpAddr) : PathAttributes × Option IpAddr :=
  match source with
  | .v6 _ =>
    if family = .ipv6Unicast then (attrs, some source)
    else if family = .ipv4Unicast then
      if p.ipv4OverIpv6 then (setNextHop attrs source, some source) else (attrs, nextHop)
    else (attrs, some source)
  | .v4 _ =>
    if family = .ipv4Unicast then (setNextHop attrs source, some source)
    else if family = .ipv6Unicast then (attrs, nextHop)
    else (attrs, some source)

/-- A locally originated route without a next hop gets the local address. -/
def originatedNextHop (family : NlriFamily) (source : IpAddr) (attrs : PathAttributes)
    (nextHop : Option IpAddr) : PathAttributes × Option IpAddr :=
  match source with
  | .v4 _ =>
    if family = .ipv4Unicast then (setNextHop attrs source, some source) else (attrs, nextHop)
  | .v6 _ => if family = .ipv6Unicast then (attrs, some source) else (attrs, nextHop)

/-- NEXT_HOP: the attributes and the next hop the NLRI is sent with. -/
def egressNextHop : PathAttributes × Option IpAddr :=
  let nextHop := route.nextHop.or attrs.nextHop
  match p.cfg.localAddress with
  | none => (attrs, nextHop)
  | some source =>
    if p.cfg.peerRole.rewritesNextHop && !p.cfg.routeServerClient then
      p.nextHopSelf route.key.family source attrs nextHop
    else if nextHop.isNone && route.origin.proto == 2 then
      originatedNextHop route.key.family source attrs nextHop
    else (attrs, nextHop)

/-- ORIGINATOR_ID and CLUSTER_LIST towards a client of a route reflector
(RFC 4456 §8). -/
def egressReflection (cfg : PeerConfig) (originator : Option RouterId)
    (attrs : PathAttributes) : PathAttributes :=
  if cfg.routeReflectorClient && cfg.routeReflector.enabled then
    let attrs :=
      if (attrs.get .originatorId).isNone then
        attrs.insert ⟨PathAttrFlags.new.setOptional true, .originatorId,
          toBe32 (originator.getD cfg.localBgpId)⟩
      else attrs
    let list := ((attrs.get .clusterList).map fun a => decodeWords a.value).getD []
    attrs.insert ⟨PathAttrFlags.new.setOptional true, .clusterList,
      (cfg.routeReflector.effectiveClusterId cfg.localBgpId :: list).flatMap toBe32⟩
  else attrs

/-- The attributes of the outgoing route and its next hop. -/
def egressAttributes (originator : Option RouterId) : PathAttributes × Option IpAddr :=
  let attrs := egressLocalPref p.cfg (egressAsPath p.cfg (.ofAttributes route.attributes))
  let (attrs, nextHop) := p.egressNextHop route attrs
  (egressReflection p.cfg originator attrs, nextHop)

/-! ## NLRI -/

/-- The next hop of an MP_REACH_NLRI. -/
def mpNextHop : IpAddr → MpNextHop
  | .v4 a => .v4 a
  | .v6 a => .v6Global a

/-- Replace the inherited MP attributes by an MP_REACH_NLRI with the given value. -/
def withMpReach (value : Bytes) : PathAttributes :=
  ((attrs.remove .mpReachNlri).remove .mpUnreachNlri).insert
    ⟨PathAttrFlags.new.setOptional true, .mpReachNlri, value⟩

/-- A labelled route (RFC 8277) needs its label stack and a next hop. -/
def labeledUpdate (nextHop : Option IpAddr) : Option Update := do
  let stack ← attrs.labelStack
  let nh ← nextHop
  let family := route.key.family
  some ⟨[], withMpReach ((attrs.remove .nextHop).remove .lrMplsLabelStack)
    (LabeledNlri.encodeMpReach family (mpNextHop nh) [⟨route.pathId, stack, route.key.pfx⟩]
      (p.addPathTxFor family)), []⟩

/-- A route of a family without labels.  IPv4 unicast stands in the plain section
unless its next hop is IPv6 (RFC 5549); there the attributes keep what they
inherited. -/
def plainUpdate (nextHop : Option IpAddr) : Option Update :=
  let family := route.key.family
  let entry : Nlri := ⟨route.pathId, route.key.pfx⟩
  let mpReach (attrs : PathAttributes) (nh : MpNextHop) : Update :=
    ⟨[], withMpReach attrs (MpReach.encodeEx ⟨family, nh, [entry]⟩ (p.addPathTxFor family)), []⟩
  if family = .ipv4Unicast then
    match nextHop with
    | some (.v6 a) =>
      if p.ipv4OverIpv6 then some (mpReach (attrs.remove .nextHop) (.v4OverV6 a))
      else some ⟨[], if (attrs.get .nextHop).isNone then attrs.insert (nextHopAttr (.v6 a))
        else attrs, [entry]⟩
    | some nh =>
      some ⟨[], if (attrs.get .nextHop).isNone then attrs.insert (nextHopAttr nh) else attrs,
        [entry]⟩
    | none => some ⟨[], attrs, [entry]⟩
  else nextHop.map fun nh => mpReach attrs (mpNextHop nh)

/-- The UPDATE for a route, or `none` when the route is not advertised to this
peer. -/
def egressUpdate (originator : Option RouterId) : Option Update :=
  if p.egressGates route (.ofAttributes route.attributes) then
    let (attrs, nextHop) := p.egressAttributes route originator
    if route.key.family.isLabeledUnicast then p.labeledUpdate route attrs nextHop
    else p.plainUpdate route attrs nextHop
  else none

/-- `advertise_with_originator`: whether an UPDATE was handed to `send_msg`, whose
own result is not looked at. -/
def advertiseWithOriginator (originator : Option RouterId) : Outcome Empty (BgpPeer × Bool) :=
  match p.egressUpdate route originator with
  | none => ok (p, false)
  | some u => (·, true) <$> p.enqueue (.update u)

end

variable {p : BgpPeer} {route : Route} {originator : Option RouterId}

theorem advertise_true {q : BgpPeer} (h : p.advertiseWithOriginator route originator = ok (q, true))
    :
    ∃ u, p.egressUpdate route originator = some u ∧ p.enqueue (.update u) = ok q := by
  unfold advertiseWithOriginator at h
  cases hu : p.egressUpdate route originator with
  | none =>
    rw [hu] at h
    cases h
  | some u =>
    rw [hu] at h
    obtain ⟨_, henq, ⟨⟩⟩ := map_eq_ok.mp h
    exact ⟨u, rfl, henq⟩

/-! ## The shapes of an outgoing UPDATE -/

/-- The MP_REACH_NLRI value of an outgoing route: labelled, IPv4 with an IPv6 next
hop, or of another family. -/
inductive MpReachValue (p : BgpPeer) (route : Route) (attrs : PathAttributes) :
    Option IpAddr → Bytes → Prop where
  | labeled {stack : LabelStack} {nh : IpAddr} :
      route.key.family.isLabeledUnicast = true → attrs.labelStack = some stack →
      MpReachValue p route attrs (some nh) (LabeledNlri.encodeMpReach route.key.family
        (mpNextHop nh) [⟨route.pathId, stack, route.key.pfx⟩] (p.addPathTxFor route.key.family))
  | overIpv6 {a : Octets 16} :
      route.key.family = .ipv4Unicast →
      MpReachValue p route attrs (some (.v6 a)) (MpReach.encodeEx
        ⟨route.key.family, .v4OverV6 a, [⟨route.pathId, route.key.pfx⟩]⟩
        (p.addPathTxFor route.key.family))
  | plain {nh : IpAddr} :
      route.key.family.isLabeledUnicast = false → route.key.family ≠ .ipv4Unicast →
      MpReachValue p route attrs (some nh) (MpReach.encodeEx
        ⟨route.key.family, mpNextHop nh, [⟨route.pathId, route.key.pfx⟩]⟩
        (p.addPathTxFor route.key.family))

/-- The attributes an MP_REACH_NLRI is added to. -/
inductive Trimmed (attrs : PathAttributes) : PathAttributes → Prop where
  | all : Trimmed attrs attrs
  | noNextHop : Trimmed attrs (attrs.remove .nextHop)
  | noLabels : Trimmed attrs ((attrs.remove .nextHop).remove .lrMplsLabelStack)

/-- An outgoing UPDATE withdraws nothing and announces the route either in its plain
section, with the attributes otherwise as they are, or in a new MP_REACH_NLRI. -/
theorem egressUpdate_cases {u : Update} (h : p.egressUpdate route originator = some u) :
    (route.key.family = .ipv4Unicast ∧ ∃ attrs, u = ⟨[], attrs, [⟨route.pathId, route.key.pfx⟩]⟩ ∧
      (attrs = (p.egressAttributes route originator).1 ∨
        ∃ ip, attrs = (p.egressAttributes route originator).1.insert (nextHopAttr ip))) ∨
    ∃ base value, u = ⟨[], withMpReach base value, []⟩ ∧
      Trimmed (p.egressAttributes route originator).1 base ∧
      MpReachValue p route (p.egressAttributes route originator).1
        (p.egressAttributes route originator).2 value := by
  unfold egressUpdate at h
  split at h
  · dsimp only at h
    set attrs := (p.egressAttributes route originator).1
    cases hnh : (p.egressAttributes route originator).2 with
    | none =>
      rw [hnh] at h
      split at h
      · cases hstack : attrs.labelStack <;> simp [labeledUpdate, hstack] at h
      unfold plainUpdate at h
      dsimp only at h
      split at h
      · rename_i hfam
        cases h
        exact .inl ⟨hfam, attrs, rfl, .inl rfl⟩
      · cases h
    | some nh =>
      rw [hnh] at h
      split at h
      · rename_i hlabeled
        cases hstack : attrs.labelStack with
        | none => simp [labeledUpdate, hstack] at h
        | some stack =>
          simp only [labeledUpdate, hstack, bind_eq_bind, bind_some,
            some.injEq] at h
          exact .inr ⟨_, _, h.symm, .noLabels, .labeled hlabeled hstack⟩
      · rename_i hlabeled
        -- a plain entry with the next hop added when there is none
        have hplain : ∀ ip, route.key.family = .ipv4Unicast → some (⟨[],
            if (attrs.get .nextHop).isNone then attrs.insert (nextHopAttr ip) else attrs,
            [⟨route.pathId, route.key.pfx⟩]⟩ : Update) = some u →
            route.key.family = .ipv4Unicast ∧ ∃ attrs', u = ⟨[], attrs',
              [⟨route.pathId, route.key.pfx⟩]⟩ ∧
              (attrs' = attrs ∨ ∃ ip, attrs' = attrs.insert (nextHopAttr ip)) := by
          intro ip hfam hu
          refine ⟨hfam, _, (some.inj hu).symm, ?_⟩
          split
          · exact .inr ⟨ip, rfl⟩
          · exact .inl rfl
        unfold plainUpdate at h
        dsimp only at h
        split at h
        · rename_i hfam
          cases nh with
          | v4 a => exact .inl (hplain _ hfam h)
          | v6 a =>
            dsimp only at h
            split at h
            · cases h
              exact .inr ⟨_, _, rfl, .noNextHop, .overIpv6 hfam⟩
            · exact .inl (hplain _ hfam h)
        · rename_i hfam
          cases h
          exact .inr ⟨_, _, rfl, .all, .plain (by simpa using hlabeled) hfam⟩
  · cases h

/-! ## What the egress rules leave alone -/

/-- The attributes after some of the types `ts` have been written or removed. -/
inductive Edited (ts : List AttrType) (attrs : PathAttributes) : PathAttributes → Prop where
  | refl : Edited ts attrs attrs
  | insert {b : PathAttributes} {t : AttrType} {flags : PathAttrFlags} {value : Bytes}
      (h : Edited ts attrs b) (ht : t ∈ ts) : Edited ts attrs (b.insert ⟨flags, t, value⟩)
  | remove {b : PathAttributes} {t : AttrType} (h : Edited ts attrs b) (ht : t ∈ ts) :
      Edited ts attrs (b.remove t)

/-- The types the attribute rules write besides AS_PATH and AS4_PATH. -/
def rewritten : List AttrType := [.localPref, .nextHop, .originatorId, .clusterList]

namespace Edited

variable {ts : List AttrType} {attrs b : PathAttributes}

section

variable (h : Edited ts attrs b)
include h

theorem get {t : AttrType} (ht : t ∉ ts) : b.get t = attrs.get t := by
  have hne {u : AttrType} (hu : u ∈ ts) : u ≠ t := fun heq => ht (heq ▸ hu)
  induction h with
  | refl => rfl
  | insert _ hu ih => rw [PathAttributes.get_insert, if_neg (hne hu), ih]
  | remove _ hu ih => rw [PathAttributes.get_remove, if_neg (hne hu), ih]

theorem canonical (hts : ∀ t ∈ ts, t.Canonical) (hattrs : attrs.Canonical) : b.Canonical := by
  induction h with
  | refl => exact hattrs
  | insert _ hu ih => exact ih.insert (hts _ hu)
  | remove _ _ ih => exact ih.remove _

theorem mono {ts' : List AttrType} (hsub : ts ⊆ ts') : Edited ts' attrs b := by
  induction h with
  | refl => exact .refl
  | insert _ hu ih => exact ih.insert (hsub hu)
  | remove _ hu ih => exact ih.remove (hsub hu)

end

variable (h : Edited rewritten attrs b)
include h

theorem egressLocalPref (cfg : PeerConfig) : Edited rewritten attrs (egressLocalPref cfg b) := by
  unfold BgpPeer.egressLocalPref PathAttributes.setLocalPref
  repeat' split
  · exact h.insert (by decide)
  · exact h
  · exact h.remove (by decide)

theorem egressNextHop (p : BgpPeer) (route : Route) :
    Edited rewritten attrs (p.egressNextHop route b).1 := by
  have hset (ip : IpAddr) : Edited rewritten attrs (setNextHop b ip) :=
    (h.remove (by decide)).insert (by decide)
  unfold BgpPeer.egressNextHop nextHopSelf originatedNextHop
  dsimp only
  repeat' split
  all_goals first | exact h | exact hset _

theorem egressReflection (cfg : PeerConfig) (originator : Option RouterId) :
    Edited rewritten attrs (egressReflection cfg originator b) := by
  unfold BgpPeer.egressReflection
  split
  · dsimp only
    split
    · exact (h.insert (by decide)).insert (by decide)
    · exact h.insert (by decide)
  · exact h

end Edited

section

variable {t : AttrType} (p : BgpPeer) (route : Route) (originator : Option RouterId)

theorem egressAsPath_get (cfg : PeerConfig) (attrs : PathAttributes) (hpath : t ≠ .asPath)
    (has4 : t ≠ .as4Path) : (egressAsPath cfg attrs).get t = attrs.get t := by
  simp [egressAsPath, asPathAttr, hpath.symm, has4.symm]

theorem egressAttributes_edited :
    Edited rewritten (egressAsPath p.cfg (.ofAttributes route.attributes))
      (p.egressAttributes route originator).1 :=
  ((Edited.refl.egressLocalPref p.cfg).egressNextHop p route).egressReflection p.cfg originator

theorem egressAttributes_get (ht : t ∉ rewritten) :
    (p.egressAttributes route originator).1.get t =
      (egressAsPath p.cfg (.ofAttributes route.attributes)).get t :=
  (egressAttributes_edited p route originator).get ht

end

section

variable {p : BgpPeer} {route : Route} {originator : Option RouterId} {u : Update}

/-- The types that a rule or the NLRI encoding writes. -/
def outgoing : List AttrType := rewritten ++ [.mpReachNlri, .mpUnreachNlri, .lrMplsLabelStack]

theorem egressUpdate_edited (h : p.egressUpdate route originator = some u) :
    Edited outgoing (egressAsPath p.cfg (.ofAttributes route.attributes)) u.attributes := by
  have hattrs := (egressAttributes_edited p route originator).mono
    (subset_append_left _ [AttrType.mpReachNlri, .mpUnreachNlri, .lrMplsLabelStack])
  rcases egressUpdate_cases h with ⟨-, attrs, rfl, rfl | ⟨ip, rfl⟩⟩ | ⟨base, value, rfl, hbase, -⟩
  · exact hattrs
  · exact hattrs.insert (by decide)
  have hbase : Edited outgoing (egressAsPath p.cfg (.ofAttributes route.attributes)) base := by
    cases hbase with
    | all => exact hattrs
    | noNextHop => exact hattrs.remove (by decide)
    | noLabels => exact (hattrs.remove (by decide)).remove (by decide)
  exact ((hbase.remove (by decide)).remove (by decide)).insert (by decide)

/-- An attribute that is neither rewritten nor part of the NLRI encoding goes out as
AS_PATH handling left it. -/
theorem egressUpdate_get {t : AttrType} (h : p.egressUpdate route originator = some u)
    (ht : t ∉ rewritten) (hmp : t ∉ [AttrType.mpReachNlri, .mpUnreachNlri, .lrMplsLabelStack]) :
    u.attributes.get t = (egressAsPath p.cfg (.ofAttributes route.attributes)).get t :=
  (egressUpdate_edited h).get fun hmem => (mem_append.mp hmem).elim ht hmp

/-- An outgoing UPDATE has only attribute types a decoder can produce. -/
theorem canonical_egressUpdate (h : p.egressUpdate route originator = some u) :
    u.attributes.Canonical :=
  (egressUpdate_edited h).canonical (by decide)
    ((((PathAttributes.canonical_ofAttributes _).remove _).remove _).insert rfl)

end

/-! ## Withdrawals -/

/-- The UPDATE that withdraws the entries.  A labelled withdrawal carries an
implicit-null label. -/
def withdrawUpdate (p : BgpPeer) (entries : List Nlri) (family : NlriFamily) : Update :=
  let mpUnreach (value : Bytes) : Update :=
    ⟨[], PathAttributes.new.insert
      ⟨PathAttrFlags.new.setOptional true, .mpUnreachNlri, value⟩, []⟩
  if family.isLabeledUnicast then
    mpUnreach (LabeledNlri.encodeMpUnreach family
      (entries.map fun e => ⟨e.pathId, [Label.newValue Label.implicitNull.value], e.pfx⟩)
      (p.addPathTxFor family))
  else if family = .ipv4Unicast ∧ !p.ipv4OverIpv6 then ⟨entries, .new, []⟩
  else mpUnreach (MpUnreach.encodeEx ⟨family, entries⟩ (p.addPathTxFor family))

/-- `withdraw_paths`: one UPDATE for all entries. -/
def withdrawPaths (p : BgpPeer) (entries : List Nlri) (family : NlriFamily) :
    Outcome Empty BgpPeer :=
  if !p.established then ok p
  else if family = .ipv4Unicast ∧ !p.cfg.ipv4UnicastActive then ok p
  else p.enqueue (.update (p.withdrawUpdate entries family))

/-- `send_end_of_rib`: the empty UPDATE. -/
def sendEndOfRib (p : BgpPeer) : Outcome Empty BgpPeer :=
  if !p.established then ok p
  else if !p.cfg.ipv4UnicastActive then ok p
  else p.enqueue (.update ⟨[], .new, []⟩)

end BgpPeer

end LibRouting.Bgp
