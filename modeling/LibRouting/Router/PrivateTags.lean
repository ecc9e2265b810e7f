/-
  Router/PrivateTags.lean --- what the library's private attribute tags of a received
  UPDATE do to the routes it brings.

  The private tags share the type space with the wire.  An UPDATE is compared with
  the one that lacks its private attributes: `Body` names the parts of an UPDATE body,
  `effects` is what the session hands to the router for it.
-/
import LibRouting.Bgp.BestPath
import LibRouting.Bgp.UpdateParts
import LibRouting.Router.Import

set_option autoImplicit false

namespace LibRouting.Router

open Foundation Core Bgp Outcome PathAttributes BgpPeer List

variable {p : BgpPeer} {u : Update}

/-! ## What the router is handed -/

/-- The actions of an UPDATE between the End-of-RIB marker and the routes. -/
def withdrawals (p : BgpPeer) (attrs : PathAttributes) (gone : List (RouteKey × UInt32)) :
    List BgpAction :=
  gone.map (fun w => .withdrawRoute w.1 w.2) ++ if p.confedLeak attrs then [confedLog p.cfg] else []

/-- The routes of an UPDATE as they reach import. -/
def installs (p : BgpPeer) (peerAddress : Option IpAddr) (attrs : PathAttributes)
    (xs : List Announcement) : List BgpAction :=
  if accepted p attrs then
    xs.map fun x => .installRoute (stampPeerSource peerAddress (x.route p
      (canonicalPath p.cfg (relayUnknown attrs)) (BgpPeer.normalize p.cfg attrs)))
  else []

/-- What an UPDATE body makes the session hand to the router; `none` when the body is
refused. -/
def effects (p : BgpPeer) (peerAddress : Option IpAddr) (body : Bytes) : Option (List BgpAction) :=
  match decodeUpdate body (p.codec.rxAddPath .ipv4Unicast) with
  | .ok u =>
    match p.handleUpdateInEstablished u with
    | .ok actions => some (actions.map (dispatched peerAddress))
    | _ => none
  | _ => none

theorem map_dispatched {peerAddress : Option IpAddr} {actions : List BgpAction}
    (h : ∀ a ∈ actions, ∀ r, a ≠ .installRoute r) :
    actions.map (dispatched peerAddress) = actions := by
  refine (map_congr_left fun a ha => ?_).trans (map_id _)
  cases a with
  | installRoute r => exact absurd rfl (h _ ha r)
  | _ => rfl

/-- Only the routes of an UPDATE are stamped. -/
theorem quiet_ne_install (p : BgpPeer) (u : Update) (gone : List (RouteKey × UInt32)) :
    ∀ a ∈ p.endOfRibActions u ++ withdrawals p u.attributes gone, ∀ r, a ≠ .installRoute r := by
  intro a ha r
  simp only [withdrawals, mem_append, mem_map, mem_ite_nil_right, mem_singleton] at ha
  obtain ha | ⟨w, -, rfl⟩ | ⟨-, rfl⟩ := ha
  · obtain ⟨family, rfl⟩ := mem_endOfRibActions ha
    simp
  · simp
  · simp [confedLog]

/-- The effects of a body that decodes: End-of-RIB, withdrawals, routes. -/
theorem effects_of_decode {body : Bytes}
    (hdec : decodeUpdate body (p.codec.rxAddPath .ipv4Unicast) = ok u)
    (peerAddress : Option IpAddr) :
    effects p peerAddress body =
      match p.withdrawn u, p.announcements u with
      | .ok gone, .ok xs => some (p.endOfRibActions u ++ withdrawals p u.attributes gone ++
          installs p peerAddress u.attributes xs)
      | _, _ => none := by
  unfold effects handleUpdateInEstablished
  simp only [hdec]
  cases p.withdrawn u with
  | err e => exact e.elim
  | abort => rfl
  | ok gone =>
    cases p.announcements u with
    | err e => exact e.elim
    | abort => rfl
    | ok xs =>
      simp only [ok_bind, pure_eq_ok, Option.some.injEq]
      rw [append_assoc (p.endOfRibActions u), map_append]
      refine congrArg₂ _ (map_dispatched (quiet_ne_install p u gone)) ?_
      unfold installs
      split
      · rw [map_map]
        rfl
      · rfl

/-! ## The same UPDATE without its private attributes -/

/-- The UPDATE without private attributes. -/
def publicPart (u : Update) : Update := ⟨u.withdrawn, sentAttributes u.attributes, u.nlri⟩

section PublicPart

variable (attrs : PathAttributes) {t : AttrType}

theorem sentAttributes_get (t : AttrType) :
    (sentAttributes attrs).get t = if t.isPrivate then none else attrs.get t := by
  rw [sentAttributes, get_retain_type attrs (fun t => !t.isPrivate)]
  cases t.isPrivate <;> rfl

theorem relayUnknown_sentAttributes_get (t : AttrType) :
    (relayUnknown (sentAttributes attrs)).get t =
      if t.isPrivate then none else (relayUnknown attrs).get t := by
  simp only [relayUnknown, get_mapFlags, get_retain,
    sentAttributes_get]
  cases t.isPrivate <;> rfl

theorem canonicalPath_sentAttributes (cfg : PeerConfig) :
    canonicalPath cfg (relayUnknown (sentAttributes attrs)) =
      canonicalPath cfg (relayUnknown attrs) := by
  simp only [canonicalPath, asPathWire, as4Path,
    PathAttributes.read, relayUnknown_sentAttributes_get, AttrType.isPrivate, Bool.false_eq_true,
    if_false]

theorem confedLeak_sentAttributes (p : BgpPeer) :
    p.confedLeak (sentAttributes attrs) = p.confedLeak attrs := by
  rw [confedLeak, canonicalPath_sentAttributes]
  rfl

theorem accepted_sentAttributes (p : BgpPeer) :
    accepted p (sentAttributes attrs) = accepted p attrs := by
  simp only [accepted, confedLeak_sentAttributes, requiredAttributes,
    origin, asPath, as4Path, nextHop,
    PathAttributes.read, sentAttributes_get, AttrType.isPrivate, Bool.false_eq_true, if_false]

theorem normalize_get_private (cfg : PeerConfig) (ht : t.isPrivate = true) :
    (BgpPeer.normalize cfg attrs).get t = attrs.get t := by
  have hnamed : ∀ c, t ≠ .other c := by rintro c rfl; cases ht
  have hpath : ¬ AttrType.asPath = t := by rintro rfl; cases ht
  have has4 : ¬ AttrType.as4Path = t := by rintro rfl; cases ht
  unfold BgpPeer.normalize
  dsimp only
  split
  · rw [get_insert, if_neg hpath, get_remove, if_neg has4,
      relayUnknown_get _ hnamed]
  · rw [get_remove, if_neg has4, relayUnknown_get _ hnamed]

theorem normalize_sentAttributes_get (cfg : PeerConfig) (t : AttrType) :
    (BgpPeer.normalize cfg (sentAttributes attrs)).get t =
      if t.isPrivate then none else (BgpPeer.normalize cfg attrs).get t := by
  cases ht : t.isPrivate with
  | true =>
    rw [normalize_get_private _ _ ht, sentAttributes_get, ht]
    rfl
  | false =>
    simp only [BgpPeer.normalize, canonicalPath_sentAttributes, Bool.false_eq_true, if_false]
    split
    · simp only [get_insert, get_remove,
        relayUnknown_sentAttributes_get, ht, Bool.false_eq_true, if_false]
    · simp only [get_remove, relayUnknown_sentAttributes_get, ht,
        Bool.false_eq_true, if_false]

variable (p : BgpPeer) (u : Update)

theorem withdrawn_publicPart : p.withdrawn (publicPart u) = p.withdrawn u := by
  simp only [withdrawn, plainWithdrawn, mpWithdrawn, publicPart, sentAttributes_get,
    AttrType.isPrivate, Bool.false_eq_true, if_false]

theorem announcements_publicPart : p.announcements (publicPart u) = p.announcements u := by
  simp only [announcements, plainAnnouncements, mpAnnouncements, publicPart, sentAttributes_get,
    nextHop, PathAttributes.read, AttrType.isPrivate, Bool.false_eq_true, if_false]

theorem withdrawals_publicPart (gone : List (RouteKey × UInt32)) :
    withdrawals p (publicPart u).attributes gone = withdrawals p u.attributes gone := by
  rw [withdrawals, publicPart, confedLeak_sentAttributes]
  rfl

/-- An UPDATE with a private attribute is no End-of-RIB marker. -/
theorem endOfRibActions_of_private {a : PathAttribute} (ha : a ∈ u.attributes.attrs)
    (hpriv : a.attrType.isPrivate = true) : p.endOfRibActions u = [] := by
  fun_cases endOfRibActions p u with
  | case1 hempty attr hget h l safi hvalue hone =>
    -- MP_UNREACH_NLRI and the private attribute are two
    obtain ⟨b, hb⟩ := length_eq_one_iff.mp hone
    have hattr := mem_of_get hget
    have htype := attrType_of_get hget
    simp only [hb, mem_singleton] at ha hattr
    rw [ha, ← hattr, htype] at hpriv
    cases hpriv
  | case4 hempty hget hnone => simp [hnone.1] at ha
  | case2 | case3 | case5 | case6 => rfl

end PublicPart

/-! ## Tags the library writes itself -/

/-- The library overwrites the tag on the routes of the family: the peer address where
one is configured, the label stack on labelled routes. -/
def OwnTag (peerAddress : Option IpAddr) (family : NlriFamily) (t : AttrType) : Prop :=
  (t = .lrPeerSourceAddress ∧ peerAddress.isSome = true) ∨
    (t = .lrMplsLabelStack ∧ family.isLabeledUnicast = true)
  deriving Decidable

/-- The attributes a route reaches import with. -/
def importAttributes (peerAddress : Option IpAddr) (x : Announcement) (attrs : PathAttributes) :
    PathAttributes :=
  match peerAddress with
  | none => x.attributes attrs
  | some addr => (x.attributes attrs).setPeerSourceAddress addr

section OwnTag

variable {peerAddress : Option IpAddr} {x : Announcement} {attrs attrs' : PathAttributes}
  {t : AttrType}

theorem canonical_importAttributes (h : attrs.Canonical) :
    (importAttributes peerAddress x attrs).Canonical := by
  have hx : (x.attributes attrs).Canonical := by
    unfold Announcement.attributes
    split
    · exact h
    · exact h.insert rfl
  unfold importAttributes
  split
  · exact hx
  · exact hx.insert rfl

theorem importAttributes_get (hstack : x.stack.isSome = x.family.isLabeledUnicast)
    (ht : ¬ OwnTag peerAddress x.family t) :
    (importAttributes peerAddress x attrs).get t = attrs.get t := by
  simp only [OwnTag, not_or, not_and] at ht
  have hx : (x.attributes attrs).get t = attrs.get t := by
    unfold Announcement.attributes
    split
    · rfl
    rename_i stack hs
    rw [setLabelStack, get_insert, if_neg]
    rintro rfl
    exact ht.2 rfl (by rw [← hstack, hs]; rfl)
  unfold importAttributes
  split
  · exact hx
  · rw [setPeerSourceAddress, get_insert, if_neg, hx]
    rintro rfl
    exact ht.1 rfl rfl

/-- A tag the library writes does not depend on what was received. -/
theorem importAttributes_get_own (hstack : x.stack.isSome = x.family.isLabeledUnicast)
    (ht : OwnTag peerAddress x.family t) :
    (importAttributes peerAddress x attrs).get t =
      (importAttributes peerAddress x attrs').get t := by
  rcases ht with ⟨rfl, hsome⟩ | ⟨rfl, hlabeled⟩
  · obtain ⟨addr, rfl⟩ := Option.isSome_iff_exists.mp hsome
    simp [importAttributes, setPeerSourceAddress]
  rw [← hstack] at hlabeled
  obtain ⟨stack, hs⟩ := Option.isSome_iff_exists.mp hlabeled
  have hx : ∀ attrs, (x.attributes attrs).get .lrMplsLabelStack =
      some ⟨PathAttrFlags.new.setOptional true, .lrMplsLabelStack, stack.encode4octet⟩ := by
    intro attrs
    simp [Announcement.attributes, hs, setLabelStack]
  unfold importAttributes
  split
  · rw [hx, hx]
  · simp [setPeerSourceAddress, hx]

theorem stamped_getElem? (p : BgpPeer) (path : AsPath) (h : attrs.Canonical) (tag : UInt8) :
    (stampPeerSource peerAddress (x.route p path attrs)).attributes[tag]? =
      ((importAttributes peerAddress x attrs).get (AttrType.fromU8 tag)).map
        stored := by
  have hnone : (importAttributes none x attrs).Canonical := canonical_importAttributes h
  have hx : (x.attributes attrs).Canonical := hnone
  cases peerAddress with
  | none => exact getElem?_toAttributes hx tag
  | some addr =>
    have hcan : ((ofAttributes
        (x.attributes attrs).toAttributes).setPeerSourceAddress addr).Canonical :=
      (canonical_ofAttributes _).insert rfl
    have hback := get_ofAttributes_toAttributes hx (AttrType.canonical_fromU8 tag)
    rw [show (stampPeerSource (some addr) (x.route p path attrs)).attributes =
      ((ofAttributes
        (x.attributes attrs).toAttributes).setPeerSourceAddress addr).toAttributes from rfl,
      getElem?_toAttributes hcan]
    simp only [importAttributes, setPeerSourceAddress,
      get_insert, hback]

theorem map_stored_inj {A B : PathAttributes}
    (h : (A.get t).map stored = (B.get t).map stored) :
    A.get t = B.get t := by
  cases ha : A.get t with
  | none =>
    rw [ha] at h
    exact (Option.map_eq_none_iff.mp h.symm).symm
  | some a =>
    rw [ha] at h
    obtain ⟨b, hb, hsame⟩ := Option.map_eq_some_iff.mp h.symm
    rw [hb]
    obtain ⟨⟨bits⟩, type, value⟩ := a
    obtain ⟨⟨bits'⟩, type', value'⟩ := b
    obtain rfl := attrType_of_get ha
    obtain rfl := attrType_of_get hb
    obtain ⟨rfl, rfl⟩ : bits' = bits ∧ value' = value := Attribute.mk.inj hsame
    rfl

/-- Two attribute lists make the same route exactly when they agree on every tag the
library does not write. -/
theorem stamped_eq_iff (p : BgpPeer) (path : AsPath)
    (hstack : x.stack.isSome = x.family.isLabeledUnicast) (h : attrs.Canonical)
    (h' : attrs'.Canonical) :
    stampPeerSource peerAddress (x.route p path attrs) =
        stampPeerSource peerAddress (x.route p path attrs') ↔
      ∀ t, t.Canonical → ¬ OwnTag peerAddress x.family t → attrs.get t = attrs'.get t := by
  constructor
  · intro heq t ht hown
    have hlook := congrArg (fun r : Route => r.attributes[t.toU8]?) heq
    simp only [stamped_getElem? p path h, stamped_getElem? p path h',
      show AttrType.fromU8 t.toU8 = t from ht] at hlook
    have hleft : (importAttributes peerAddress x attrs).get t = attrs.get t :=
      importAttributes_get hstack hown
    have hright : (importAttributes peerAddress x attrs').get t = attrs'.get t :=
      importAttributes_get hstack hown
    rw [← hleft, ← hright]
    exact map_stored_inj hlook
  · intro hagree
    have hattrs : (stampPeerSource peerAddress (x.route p path attrs)).attributes =
        (stampPeerSource peerAddress (x.route p path attrs')).attributes := by
      apply Std.ExtTreeMap.ext_getElem?
      intro tag
      rw [stamped_getElem? p path h, stamped_getElem? p path h']
      congr 1
      by_cases hown : OwnTag peerAddress x.family (AttrType.fromU8 tag)
      · exact importAttributes_get_own hstack hown
      · rw [importAttributes_get hstack hown, importAttributes_get hstack hown]
        exact hagree _ (AttrType.canonical_fromU8 tag) hown
    cases peerAddress with
    | none
    | some addr => exact congrArg (fun m => { x.route p path attrs with attributes := m }) hattrs

end OwnTag

/-! ## Private attributes from the wire -/

theorem canonical_normalize (cfg : PeerConfig) {attrs : PathAttributes} (h : attrs.Canonical) :
    (BgpPeer.normalize cfg attrs).Canonical := by
  have hrelay : (relayUnknown attrs).Canonical := by
    intro t ht
    apply h
    simp only [relayUnknown, get_mapFlags, get_retain,
      Option.isSome_map] at ht
    cases hget : attrs.get t with
    | none => simp [hget] at ht
    | some a => rfl
  unfold BgpPeer.normalize
  dsimp only
  split
  · exact (hrelay.remove _).insert rfl
  · exact hrelay.remove _

section

variable (p : BgpPeer) (peerAddress : Option IpAddr)

/-- The routes of an UPDATE are those of its public part exactly when the library
overwrites each of its private attributes. -/
theorem installs_sentAttributes_iff {attrs : PathAttributes} (h : attrs.Canonical)
    {xs : List Announcement} (hstack : ∀ x ∈ xs, x.stack.isSome = x.family.isLabeledUnicast) :
    installs p peerAddress attrs xs = installs p peerAddress (sentAttributes attrs) xs ↔
      (accepted p attrs = true → ∀ x ∈ xs, ∀ a ∈ attrs.attrs, a.attrType.isPrivate = true →
        OwnTag peerAddress x.family a.attrType) := by
  have hsent : (sentAttributes attrs).Canonical := by
    intro t ht
    apply h
    rw [sentAttributes_get] at ht
    split at ht
    · cases ht
    · exact ht
  simp only [installs, accepted_sentAttributes, canonicalPath_sentAttributes]
  by_cases hacc : accepted p attrs = true
  · simp only [hacc, if_true, forall_const, map_inj_left, BgpAction.installRoute.injEq]
    refine forall₂_congr fun x hx => ?_
    rw [stamped_eq_iff p _ (hstack x hx) (canonical_normalize _ h) (canonical_normalize _ hsent)]
    simp only [normalize_sentAttributes_get]
    constructor
    · intro hagree a ha hpriv
      by_contra hown
      have hget : attrs.get a.attrType = some a := get_eq_some_iff.mpr ⟨ha, rfl⟩
      have := hagree a.attrType (h _ (by simp [hget])) hown
      rw [normalize_get_private _ _ hpriv, hget, hpriv] at this
      cases this
    · intro hall t ht hown
      cases hpriv : t.isPrivate with
      | false => rfl
      | true =>
        rw [normalize_get_private _ _ hpriv]
        cases hget : attrs.get t with
        | none => rfl
        | some a =>
          have htype := attrType_of_get hget
          exact absurd (htype ▸ hall a (mem_of_get hget) (htype ▸ hpriv)) hown
  · simp [hacc]

/-- No route that reaches import carries a private attribute of the UPDATE. -/
def NoInjection (body : Bytes) (attrs : List PathAttribute) : Prop :=
  ∀ actions, effects p peerAddress body = some actions →
    ∀ route, .installRoute route ∈ actions → ∀ a ∈ attrs, a.attrType.isPrivate = true →
      OwnTag peerAddress route.key.family a.attrType ∨
        route.attributes[a.attrType.toU8]? ≠ some (stored a)

/-- Private attributes that change nothing: when the rest of the UPDATE is accepted,
their types are distinct, the rest is not an End-of-RIB marker, and the library
overwrites each of them on every route that is kept. -/
def Harmless (rest : Bytes) (tags : List PathAttribute) : Prop :=
  ∀ u paths gone, decodeUpdate rest (p.codec.rxAddPath .ipv4Unicast) = ok u →
    p.announced u = ok paths → p.withdrawn u = ok gone →
    (tags.map PathAttribute.attrType).Nodup ∧ (tags ≠ [] → p.endOfRibActions u = []) ∧
    (accepted p u.attributes = true → ∀ a ∈ tags, ∀ path ∈ paths,
      OwnTag peerAddress path.1.family a.attrType)

end

section Wire

variable {p : BgpPeer} {peerAddress : Option IpAddr} {body rest withdrawn nlri : Bytes}
  {attrs : List PathAttribute} {addPath : Bool} {gone : List (RouteKey × UInt32)}
  {actions : List BgpAction}
  {xs : List Announcement} {u : Update}

/-- The body without private attributes decodes to the public part. -/
theorem decodeUpdate_public (hbody : Body body withdrawn attrs nlri)
    (hrest : Body rest withdrawn (publicOf attrs) nlri) (h : decodeUpdate body addPath = ok u) :
    decodeUpdate rest addPath = ok (publicPart u) := by
  obtain ⟨hwd, hattrs, hnlri⟩ := (decodeUpdate_body hbody addPath u).mp h
  refine (decodeUpdate_body hrest addPath _).mpr ⟨hwd, ?_, hnlri⟩
  rw [← hattrs]
  rfl

/-- The body decodes when the one without private attributes does and no private type
repeats. -/
theorem decodeUpdate_of_public (hbody : Body body withdrawn attrs nlri)
    (hrest : Body rest withdrawn (publicOf attrs) nlri) (h : decodeUpdate rest addPath = ok u)
    (hnd : ((privateOf attrs).map PathAttribute.attrType).Nodup) :
    ∃ v, decodeUpdate body addPath = ok v ∧ publicPart v = u := by
  obtain ⟨hwd, hattrs, hnlri⟩ := (decodeUpdate_body hrest addPath u).mp h
  have hpub : ((publicOf attrs).map PathAttribute.attrType).Nodup := hattrs ▸ u.attributes.nodup
  refine ⟨⟨u.withdrawn, ⟨attrs, (nodup_types_iff attrs).mpr ⟨hnd, hpub⟩⟩, u.nlri⟩,
    (decodeUpdate_body hbody addPath _).mpr ⟨hwd, rfl, hnlri⟩, ?_⟩
  obtain ⟨wd, ⟨as, hnodup⟩, ns⟩ := u
  obtain rfl : as = publicOf attrs := hattrs
  rfl

/-- An UPDATE that decodes has the effects of its public part exactly when its private
attributes do not hide an End-of-RIB marker and are all overwritten. -/
theorem effects_public_iff (hdec : decodeUpdate body (p.codec.rxAddPath .ipv4Unicast) = ok u)
    (hdec' : decodeUpdate rest (p.codec.rxAddPath .ipv4Unicast) = ok (publicPart u))
    (hgone : p.withdrawn u = ok gone) (hxs : p.announcements u = ok xs)
    (hcan : u.attributes.Canonical) :
    effects p peerAddress body = effects p peerAddress rest ↔
      (privateOf u.attributes.attrs ≠ [] → p.endOfRibActions (publicPart u) = []) ∧
      (accepted p u.attributes = true → ∀ x ∈ xs, ∀ a ∈ u.attributes.attrs,
        a.attrType.isPrivate = true → OwnTag peerAddress x.family a.attrType) := by
  rw [← installs_sentAttributes_iff p peerAddress hcan (announcements_stack p u hxs)]
  have hlen : (installs p peerAddress u.attributes xs).length =
      (installs p peerAddress (sentAttributes u.attributes) xs).length := by
    simp only [installs, accepted_sentAttributes]
    split <;> simp
  rw [effects_of_decode hdec, effects_of_decode hdec', withdrawn_publicPart,
    announcements_publicPart, hgone, hxs]
  simp only [withdrawals_publicPart, Option.some.injEq]
  by_cases hpriv : privateOf u.attributes.attrs = []
  · -- nothing private: the public part is the UPDATE
    have hsame : publicPart u = u := by
      obtain ⟨wd, ⟨as, hnd⟩, ns⟩ := u
      have hall : as.filter (fun a => !a.attrType.isPrivate) = as := by
        rw [filter_eq_self]
        intro a ha
        have := filter_eq_nil_iff.mp hpriv a ha
        simpa using this
      simp only [publicPart, sentAttributes, retain, hall]
    have hattrs : sentAttributes u.attributes = u.attributes := congrArg Update.attributes hsame
    simp [hsame, hattrs, hpriv]
  · have hnone : p.endOfRibActions u = [] := by
      obtain ⟨a, ha⟩ := exists_mem_of_ne_nil _ hpriv
      obtain ⟨ha, htype⟩ := mem_filter.mp ha
      exact endOfRibActions_of_private p u ha (by simpa using htype)
    rw [hnone, nil_append]
    constructor
    · intro heq
      have heor : p.endOfRibActions (publicPart u) = [] := by
        have := congrArg length heq
        simp only [length_append, publicPart] at this hlen
        exact eq_nil_of_length_eq_zero (by simp only [publicPart]; omega)
      rw [heor, nil_append] at heq
      exact ⟨fun _ => heor, append_cancel_left heq⟩
    · rintro ⟨heor, hinst⟩
      rw [heor hpriv, nil_append, hinst]
      rfl

theorem installRoute_family (hdec : decodeUpdate body (p.codec.rxAddPath .ipv4Unicast) = ok u)
    (hgone : p.withdrawn u = ok gone) (hxs : p.announcements u = ok xs)
    (heff : effects p peerAddress body = some actions) {route : Route}
    (hroute : .installRoute route ∈ actions) :
    accepted p u.attributes = true ∧ ∃ x ∈ xs, route.key.family = x.family := by
  rw [effects_of_decode hdec, hgone, hxs] at heff
  simp only [Option.some.injEq] at heff
  subst heff
  rcases mem_append.mp hroute with hroute | hroute
  · exact absurd rfl (quiet_ne_install p u gone _ hroute route)
  · unfold installs at hroute
    split at hroute
    · rename_i hacc
      obtain ⟨x, hx, heq⟩ := mem_map.mp hroute
      refine ⟨hacc, x, hx, ?_⟩
      cases heq
      cases peerAddress <;> rfl
    · simp at hroute

theorem effects_some (h : effects p peerAddress body = some actions) :
    ∃ u gone xs, decodeUpdate body (p.codec.rxAddPath .ipv4Unicast) = ok u ∧
      p.withdrawn u = ok gone ∧ p.announcements u = ok xs := by
  cases hdec : decodeUpdate body (p.codec.rxAddPath .ipv4Unicast) with
  | ok u =>
    rw [effects_of_decode hdec] at h
    cases hgone : p.withdrawn u with
    | ok gone =>
      cases hxs : p.announcements u with
      | ok xs => exact ⟨u, gone, xs, rfl, hgone, hxs⟩
      | err e => exact e.elim
      | abort => simp [hgone, hxs] at h
    | err e => exact e.elim
    | abort => simp [hgone] at h
  | err e | abort => simp [effects, hdec] at h

/-- An UPDATE whose public part is not accepted has no effects either. -/
theorem effects_eq_none (hbody : Body body withdrawn attrs nlri)
    (hrest : Body rest withdrawn (publicOf attrs) nlri)
    (h : effects p peerAddress rest = none) : effects p peerAddress body = none := by
  by_contra hsome
  obtain ⟨actions, hact⟩ := Option.ne_none_iff_exists'.mp hsome
  obtain ⟨u, gone, xs, hdec, hgone, hxs⟩ := effects_some hact
  rw [effects_of_decode (decodeUpdate_public hbody hrest hdec), withdrawn_publicPart,
    announcements_publicPart, hgone, hxs] at h
  cases h

/-- Private attributes of an UPDATE stay out of the routes, and the UPDATE has the
effects of the one without them, exactly when they are harmless. -/
theorem secure_iff_harmless (hbody : Body body withdrawn attrs nlri)
    (hrest : Body rest withdrawn (publicOf attrs) nlri) :
    (NoInjection p peerAddress body attrs ∧
        effects p peerAddress body = effects p peerAddress rest) ↔
      Harmless p peerAddress rest (privateOf attrs) := by
  have hcanon : ∀ v : Update, v.attributes.attrs = attrs → v.attributes.Canonical := by
    intro v hv
    obtain ⟨_, _, _, _, hattrs⟩ := hbody
    exact canonical_iff.mpr (hv ▸ hattrs.canonical)
  have hparts : ∀ {v : Update}, decodeUpdate body (p.codec.rxAddPath .ipv4Unicast) = ok v →
      v.attributes.attrs = attrs := fun hv => ((decodeUpdate_body hbody _ _).mp hv).2.1
  constructor
  · rintro ⟨-, heff⟩ u paths gone hdec hpaths hgone
    obtain ⟨xs, hxs, rfl⟩ := map_eq_ok.mp hpaths
    -- the public part is accepted, hence so is the UPDATE
    have hsome := heff
    rw [effects_of_decode hdec, hgone, hxs] at hsome
    obtain ⟨v, -, -, hv, -⟩ := effects_some hsome
    have hpub := decodeUpdate_public hbody hrest hv
    obtain rfl : u = publicPart v := Outcome.ok.inj (hdec.symm.trans hpub)
    rw [withdrawn_publicPart] at hgone
    rw [announcements_publicPart] at hxs
    have hattrs := hparts hv
    obtain ⟨heor, hown⟩ := (effects_public_iff hv hpub hgone hxs (hcanon v hattrs)).mp heff
    rw [hattrs] at heor hown
    refine ⟨((nodup_types_iff attrs).mp (hattrs ▸ v.attributes.nodup)).1, heor, ?_⟩
    intro hacc a ha path hpath
    obtain ⟨x, hx, rfl⟩ := mem_map.mp hpath
    obtain ⟨ha, hpriv⟩ := mem_filter.mp ha
    have hacc' : accepted p v.attributes = true := by
      rw [← accepted_sentAttributes]
      exact hacc
    exact hown hacc' x hx a ha (by simpa using hpriv)
  · intro h
    cases hrestEff : effects p peerAddress rest with
    | none =>
      have hnone := effects_eq_none hbody hrest hrestEff
      exact ⟨fun actions hact => (nomatch hnone.symm.trans hact), hnone⟩
    | some actions =>
      obtain ⟨u, gone, xs, hdec, hgone, hxs⟩ := effects_some hrestEff
      obtain ⟨hnd, heor, hown⟩ := h u _ _ hdec (map_eq_ok.mpr ⟨xs, hxs, rfl⟩) hgone
      obtain ⟨v, hv, rfl⟩ := decodeUpdate_of_public hbody hrest hdec hnd
      rw [withdrawn_publicPart] at hgone
      rw [announcements_publicPart] at hxs
      have hattrs := hparts hv
      have hown' : accepted p v.attributes = true → ∀ x ∈ xs, ∀ a ∈ v.attributes.attrs,
          a.attrType.isPrivate = true → OwnTag peerAddress x.family a.attrType := by
        intro hacc x hx a ha hpriv
        refine hown ?_ a (mem_filter.mpr ⟨hattrs ▸ ha, by simpa using hpriv⟩) _
          (mem_map_of_mem hx)
        rw [← hacc]
        exact accepted_sentAttributes _ p
      have heff : effects p peerAddress body = effects p peerAddress rest :=
        (effects_public_iff hv hdec hgone hxs (hcanon v hattrs)).mpr ⟨by rwa [hattrs], hown'⟩
      refine ⟨?_, heff.trans hrestEff⟩
      intro acts hacts route hroute a ha hpriv
      obtain ⟨hacc, x, hx, hfam⟩ := installRoute_family hv hgone hxs hacts hroute
      left
      rw [hfam]
      exact hown' hacc x hx a (hattrs ▸ ha) hpriv

end Wire

/-- The routes that reach import. -/
def imported (e : Option (List BgpAction)) : List Route :=
  (e.getD []).filterMap fun
    | .installRoute r => some r
    | _ => none

/-- Private attributes of a received UPDATE.  They stay out of the routes and the
UPDATE has the effects of the one without them exactly when they are harmless; two
UPDATEs that differ in harmless private attributes only have the same effects, hence
bring the same routes and lead to the same ranking and the same exports. -/
theorem privateTags_iff (p : BgpPeer) (peerAddress : Option IpAddr) :
    (∀ body rest withdrawn attrs nlri, Body body withdrawn attrs nlri →
      Body rest withdrawn (publicOf attrs) nlri →
      ((NoInjection p peerAddress body attrs ∧
          effects p peerAddress body = effects p peerAddress rest) ↔
        Harmless p peerAddress rest (privateOf attrs))) ∧
    (∀ body₁ body₂ rest withdrawn attrs₁ attrs₂ nlri, Body body₁ withdrawn attrs₁ nlri →
      Body body₂ withdrawn attrs₂ nlri → publicOf attrs₁ = publicOf attrs₂ →
      Body rest withdrawn (publicOf attrs₁) nlri →
      Harmless p peerAddress rest (privateOf attrs₁) →
      Harmless p peerAddress rest (privateOf attrs₂) →
      effects p peerAddress body₁ = effects p peerAddress body₂ ∧
        ∀ (cfg : BestPathConfig) (others : List Route) (s : BgpPeer)
          (originator : Option RouterId),
          BestPath.rank cfg (imported (effects p peerAddress body₁) ++ others) =
              BestPath.rank cfg (imported (effects p peerAddress body₂) ++ others) ∧
            (imported (effects p peerAddress body₁)).map (s.egressUpdate · originator) =
              (imported (effects p peerAddress body₂)).map (s.egressUpdate · originator)) := by
  refine ⟨fun body rest withdrawn attrs nlri => secure_iff_harmless, ?_⟩
  intro body₁ body₂ rest withdrawn attrs₁ attrs₂ nlri h₁ h₂ hsame hrest hharm₁ hharm₂
  have heff₁ := ((secure_iff_harmless h₁ hrest).mpr hharm₁).2
  have heff₂ := ((secure_iff_harmless h₂ (hsame ▸ hrest)).mpr hharm₂).2
  have heff := heff₁.trans heff₂.symm
  exact ⟨heff, fun cfg others s originator => by rw [heff]; exact ⟨rfl, rfl⟩⟩

/-- ORIGIN, AS_PATH and NEXT_HOP of a route from AS 65001. -/
def mandatoryAttributes : Bytes :=
  [0x40, 1, 1, 0] ++ [0x40, 2, 6, 2, 1, 0, 0, 253, 233] ++ [0x40, 3, 4, 10, 0, 0, 1]

/-- The attributes of an announcement. -/
def mandatory : List PathAttribute := (announcement [65001] []).attributes.attrs

/-- A peer address (tag 245) of the neighbour's choice. -/
def forged : PathAttribute := ⟨⟨0x80⟩, .lrPeerSourceAddress, [10, 9, 9, 9]⟩

/-- A session with a configured peer address writes the address of a route itself: the one
a peer sends changes nothing. -/
theorem privateTags_iff_peerAddress :
    let p := establishedAs { localAs := 65002, peerAs := 65001, localBgpId := 2, peerId := 9 }
    let addr : Option IpAddr := some (.v4 (.padded 4 [10, 0, 0, 1]))
    let rest : Bytes := [0, 0, 0, 20] ++ mandatoryAttributes ++ [24, 192, 0, 2]
    let body : Bytes := [0, 0, 0, 27] ++ mandatoryAttributes ++ [0x80, 245, 4, 10, 9, 9, 9] ++
      [24, 192, 0, 2]
    NoInjection p addr body (mandatory ++ [forged]) ∧ effects p addr body = effects p addr rest ∧
      (imported (effects p addr body)).length = 1 := by
  intro p addr rest body
  have hattrs : AttrBytes mandatoryAttributes mandatory :=
    attrBytes_flatMap mandatory (by decide)
  have hforged : AttrBytes (mandatoryAttributes ++ [0x80, 245, 4, 10, 9, 9, 9])
      (mandatory ++ [forged]) := attrBytes_flatMap (mandatory ++ [forged]) (by decide)
  have hrest : Body rest [] mandatory [24, 192, 0, 2] :=
    ⟨_, _, ⟨0, rfl, rfl⟩, ⟨20, rfl, rfl⟩, hattrs⟩
  have hbody : Body body [] (mandatory ++ [forged]) [24, 192, 0, 2] :=
    ⟨_, _, ⟨0, rfl, rfl⟩, ⟨27, rfl, rfl⟩, hforged⟩
  have hsafe := ((privateTags_iff p addr).1 body rest [] (mandatory ++ [forged])
    [24, 192, 0, 2] hbody hrest).mpr ?_
  · exact ⟨hsafe.1, hsafe.2, by decide +kernel⟩
  intro u paths gone hdec _ _
  refine ⟨by decide, fun _ => ?_, fun _ a ha path _ => ?_⟩
  · have hnlri := ((decodeUpdate_body hrest _ u).mp hdec).2.2
    have hread : decodeNlriSet [24, 192, 0, 2] (p.codec.rxAddPath .ipv4Unicast) =
        ok [⟨0, .newV4 (.padded 4 [192, 0, 2]) 24⟩] := by decide +kernel
    simp [endOfRibActions, ← Outcome.ok.inj (hread.symm.trans hnlri)]
  · obtain rfl := List.mem_singleton.mp ha
    exact .inl ⟨rfl, rfl⟩

/-- A peer sends an IGP metric of its own choice (tag 246): the route is stored with it
and wins a best-path decision that it loses without it. -/
theorem igpMetric_injected :
    let p := establishedAs { localAs := 65002, peerAs := 65001, localBgpId := 2,
                                     peerId := 9 }
    let rest : Bytes := [0, 0, 0, 20] ++ mandatoryAttributes ++ [24, 192, 0, 2]
    let body : Bytes := [0, 0, 0, 27] ++ mandatoryAttributes ++ [0x80, 246, 4, 0, 0, 0, 0] ++
      [24, 192, 0, 2]
    let rival := (imported (effects p none rest)).map fun r => { r with origin := ⟨0, 3⟩ }
    (imported (effects p none body)).map (·.attributes[(246 : UInt8)]?) =
        [some ⟨0x80, [0, 0, 0, 0]⟩] ∧
      BestPath.select {} (imported (effects p none rest) ++ rival) = rival.head? ∧
      BestPath.select {} (imported (effects p none body) ++ rival) =
        (imported (effects p none body)).head? := by
  decide +kernel

end LibRouting.Router
