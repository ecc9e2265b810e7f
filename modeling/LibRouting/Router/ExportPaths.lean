/-
  Router/ExportPaths.lean --- the three ways a Loc-RIB reaches a session: the initial dump,
  a full refresh and incremental export.
-/
import LibRouting.Router.Frame

set_option autoImplicit false

namespace LibRouting.Router

open Foundation Core Bgp Policy Rib Egress Option

/-- What a session gets to see of a path: its key, its identifier and its attributes. -/
abbrev SentPath : Type := RouteKey × UInt32 × PathAttributes

/-- Every path stands under its own key. -/
def LocRib.Keyed (rib : LocRib) : Prop :=
  ∀ (key : RouteKey) (paths : List Route), rib[key]? = some paths →
    ∀ route ∈ paths, route.key = key

/-- No key has so many paths that two of them would share an identifier. -/
def LocRib.Numbered (rib : LocRib) : Prop :=
  ∀ (key : RouteKey) (paths : List Route), rib[key]? = some paths → paths.length < 2 ^ 32

section Paths

variable (c : ExportContext) (session : UInt64) (peer : BgpPeer)
  (originator : Route → Option RouterId) {r : Route} {key : RouteKey} {paths : List Route}

/-! ## What is sent -/

/-- The UPDATE an offered route goes out with: one that the gates let pass and that encodes. -/
def sentUpdate (route : Route) : Option Update :=
  (peer.egressUpdate route (originator route)).filter fun u =>
    (peer.codec.encodeVec (.update u)).toOption.isSome

/-- What an offered route becomes on the session, if anything. -/
def sentPath (route : Route) : Option SentPath :=
  (sentUpdate peer originator route).map fun u => (route.key, route.pathId, u.attributes)

/-- The routes the initial dump offers. -/
def dumpOffered (rib : LocRib) : List Route :=
  permitted c session peer.cfg
    ((dumpFamilies peer.cfg).flatMap (dumpSnapshot session peer rib))

/-- The routes a refresh of one family offers. -/
def refreshOffered (rib : LocRib) (family : NlriFamily) : List Route :=
  permitted c session peer.cfg (refreshSnapshot session peer rib family)

/-- The routes incremental export offers, key by key, to a session that has been sent nothing. -/
def incrementalOffered (rib : LocRib) : List Route :=
  rib.toList.flatMap fun entry => desired c session peer entry.1 entry.2

/-- What the initial dump sends. -/
def dumpSent (rib : LocRib) : List SentPath :=
  (dumpOffered c session peer rib).filterMap (sentPath peer originator)

/-- What a refresh of every family of the session sends. -/
def refreshSent (rib : LocRib) : List SentPath :=
  (dumpFamilies peer.cfg).flatMap fun family =>
    (refreshOffered c session peer rib family).filterMap (sentPath peer originator)

/-- What incremental export sends. -/
def incrementalSent (rib : LocRib) : List SentPath :=
  (incrementalOffered c session peer rib).filterMap (sentPath peer originator)

/-! ## One path -/

/-- A path of a key with the identifier the dumps send it under and the one incremental
export sends it under. -/
structure PathOffer where
  route : Route
  dumpId : UInt32
  deltaId : UInt32

/-- The paths of a key that may be offered to the session. -/
def pathOffers (key : RouteKey) (paths : List Route) : List PathOffer :=
  (if peer.addPathTxFor key.family then
    paths.zipIdx.map fun slot => ⟨slot.1, slotId slot.2, slotId slot.2⟩
  else paths.head?.toList.map fun route => ⟨route, route.pathId, 0⟩).filter fun o =>
    o.route.origin.peer ≠ session

/-- The attributes a path goes out with under an identifier, after the hooks and the gates. -/
def outcome (route : Route) (id : UInt32) : Option PathAttributes :=
  (c.hooks.runExportTo { route with pathId := id } session).bind fun r =>
    (sentUpdate peer originator r).map Update.attributes

variable {c session peer originator} {x : SentPath} {o : PathOffer} {rib : LocRib}
  {family : NlriFamily}

theorem runExportTo_keepsPath (hk : ∀ hook ∈ c.hooks.exports, KeepsPath (hook session))
    {route : Route} (h : c.hooks.runExportTo route session = some r) :
    r.origin = route.origin ∧ r.key = route.key ∧ r.pathId = route.pathId := by
  refine runHooks_keepsPath (fun hook hmem => ?_) h
  obtain ⟨f, hf, rfl⟩ := List.mem_map.mp hmem
  exact hk f hf

theorem sentPath_outcome (hk : ∀ hook ∈ c.hooks.exports, KeepsPath (hook session))
    (route : Route) (id : UInt32) :
    (c.hooks.runExportTo { route with pathId := id } session).bind (sentPath peer originator) =
      (outcome c session peer originator route id).map fun a => (route.key, id, a) := by
  unfold outcome
  cases hr : c.hooks.runExportTo { route with pathId := id } session with
  | none => rfl
  | some r =>
    obtain ⟨-, hkey, hid⟩ := runExportTo_keepsPath hk hr
    simp only [bind_some, sentPath, map_map, hkey, hid]
    rfl

theorem mem_permitted_sent {routes : List Route} :
    x ∈ (permitted c session peer.cfg routes).filterMap (sentPath peer originator) ↔
      c.deniesExport session peer.cfg = false ∧
        ∃ r ∈ routes, (c.hooks.runExportTo r session).bind (sentPath peer originator) = some x := by
  unfold permitted
  cases c.deniesExport session peer.cfg with
  | true => simp
  | false =>
    simp only [Bool.false_eq_true, if_false, List.filterMap_filterMap, List.mem_filterMap,
      true_and]

theorem exists_pathOffers {P : PathOffer → Prop} :
    (∃ o ∈ pathOffers session peer key paths, P o) ↔
      if peer.addPathTxFor key.family then ∃ route slot, paths[slot]? = some route ∧
        route.origin.peer ≠ session ∧ P ⟨route, slotId slot, slotId slot⟩
      else ∃ route, paths.head? = some route ∧ route.origin.peer ≠ session ∧
        P ⟨route, route.pathId, 0⟩ := by
  unfold pathOffers
  split
  · simp only [List.mem_filter, List.mem_map, Prod.exists, List.mem_zipIdx_iff_getElem?,
      decide_eq_true_eq]
    grind
  · simp only [List.mem_filter, List.mem_map, mem_toList, decide_eq_true_eq]
    grind

/-- Membership in the offers of a key, by the mode of the session. -/
theorem mem_pathOffers :
    o ∈ pathOffers session peer key paths ↔ o.route.origin.peer ≠ session ∧
      if peer.addPathTxFor key.family then
        ∃ slot, paths[slot]? = some o.route ∧ o.dumpId = slotId slot ∧ o.deltaId = slotId slot
      else paths.head? = some o.route ∧ o.dumpId = o.route.pathId ∧ o.deltaId = 0 := by
  have hmem : (∃ o' ∈ pathOffers session peer key paths, o' = o) ↔ _ := exists_pathOffers
  rw [exists_eq_right] at hmem
  rw [hmem]
  split <;> grind [PathOffer]

theorem route_mem_of_mem_pathOffers (ho : o ∈ pathOffers session peer key paths) :
    o.route ∈ paths := by
  obtain ⟨-, ho⟩ := mem_pathOffers.mp ho
  split at ho
  · obtain ⟨slot, hslot, -⟩ := ho
    exact List.mem_of_getElem? hslot
  · exact List.mem_of_mem_head? ho.1

theorem mem_dumpSnapshot (hrib : LocRib.Keyed rib) :
    r ∈ dumpSnapshot session peer rib family ↔
      ∃ key paths, rib[key]? = some paths ∧ key.family = family ∧
        ∃ o ∈ pathOffers session peer key paths, o.route.protocol = .bgp ∧
          r = { o.route with pathId := o.dumpId } := by
  unfold dumpSnapshot
  simp only [exists_pathOffers]
  split
  case isTrue htx =>
    simp only [List.mem_flatMap, List.mem_filter, decide_eq_true_eq, Prod.exists,
      Std.ExtTreeMap.mem_toList_iff_getElem?_eq_some, List.mem_filterMap,
      List.mem_zipIdx_iff_getElem?, ite_none_right_eq_some, some.injEq]
    grind
  case isFalse htx =>
    simp only [LocRib.iterBest, List.mem_filter, List.mem_filterMap, Prod.exists,
      Std.ExtTreeMap.mem_toList_iff_getElem?_eq_some, decide_eq_true_eq]
    constructor
    · rintro ⟨⟨key, paths, hkey, hhead⟩, hfamily, hpeer, hbgp⟩
      obtain rfl := hrib key paths hkey r (List.mem_of_mem_head? hhead)
      refine ⟨r.key, paths, hkey, hfamily, ?_⟩
      rw [hfamily, if_neg htx]
      exact ⟨r, hhead, hpeer, hbgp, rfl⟩
    · rintro ⟨key, paths, hkey, rfl, h⟩
      rw [if_neg htx] at h
      obtain ⟨route, hhead, hpeer, hbgp, rfl⟩ := h
      obtain rfl := hrib key paths hkey route (List.mem_of_mem_head? hhead)
      exact ⟨⟨_, paths, hkey, hhead⟩, rfl, hpeer, hbgp⟩

theorem mem_refreshSnapshot :
    r ∈ refreshSnapshot session peer rib family ↔
      ∃ key paths, rib[key]? = some paths ∧ key.family = family ∧
        ∃ o ∈ pathOffers session peer key paths, r = { o.route with pathId := o.dumpId } := by
  unfold refreshSnapshot
  simp only [List.mem_flatMap, List.mem_filter, decide_eq_true_eq, Prod.exists,
    Std.ExtTreeMap.mem_toList_iff_getElem?_eq_some, exists_pathOffers]
  refine exists_congr fun key => exists_congr fun paths => ?_
  rw [and_assoc]
  refine and_congr_right fun hkey => and_congr_right fun hfamily => ?_
  rw [hfamily]
  split
  · simp [List.mem_zipIdx_iff_getElem?, eq_comm (a := r)]
  · simp [eq_comm (a := r)]

theorem mem_desired :
    r ∈ desired c session peer key paths ↔
      summaryOnlySuppresses c.aggregates key = false ∧ c.deniesExport session peer.cfg = false ∧
        ∃ o ∈ pathOffers session peer key paths, o.route.protocol = .bgp ∧
          c.hooks.runExportTo { o.route with pathId := o.deltaId } session = some r := by
  unfold desired
  cases summaryOnlySuppresses c.aggregates key with
  | true => simp
  | false =>
    cases c.deniesExport session peer.cfg with
    | true => simp
    | false =>
      simp only [Bool.or_self, Bool.false_eq_true, if_false, true_and, exists_pathOffers]
      split
      · simp [List.mem_zipIdx_iff_getElem?, and_comm, and_left_comm, and_assoc]
      · cases paths <;> simp [and_left_comm, and_assoc]

/-! ## The three sets -/

section Sets

variable (hk : ∀ hook ∈ c.hooks.exports, KeepsPath (hook session)) {rib : LocRib}
  (hrib : LocRib.Keyed rib) {x : SentPath}

include hk hrib

theorem sentPath_offer {key : RouteKey} {paths : List Route} (hkey : rib[key]? = some paths)
    {o : PathOffer} (ho : o ∈ pathOffers session peer key paths) (id : UInt32) :
    (c.hooks.runExportTo { o.route with pathId := id } session).bind (sentPath peer originator) =
      (outcome c session peer originator o.route id).map fun a => (key, id, a) := by
  rw [sentPath_outcome hk, hrib key paths hkey o.route (route_mem_of_mem_pathOffers ho)]

theorem mem_dumpSent :
    x ∈ dumpSent c session peer originator rib ↔ c.deniesExport session peer.cfg = false ∧
      ∃ key paths, rib[key]? = some paths ∧ key.family ∈ dumpFamilies peer.cfg ∧
        ∃ o ∈ pathOffers session peer key paths, o.route.protocol = .bgp ∧
          ∃ a, outcome c session peer originator o.route o.dumpId = some a ∧
            (key, o.dumpId, a) = x := by
  rw [dumpSent, dumpOffered, mem_permitted_sent]
  refine and_congr_right fun _ => ?_
  simp only [List.mem_flatMap, mem_dumpSnapshot hrib]
  constructor
  · rintro ⟨r, ⟨family, hfamily, key, paths, hkey, rfl, o, ho, hbgp, rfl⟩, hx⟩
    rw [sentPath_offer hk hrib hkey ho] at hx
    exact ⟨key, paths, hkey, hfamily, o, ho, hbgp, map_eq_some_iff.mp hx⟩
  · rintro ⟨key, paths, hkey, hfamily, o, ho, hbgp, hx⟩
    refine ⟨_, ⟨key.family, hfamily, key, paths, hkey, rfl, o, ho, hbgp, rfl⟩, ?_⟩
    rw [sentPath_offer hk hrib hkey ho]
    exact map_eq_some_iff.mpr hx

theorem mem_refreshSent :
    x ∈ refreshSent c session peer originator rib ↔ c.deniesExport session peer.cfg = false ∧
      ∃ key paths, rib[key]? = some paths ∧ key.family ∈ dumpFamilies peer.cfg ∧
        ∃ o ∈ pathOffers session peer key paths,
          ∃ a, outcome c session peer originator o.route o.dumpId = some a ∧
            (key, o.dumpId, a) = x := by
  simp only [refreshSent, refreshOffered, List.mem_flatMap, mem_permitted_sent,
    mem_refreshSnapshot]
  constructor
  · rintro ⟨family, hfamily, hpermit, r, ⟨key, paths, hkey, rfl, o, ho, rfl⟩, hx⟩
    rw [sentPath_offer hk hrib hkey ho] at hx
    exact ⟨hpermit, key, paths, hkey, hfamily, o, ho, map_eq_some_iff.mp hx⟩
  · rintro ⟨hpermit, key, paths, hkey, hfamily, o, ho, hx⟩
    refine ⟨key.family, hfamily, hpermit, _, ⟨key, paths, hkey, rfl, o, ho, rfl⟩, ?_⟩
    rw [sentPath_offer hk hrib hkey ho]
    exact map_eq_some_iff.mpr hx

theorem mem_incrementalSent :
    x ∈ incrementalSent c session peer originator rib ↔ c.deniesExport session peer.cfg = false ∧
      ∃ key paths, rib[key]? = some paths ∧ summaryOnlySuppresses c.aggregates key = false ∧
        ∃ o ∈ pathOffers session peer key paths, o.route.protocol = .bgp ∧
          ∃ a, outcome c session peer originator o.route o.deltaId = some a ∧
            (key, o.deltaId, a) = x := by
  simp only [incrementalSent, incrementalOffered, List.mem_flatMap, Prod.exists,
    Std.ExtTreeMap.mem_toList_iff_getElem?_eq_some, List.mem_filterMap, mem_desired]
  constructor
  · rintro ⟨r, ⟨key, paths, hkey, hshown, hpermit, o, ho, hbgp, hr⟩, hx⟩
    replace hx := bind_eq_some_iff.mpr ⟨r, hr, hx⟩
    rw [sentPath_offer hk hrib hkey ho] at hx
    exact ⟨hpermit, key, paths, hkey, hshown, o, ho, hbgp, map_eq_some_iff.mp hx⟩
  · rintro ⟨hpermit, key, paths, hkey, hshown, o, ho, hbgp, hx⟩
    replace hx := map_eq_some_iff.mpr hx
    rw [← sentPath_offer hk hrib hkey ho] at hx
    obtain ⟨r, hr, hx⟩ := bind_eq_some_iff.mp hx
    exact ⟨r, ⟨key, paths, hkey, hshown, hpermit, o, ho, hbgp, hr⟩, hx⟩

end Sets

/-! ## Agreement -/

theorem slotId_injective {a b : Nat} (ha : a + 1 < 2 ^ 32) (hb : b + 1 < 2 ^ 32)
    (h : slotId a = slotId b) : a = b := by
  have hnat := congrArg UInt32.toNat h
  simp only [slotId, UInt32.toNat_ofNat'] at hnat
  rw [Nat.mod_eq_of_lt ha, Nat.mod_eq_of_lt hb] at hnat
  omega

theorem pathOffers_unique {key : RouteKey} {paths : List Route} (hlen : paths.length < 2 ^ 32)
    {o' : PathOffer} (ho : o ∈ pathOffers session peer key paths)
    (ho' : o' ∈ pathOffers session peer key paths)
    (h : o.dumpId = o'.dumpId ∨ o.deltaId = o'.dumpId) : o = o' := by
  obtain ⟨route, dumpId, deltaId⟩ := o
  obtain ⟨route', dumpId', deltaId'⟩ := o'
  obtain ⟨-, ho⟩ := mem_pathOffers.mp ho
  obtain ⟨-, ho'⟩ := mem_pathOffers.mp ho'
  split at ho
  · rename_i htx
    rw [if_pos htx] at ho'
    obtain ⟨slot, hslot, rfl, rfl⟩ := ho
    obtain ⟨slot', hslot', rfl, rfl⟩ := ho'
    have hlt : slot < paths.length := (List.getElem?_eq_some_iff.mp hslot).1
    have hlt' : slot' < paths.length := (List.getElem?_eq_some_iff.mp hslot').1
    obtain rfl : slot = slot' := slotId_injective (by omega) (by omega) (h.elim id id)
    obtain rfl : route = route' := some.inj (hslot.symm.trans hslot')
    rfl
  · rename_i htx
    rw [if_neg htx] at ho'
    obtain ⟨hhead, hid, hdelta⟩ := ho
    obtain ⟨hhead', hid', hdelta'⟩ := ho'
    obtain rfl : route = route' := some.inj (hhead.symm.trans hhead')
    rw [PathOffer.mk.injEq]
    exact ⟨rfl, hid.trans hid'.symm, hdelta.trans hdelta'.symm⟩

/-- The three ways send the same. -/
def ExportsAgree (c : ExportContext) (session : UInt64) (peer : BgpPeer)
    (originator : Route → Option RouterId) (rib : LocRib) : Prop :=
  (∀ x, x ∈ dumpSent c session peer originator rib ↔
    x ∈ refreshSent c session peer originator rib) ∧
  ∀ x, x ∈ dumpSent c session peer originator rib ↔
    x ∈ incrementalSent c session peer originator rib

/-- A path of a key on which the filters of the three ways do not differ: whatever one
of them leaves out is stopped by the hooks or by the session. -/
structure OfferUniform (c : ExportContext) (session : UInt64) (peer : BgpPeer)
    (originator : Route → Option RouterId) (key : RouteKey) (o : PathOffer) : Prop where
  /-- Only the refresh sends what is not a BGP route. -/
  protocol : key.family ∈ dumpFamilies peer.cfg → o.route.protocol ≠ .bgp →
    outcome c session peer originator o.route o.dumpId = none
  /-- Only incremental export leaves out what a summary-only aggregate covers. -/
  shown : key.family ∈ dumpFamilies peer.cfg → o.route.protocol = .bgp →
    summaryOnlySuppresses c.aggregates key = true →
    outcome c session peer originator o.route o.dumpId = none
  /-- Only incremental export sends what is of another family. -/
  spoken : key.family ∉ dumpFamilies peer.cfg → o.route.protocol = .bgp →
    summaryOnlySuppresses c.aggregates key = false →
    outcome c session peer originator o.route o.deltaId = none
  /-- Only incremental export drops a received path identifier. -/
  ident : key.family ∈ dumpFamilies peer.cfg → o.route.protocol = .bgp →
    summaryOnlySuppresses c.aggregates key = false → o.dumpId ≠ o.deltaId →
    outcome c session peer originator o.route o.dumpId = none ∧
      outcome c session peer originator o.route o.deltaId = none

/-- No path is treated differently, unless nothing may be exported at all. -/
def OffersUniform (c : ExportContext) (session : UInt64) (peer : BgpPeer)
    (originator : Route → Option RouterId) (rib : LocRib) : Prop :=
  c.deniesExport session peer.cfg = false → ∀ (key : RouteKey) (paths : List Route),
    rib[key]? = some paths → ∀ o ∈ pathOffers session peer key paths,
      OfferUniform c session peer originator key o

section Agreement

variable (hk : ∀ hook ∈ c.hooks.exports, KeepsPath (hook session)) {rib : LocRib}
  (hrib : LocRib.Keyed rib)

include hk hrib

theorem exportsAgree_of_uniform (h : OffersUniform c session peer originator rib) :
    ExportsAgree c session peer originator rib := by
  refine ⟨fun x => ?_, fun x => ?_⟩
  · rw [mem_dumpSent hk hrib, mem_refreshSent hk hrib]
    constructor
    · rintro ⟨hpermit, key, paths, hkey, hfamily, o, ho, -, hx⟩
      exact ⟨hpermit, key, paths, hkey, hfamily, o, ho, hx⟩
    · rintro ⟨hpermit, key, paths, hkey, hfamily, o, ho, a, ha, hx⟩
      refine ⟨hpermit, key, paths, hkey, hfamily, o, ho, ?_, a, ha, hx⟩
      by_contra hbgp
      have hnone := (h hpermit key paths hkey o ho).protocol hfamily hbgp
      rw [hnone] at ha
      cases ha
  · rw [mem_dumpSent hk hrib, mem_incrementalSent hk hrib]
    constructor
    · rintro ⟨hpermit, key, paths, hkey, hfamily, o, ho, hbgp, a, ha, rfl⟩
      have huniform := h hpermit key paths hkey o ho
      have hshown : summaryOnlySuppresses c.aggregates key = false := by
        by_contra hhidden
        rw [huniform.shown hfamily hbgp (Bool.eq_true_of_not_eq_false hhidden)] at ha
        cases ha
      have hid : o.dumpId = o.deltaId := by
        by_contra hne
        rw [(huniform.ident hfamily hbgp hshown hne).1] at ha
        cases ha
      exact ⟨hpermit, key, paths, hkey, hshown, o, ho, hbgp, a, hid ▸ ha, by rw [hid]⟩
    · rintro ⟨hpermit, key, paths, hkey, hshown, o, ho, hbgp, a, ha, rfl⟩
      have huniform := h hpermit key paths hkey o ho
      have hfamily : key.family ∈ dumpFamilies peer.cfg := by
        by_contra hother
        rw [huniform.spoken hother hbgp hshown] at ha
        cases ha
      have hid : o.dumpId = o.deltaId := by
        by_contra hne
        rw [(huniform.ident hfamily hbgp hshown hne).2] at ha
        cases ha
      exact ⟨hpermit, key, paths, hkey, hfamily, o, ho, hbgp, a, hid.symm ▸ ha, by rw [hid]⟩

theorem uniform_of_exportsAgree (hnum : LocRib.Numbered rib)
    (h : ExportsAgree c session peer originator rib)
    (hpermit : c.deniesExport session peer.cfg = false) {key : RouteKey} {paths : List Route}
    (hkey : rib[key]? = some paths) {o : PathOffer} (ho : o ∈ pathOffers session peer key paths) :
    OfferUniform c session peer originator key o := by
  obtain ⟨hrefresh, hincremental⟩ := h
  -- a path that one way sends is found again, as itself, in what another way sends
  have hdumped : ∀ {id : UInt32} {a : PathAttributes}, id = o.dumpId ∨ id = o.deltaId →
      (key, id, a) ∈ dumpSent c session peer originator rib →
      key.family ∈ dumpFamilies peer.cfg ∧ o.route.protocol = .bgp ∧ id = o.dumpId := by
    intro id a hid hx
    obtain ⟨-, key', paths', hkey', hfamily, o', ho', hbgp, a', -, hx⟩ :=
      (mem_dumpSent hk hrib).mp hx
    obtain ⟨rfl, rfl, rfl⟩ : key' = key ∧ o'.dumpId = id ∧ a' = a := by simpa using hx
    obtain rfl : paths' = paths := some.inj (hkey'.symm.trans hkey)
    obtain rfl : o = o' :=
      pathOffers_unique (hnum key' paths' hkey') ho ho' (hid.imp Eq.symm Eq.symm)
    exact ⟨hfamily, hbgp, rfl⟩
  have hsent : ∀ {a : PathAttributes},
      (key, o.dumpId, a) ∈ incrementalSent c session peer originator rib →
      summaryOnlySuppresses c.aggregates key = false ∧ o.deltaId = o.dumpId := by
    intro a hx
    obtain ⟨-, key', paths', hkey', hshown, o', ho', -, a', -, hx⟩ :=
      (mem_incrementalSent hk hrib).mp hx
    obtain ⟨rfl, hid, rfl⟩ : key' = key ∧ o'.deltaId = o.dumpId ∧ a' = a := by simpa using hx
    obtain rfl : paths' = paths := some.inj (hkey'.symm.trans hkey)
    obtain rfl : o' = o := pathOffers_unique (hnum key' paths' hkey') ho' ho (.inr hid)
    exact ⟨hshown, hid⟩
  have hdump (hfamily : key.family ∈ dumpFamilies peer.cfg) (hbgp : o.route.protocol = .bgp)
      {a : PathAttributes} (ha : outcome c session peer originator o.route o.dumpId = some a) :=
    hsent ((hincremental _).mp ((mem_dumpSent hk hrib).mpr
      ⟨hpermit, key, paths, hkey, hfamily, o, ho, hbgp, a, ha, rfl⟩))
  have hdelta (hbgp : o.route.protocol = .bgp)
      (hshown : summaryOnlySuppresses c.aggregates key = false) {a : PathAttributes}
      (ha : outcome c session peer originator o.route o.deltaId = some a) :=
    hdumped (.inr rfl) ((hincremental _).mpr ((mem_incrementalSent hk hrib).mpr
      ⟨hpermit, key, paths, hkey, hshown, o, ho, hbgp, a, ha, rfl⟩))
  refine ⟨fun hfamily hbgp => ?_, fun hfamily hbgp hhidden => ?_, fun hother hbgp hshown => ?_,
    fun hfamily hbgp hshown hne => ⟨?_, ?_⟩⟩ <;>
    refine eq_none_iff_forall_ne_some.mpr fun a ha => ?_
  · have hx := (mem_refreshSent hk hrib).mpr
      ⟨hpermit, key, paths, hkey, hfamily, o, ho, a, ha, rfl⟩
    exact hbgp (hdumped (.inl rfl) ((hrefresh _).mpr hx)).2.1
  · exact Bool.false_ne_true ((hdump hfamily hbgp ha).1.symm.trans hhidden)
  · exact hother (hdelta hbgp hshown ha).1
  · exact hne (hdump hfamily hbgp ha).2.symm
  · exact hne (hdelta hbgp hshown ha).2.2.symm

end Agreement

end Paths

end LibRouting.Router
