/-
  Router/ExportWire.lean --- what the three ways of export write to a session.

  The dump, a refresh and incremental export each end in octets.  Those octets are the
  UPDATEs of the paths in the sets of `ExportPaths`, so that what is said of the sets is said
  of the functions.
-/
import LibRouting.Router.Locality

set_option autoImplicit false

namespace LibRouting.Router

open Foundation Core Bgp Policy Rib Egress Option List

/-- All that was written to a session, whether the embedder has collected it or not. -/
def Session.written (s : Session) : Bytes := s.output ++ s.peer.outBuf

/-- The octets of the UPDATEs that offered routes go out with. -/
def updateOctets (peer : BgpPeer) (originator : Route → Option RouterId) (routes : List Route) :
    Bytes :=
  (routes.filterMap (sentUpdate peer originator)).flatMap fun u =>
    (peer.codec.encodeVec (.update u)).toOption.getD []

section Offer

variable {p q : BgpPeer} {originator : Route → Option RouterId} {routes : List Route}

theorem updateOctets_append (routes' : List Route) :
    updateOctets p originator (routes ++ routes') =
      updateOctets p originator routes ++ updateOctets p originator routes' := by
  simp [updateOctets]

theorem updateOctets_congr (h : q.still = p.still) :
    updateOctets q originator routes = updateOctets p originator routes :=
  calc updateOctets q originator routes = updateOctets q.still originator routes := rfl
    _ = updateOctets p.still originator routes := by rw [h]
    _ = updateOctets p originator routes := rfl

theorem advertise_written {route : Route} {sent : BgpPeer × Bool}
    (h : p.advertiseWithOriginator route (originator route) = .ok sent) :
    sent.1.outBuf = p.outBuf ++ updateOctets p originator [route] := by
  unfold BgpPeer.advertiseWithOriginator at h
  cases hu : p.egressUpdate route (originator route) with
  | none =>
    rw [hu] at h
    cases h
    simp [updateOctets, sentUpdate, hu]
  | some u =>
    rw [hu] at h
    obtain ⟨q, henq, rfl⟩ := Outcome.map_eq_ok.mp h
    obtain ⟨bytes, henc, rfl⟩ | ⟨⟨e, henc⟩, rfl⟩ := BgpPeer.enqueue_ok henq
    · have hsent : sentUpdate p originator route = some u := by
        simp [sentUpdate, hu, henc, Outcome.toOption]
      simp [updateOctets, hsent, henc, Outcome.toOption]
    · have hsent : sentUpdate q originator route = none := by
        simp [sentUpdate, hu, henc, Outcome.toOption]
      simp [updateOctets, hsent]

theorem offer_written {sent : BgpPeer × List Route} (h : offer originator p routes = some sent) :
    sent.1.outBuf = p.outBuf ++ updateOctets p originator routes := by
  induction routes generalizing p sent with
  | nil =>
    cases h
    simp [updateOctets]
  | cons route routes ih =>
    simp only [offer, bind_eq_bind, bind_eq_some_iff, Outcome.toOption_eq_some] at h
    obtain ⟨one, hone, more, hmore, h⟩ := h
    cases h
    rw [ih hmore, updateOctets_congr (BgpPeer.still_advertise hone), advertise_written hone,
      append_assoc, ← updateOctets_append]
    rfl

end Offer

namespace Egress

variable {e e' : Egress} {c : ExportContext} {rib : LocRib} {session h : UInt64} {s : Session}
  {now : UInt64} {key : RouteKey} {routes : List Route} {ids : List UInt32}

/-! ## Key by key -/

/-- What concerns one session: its record, what it has been sent and when. -/
def view (session : UInt64) (e : Egress) :
    Option Session × (RouteKey → UInt32 → Option Route) × Option MraiState :=
  (e.sessions[session]?, fun key id => e.adjRibOut.get (destOf session) key id, e.mrai[session]?)

/-- Work for one session does not concern another. -/
theorem Sends.view {K : RouteKey → Prop} (hne : h ≠ session) (hsends : Sends K h e e') :
    e'.view session = e.view session := by
  induction hsends with
  | refl => rfl
  | output _ _ _ ih =>
    rw [← ih]
    simp [Egress.view, setSession, lookup_insert, hne]
  | noted _ _ ih =>
    rw [← ih]
    simp [Egress.view, setMrai, lookup_insert, hne]
  | @sent t _ routes _ ih =>
    rw [← ih]
    unfold recordSent
    refine List.foldlRecOn (motive := fun rib : AdjRibOut =>
      ({ t with adjRibOut := rib } : Egress).view session = t.view session) _ _ rfl
      fun rib hrib route _ => ?_
    rw [← hrib]
    simp [Egress.view, destOf, hne]
  | withdrawn _ _ _ ih =>
    rw [← ih]
    simp only [Egress.view, get_recordWithdrawn, destOf, RouteOrigin.mk.injEq, true_and, hne.symm,
      false_and, if_false]
    rfl

/-- The session has been written `octets`, and nothing yet for the keys of `keys`. -/
structure Unsent (session : UInt64) (peer : BgpPeer) (originator : Route → Option RouterId)
    (keys : RouteKey → Prop) (octets : Bytes) (e : Egress) : Prop where
  known : ∃ s, e.sessions[session]? = some s ∧ s.peer.still = peer.still ∧ s.written = octets
  originators : e.originatorOf = originator
  unsent : ∀ k, keys k → ∀ id, e.adjRibOut.get (destOf session) k id = none
  idle : ∀ k, keys k → (e.mraiOf session).lastSent[k]? = none

variable {peer : BgpPeer} {originator : Route → Option RouterId} {keys : RouteKey → Prop}
  {octets : Bytes} {ranked : List Route}

theorem originatorOf_of_same (h : Same e e') : e'.originatorOf = e.originatorOf := by
  funext route
  have hpeer := congrArg (·.bind fun s : Session => s.peer.peerBgpId) (h route.origin.peer)
  rw [bind_map, bind_map] at hpeer
  exact hpeer

/-- Nothing sent so far, everything wanted goes out as it is. -/
theorem exportDelta_nil (wanted : List Route) : exportDelta [] wanted = (wanted, []) := by
  simp [exportDelta]

theorem Unsent.exportWorkFor (hu : Unsent session peer originator keys octets e)
    (hest : peer.established = true) (hkey : keys key) :
    exportWorkFor c e session key ranked = (desired c session peer key ranked, []) := by
  obtain ⟨s, hs, hstill, -⟩ := hu.known
  have hest' : s.peer.established = true := by
    rw [show s.peer.established = s.peer.still.established from rfl, hstill]
    exact hest
  have hnone : e.adjRibOut.pathsFor (destOf session) key = [] := by
    refine eq_nil_iff_forall_not_mem.mpr fun entry hentry => ?_
    have hget := AdjRibOut.mem_pathsFor.mp hentry
    rw [hu.unsent key hkey] at hget
    cases hget
  have hdesired : desired c session s.peer key ranked = desired c session peer key ranked := by
    rw [show desired c session s.peer key ranked =
      desired c session s.peer.still key ranked from rfl,
      hstill]
    rfl
  rw [Router.exportWorkFor, hs]
  simp only [hest', if_true, hnone, exportDelta_nil, hdesired]

/-- The routes of one key are written to the session. -/
theorem transmit_written (hu : Unsent session peer originator keys octets e) (hkey : keys key)
    {wanted : List Route} (hwanted : ∀ route ∈ wanted, route.key = key)
    (h : e.transmit now session key (wanted, []) = some e') :
    Unsent session peer originator (fun k => keys k ∧ k ≠ key)
      (octets ++ updateOctets peer originator wanted) e' := by
  obtain ⟨s, hs, hstill, hwritten⟩ := hu.known
  have hsends := Sends.refl.transmit (K := (· = key)) hwanted rfl h
  have hunsent : ∀ k, keys k ∧ k ≠ key → ∀ id, e'.adjRibOut.get (destOf session) k id = none :=
    fun k hk id => (hsends.elsewhere _ k id hk.2).trans (hu.unsent k hk.1 id)
  cases wanted with
  | nil =>
    cases h
    exact ⟨⟨s, hs, hstill, by simp [updateOctets, hwritten]⟩, hu.originators, hunsent,
      fun k hk => hu.idle k hk.1⟩
  | cons first rest =>
    have hfirst : first.key = key := hwanted first mem_cons_self
    have hfresh : (e.mraiOf session).lastSent[first.key]? = none := by rw [hfirst, hu.idle key hkey]
    simp only [transmit, if_true, bind_eq_bind, bind_some, reduceCtorEq, if_false,
      queueOrSendAdvertisement, hfresh, sendAdvertisementSet, hs] at h
    obtain ⟨sent, hsent, h⟩ := bind_eq_some_iff.mp h
    have hoctets : (Session.flush { s with peer := sent.1 }).written =
        octets ++ updateOctets peer originator (first :: rest) := by
      rw [← hwritten, ← updateOctets_congr hstill, ← hu.originators]
      simp [Session.written, Session.flush, offer_written hsent]
    split at h <;> cases h
    · refine ⟨⟨_, Std.ExtTreeMap.getElem?_insert_self, (offer_still hsent).trans hstill, hoctets⟩,
        (originatorOf_of_same hsends.same).trans hu.originators, hunsent,
        fun k hk => hu.idle k hk.1⟩
    · refine ⟨⟨_, Std.ExtTreeMap.getElem?_insert_self, (offer_still hsent).trans hstill, hoctets⟩,
        (originatorOf_of_same hsends.same).trans hu.originators, hunsent, fun k hk => ?_⟩
      have hlast := hu.idle k hk.1
      simpa [mraiOf, setMrai, recordSent, setSession, lookup_insert, hfirst,
        hk.2.symm] using hlast

section Selection

variable (hk : ∀ hook ∈ c.hooks.exports, KeepsPath (hook session)) (hest : peer.established = true)

theorem Unsent.of_sends (hu : Unsent session peer originator keys octets e)
    {K : RouteKey → Prop} (hne : h ≠ session) (hsends : Sends K h e e') :
    Unsent session peer originator keys octets e' := by
  have hview := hsends.view hne
  simp only [view, Prod.mk.injEq] at hview
  obtain ⟨hsession, hsent, hmrai⟩ := hview
  refine ⟨hsession ▸ hu.known, (originatorOf_of_same hsends.same).trans hu.originators, ?_, ?_⟩
  · intro k hkeys id
    rw [congrFun (congrFun hsent k) id]
    exact hu.unsent k hkeys id
  · rw [mraiOf, hmrai]
    exact hu.idle

/-- Work for other sessions changes nothing here. -/
theorem Unsent.others (hu : Unsent session peer originator keys octets e)
    {works : List (UInt64 × List Route × List UInt32)} (hothers : ∀ work ∈ works, work.1 ≠ session)
    (h : works.foldlM (fun e work => e.transmit now work.1 key work.2) e = some e') :
    Unsent session peer originator keys octets e' :=
  foldlM_invariant (P := Unsent session peer originator keys octets)
    (fun work hwork _ _ hu hstep =>
      hu.of_sends (hothers work hwork)
        (Sends.refl.transmit (K := fun _ => True) (fun _ _ => trivial) trivial hstep)) hu h

include hk hest

/-- The export of a key writes what is desired for it, whatever the other sessions get. -/
theorem exportSelection_written (hu : Unsent session peer originator keys octets e)
    (hkey : keys key) (hranked : ∀ route ∈ ranked, route.key = key)
    (h : e.exportSelection c key ranked = some e') :
    Unsent session peer originator (fun k => keys k ∧ k ≠ key)
      (octets ++ updateOctets peer originator (desired c session peer key ranked)) e' := by
  obtain ⟨s, hs, -⟩ := hu.known
  have hmem : session ∈ e.sessions.keys :=
    Std.ExtTreeMap.mem_keys.mpr (Std.ExtTreeMap.mem_iff_isSome_getElem?.mpr (by rw [hs]; rfl))
  have hnodup := nodup_keys e.sessions
  unfold exportSelection at h
  obtain ⟨before, after, hsplit⟩ := append_of_mem hmem
  rw [hsplit, nodup_append, nodup_cons] at hnodup
  rw [hsplit, map_append, map_cons, foldlM_append] at h
  obtain ⟨e₁, h₁, h⟩ := bind_eq_some_iff.mp h
  obtain ⟨e₂, h₂, h⟩ := bind_eq_some_iff.mp h
  have hwanted : ∀ route ∈ desired c session peer key ranked, route.key = key := by
    intro route hroute
    obtain ⟨-, -, o, ho, -, hrun⟩ := mem_desired.mp hroute
    exact (runExportTo_keepsPath hk hrun).2.1.trans
      (hranked o.route (route_mem_of_mem_pathOffers ho))
  have hu₁ := hu.others (fun work hwork => ?_) h₁
  · rw [hu.exportWorkFor hest hkey] at h₂
    refine (transmit_written hu₁ hkey hwanted h₂).others (fun work hwork => ?_) h
    obtain ⟨other, hother, rfl⟩ := mem_map.mp hwork
    rintro rfl
    exact hnodup.2.1.1 hother
  · obtain ⟨other, hother, rfl⟩ := mem_map.mp hwork
    exact hnodup.2.2 other hother session mem_cons_self

/-- Incremental export of a list of keys writes what is desired for each. -/
theorem exportKeys_written {entries : List (RouteKey × List Route)}
    (hdistinct : (entries.map Prod.fst).Nodup)
    (hkeyed : ∀ entry ∈ entries, ∀ route ∈ entry.2, route.key = entry.1)
    (hu : Unsent session peer originator (· ∈ entries.map Prod.fst) octets e)
    (h : entries.foldlM (fun e entry => e.exportSelection c entry.1 entry.2) e = some e') :
    Unsent session peer originator (fun _ => False) (octets ++ updateOctets peer originator
      (entries.flatMap fun entry => desired c session peer entry.1 entry.2)) e' := by
  induction entries generalizing e octets with
  | nil =>
    cases h
    simpa [updateOctets] using hu
  | cons entry entries ih =>
    obtain ⟨e₁, h₁, h⟩ := bind_eq_some_iff.mp h
    rw [map_cons, nodup_cons] at hdistinct
    have hu₁ := exportSelection_written hk hest hu mem_cons_self (hkeyed entry mem_cons_self) h₁
    rw [flatMap_cons, updateOctets_append, ← append_assoc]
    refine ih hdistinct.2 (fun x hx => hkeyed x (mem_cons_of_mem _ hx))
      ⟨hu₁.known, hu₁.originators, fun k hk => hu₁.unsent k ?_, fun k hk => hu₁.idle k ?_⟩ h <;>
    exact ⟨mem_cons_of_mem _ hk, fun heq => hdistinct.1 (heq ▸ hk)⟩

end Selection

end Egress

/-! ## The three ways -/

/-- Started in `e`, the three functions write to the session the UPDATEs of what the sets of
paths are read from. -/
structure ExportsWritten (c : ExportContext) (session : UInt64) (rib : LocRib) (e : Egress)
    (s : Session) : Prop where
  /-- The dump: the UPDATEs, then the End-of-RIB marker. -/
  dump : ∀ {e'}, e.onBgpEstablished c rib session = some e' → ∃ p q : BgpPeer,
    p.still = s.peer.still ∧ p.outBuf = s.peer.outBuf ++
      updateOctets s.peer e.originatorOf (dumpOffered c session s.peer rib) ∧
    p.sendEndOfRib = .ok q ∧ e'.sessions[session]? = some (Session.flush { s with peer := q })
  /-- A refresh of a family: the withdrawals of what was sent, the UPDATEs, the markers. -/
  refresh : s.peer.established = true → ∀ {family e'},
    e.reannounceToSession c rib session family = some e' →
    ∃ (began : BgpPeer × Bool) (p p' q q' : BgpPeer),
      s.peer.beginEnhancedRouteRefresh family = .ok began ∧
      withdrawAll began.1 family (e.adjRibOut.advertisedKeys (destOf session) family) = some p ∧
      p'.still = s.peer.still ∧ p'.outBuf = p.outBuf ++
        updateOctets s.peer e.originatorOf (refreshOffered c session s.peer rib family) ∧
      p'.sendEndOfRib = .ok q ∧
      (if began.2 then q.endEnhancedRouteRefresh family else .ok q) = .ok q' ∧
      e'.sessions[session]? = some (Session.flush { s with peer := q' })
  /-- Incremental export key by key, with an empty Adj-RIB-Out: the UPDATEs. -/
  incremental : s.peer.established = true →
    (∀ key id, e.adjRibOut.get (destOf session) key id = none) →
    (e.mraiOf session).lastSent = ∅ → ∀ {e'},
    rib.toList.foldlM (fun e entry => e.exportSelection c entry.1 entry.2) e = some e' →
    ∃ s', e'.sessions[session]? = some s' ∧ s'.written = s.written ++
      updateOctets s.peer e.originatorOf (incrementalOffered c session s.peer rib)

section

variable {c : ExportContext} {session : UInt64} {rib : LocRib} {e : Egress} {s : Session}
  (hk : ∀ hook ∈ c.hooks.exports, KeepsPath (hook session)) (hrib : LocRib.Keyed rib)
  (hs : e.sessions[session]? = some s)

include hk hrib hs

theorem exportsWritten : ExportsWritten c session rib e s where
  dump {e'} h := by
    rw [onBgpEstablished, hs] at h
    obtain ⟨sent, hsent, h⟩ := bind_eq_some_iff.mp h
    obtain ⟨q, hq, h⟩ := bind_eq_some_iff.mp h
    cases h
    exact ⟨sent.1, q, offer_still hsent, offer_written hsent, Outcome.toOption_eq_some.mp hq,
      Std.ExtTreeMap.getElem?_insert_self⟩
  refresh hest family e' h := by
    rw [reannounceToSession, hs] at h
    simp only [hest, Bool.not_true, Bool.false_eq_true, if_false] at h
    obtain ⟨began, hbegan, h⟩ := bind_eq_some_iff.mp h
    obtain ⟨p, hp, h⟩ := bind_eq_some_iff.mp h
    obtain ⟨sent, hsent, h⟩ := bind_eq_some_iff.mp h
    obtain ⟨q, hq, h⟩ := bind_eq_some_iff.mp h
    obtain ⟨q', hq', h⟩ := bind_eq_some_iff.mp h
    cases h
    rw [Outcome.toOption_eq_some] at hbegan hq
    have hstill : p.still = s.peer.still :=
      (withdrawAll_still hp).trans (BgpPeer.still_beginEnhancedRouteRefresh hbegan)
    have hsame : ((e.adjRibOut.advertisedKeys (destOf session) family).foldl
        (fun e entry => e.recordWithdrawn session entry.1 entry.2) e).originatorOf =
          e.originatorOf :=
      List.foldlRecOn (motive := fun t : Egress => t.originatorOf = e.originatorOf) _ _ rfl
        fun _ hsame _ _ => hsame
    refine ⟨began, p, sent.1, q, q', hbegan, hp, (offer_still hsent).trans hstill, ?_, hq, ?_,
      Std.ExtTreeMap.getElem?_insert_self⟩
    · have hoffered : permitted c session p.cfg (refreshSnapshot session p rib family) =
          permitted c session p.still.cfg (refreshSnapshot session p.still rib family) := rfl
      rw [offer_written hsent, hsame, updateOctets_congr hstill, hoffered, hstill]
      rfl
    · split at hq' <;> rename_i hmarked
      · rw [if_pos hmarked]
        exact Outcome.toOption_eq_some.mp hq'
      · cases hq'
        rw [if_neg hmarked]
  incremental hest hunsent hidle e' h := by
    have hu : Unsent session s.peer e.originatorOf (· ∈ rib.toList.map Prod.fst) s.written e :=
      ⟨⟨s, hs, rfl, rfl⟩, rfl, fun k _ => hunsent k, fun k _ => by rw [hidle]; simp⟩
    have hdistinct : (rib.toList.map Prod.fst).Nodup := by
      rw [Std.ExtTreeMap.map_fst_toList_eq_keys]
      exact nodup_keys rib
    have hkeyed : ∀ entry ∈ rib.toList, ∀ route ∈ entry.2, route.key = entry.1 :=
      fun entry hentry =>
      hrib entry.1 entry.2 (Std.ExtTreeMap.mem_toList_iff_getElem?_eq_some.mp hentry)
    obtain ⟨s', hs', -, hwritten⟩ := (exportKeys_written hk hest hdistinct hkeyed hu h).known
    exact ⟨s', hs', hwritten⟩

/-- The initial dump, a full refresh and incremental export send the same exactly when no
offered path is treated differently by their filters; the converse needs the paths of a
key to have identifiers of their own.  What they send is what the functions write. -/
theorem exportPaths_agree_iff :
    (OffersUniform c session s.peer e.originatorOf rib →
      ExportsAgree c session s.peer e.originatorOf rib) ∧
    (LocRib.Numbered rib → (ExportsAgree c session s.peer e.originatorOf rib ↔
      OffersUniform c session s.peer e.originatorOf rib)) ∧
    ExportsWritten c session rib e s :=
  ⟨exportsAgree_of_uniform hk hrib, fun hnum => ⟨fun h hpermit _ _ hkey _ ho =>
    uniform_of_exportsAgree hk hrib hnum h hpermit hkey ho, exportsAgree_of_uniform hk hrib⟩,
    exportsWritten hk hrib hs⟩

end

/-- An external session that sends several paths of a prefix. -/
def addPathPeer : BgpPeer :=
  { BgpPeer.new { localAs := 65001, peerAs := 65002, localBgpId := 1 } with
    state := .established, established := true, addPathTx := [.ipv4Unicast] }

/-- An export hook that stops the routes with tag 7 and takes the MED off the others. -/
def taggedHook : ExportHook := fun _ route =>
  if route.tag = some 7 then (route, .drop)
  else (route, .replace { route with attributes := route.attributes.erase 4 })

/-- A BGP path of a prefix, learned over a session. -/
def learnedPath (pfx : Prefix) (session : UInt64) : Route :=
  { localRoute (.new pfx .ipv4Unicast) (some (.v4 (.padded 4 [10, 0, 0, 1]))) .new 0 with
    origin := ⟨1, session⟩, attributes := Std.ExtTreeMap.insert ∅ 4 ⟨0x80, [0, 0, 0, 9]⟩ }

/-- A prefix with three paths, one of them of the session itself; a path that a summary-only
aggregate covers and a static route, which the hook stops. -/
def agreeingRib : LocRib :=
  let several := Prefix.newV4 (.padded 4 [203, 0, 113]) 24
  let covered := { learnedPath (.newV4 (.padded 4 [192, 0, 2]) 24) 2 with tag := some 7 }
  let fixed := { learnedPath (.newV4 (.padded 4 [198, 51, 100]) 24) 0 with
    protocol := .static, tag := some 7 }
  ((Std.ExtTreeMap.insert ∅ (.new several .ipv4Unicast)
    [learnedPath several 2, learnedPath several 1, learnedPath several 3]).insert covered.key
      [covered]).insert fixed.key [fixed]

/-- A hook that tags routes, and an aggregate that hides what it covers. -/
def agreeingContext : ExportContext where
  hooks := { exports := [taggedHook] }
  aggregates := Std.ExtTreeMap.insert ∅ (.newV4 (.padded 4 [192, 0]) 16) { summaryOnly := true }

/-- One ADD-PATH session. -/
def agreeingEgress : Egress where
  sessions := Std.ExtTreeMap.insert ∅ 1 { peer := addPathPeer }

/-- The three ways agree on the two paths of the other sessions. -/
theorem exportPaths_agree_addPath :
    ExportsAgree agreeingContext 1 addPathPeer agreeingEgress.originatorOf agreeingRib ∧
      (dumpSent agreeingContext 1 addPathPeer agreeingEgress.originatorOf agreeingRib).map
        (fun x => (x.1.pfx, x.2.1)) = [(.newV4 (.padded 4 [203, 0, 113]) 24, 1),
          (.newV4 (.padded 4 [203, 0, 113]) 24, 3)] := by
  have hhook : ∀ hook ∈ agreeingContext.hooks.exports, KeepsPath (hook 1) := by
    refine forall_mem_singleton.mpr fun route => ?_
    by_cases htag : route.tag = some 7 <;> simp [taggedHook, htag]
  have hkeyed : ∀ entry ∈ agreeingRib.toList, ∀ route ∈ entry.2, route.key = entry.1 := by
    decide +kernel
  have huniform : ∀ entry ∈ agreeingRib.toList, ∀ o ∈ pathOffers 1 addPathPeer entry.1 entry.2,
      entry.1.family = .ipv4Unicast ∧ o.dumpId = o.deltaId ∧ (o.route.protocol ≠ .bgp ∨
        summaryOnlySuppresses agreeingContext.aggregates entry.1 = true →
          outcome agreeingContext 1 addPathPeer agreeingEgress.originatorOf o.route o.dumpId =
            none) := by
    decide +kernel
  have hsession : agreeingEgress.sessions[(1 : UInt64)]? = some { peer := addPathPeer } :=
    Std.ExtTreeMap.getElem?_insert_self
  have hrib : LocRib.Keyed agreeingRib := fun key paths hpaths =>
    hkeyed (key, paths) (Std.ExtTreeMap.mem_toList_iff_getElem?_eq_some.mpr hpaths)
  constructor
  · refine (exportPaths_agree_iff hhook hrib hsession).1 fun _ key paths hpaths o ho => ?_
    obtain ⟨hfamily, hid, hstopped⟩ :=
      huniform (key, paths) (Std.ExtTreeMap.mem_toList_iff_getElem?_eq_some.mpr hpaths) o ho
    exact ⟨fun _ hbgp => hstopped (.inl hbgp), fun _ _ hhidden => hstopped (.inr hhidden),
      fun hother => absurd (by rw [hfamily]; decide) hother, fun _ _ _ hne => absurd hid hne⟩
  · decide +kernel

namespace DefaultRouter

/-- The session of the run below. -/
def exportingSession : SessionConfig where
  localAs := 65001
  peerAs := 65002
  localBgpId := 1

/-- A summary-only aggregate with a network inside, a static route outside, and a session
that comes up. -/
def exportingRun : List RouterOp :=
  [.addAggregateWithOptions (.newV4 (.padded 4 [192, 0]) 16) { summaryOnly := true },
    .originateFamily (.newV4 (.padded 4 [192, 0, 2]) 24) .ipv4Unicast none,
    .installStatic (.newV4 (.padded 4 [198, 51, 100]) 24) .ipv4Unicast none 1 none,
    .addSession exportingSession, .startSession 1,
    .feedInput 1 (greeting (exportingSession.neighbour 2))]

/-- The dump sends the network, a refresh the network and the static route, incremental
export neither. -/
theorem exportPaths_differ :
    (exec (perform 8) new exportingRun).map (fun r => (r.session 1).map fun s =>
      ((dumpSent r.exportContext 1 s.peer r.egress.originatorOf r.rib.locRib).map (·.1.pfx),
        (refreshSent r.exportContext 1 s.peer r.egress.originatorOf r.rib.locRib).map (·.1.pfx),
        (incrementalSent r.exportContext 1 s.peer r.egress.originatorOf r.rib.locRib).map
          (·.1.pfx))) =
      some (some ([.newV4 (.padded 4 [192, 0, 2]) 24],
        [.newV4 (.padded 4 [192, 0, 2]) 24, .newV4 (.padded 4 [198, 51, 100]) 24], [])) := by
  decide +kernel

end DefaultRouter

end LibRouting.Router
