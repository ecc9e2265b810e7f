/-
  Router/AsLoop.lean --- AS loop rejection from the UPDATE to the tables.

  A session reads AS_PATH, stores it in its canonical form, and the safety net decodes what
  was stored.  The path the net looks at is named here, and compared with the one the
  session agreed on.
-/
import LibRouting.Router.ImportEvents
import LibRouting.Router.PrivateTags

set_option autoImplicit false

namespace LibRouting.Bgp

open Foundation Core Outcome List Option

/-! ## UPDATEs from the wire -/

theorem decodePathAttributes_canonical {b : Bytes} {attrs : PathAttributes}
    (h : decodePathAttributes b = ok attrs) : attrs.Canonical := by
  have hturns : ∀ {out out' : PathAttributes} {b : Bytes}, Turns AttrPush out b out' →
      out.Canonical → out'.Canonical := by
    intro out out' b hturns
    induction hturns with
    | nil s => exact id
    | cons hpush _ ih =>
      intro hout
      obtain ⟨a, ha, -, rfl⟩ := hpush
      refine ih (hout.insert ?_)
      cases ha
      exact AttrType.canonical_fromU8 _
  exact hturns ((decodePathAttributes_ok_iff b attrs).mp h) PathAttributes.canonical_new

theorem decodeUpdate_canonical {body : Bytes} {addPath : Bool} {u : Update}
    (h : decodeUpdate body addPath = ok u) : u.attributes.Canonical := by
  unfold decodeUpdate at h
  split at h
  · cases h
  obtain ⟨n, -, h⟩ := bind_eq_ok.mp h
  split at h
  · cases h
  obtain ⟨wb, -, h⟩ := bind_eq_ok.mp h
  obtain ⟨w, -, h⟩ := bind_eq_ok.mp h
  split at h
  · cases h
  obtain ⟨m, -, h⟩ := bind_eq_ok.mp h
  split at h
  · cases h
  obtain ⟨ab, -, h⟩ := bind_eq_ok.mp h
  obtain ⟨attrs, hattrs, h⟩ := bind_eq_ok.mp h
  obtain ⟨nb, -, h⟩ := bind_eq_ok.mp h
  obtain ⟨nlri, -, h⟩ := bind_eq_ok.mp h
  cases h
  exact decodePathAttributes_canonical hattrs

/-! ## Segments -/

namespace AsPath

/-- Every segment fits its count octet. -/
def Fits (p : AsPath) : Prop := ∀ s ∈ p.segments, s.ases.length ≤ 255

theorem mem_takeSegments {need : Nat} {segs : List AsPathSegment} {count : Nat}
    {s : AsPathSegment} (h : s ∈ (takeSegments need segs count).1) : s ∈ segs := by
  induction segs generalizing count with
  | nil => exact h
  | cons t segs ih =>
    simp only [takeSegments] at h
    split at h
    · cases h
    -- the kinds differ in how they count only
    split at h <;> split at h
    all_goals
      first
      | exact absurd h not_mem_nil
      | rcases mem_cons.mp h with rfl | h
        · exact mem_cons_self ..
        · exact mem_cons_of_mem _ (ih h)

theorem Fits.reconcileAs4 {wire : AsPath} (hwire : wire.Fits) {as4 : Option AsPath}
    (has4 : ∀ a ∈ as4, a.Fits) : (reconcileAs4 wire as4).Fits := by
  unfold AsPath.reconcileAs4
  split
  · exact hwire
  rename_i a
  have ha : a.Fits := has4 a rfl
  split
  · exact hwire
  split
  · exact hwire
  split
  · exact ha
  intro s hs
  simp only [mem_append] at hs
  rcases hs with (hs | hs) | hs
  · exact hwire s (mem_takeSegments hs)
  · split at hs
    · unfold deficitSegment at hs
      split at hs
      · rename_i t ht
        rw [mem_singleton.mp hs]
        have hlen := hwire t (mem_of_find?_eq_some ht)
        simp only [length_take]
        omega
      · cases hs
    · cases hs
  · exact ha s hs

end AsPath

namespace BgpPeer
variable (cfg : PeerConfig)

/-! ## The path of an UPDATE -/

/-- The path of an UPDATE: AS_PATH at the width the session agreed on, reconciled with
AS4_PATH; `none` when AS_PATH cannot be decoded. -/
def negotiatedPath (p : BgpPeer) (attrs : PathAttributes) : Option AsPath :=
  match attrs.get .asPath with
  | none => some (attrs.as4Path.getD .new)
  | some _ =>
    (attrs.asPathWire p.codec.asn4).map fun wire => AsPath.reconcileAs4 wire attrs.as4Path

/-- The path leads through the local AS of the session, or cannot be told. -/
def Looped (p : BgpPeer) (u : Update) : Prop :=
  ∀ path ∈ p.negotiatedPath u.attributes, p.cfg.localAs ∈ path.asns

/-- The path the safety net finds in the routes of an UPDATE: the canonical one, and where
that has no segment the attribute as it came, in four octets or in two. -/
def checkedPath (cfg : PeerConfig) (attrs : PathAttributes) : Option AsPath :=
  let path := canonicalPath cfg attrs
  if path.segments ≠ [] then some path
  else (attrs.get .asPath).bind fun a => (AsPath.decode4 a.value).or (AsPath.decode a.value)

section

variable (attrs : PathAttributes)

theorem canonicalPath_relayUnknown :
    canonicalPath cfg (relayUnknown attrs) = canonicalPath cfg attrs := by
  have hpath := relayUnknown_get attrs (t := .asPath) (by simp)
  have has4 := relayUnknown_get attrs (t := .as4Path) (by simp)
  simp only [canonicalPath, PathAttributes.asPathWire, PathAttributes.as4Path,
    PathAttributes.read, hpath, has4]

theorem canonicalPath_fits : (canonicalPath cfg attrs).Fits := by
  have has4 : ∀ a ∈ attrs.as4Path, a.Fits := by
    intro a ha
    obtain ⟨attr, -, hdec⟩ := bind_eq_some_iff.mp ha
    exact (AsPath.decodeInner_length hdec).2
  unfold canonicalPath
  split
  · rename_i wire hwire
    obtain ⟨attr, -, hdec⟩ := bind_eq_some_iff.mp hwire
    refine AsPath.Fits.reconcileAs4 ?_ has4
    split at hdec
    · exact (AsPath.decodeInner_length hdec).2
    · exact (AsPath.decodeInner_length hdec).2
  · cases h : attrs.as4Path with
    | none => simp [AsPath.Fits, AsPath.new]
    | some a => exact has4 a h

theorem normalize_get_as4Path : (normalize cfg attrs).get .as4Path = none := by
  unfold normalize
  dsimp only
  split <;> simp

theorem normalize_asPath_value :
    ((normalize cfg attrs).get .asPath).bind (fun a =>
      (AsPath.decode4 a.value).or (AsPath.decode a.value)) = checkedPath cfg attrs := by
  unfold normalize checkedPath
  dsimp only
  rw [canonicalPath_relayUnknown]
  split
  · simp only [PathAttributes.get_insert, if_true, bind_some]
    rw [(AsPath.decode4_encode4_iff _).mpr (canonicalPath_fits cfg attrs), some_or]
  · rw [PathAttributes.get_remove, if_neg (by simp), relayUnknown_get attrs (by simp)]

end

end BgpPeer

end LibRouting.Bgp

namespace LibRouting.Router

open Foundation Core Bgp Policy Rib Outcome

variable {p : BgpPeer} {net : SafetyNet} {route : Route} {isEbgp : Bool}

/-! ## The check -/

theorem pathOf_stamped {attrs : PathAttributes} (h : attrs.Canonical) {x : BgpPeer.Announcement}
    (hstack : x.stack.isSome = x.family.isLabeledUnicast) (path : AsPath)
    (peerAddress : Option IpAddr) :
    SafetyNet.pathOf (stampPeerSource peerAddress
      (x.route p path (BgpPeer.normalize p.cfg attrs))) = BgpPeer.checkedPath p.cfg attrs := by
  have hcan := canonical_normalize p.cfg h
  have has4 : AttrType.fromU8 17 = .as4Path := rfl
  have hpath : AttrType.fromU8 2 = .asPath := rfl
  unfold SafetyNet.pathOf
  rw [stamped_getElem? p path hcan, stamped_getElem? p path hcan, has4, hpath,
    importAttributes_get hstack (by simp [OwnTag]), importAttributes_get hstack (by simp [OwnTag]),
    BgpPeer.normalize_get_as4Path, ← BgpPeer.normalize_asPath_value]
  cases (BgpPeer.normalize p.cfg attrs).get .asPath <;> rfl

theorem localAsCount_pos_iff (net : SafetyNet) (route : Route)
    (hexempt : net.localAs ∉ net.cfg.asLoopExceptions) :
    0 < net.localAsCount route ↔ ∃ path ∈ SafetyNet.pathOf route, net.localAs ∈ path.asns := by
  unfold SafetyNet.localAsCount
  cases SafetyNet.pathOf route with
  | none => simp
  | some path =>
    have hcount : 0 < path.asns.countP (fun a =>
        a == net.localAs && !net.cfg.asLoopExceptions.contains a) ↔ net.localAs ∈ path.asns := by
      rw [List.countP_pos_iff]
      constructor
      · rintro ⟨a, ha, hmatch⟩
        simp only [Bool.and_eq_true, beq_iff_eq] at hmatch
        exact hmatch.1 ▸ ha
      · intro ha
        refine ⟨net.localAs, ha, ?_⟩
        simpa using hexempt
    rw [UInt8.lt_iff_toNat_lt, UInt8.toNat_ofNat']
    simp only [Option.mem_some_iff, exists_eq_left']
    rw [← hcount, Nat.mod_eq_of_lt (by omega)]
    simp

theorem check_ne_ok (hon : net.cfg.enabled = true) (hloop : net.cfg.rejectAsLoop = true)
    (hpos : 0 < net.localAsCount route) : net.check route isEbgp ≠ .ok () := by
  have hpath : ∃ v, net.checkPath route isEbgp = .error v := by
    unfold SafetyNet.checkPath SafetyNet.asPathLen
    cases hp : SafetyNet.pathOf route with
    | none =>
      rw [SafetyNet.localAsCount, hp] at hpos
      cases hpos
    | some path =>
      simp only [Option.map_some]
      split
      · exact ⟨_, rfl⟩
      split
      · exact ⟨_, rfl⟩
      rw [if_pos ⟨hloop, hpos⟩]
      exact ⟨_, rfl⟩
  obtain ⟨v, hv⟩ := hpath
  unfold SafetyNet.check
  rw [hon, hv]
  simp only [Bool.not_true, Bool.false_eq_true, if_false]
  split <;> exact nofun

/-- A path through the local AS is refused where loops are rejected and none is tolerated. -/
theorem safetyAdmits_eq_false {c : ImportConfig} (hnet : c.safety = some net)
    (hon : net.cfg.enabled = true) (hloop : net.cfg.rejectAsLoop = true)
    (htol : c.localAsTolerance = 0) (hpos : 0 < net.localAsCount route) :
    c.safetyAdmits route = false := by
  unfold ImportConfig.safetyAdmits
  simp only [hnet, htol]
  split
  · rename_i hok
    exact absurd hok (check_ne_ok hon hloop hpos)
  · simp
  · rfl

/-! ## A net that looks for loops only -/

/-- A net for an AS with every other check off. -/
def loopNet (asn : Asn) : SafetyNet where
  cfg :=
    { rejectInvalidNextHop := false
      rejectExcessiveAsLoop := false
      rejectOversizedAsPath := false
      rejectMartianPrefix := false }
  localAs := asn

theorem loopNet_check {asn : Asn} (h : (loopNet asn).localAsCount route = 0) :
    (loopNet asn).check route isEbgp = .ok () := by
  have hpath : (loopNet asn).checkPath route isEbgp = .ok () := by
    unfold SafetyNet.checkPath
    split
    · rfl
    · rw [h]
      simp [loopNet]
  have hnext : (loopNet asn).checkNextHop route = .ok () := by
    unfold SafetyNet.checkNextHop
    split
    · simp [loopNet]
    · rfl
  unfold SafetyNet.check
  rw [hpath, hnext]
  rfl

section

variable {u : Update} {actions : List BgpAction} (h : p.handleUpdateInEstablished u = ok actions)
include h

/-- The routes of an UPDATE are its last actions. -/
theorem announced_split : ∃ (front : List BgpAction) (xs : List BgpPeer.Announcement)
    (path : AsPath),
    actions = front ++ xs.map (fun x =>
      .installRoute (x.route p path (BgpPeer.normalize p.cfg u.attributes))) ∧
    (∀ a ∈ front, ∀ r, a ≠ .installRoute r) ∧
    ∀ x ∈ xs, x.stack.isSome = x.family.isLabeledUnicast := by
  obtain ⟨gone, -, h⟩ := bind_eq_ok.mp h
  obtain ⟨xs, hxs, h⟩ := bind_eq_ok.mp h
  cases h
  have hstack := announcements_stack p u hxs
  rw [List.append_assoc (p.endOfRibActions u)]
  by_cases hacc : p.accepted u.attributes = true
  · rw [if_pos hacc]
    exact ⟨_, xs, _, rfl, quiet_ne_install p u gone, hstack⟩
  · rw [if_neg hacc]
    exact ⟨_, [], .new, rfl, quiet_ne_install p u gone, by simp⟩

/-- A route that an UPDATE announces, and where its attributes come from. -/
theorem announced_shape (hroute : .installRoute route ∈ actions) :
    ∃ (x : BgpPeer.Announcement) (path : AsPath), x.stack.isSome = x.family.isLabeledUnicast ∧
      route = x.route p path (BgpPeer.normalize p.cfg u.attributes) := by
  obtain ⟨front, xs, path, rfl, hfront, hstack⟩ := announced_split h
  rcases List.mem_append.mp hroute with hmem | hmem
  · exact absurd rfl (hfront _ hmem route)
  obtain ⟨x, hx, heq⟩ := List.mem_map.mp hmem
  cases heq
  exact ⟨x, path, hstack x hx, rfl⟩

end

namespace DefaultRouter

/-! ## End to end -/

/-- AS loops are rejected on a session, without an exception for it or for the AS. -/
structure RejectsLoops (r : DefaultRouter) (s : Session) (asn : Asn) : Prop where
  tolerance : s.options.localAsTolerance = 0
  net : ∃ net, r.settings.safety = some net ∧ net.localAs = asn ∧ net.cfg.enabled = true ∧
    net.cfg.rejectAsLoop = true ∧ asn ∉ net.cfg.asLoopExceptions

/-- A route of a session does not get past import: its action ends and leaves Adj-RIB-In
and the routing table as they were. -/
def KeepsOut (r : DefaultRouter) (fuel : Nat) (h : UInt64) (route : Route) : Prop :=
  ∃ r', dispatchAction fuel h r (.installRoute route) = some r' ∧
    r'.ingress.adjRibIn = r.ingress.adjRibIn ∧ r'.rib = r.rib

variable {r : DefaultRouter} {fuel : Nat} {h : UInt64} {route : Route}

theorem stamped_origin (r : DefaultRouter) (route : Route) :
    (r.stamped route).origin = route.origin := by
  unfold stamped stampPeerSource
  split <;> rfl

theorem keepsOut_of_admit
    (hadm : (r.importConfig route.origin.peer).admitRoute r.nowMs (r.stamped route) = none) :
    r.KeepsOut fuel h route := by
  have hraw : ∀ keep, (r.ingress.retainRaw keep (r.stamped route)).adjRibIn =
      r.ingress.adjRibIn := by
    intro keep
    unfold Ingress.retainRaw
    split <;> rfl
  unfold KeepsOut dispatchAction
  change ∃ r', r.importRoute fuel (r.stamped route) = some r' ∧ _
  unfold importRoute
  dsimp only
  rw [stamped_origin]
  split
  · exact ⟨_, rfl, hraw _, rfl⟩
  · rw [hadm]
    exact ⟨_, rfl, hraw _, rfl⟩

theorem not_keepsOut_of_admit {stored : Route} (hempty : r.ingress.adjRibIn = ∅)
    (hadm : (r.importConfig route.origin.peer).admitRoute r.nowMs (r.stamped route) = some stored) :
    ¬ r.KeepsOut fuel h route := by
  rintro ⟨r', hr', hsame, -⟩
  have himport : r.importRoute fuel (r.stamped route) = some r' := hr'
  obtain ⟨g, hg, heffect⟩ := importRoute_effect himport
  rw [stamped_origin, hadm] at hg
  rw [heffect.ingress, hg.adjRibIn, hempty] at hsame
  have hheld := AdjRibIn.get_feedPrePolicy ((r.ingress.retainRaw (r.keepsRaw route.origin.peer)
    (r.stamped route)).noteRefreshed stored.origin.peer stored).adjRibIn stored.origin stored.origin
    stored stored.key stored.pathId
  rw [if_pos rfl] at hheld
  have hnone : AdjRibIn.get ∅ stored.origin stored.key stored.pathId = none := by
    simp [AdjRibIn.get]
  rw [← hsame] at hnone
  exact absurd (hnone.symm.trans hheld) (by simp)

variable {p : BgpPeer} {body : Bytes} {addPath : Bool} {u : Update} {actions : List BgpAction}
  {asn : Asn}

/-- The routes of an UPDATE on a router whose net finds the AS in the path. -/
theorem keepsOut_of_checked (hread : decodeUpdate body addPath = ok u)
    (hacts : p.handleUpdateInEstablished u = ok actions)
    (hchecked : ∃ path ∈ BgpPeer.checkedPath p.cfg u.attributes, asn ∈ path.asns)
    {s : Session} (hs : r.session p.cfg.peerId = some s) (hrej : r.RejectsLoops s asn)
    (hroute : .installRoute route ∈ actions) : r.KeepsOut fuel h route := by
  obtain ⟨x, path, hstack, rfl⟩ := announced_shape hacts hroute
  obtain ⟨net, hnet, rfl, hon, hloop, hexempt⟩ := hrej.net
  have hpeer : (x.route p path (BgpPeer.normalize p.cfg u.attributes)).origin.peer =
    p.cfg.peerId := rfl
  have hpos : 0 < net.localAsCount (r.stamped
      (x.route p path (BgpPeer.normalize p.cfg u.attributes))) := by
    rw [localAsCount_pos_iff net _ hexempt, stamped,
      pathOf_stamped (decodeUpdate_canonical hread) hstack]
    exact hchecked
  refine keepsOut_of_admit ?_
  rw [hpeer]
  have hadmits := safetyAdmits_eq_false (c := r.importConfig p.cfg.peerId)
    (by simp only [importConfig, hs, hnet]) hon hloop
    (by simp only [importConfig, hs, hrej.tolerance]) hpos
  unfold ImportConfig.admitRoute
  split
  · rfl
  · rw [hadmits]
    rfl

/-! ## A whole UPDATE -/

theorem RejectsLoops.alike {r' : DefaultRouter} {s : Session} (hrej : r.RejectsLoops s asn)
    (halike : Alike r r') (hs : r.session h = some s) :
    ∃ s', r'.session h = some s' ∧ r'.RejectsLoops s' asn := by
  have hread := halike.map_session h Session.options rfl
  rw [hs, Option.map_some] at hread
  obtain ⟨s', hs', hoptions⟩ := Option.map_eq_some_iff.mp hread
  exact ⟨s', hs', by rw [hoptions, hrej.tolerance], halike.settings ▸ hrej.net⟩

/-- Adj-RIB-In and the routing table. -/
def ribs (r : DefaultRouter) : AdjRibIn × RibState := (r.ingress.adjRibIn, r.rib)

/-- Routes that are kept out one by one are kept out together. -/
theorem installs_keptOut {routes : List Route} (hkept : ∀ r', Alike r r' → ∀ route ∈ routes,
      r'.KeepsOut fuel h route) :
    ((routes.map .installRoute).foldlM (dispatchAction fuel h) r).map ribs = some r.ribs := by
  induction routes generalizing r with
  | nil => rfl
  | cons route routes ih =>
    obtain ⟨r₁, hr₁, hin, hrib⟩ := hkept r (.refl r) route (.head _)
    have hrest := ih (r := r₁) fun r' halike route hroute =>
      hkept r' ((dispatchAction_traces hr₁).1.trans halike) route (.tail _ hroute)
    rw [List.map_cons, List.foldlM_cons, hr₁]
    exact hrest.trans (by rw [ribs, ribs, hin, hrib])

/-- A session in Established takes in one frame, which carries the UPDATE. -/
structure Receives (r : DefaultRouter) (s : Session) (bytes : Bytes) (u : Update) : Prop where
  session : r.session s.peer.cfg.peerId = some s
  up : s.peer.state = .established
  marked : s.established = true
  fresh : s.peer.codec.carryover = []
  frame : tryDecodeFrame bytes (s.peer.codec.rxAddPath .ipv4Unicast) =
    ok (some (bytes.length, .update u))

/-- What `feed_bytes` makes of the frame. -/
theorem Receives.feedBytes {s : Session} {bytes : Bytes} (hr : r.Receives s bytes u)
    (hacts : s.peer.handleUpdateInEstablished u = ok actions) :
    ∃ q, s.peer.feedBytes bytes = ok (q, actions ++ s.peer.rearmHold) ∧
      q.established = s.peer.established := by
  obtain ⟨hlen, -⟩ := tryDecodeFrame_length hr.frame
  set q := { s.peer.holding [] with received := s.peer.received.count (.update u) } with hq
  have hstate : q.state = .established := hr.up
  have hstep : q.step (.message (.update u)) = ok (q, actions ++ s.peer.rearmHold) := by
    unfold BgpPeer.step
    rw [hstate]
    exact congrArg (· >>= _) hacts
  have hrest : q.feedLoop [] = ok (q.holding [], []) := by
    rw [BgpPeer.feedLoop]
    rfl
  refine ⟨q.holding [], ?_, rfl⟩
  rw [BgpPeer.feedBytes, hr.fresh, List.nil_append, BgpPeer.feedLoop, hr.frame]
  simp only [List.drop_length, ← hq, hstep, ok_bind, hrest, pure_eq_ok, List.append_nil]
  rw [dif_pos ⟨by omega, Nat.le_refl _⟩]

/-- Feeding an UPDATE whose routes are kept out leaves the tables that its other actions
leave. -/
theorem Receives.keptOut {s : Session} {bytes : Bytes} (hr : r.Receives s bytes u)
    (hacts : s.peer.handleUpdateInEstablished u = ok actions) (hrej : r.RejectsLoops s asn)
    (hread : decodeUpdate body addPath = ok u)
    (hchecked : ∃ path ∈ BgpPeer.checkedPath s.peer.cfg u.attributes, asn ∈ path.asns) :
    ∃ q, s.peer.feedBytes bytes = ok (q, actions ++ s.peer.rearmHold) ∧
      (r.feedInput fuel s.peer.cfg.peerId bytes).map ribs =
        ((r.fed s.peer.cfg.peerId s q).dispatchBgpActions fuel s.peer.cfg.peerId
          (actions.filter fun a => !installs a)).map ribs := by
  obtain ⟨q, hfeed, hest⟩ := hr.feedBytes hacts
  refine ⟨q, hfeed, ?_⟩
  have hne : bytes ≠ [] := by
    rintro rfl
    have hlen := tryDecodeFrame_length hr.frame
    simp at hlen
  have hfed : r.feedInput fuel s.peer.cfg.peerId bytes =
      (r.fed s.peer.cfg.peerId s q).dispatchBgpActions fuel s.peer.cfg.peerId
        (actions ++ s.peer.rearmHold) := by
    have hnone : (r.fed s.peer.cfg.peerId s q).collision s.peer.cfg.peerId s.peer.state q.state =
        none := if_neg (by simp [hr.up])
    simp [feedInput, hr.session, hne, hfeed, toOption, hnone, applyFed, hr.marked]
  obtain ⟨front, xs, path, rfl, hfront, -⟩ := announced_split hacts
  have hkeep : (front ++ xs.map fun x => BgpAction.installRoute (x.route s.peer path
      (BgpPeer.normalize s.peer.cfg u.attributes))).filter (fun a => !installs a) = front := by
    rw [List.filter_append, List.filter_eq_self.mpr,
      List.filter_eq_nil_iff.mpr (by simp [installs]),
      List.append_nil]
    intro a ha
    cases a with
    | installRoute route => exact absurd rfl (hfront _ ha route)
    | _ => rfl
  rw [hfed, hkeep]
  simp only [dispatchBgpActions, List.foldlM_append, Option.bind_eq_bind, Option.bind_assoc,
    Option.map_bind]
  cases hquiet : front.foldlM (dispatchAction fuel s.peer.cfg.peerId)
      ((r.fed s.peer.cfg.peerId s q).syncEstablished s.peer.cfg.peerId) with
  | none => rfl
  | some r₂ =>
    have halike := (syncEstablished_alike (r.fed s.peer.cfg.peerId s q) s.peer.cfg.peerId).trans
      (dispatchActions_traces hquiet).1
    obtain ⟨s₁, hs₁, hrej₁⟩ : ∃ s₁, (r.fed s.peer.cfg.peerId s q).session s.peer.cfg.peerId =
        some s₁ ∧ (r.fed s.peer.cfg.peerId s q).RejectsLoops s₁ asn :=
      ⟨_, Std.ExtTreeMap.getElem?_insert_self, hrej.tolerance, hrej.net⟩
    have hkept : ∀ r', Alike r₂ r' → ∀ route ∈ xs.map (fun x => x.route s.peer path
        (BgpPeer.normalize s.peer.cfg u.attributes)), r'.KeepsOut fuel s.peer.cfg.peerId route := by
      intro r' halike' route hroute
      obtain ⟨s', hs', hrej'⟩ := hrej₁.alike (halike.trans halike') hs₁
      refine keepsOut_of_checked hread hacts hchecked hs' hrej' ?_
      obtain ⟨x, hx, rfl⟩ := List.mem_map.mp hroute
      exact List.mem_append_right _ (List.mem_map.mpr ⟨x, hx, rfl⟩)
    obtain ⟨r₃, hr₃, hribs⟩ := Option.map_eq_some_iff.mp (installs_keptOut hkept)
    rw [List.map_map] at hr₃
    have hflush (r : DefaultRouter) : (r.flushPeerOutput s.peer.cfg.peerId).ribs = r.ribs := by
      unfold flushPeerOutput
      split <;> rfl
    simp only [Option.bind_some, Function.comp_def] at hr₃ ⊢
    rw [hr₃]
    -- the hold timer is no table
    exact congrArg some ((hflush _).trans (hribs.trans (hflush r₂).symm))

/-- A router with one session and a net that looks for loops only. -/
def bareRouter (p : BgpPeer) (asn : Asn) : DefaultRouter :=
  { (new.setSession p.cfg.peerId { peer := p, established := true }) with
    settings := { safety := some (loopNet asn) } }

theorem bareRouter_admits (hread : decodeUpdate body addPath = ok u)
    (hacts : p.handleUpdateInEstablished u = ok actions)
    (hmissed : ¬ ∃ path ∈ BgpPeer.checkedPath p.cfg u.attributes, asn ∈ path.asns)
    (hroute : .installRoute route ∈ actions) : ¬ (bareRouter p asn).KeepsOut fuel h route := by
  obtain ⟨x, path, hstack, rfl⟩ := announced_shape hacts hroute
  set route := x.route p path (BgpPeer.normalize p.cfg u.attributes) with hdef
  have hs : (bareRouter p asn).session p.cfg.peerId = some { peer := p, established := true } :=
    Std.ExtTreeMap.getElem?_insert_self
  have hcount : (loopNet asn).localAsCount ((bareRouter p asn).stamped route) = 0 := by
    by_contra hne
    have hpos : 0 < (loopNet asn).localAsCount ((bareRouter p asn).stamped route) :=
      UInt8.pos_iff_ne_zero.mpr hne
    rw [localAsCount_pos_iff _ _ (by simp [loopNet]), stamped,
      pathOf_stamped (decodeUpdate_canonical hread) hstack] at hpos
    exact hmissed hpos
  have hconfig : (bareRouter p asn).importConfig p.cfg.peerId =
      { peer := p.cfg, safety := some (loopNet asn) } := by
    unfold importConfig
    rw [hs]
    rfl
  have hadmits : ((bareRouter p asn).importConfig p.cfg.peerId).safetyAdmits
      ((bareRouter p asn).stamped route) = true := by
    rw [hconfig]
    unfold ImportConfig.safetyAdmits
    dsimp only
    rw [loopNet_check hcount]
  have hadm : ((bareRouter p asn).importConfig p.cfg.peerId).admitRoute 0
      ((bareRouter p asn).stamped route) =
      some { (bareRouter p asn).stamped route with ageMs := 0 } := by
    unfold ImportConfig.admitRoute
    rw [hadmits, hconfig]
    rfl
  exact not_keepsOut_of_admit rfl hadm

/-- What loop rejection is for: on every router that rejects loops, no route of an UPDATE
whose path loops, or cannot be told, gets in.  It does so exactly for the UPDATEs in whose
checked path the net finds its AS.  Feeding such an UPDATE leaves the tables that its actions
other than the routes leave. -/
theorem asLoop_keptOut_iff (asn : Asn) (hread : decodeUpdate body addPath = ok u)
    (hacts : p.handleUpdateInEstablished u = ok actions)
    (hannounces : ∃ route, .installRoute route ∈ actions) :
    ((∀ (fuel : Nat) (r : DefaultRouter) (s : Session), r.session p.cfg.peerId = some s →
      s.peer.cfg = p.cfg → r.RejectsLoops s asn → p.Looped u →
      ∀ route, .installRoute route ∈ actions → r.KeepsOut fuel p.cfg.peerId route) ↔
    (p.Looped u → ∃ path ∈ BgpPeer.checkedPath p.cfg u.attributes, asn ∈ path.asns)) ∧
    ((p.Looped u → ∃ path ∈ BgpPeer.checkedPath p.cfg u.attributes, asn ∈ path.asns) →
      ∀ (fuel : Nat) (r : DefaultRouter) (s : Session) (bytes : Bytes), s.peer = p →
      r.Receives s bytes u → r.RejectsLoops s asn → p.Looped u →
      ∃ q, p.feedBytes bytes = ok (q, actions ++ p.rearmHold) ∧
        (r.feedInput fuel p.cfg.peerId bytes).map ribs =
          ((r.fed p.cfg.peerId s q).dispatchBgpActions fuel p.cfg.peerId
            (actions.filter fun a => !installs a)).map ribs) := by
  refine ⟨?_, fun hchecked fuel r s bytes hp hr hrej hloop => ?_⟩
  rotate_left
  · subst hp
    exact hr.keptOut hacts hrej hread (hchecked hloop)
  constructor
  · intro hkept hloop
    by_contra hmissed
    obtain ⟨route, hroute⟩ := hannounces
    refine bareRouter_admits hread hacts hmissed hroute
      (hkept 0 (bareRouter p asn) { peer := p, established := true } ?_ rfl
        ⟨rfl, loopNet asn, rfl, rfl, rfl, rfl, ?_⟩ hloop route hroute)
    · exact Std.ExtTreeMap.getElem?_insert_self
    · simp [loopNet]
  · intro hchecked fuel r s hs _ hrej hloop route hroute
    exact keepsOut_of_checked hread hacts (hchecked hloop) hs hrej hroute

/-- An established session of AS 65001 with AS 65002, both with four-octet AS numbers. -/
def loopPeer : BgpPeer :=
  { BgpPeer.new { localAs := 65001, peerAs := 65002, localBgpId := 1, peerId := 1 } with
    state := .established, established := true }

/-- An UPDATE whose path leads through AS 65001. -/
def loopUpdate : Update := announcement [65002, 65001] [⟨0, .newV4 (.padded 4 [192, 0, 2]) 24⟩]

/-- What the peer makes of the looped UPDATE. -/
def loopActions : List BgpAction := (loopPeer.handleUpdateInEstablished loopUpdate).toOption.getD []

theorem asLoop_keptOut_external :
    (∃ route, .installRoute route ∈ loopActions ∧
      (bareRouter loopPeer 65001).KeepsOut 8 1 route) ∧
    ∃ q, ((bareRouter loopPeer 65001).feedInput 8 1 (updateFrame loopUpdate)).map ribs =
      (((bareRouter loopPeer 65001).fed 1
          { peer := loopPeer, established := true } q).dispatchBgpActions
        8 1 (loopActions.filter fun a => !installs a)).map ribs := by
  have hread : decodeUpdate ((updateFrame loopUpdate).drop 19) false = ok loopUpdate := by
    decide +kernel
  have hsome : (loopPeer.handleUpdateInEstablished loopUpdate).toOption.isSome = true := by
    decide +kernel
  have hacts : loopPeer.handleUpdateInEstablished loopUpdate = ok loopActions := by
    obtain ⟨actions, hactions⟩ := Option.isSome_iff_exists.mp hsome
    rw [loopActions, hactions]
    exact toOption_eq_some.mp hactions
  have hannounces : ∃ route, .installRoute route ∈ loopActions := by
    have hany : loopActions.any installs = true := by decide +kernel
    obtain ⟨a, ha, hinstall⟩ := List.any_eq_true.mp hany
    cases a with
    | installRoute route => exact ⟨route, ha⟩
    | _ => cases hinstall
  have hchecked : BgpPeer.checkedPath loopPeer.cfg loopUpdate.attributes =
      some ⟨[⟨.sequence, [65002, 65001]⟩]⟩ := by decide +kernel
  have hlooped : loopPeer.Looped loopUpdate := by
    unfold BgpPeer.Looped
    decide +kernel
  have hsession : (bareRouter loopPeer 65001).session 1 =
      some { peer := loopPeer, established := true } := Std.ExtTreeMap.getElem?_insert_self
  have hrej : (bareRouter loopPeer 65001).RejectsLoops
      { peer := loopPeer, established := true } 65001 :=
    ⟨rfl, loopNet 65001, rfl, rfl, rfl, rfl, by simp [loopNet]⟩
  obtain ⟨route, hroute⟩ := hannounces
  obtain ⟨hkeeps, hfeed⟩ := asLoop_keptOut_iff 65001 hread hacts ⟨route, hroute⟩
  refine ⟨⟨route, hroute, hkeeps.mpr (fun _ => ⟨_, hchecked, by decide⟩) 8 _ _ hsession rfl hrej
    hlooped route hroute⟩, ?_⟩
  obtain ⟨q, -, hq⟩ := hfeed (fun _ => ⟨_, hchecked, by decide⟩) 8 _ _ (updateFrame loopUpdate) rfl
    ⟨hsession, rfl, rfl, rfl, by decide +kernel⟩ hrej hlooped
  exact ⟨q, hq⟩

/-- The session of the run below. -/
def loopSession : SessionConfig where
  localAs := 65001
  peerAs := 65002
  localBgpId := 1

/-- An UPDATE with the given attribute values for AS_PATH and AS4_PATH. -/
def pathUpdate (path : Bytes) (as4 : Option Bytes) : Update :=
  let plain := announcement [] [⟨0, .newV4 (.padded 4 [192, 0, 2]) 24⟩]
  let attrs := plain.attributes.insert ⟨⟨0x40⟩, .asPath, path⟩
  { plain with attributes :=
      match as4 with
      | none => attrs
      | some value => attrs.insert ⟨⟨0xc0⟩, .as4Path, value⟩ }

/-- A neighbour comes up and sends one UPDATE. -/
def loopRun (neighbour : PeerConfig) (u : Update) : List RouterOp :=
  [.addSession loopSession, .startSession 1, .feedInput 1 (greeting neighbour),
    .feedInput 1 (updateFrame u)]

/-- In two octets the path is 65001, 512; in the four octets the session is configured for
it is the one AS 4259906049.  The second UPDATE has an AS_PATH of one octet, which no width
decodes, and an AS4_PATH. -/
theorem asLoop_bypassed :
    let narrow := { loopSession.neighbour 2 with asn4 := false }
    let u := pathUpdate [2, 1, 0xfd, 0xe9, 2, 1, 2, 0] none
    let broken := pathUpdate [9] (some [2, 1, 0, 0, 0xfd, 0xea])
    (exec (perform 8) new (loopRun narrow u)).map (fun r =>
      ((r.session 1).map fun s => (s.peer.negotiatedPath u.attributes).map AsPath.asns,
        r.settings.safety.map SafetyNet.localAs, r.ingress.adjRibIn.size, r.rib.locRib.size)) =
      some (some (some [65001, 512]), some 65001, 1, 1) ∧
    (exec (perform 8) new (loopRun (loopSession.neighbour 2) broken)).map (fun r =>
      ((r.session 1).map fun s => (s.peer.negotiatedPath broken.attributes).map AsPath.asns,
        r.settings.safety.map SafetyNet.localAs, r.ingress.adjRibIn.size, r.rib.locRib.size)) =
      some (some none, some 65001, 1, 1) := by
  constructor <;> decide +kernel

end DefaultRouter

end LibRouting.Router
