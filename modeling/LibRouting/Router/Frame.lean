/-
  Router/Frame.lean --- what the routing table and the export pipeline leave alone.

  Sending changes the output of a session and its counters.  Everything else about the
  sessions, and all that the import side keeps, is as it was.
-/
import LibRouting.Bgp.Transition
import LibRouting.Foundation.Run
import LibRouting.Router.Sessions

set_option autoImplicit false

namespace LibRouting.Bgp.BgpPeer

open Foundation Core Outcome

variable {p q : BgpPeer} {family : NlriFamily}

theorem still_sendMsg {q : BgpPeer × Bool} {msg : BgpMessage} (h : p.sendMsg msg = ok q) :
    q.1.still = p.still :=
  still_enqueue (show p.enqueue msg = ok q.1 by rw [enqueue, h]; rfl)

theorem still_advertise {q : BgpPeer × Bool} {route : Route} {originator : Option RouterId}
    (h : p.advertiseWithOriginator route originator = ok q) : q.1.still = p.still := by
  unfold advertiseWithOriginator at h
  split at h
  · cases h
    rfl
  · obtain ⟨p', henq, rfl⟩ := Outcome.map_eq_ok.mp h
    exact still_enqueue henq

theorem still_withdrawPaths {entries : List Nlri} (h : p.withdrawPaths entries family = ok q) :
    q.still = p.still := by
  revert h
  fun_cases withdrawPaths p entries family with
  | case1 | case2 =>
    rintro ⟨⟩
    rfl
  | case3 => exact still_enqueue

theorem still_sendEndOfRib (h : p.sendEndOfRib = ok q) : q.still = p.still := by
  revert h
  fun_cases sendEndOfRib p with
  | case1 | case2 =>
    rintro ⟨⟩
    rfl
  | case3 => exact still_enqueue

theorem still_enqueueRouteRefresh {r : RouteRefresh} (h : p.enqueueRouteRefresh r = ok q) :
    q.still = p.still := by
  unfold enqueueRouteRefresh at h
  split at h
  · exact still_enqueue h
  · cases h
    rfl

theorem still_beginEnhancedRouteRefresh {q : BgpPeer × Bool}
    (h : p.beginEnhancedRouteRefresh family = ok q) : q.1.still = p.still := by
  unfold beginEnhancedRouteRefresh at h
  split at h
  · exact still_sendMsg h
  · cases h
    rfl

theorem still_endEnhancedRouteRefresh (h : p.endEnhancedRouteRefresh family = ok q) :
    q.still = p.still := by
  unfold endEnhancedRouteRefresh at h
  split at h
  · exact still_enqueueRouteRefresh h
  · cases h
    rfl

end LibRouting.Bgp.BgpPeer

namespace LibRouting.Router

open Foundation Core Bgp Policy Rib Option

/-- The session without what it has sent. -/
def Session.still (s : Session) : Session := { s with peer := s.peer.still, output := [] }

@[simp] theorem Session.still_flush (s : Session) : s.flush.still = s.still := rfl

theorem offer_still {originator : Route → Option RouterId} {routes : List Route} {p : BgpPeer}
    {sent : BgpPeer × List Route} (h : offer originator p routes = some sent) :
    sent.1.still = p.still := by
  induction routes generalizing p sent with
  | nil =>
    cases h
    rfl
  | cons route routes ih =>
    simp only [offer, bind_eq_bind, bind_eq_some_iff] at h
    obtain ⟨one, hone, more, hmore, h⟩ := h
    cases h
    exact (ih hmore).trans (BgpPeer.still_advertise (Outcome.toOption_eq_some.mp hone))

namespace Egress
variable {routes : List Route} {key : RouteKey} {ids : List UInt32} {rib : LocRib}

/-- The sessions differ at most in what they have sent. -/
def Same (e e' : Egress) : Prop :=
  ∀ h : UInt64, (e'.sessions[h]?).map Session.still = (e.sessions[h]?).map Session.still

variable {e e' e'' : Egress} {session : UInt64} {now : UInt64} {c : ExportContext}

theorem Same.refl (e : Egress) : Same e e := fun _ => rfl

theorem Same.trans (h : Same e e') (h' : Same e' e'') : Same e e'' := fun k => (h' k).trans (h k)

theorem same_of_sessions (h : e'.sessions = e.sessions) : Same e e' := fun k => by rw [h]

theorem same_setSession {s s' : Session} (hs : e.sessions[session]? = some s)
    (hstill : s'.still = s.still) : Same e (e.setSession session s') := by
  intro k
  rw [setSession, lookup_insert]
  split
  · rename_i heq
    subst heq
    rw [hs, map_some, map_some, hstill]
  · rfl

theorem same_setPeer {s s' : Session} {p : BgpPeer} (hs : e.sessions[session]? = some s)
    (hstill : p.still = s.peer.still) (hs' : s'.still = Session.still { s with peer := p }) :
    Same e (e.setSession session s') :=
  same_setSession hs (hs'.trans (congrArg (fun p => { s with peer := p, output := [] }) hstill))

theorem same_foldlM {ι : Type} {f : Egress → ι → Option Egress} {l : List ι}
    (hf : ∀ i ∈ l, ∀ e e', f e i = some e' → Same e e') (h : l.foldlM f e = some e') : Same e e' :=
  foldlM_invariant (P := Same e) (fun i hi t t' ht hstep => ht.trans (hf i hi t t' hstep))
    (.refl e) h

/-- What sending to a session comes down to: its output grows, the time is noted, and what it
was sent or had withdrawn is recorded, under keys in `K`. -/
inductive Sends (K : RouteKey → Prop) (session : UInt64) (e : Egress) : Egress → Prop
  | refl : Sends K session e e
  | output {t : Egress} {s : Session} {p : BgpPeer} (h : Sends K session e t)
      (hs : t.sessions[session]? = some s) (hstill : p.still = s.peer.still) :
      Sends K session e (t.setSession session (Session.flush { s with peer := p }))
  | noted {t : Egress} (h : Sends K session e t) (m : MraiState) :
      Sends K session e (t.setMrai session m)
  | sent {t : Egress} (h : Sends K session e t) {routes : List Route}
      (hK : ∀ route ∈ routes, K route.key) : Sends K session e (t.recordSent session routes)
  | withdrawn {t : Egress} (h : Sends K session e t) {key : RouteKey} (ids : List UInt32)
      (hK : K key) : Sends K session e (t.recordWithdrawn session key ids)

namespace Sends

variable {K : RouteKey → Prop} {t : Egress}

theorem same (h : Sends K session e e') : Same e e' := by
  induction h with
  | refl => exact .refl e
  | output _ hs hstill ih => exact ih.trans (same_setPeer hs hstill (Session.still_flush _))
  | noted _ _ ih | sent _ _ ih | withdrawn _ _ _ ih => exact ih.trans (same_of_sessions rfl)

section

variable (hu : Sends K session e t)
include hu

theorem sendAdvertisementSet (hK : ∀ route ∈ routes, K route.key)
    (h : t.sendAdvertisementSet now session routes = some e') : Sends K session e e' := by
  unfold Egress.sendAdvertisementSet at h
  split at h
  iterate 2
    cases h
    exact hu
  · rename_i first rest s hs
    obtain ⟨sent, hsent, h⟩ := bind_eq_some_iff.mp h
    have hout := hu.output hs (offer_still hsent)
    split at h <;> cases h
    · exact hout
    · exact (hout.noted _).sent hK

theorem queueOrSendAdvertisement (hK : ∀ route ∈ routes, K route.key)
    (h : t.queueOrSendAdvertisement now session routes = some e') : Sends K session e e' := by
  revert h
  fun_cases Egress.queueOrSendAdvertisement now t session routes with
  | case1 =>
    rintro ⟨⟩
    exact hu
  | case2 =>
    rintro ⟨⟩
    exact hu.noted _
  | case3 | case4 => exact hu.sendAdvertisementSet hK

theorem queueOrSendWithdrawal (hK : K key)
    (h : t.queueOrSendWithdrawal now session key ids = some e') : Sends K session e e' := by
  unfold Egress.queueOrSendWithdrawal sendWithdrawal at h
  dsimp only at h
  split at h
  · cases h
    exact hu.noted _
  rename_i s hs
  obtain ⟨p, hp, h⟩ := bind_eq_some_iff.mp h
  have hout := (hu.noted _).output hs
    (BgpPeer.still_withdrawPaths (Outcome.toOption_eq_some.mp hp))
  split at h <;> cases h
  · exact hout
  · exact (hout.noted _).withdrawn _ hK

theorem transmit {work : List Route × List UInt32} (hadvertised : ∀ route ∈ work.1, K route.key)
    (hK : K key) (h : t.transmit now session key work = some e') : Sends K session e e' := by
  unfold Egress.transmit at h
  obtain ⟨first, hfirst, h⟩ := bind_eq_some_iff.mp h
  have hsent : Sends K session e first := by
    split at hfirst
    · cases hfirst
      exact hu
    · exact hu.queueOrSendWithdrawal hK hfirst
  split at h
  · cases h
    exact hsent
  · exact hsent.queueOrSendAdvertisement hadvertised h

end

end Sends

theorem same_sendAdvertisementSet (h : e.sendAdvertisementSet now session routes = some e') :
    Same e e' :=
  (Sends.refl.sendAdvertisementSet (K := fun _ => True) (fun _ _ => trivial) h).same

theorem same_transmit {work : List Route × List UInt32}
    (h : e.transmit now session key work = some e') : Same e e' :=
  (Sends.refl.transmit (K := fun _ => True) (fun _ _ => trivial) trivial h).same

theorem same_withdrawFrom {wanted : Session → Bool} (h : e.withdrawFrom now wanted key = some e') :
    Same e e' :=
  same_foldlM (fun _ _ _ _ hstep =>
    (Sends.refl.queueOrSendWithdrawal (K := fun _ => True) trivial hstep).same) h

theorem same_perform {x : Export} (h : e.perform c x = some e') : Same e e' := by
  cases x with
  | selection key ranked => exact same_foldlM (fun _ _ _ _ => same_transmit) h
  | withdrawal key =>
    unfold perform propagateWithdrawal at h
    exact same_withdrawFrom h

theorem same_flushMrai (h : e.flushMrai now = some e') : Same e e' := by
  have hsent := same_foldlM (fun _ _ _ _ => same_sendAdvertisementSet) h
  exact hsent

theorem same_setInterval {intervalMs : UInt64}
    (h : e.setInterval now session intervalMs = some e') :
    Same e e' := by
  unfold setInterval at h
  simp only at h
  split at h
  · have hsent := same_foldlM (fun _ _ _ _ => same_sendAdvertisementSet) h
    exact hsent
  · cases h
    exact same_of_sessions rfl

theorem same_onBgpEstablished (h : e.onBgpEstablished c rib session = some e') : Same e e' := by
  unfold onBgpEstablished at h
  split at h
  · cases h
    exact .refl _
  rename_i s hs
  obtain ⟨sent, hsent, h⟩ := bind_eq_some_iff.mp h
  obtain ⟨p, hp, h⟩ := bind_eq_some_iff.mp h
  cases h
  have hstill := BgpPeer.still_sendEndOfRib (Outcome.toOption_eq_some.mp hp)
  exact (same_setPeer hs (hstill.trans (offer_still hsent)) (Session.still_flush _)).trans
    (same_of_sessions rfl)

theorem withdrawAll_still {family : NlriFamily} {prior : List (RouteKey × List UInt32)}
    {p q : BgpPeer} (h : withdrawAll p family prior = some q) : q.still = p.still :=
  foldlM_invariant (P := fun t => t.still = p.still)
    (fun _ _ _ _ ht hstep =>
      (BgpPeer.still_withdrawPaths (Outcome.toOption_eq_some.mp hstep)).trans ht)
    rfl h

theorem same_reannounceToSession {family : NlriFamily}
    (h : e.reannounceToSession c rib session family = some e') : Same e e' := by
  unfold reannounceToSession at h
  split at h
  · cases h
    exact .refl _
  rename_i s hs
  split at h
  · cases h
    exact .refl _
  obtain ⟨began, hbegan, h⟩ := bind_eq_some_iff.mp h
  obtain ⟨p, hp, h⟩ := bind_eq_some_iff.mp h
  obtain ⟨sent, hsent, h⟩ := bind_eq_some_iff.mp h
  obtain ⟨q, hq, h⟩ := bind_eq_some_iff.mp h
  obtain ⟨last, hlast, h⟩ := bind_eq_some_iff.mp h
  cases h
  have hquiet : last.still = q.still := by
    split at hlast
    · exact BgpPeer.still_endEnhancedRouteRefresh (Outcome.toOption_eq_some.mp hlast)
    · cases hlast
      rfl
  have hstill : last.still = s.peer.still :=
    calc last.still = q.still := hquiet
      _ = sent.1.still := BgpPeer.still_sendEndOfRib (Outcome.toOption_eq_some.mp hq)
      _ = p.still := offer_still hsent
      _ = began.1.still := withdrawAll_still hp
      _ = s.peer.still :=
        BgpPeer.still_beginEnhancedRouteRefresh (Outcome.toOption_eq_some.mp hbegan)
  have hprior : ((e.adjRibOut.advertisedKeys (destOf session) family).foldl
      (fun e entry => e.recordWithdrawn session entry.1 entry.2) e).sessions = e.sessions :=
    List.foldlRecOn (motive := fun t : Egress => t.sessions = e.sessions) _ _ rfl
      fun _ hsame _ _ => hsame
  generalize (e.adjRibOut.advertisedKeys (destOf session) family).foldl _ e = e₁ at hprior ⊢
  have h₁ : Same e e₁ := same_of_sessions hprior
  have h₂ := same_setPeer (hprior ▸ hs) hstill (Session.still_flush _)
  exact h₁.trans (h₂.trans (same_of_sessions rfl))

end Egress

/-! ## The router -/

/-- Only the routing table, the output of the sessions and what they have been sent may
differ, and what the import side keeps is set apart. -/
structure Frame (r r' : DefaultRouter) : Prop where
  sessions : r.egress.Same r'.egress
  staticRoutes : r'.staticRoutes = r.staticRoutes
  connectedRoutes : r'.connectedRoutes = r.connectedRoutes
  directRib : r'.directRib = r.directRib
  pipes : r'.pipes = r.pipes
  aggregates : r'.aggregates = r.aggregates
  settings : r'.settings = r.settings
  policy : ∀ h : UInt64, (r'.sessionPolicy[h]?).getD {} = (r.sessionPolicy[h]?).getD {}
  timers : r'.timers = r.timers
  nowMs : r'.nowMs = r.nowMs
  nextHandle : r'.nextHandle = r.nextHandle
  administrativeClose : r'.administrativeClose = r.administrativeClose

namespace Frame

variable {r r' r'' : DefaultRouter}

theorem refl (r : DefaultRouter) : Frame r r :=
  ⟨.refl _, rfl, rfl, rfl, rfl, rfl, rfl, fun _ => rfl, rfl, rfl, rfl, rfl⟩

theorem trans (h : Frame r r') (h' : Frame r' r'') : Frame r r'' where
  sessions := h.sessions.trans h'.sessions
  staticRoutes := h'.staticRoutes.trans h.staticRoutes
  connectedRoutes := h'.connectedRoutes.trans h.connectedRoutes
  directRib := h'.directRib.trans h.directRib
  pipes := h'.pipes.trans h.pipes
  aggregates := h'.aggregates.trans h.aggregates
  settings := h'.settings.trans h.settings
  policy := fun k => (h'.policy k).trans (h.policy k)
  timers := h'.timers.trans h.timers
  nowMs := h'.nowMs.trans h.nowMs
  nextHandle := h'.nextHandle.trans h.nextHandle
  administrativeClose := h'.administrativeClose.trans h.administrativeClose

theorem of_ingress (r : DefaultRouter) (g : Ingress) : Frame r { r with ingress := g } :=
  { refl r with }

theorem of_egress {e : Egress} (h : r.egress.Same e) : Frame r { r with egress := e } :=
  { refl r with sessions := h }

theorem of_rib (r : DefaultRouter) (st : RibState) : Frame r { r with rib := st } :=
  { refl r with }

theorem notePolicy (r : DefaultRouter) (h : UInt64) : Frame r (r.notePolicy h) := by
  refine { refl r with policy := fun k => ?_ }
  rw [DefaultRouter.notePolicy, Std.ExtTreeMap.getElem?_insertIfNew]
  split
  · rename_i hk
    obtain rfl : h = k := Std.LawfulEqCmp.eq_of_compare hk.1
    rw [Std.ExtTreeMap.getElem?_eq_none hk.2]
    rfl
  · rfl

end Frame

namespace DefaultRouter

variable {r r' : DefaultRouter} {fuel : Nat}

/-- A change of the routing table touches nothing on the import side. -/
theorem onRib_frame {change : Decision → RibState → Option RibState}
    (h : r.onRib change = some r') : Frame r r' ∧ r'.ingress = r.ingress := by
  obtain ⟨st, -, h⟩ := bind_eq_some_iff.mp h
  obtain ⟨e, he, h⟩ := bind_eq_some_iff.mp h
  cases h
  have hsame : r.egress.Same e := Egress.same_foldlM (fun _ _ _ _ => Egress.same_perform) he
  exact ⟨(Frame.of_egress hsame).trans (.of_rib _ _), rfl⟩

theorem reselect_frame {key : RouteKey} (h : r.reselect fuel key = some r') :
    Frame r r' ∧ r'.ingress = r.ingress :=
  onRib_frame h

theorem reselectAll_frame {keys : List RouteKey} (h : r.reselectAll fuel keys = some r') :
    Frame r r' ∧ r'.ingress = r.ingress :=
  foldlM_invariant (P := fun t => Frame r t ∧ t.ingress = r.ingress)
    (fun _ _ _ _ ht hstep =>
      ⟨ht.1.trans (reselect_frame hstep).1, (reselect_frame hstep).2.trans ht.2⟩)
    ⟨.refl r, rfl⟩ h

end DefaultRouter

/-! ## Operations on the tables -/

/-- The operation is about the router's own routes, or about what the sessions send. -/
def RouterOp.isAside : RouterOp → Bool
  | .addSession _ | .removeSession _ | .startSession _ | .closeSession _ | .shutdownSession _
  | .configureSession _ _ | .feedInput _ _ | .tick _ _ | .softReconfigInbound _ | .configure _ =>
      false
  | _ => true

/-- The sessions, what they have announced and what decides on it are left alone. -/
structure Aside (r r' : DefaultRouter) : Prop where
  sessions : r.egress.Same r'.egress
  ingress : r'.ingress = r.ingress
  settings : r'.settings = r.settings
  timers : r'.timers = r.timers
  nowMs : r'.nowMs = r.nowMs
  nextHandle : r'.nextHandle = r.nextHandle
  administrativeClose : r'.administrativeClose = r.administrativeClose

namespace Aside

variable {r r' r'' : DefaultRouter}

theorem refl (r : DefaultRouter) : Aside r r := ⟨.refl _, rfl, rfl, rfl, rfl, rfl, rfl⟩

theorem trans (h : Aside r r') (h' : Aside r' r'') : Aside r r'' where
  sessions := h.sessions.trans h'.sessions
  ingress := h'.ingress.trans h.ingress
  settings := h'.settings.trans h.settings
  timers := h'.timers.trans h.timers
  nowMs := h'.nowMs.trans h.nowMs
  nextHandle := h'.nextHandle.trans h.nextHandle
  administrativeClose := h'.administrativeClose.trans h.administrativeClose

theorem of_egress {e : Egress} (h : r.egress.Same e) : Aside r { r with egress := e } :=
  ⟨h, rfl, rfl, rfl, rfl, rfl, rfl⟩

theorem onRib {change : Decision → RibState → Option RibState} (h : r.onRib change = some r') :
    Aside r r' := by
  obtain ⟨hframe, hin⟩ := DefaultRouter.onRib_frame h
  exact { hframe with ingress := hin }

theorem foldlM {ι : Type} {f : DefaultRouter → ι → Option DefaultRouter}
    (hf : ∀ r i r', f r i = some r' → Aside r r') {l : List ι} (h : l.foldlM f r = some r') :
    Aside r r' :=
  foldlM_invariant (P := Aside r) (fun i _ _ _ ht hone => ht.trans (hf _ i _ hone)) (.refl r) h

/-- The tables of the router's own routes, its pipes and its aggregates may be anything. -/
theorem of_tables {statics connected direct : RouteTable} {pipes : List RedistributionPipe}
    {aggregates : AggregateTable}
    (h : Aside
      { r with
        staticRoutes := statics, connectedRoutes := connected, directRib := direct, pipes,
        aggregates } r') :
    Aside r r' :=
  { h with }

end Aside

namespace DefaultRouter

variable {r r' : DefaultRouter} {fuel : Nat}

theorem applyRuntimeDelta_aside {installed : List Route} {withdrawn : List RouteKey}
    (h : r.applyRuntimeDelta fuel installed withdrawn = some r') : Aside r r' := by
  obtain ⟨t, ht, h⟩ := bind_eq_some_iff.mp h
  refine (Aside.foldlM (fun u route u' hone => ?_) ht).trans
    (Aside.foldlM (fun u key u' hone => ?_) h)
  · unfold directInstall at hone
    simp only at hone
    split at hone <;> exact .of_tables (.onRib hone)
  · unfold directWithdraw at hone
    split at hone
    · cases hone
      exact { Aside.refl u with }
    · exact .of_tables (.onRib hone)

theorem addAggregateWithOptions_aside {agg : Prefix} {options : AggregateOptions}
    (h : r.addAggregateWithOptions fuel agg options = some r') : Aside r r' := by
  obtain ⟨t, ht, h⟩ := bind_eq_some_iff.mp h
  refine (Aside.of_tables (.onRib ht)).trans ?_
  split at h
  · cases h
    exact .refl _
  · exact .onRib h

theorem setSessionPolicy_aside {h : UInt64} {hasImport hasExport : Bool}
    (hp : r.setSessionPolicy h hasImport hasExport = some r') : Aside r r' := by
  unfold setSessionPolicy at hp
  split at hp
  · cases hp
    exact .refl r
  simp only at hp
  have htable : Aside r
      { r with sessionPolicy := r.sessionPolicy.insert h ⟨hasImport, hasExport⟩ } :=
    { Aside.refl r with }
  split at hp
  · cases hp
    exact htable
  obtain ⟨e, he, hp⟩ := bind_eq_some_iff.mp hp
  cases hp
  have hsame : r.egress.Same e := Egress.same_foldlM (fun _ _ _ _ => Egress.same_transmit) he
  exact htable.trans (.of_egress hsame)

theorem requestRouteRefresh_aside {h : UInt64} {family : NlriFamily}
    (hp : r.requestRouteRefresh h family = some r') : Aside r r' := by
  unfold requestRouteRefresh at hp
  split at hp
  · cases hp
    exact .refl r
  rename_i s hs
  obtain ⟨p, he, hp⟩ := bind_eq_some_iff.mp hp
  cases hp
  have hstill := BgpPeer.still_enqueueRouteRefresh (Outcome.toOption_eq_some.mp he)
  have hput : Aside r (r.setSession h { s with peer := p }) :=
    .of_egress (Egress.same_setPeer hs hstill rfl)
  refine hput.trans ?_
  unfold flushPeerOutput
  split
  · exact .refl _
  · rename_i s' hs'
    exact .of_egress (Egress.same_setSession hs' (Session.still_flush s'))

theorem setMrai_aside {h intervalMs : UInt64} (hp : r.setMrai h intervalMs = some r') :
    Aside r r' := by
  unfold setMrai at hp
  split at hp
  · cases hp
    exact .refl r
  · obtain ⟨e, he, hp⟩ := bind_eq_some_iff.mp hp
    cases hp
    exact .of_egress (Egress.same_setInterval he)

theorem drainOutput_aside (r : DefaultRouter) (h : UInt64) : Aside r (r.drainOutput h) := by
  unfold drainOutput
  split
  · exact .refl r
  · rename_i s hs
    exact .of_egress (Egress.same_setSession hs rfl)

theorem removeRedistributionPipe_aside {source target : Protocol}
    (h : r.removeRedistributionPipe fuel source target = some r') : Aside r r' := by
  unfold removeRedistributionPipe at h
  simp only at h
  split at h
  · exact .of_tables (.onRib h)
  · cases h
    exact .of_tables (.refl _)

/-- The operations on the tables leave the sessions alone. -/
theorem perform_aside {op : RouterOp} (hop : op.isAside = true)
    (h : r.perform fuel op = some r') : Aside r r' := by
  cases op with
  | addSession | removeSession | startSession | closeSession | shutdownSession
  | configureSession | feedInput | tick | softReconfigInbound | configure => cases hop
  | drainOutput k =>
    cases h
    exact drainOutput_aside r k
  | setSessionPolicy k hasImport hasExport => exact setSessionPolicy_aside h
  | setMrai k intervalMs => exact setMrai_aside h
  | requestRouteRefresh k family => exact requestRouteRefresh_aside h
  | originateFamily pfx family nextHop =>
    unfold perform originateFamily originateRoute at h
    exact .onRib h
  | originateWithAttributes pfx family nextHop attributes =>
    unfold perform originateWithAttributes originateRoute at h
    exact .onRib h
  | unoriginate key =>
    unfold perform unoriginate at h
    exact .onRib h
  | installStatic pfx family nextHop metric tag =>
    unfold perform installStatic installLocal at h
    exact .of_tables (.onRib h)
  | uninstallStatic key =>
    simp only [perform, uninstallStatic, uninstallLocal] at h
    split at h
    · exact .of_tables (.onRib h)
    · cases h
      exact .refl r
  | installConnected pfx family nextHop metric ifId =>
    unfold perform installConnected installLocal at h
    exact .of_tables (.onRib h)
  | uninstallConnected key =>
    simp only [perform, uninstallConnected, uninstallLocal] at h
    split at h
    · exact .of_tables (.onRib h)
    · cases h
      exact .refl r
  | addAggregate agg =>
    unfold perform addAggregate recomputeAggregates at h
    exact .of_tables (.onRib h)
  | addAggregateWithOptions agg options => exact addAggregateWithOptions_aside h
  | removeAggregate agg =>
    simp only [perform, removeAggregate, unoriginate] at h
    split at h
    · exact .of_tables (.onRib h)
    · cases h
      exact .refl r
  | addRedistributionPipe pipe =>
    unfold perform addRedistributionPipe at h
    exact .of_tables (.onRib h)
  | removeRedistributionPipe source target => exact removeRedistributionPipe_aside h
  | runtimeDelta installed withdrawn => exact applyRuntimeDelta_aside h
  | ospfRedistribute | ospfRedistributeV3 | ospfUnredistribute =>
    cases h
    exact { Aside.refl r with }

end DefaultRouter

end LibRouting.Router
