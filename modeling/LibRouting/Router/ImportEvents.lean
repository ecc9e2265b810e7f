/-
  Router/ImportEvents.lean --- what the operations of the router do to the import side,
  as a sequence of events.

  An invariant of the import side is then a matter of seven events, whatever the session
  or the timer they come from.
-/
import LibRouting.Router.ImportSide

set_option autoImplicit false

namespace LibRouting.Router

open Foundation Core Bgp Policy Rib Option

/-! ## Events -/

/-- What a router operation does to the import side. -/
inductive ImportEvent where
  /-- A route was announced; the pipeline made `stored` of it. -/
  | announced (route : Route) (stored : Option Route) (keep : Bool)
  | withdrew (o : RouteOrigin) (key : RouteKey) (pathId : UInt32)
  | down (h : UInt64) (retained : Option GracefulRestartState)
  /-- End-of-RIB, or the deadline of a long-lived family. -/
  | ended (h : UInt64) (family : NlriFamily)
  | elapsed (h : UInt64) (up : Bool)
  | reimported (h : UInt64) (admitted : List Route)
  | dropped (h : UInt64)

/-- The event is an announcement. -/
def ImportEvent.isAnnounced : ImportEvent → Bool
  | .announced _ _ _ => true
  | _ => false

namespace Ingress
variable {g g' : Ingress} {es : List ImportEvent}

/-- The import side after an event. -/
def after (g : Ingress) : ImportEvent → Ingress
  | .announced route stored keep => g.imported route stored keep
  | .withdrew o key pathId => g.withdrawn o key pathId
  | .down h retained => g.tornDown h retained
  | .ended h family => g.finished h family
  | .elapsed h up => g.windowElapsed up h
  | .reimported h admitted => g.reimported h admitted
  | .dropped h => g.dropped h

/-- The events lead from one import side to the other, flags aside. -/
inductive Traces : Ingress → List ImportEvent → Ingress → Prop
  | nil (g : Ingress) : Traces g [] g
  | cons {g g₁ g' : Ingress} {e : ImportEvent} {es : List ImportEvent}
      (hone : (g.after e).Agrees g₁) (hrest : Traces g₁ es g') : Traces g (e :: es) g'

theorem Traces.one {e : ImportEvent} (h : (g.after e).Agrees g') : Traces g [e] g' :=
  .cons h (.nil g')

theorem Traces.append {g₁ : Ingress} {es' : List ImportEvent} (h : Traces g es g₁)
    (h' : Traces g₁ es' g') : Traces g (es ++ es') g' := by
  induction h with
  | nil => exact h'
  | cons hone _ ih => exact .cons hone (ih h')

/-- What every event of a trace keeps, the trace keeps. -/
theorem Traces.invariant {P : Ingress → Prop} (h : Traces g es g')
    (hflags : ∀ g g', P g → g.Agrees g' → P g') (hstep : ∀ e ∈ es, ∀ g, P g → P (g.after e))
    (hg : P g) : P g' := by
  induction h with
  | nil => exact hg
  | @cons g g₁ g' e es hone _ ih =>
    exact ih (fun e he => hstep e (.tail _ he)) (hflags _ _ (hstep e (.head _) g hg) hone)

/-- The same with an allowance: every announcement uses up one unit of it. -/
theorem Traces.countdown {P : Nat → Ingress → Prop} (h : Traces g es g')
    (hflags : ∀ n g g', P n g → g.Agrees g' → P n g')
    (hstep : ∀ e ∈ es, ∀ n g, P ((if e.isAnnounced then 1 else 0) + n) g → P n (g.after e))
    {n : Nat} (hg : P (es.countP ImportEvent.isAnnounced + n) g) : P n g' := by
  induction h with
  | nil => simpa using hg
  | @cons g g₁ g' e es hone _ ih =>
    refine ih (fun e he => hstep e (.tail _ he)) (hflags _ _ _ (hstep e (.head _) _ g ?_) hone)
    rw [List.countP_cons] at hg
    rwa [show (if e.isAnnounced = true then 1 else 0) +
      (es.countP ImportEvent.isAnnounced + n) =
        es.countP ImportEvent.isAnnounced + (if e.isAnnounced = true then 1 else 0) + n by omega]

end Ingress

/-! ## Routers the pipeline cannot tell apart -/

namespace DefaultRouter

theorem session_setSession (r : DefaultRouter) (h k : UInt64) (s : Session) :
    (r.setSession h s).session k = if h = k then some s else r.session k := by
  rw [session, setSession, Egress.setSession, lookup_insert]
  simp [session]

/-- What the new session has in common with the old one, the sessions have. -/
theorem map_session_setSession {β : Type} {r : DefaultRouter} {h : UInt64} {s s' : Session}
    {f : Session → β} (hs : r.session h = some s) (hf : f s' = f s) (k : UInt64) :
    ((r.setSession h s').session k).map f = (r.session k).map f := by
  rw [session_setSession]
  split
  · rename_i hk
    rw [← hk, hs, map_some, map_some, hf]
  · rfl

theorem importConfig_congr {r r' : DefaultRouter} {k : UInt64}
    (hsettings : r'.settings = r.settings)
    (hpolicy : (r'.sessionPolicy[k]?).getD {} = (r.sessionPolicy[k]?).getD {})
    (hsession : (r'.session k).map (fun s => (s.peer.cfg, s.options)) =
      (r.session k).map fun s => (s.peer.cfg, s.options)) :
    r'.importConfig k = r.importConfig k := by
  have hread : ∀ t : DefaultRouter, (t.sessionPolicy[k]?).any SessionPolicy.hasImport =
      ((t.sessionPolicy[k]?).getD {}).hasImport := by
    intro t
    cases t.sessionPolicy[k]? <;> rfl
  unfold importConfig
  rw [hread, hread, hpolicy, hsettings]
  cases hs : r.session k with
  | none =>
    rw [hs] at hsession
    rw [map_eq_none_iff.mp hsession]
  | some s =>
    rw [hs] at hsession
    obtain ⟨s', hs', hsame⟩ := map_eq_some_iff.mp hsession
    obtain ⟨hcfg, hoptions⟩ := Prod.ext_iff.mp hsame
    simp only at hcfg hoptions
    simp only [hs', hcfg, hoptions]

end DefaultRouter

/-- The session without its output and the mark of the router. -/
def Session.unmarked (s : Session) : Session := { s.still with established := false }

/-- What a session does to the import side is decided by the same data. -/
structure Alike (r r' : DefaultRouter) : Prop where
  sessions : ∀ k : UInt64,
    (r'.session k).map Session.unmarked = (r.session k).map Session.unmarked
  settings : r'.settings = r.settings
  policy : ∀ h : UInt64, (r'.sessionPolicy[h]?).getD {} = (r.sessionPolicy[h]?).getD {}
  nowMs : r'.nowMs = r.nowMs
  nextHandle : r'.nextHandle = r.nextHandle
  administrativeClose : r'.administrativeClose = r.administrativeClose

namespace Alike

variable {r r' r'' : DefaultRouter}

theorem refl (r : DefaultRouter) : Alike r r :=
  ⟨fun _ => rfl, rfl, fun _ => rfl, rfl, rfl, rfl⟩

theorem trans (h : Alike r r') (h' : Alike r' r'') : Alike r r'' where
  sessions k := (h'.sessions k).trans (h.sessions k)
  settings := h'.settings.trans h.settings
  policy k := (h'.policy k).trans (h.policy k)
  nowMs := h'.nowMs.trans h.nowMs
  nextHandle := h'.nextHandle.trans h.nextHandle
  administrativeClose := h'.administrativeClose.trans h.administrativeClose

theorem of_frame (h : Frame r r') : Alike r r' :=
  { h with
    sessions k := by
      have hsame := congrArg (Option.map Session.unmarked) (h.sessions k)
      rwa [map_map, map_map] at hsame }

theorem setSession {k : UInt64} {s s' : Session} (hs : r.session k = some s)
    (hview : s'.unmarked = s.unmarked) : Alike r (r.setSession k s') :=
  { refl r with sessions := DefaultRouter.map_session_setSession hs hview }

section

variable (h : Alike r r') (k : UInt64)
include h k

theorem map_session {β : Type} (f : Session → β) (hf : f ∘ Session.unmarked = f) :
    (r'.session k).map f = (r.session k).map f := by
  have hk := congrArg (Option.map f) (h.sessions k)
  rwa [map_map, map_map, hf] at hk

theorem bind_session {β : Type} (f : Session → Option β)
    (hf : (fun s : Session => f s.unmarked) = f) :
    (r'.session k).bind f = (r.session k).bind f := by
  have hk := congrArg (Option.bind · f) (h.sessions k)
  simpa only [bind_map, Function.comp_def, hf] using hk

theorem importConfig : r'.importConfig k = r.importConfig k :=
  DefaultRouter.importConfig_congr h.settings (h.policy k) (h.map_session k _ rfl)

theorem keepsRaw : r'.keepsRaw k = r.keepsRaw k := by
  have hread := h.map_session k Session.options rfl
  unfold DefaultRouter.keepsRaw
  rw [← any_map (f := Session.options), hread, any_map]

theorem retention : r'.retention k = r.retention k := by
  unfold DefaultRouter.retention DefaultRouter.goodbye DefaultRouter.llgrDeadlines
  rw [h.nowMs, h.administrativeClose]
  have hread := h.bind_session k
    (fun s =>
      if !s.wasEstablished || s.peer.receivedNotification || r.administrativeClose.contains k then
        none
      else
        let restartTime := s.peer.negotiatedGracefulRestartTime.getD 0
        let llgrDeadlines := r.llgrDeadlines s restartTime
        if 0 < restartTime || !llgrDeadlines.isEmpty then
          some
            { restartExpiresAtMs := saturatingAdd r.nowMs (UInt64.ofNat (restartTime.toNat * 1000))
              llgrDeadlines : GracefulRestartState }
        else none)
    rfl
  cases hs' : r'.session k <;> cases hs : r.session k <;> rw [hs, hs'] at hread <;> exact hread

end

end Alike

/-! ## Actions -/

namespace DefaultRouter

variable {r r' : DefaultRouter} {fuel : Nat} {h : UInt64} {actions : List BgpAction} {s : Session}
  {ev : BgpEvent}

/-- An announced route as the router takes it up. -/
def stamped (r : DefaultRouter) (route : Route) : Route :=
  stampPeerSource ((r.session route.origin.peer).bind fun s => s.options.peerAddress) route

/-- The event an action of a session is. -/
def eventOf (r : DefaultRouter) (h : UInt64) : BgpAction → Option ImportEvent
  | .close => some (.down h (r.retention h))
  | .installRoute route =>
    let peer := (r.stamped route).origin.peer
    some (.announced (r.stamped route) ((r.importConfig peer).admitRoute r.nowMs (r.stamped route))
      (r.keepsRaw peer))
  | .withdrawRoute key pathId => some (.withdrew ⟨0, h⟩ key pathId)
  | .endOfRib family => some (.ended h family)
  | _ => none

theorem eventOf_alike (halike : Alike r r') : r'.eventOf h = r.eventOf h := by
  have hstamped : ∀ route, r'.stamped route = r.stamped route := by
    intro route
    unfold stamped
    rw [halike.bind_session _ _ rfl]
  funext a
  cases a with
  | close => rw [eventOf, eventOf, halike.retention]
  | installRoute route =>
    simp only [eventOf, hstamped, halike.importConfig, halike.nowMs, halike.keepsRaw]
  | _ => rfl

theorem traces_of_effect {g : Ingress} {e : ImportEvent} (he : Effect r r' g)
    (hg : (r.ingress.after e).Agrees g) : Ingress.Traces r.ingress [e] r'.ingress := by
  rw [he.ingress]
  exact .one hg

/-- An action does to the import side what its event says. -/
theorem dispatchAction_traces {a : BgpAction} (ha : dispatchAction fuel h r a = some r') :
    Alike r r' ∧ Ingress.Traces r.ingress (r.eventOf h a).toList r'.ingress := by
  cases a with
  | setTimer | cancelTimer | beginOfRouteRefresh | emit =>
    cases ha
    exact ⟨⟨fun _ => rfl, rfl, fun _ => rfl, rfl, rfl, rfl⟩, .nil _⟩
  | close =>
    have hdown := teardownBgpSession_effect ha
    exact ⟨.of_frame hdown.frame, traces_of_effect hdown (.refl _)⟩
  | installRoute route =>
    obtain ⟨g, hg, himport⟩ := importRoute_effect ha
    exact ⟨.of_frame himport.frame, traces_of_effect himport hg⟩
  | withdrawRoute key pathId =>
    have hgone := withdrawFromSession_effect ha
    exact ⟨.of_frame hgone.frame, traces_of_effect hgone (.refl _)⟩
  | routeRefreshRequested family =>
    obtain ⟨e, he, ha⟩ := bind_eq_some_iff.mp ha
    cases ha
    have hsame : r.egress.Same e := Egress.same_reannounceToSession he
    exact ⟨.of_frame (.of_egress hsame), .nil _⟩
  | endOfRib family =>
    have hended := finishFamily_effect ha
    exact ⟨.of_frame hended.frame, traces_of_effect hended (.refl _)⟩

theorem dispatchActions_traces (ha : actions.foldlM (dispatchAction fuel h) r = some r') :
    Alike r r' ∧ Ingress.Traces r.ingress (actions.filterMap (r.eventOf h)) r'.ingress := by
  induction actions generalizing r with
  | nil =>
    cases ha
    exact ⟨.refl _, .nil _⟩
  | cons a actions ih =>
    obtain ⟨t, hone, ha⟩ := foldlM_cons_some.mp ha
    obtain ⟨halike, hfirst⟩ := dispatchAction_traces hone
    obtain ⟨halike', hrest⟩ := ih ha
    refine ⟨halike.trans halike', ?_⟩
    have hall := hfirst.append hrest
    rw [eventOf_alike halike] at hall
    rw [List.filterMap_cons]
    cases hev : r.eventOf h a <;> rw [hev] at hall <;> exact hall

section

variable (r : DefaultRouter) (h : UInt64)

theorem flushPeerOutput_alike : Alike r (r.flushPeerOutput h) :=
  .of_frame (flushPeerOutput_frame r h)

theorem syncEstablished_alike : Alike r (r.syncEstablished h) := by
  unfold syncEstablished
  split
  · exact .refl r
  · rename_i s hs
    exact .setSession hs rfl

theorem syncEstablished_ingress : (r.syncEstablished h).ingress = r.ingress := by
  unfold syncEstablished
  split <;> rfl

end

theorem dispatchBgpActions_traces (ha : r.dispatchBgpActions fuel h actions = some r') :
    Alike r r' ∧ Ingress.Traces r.ingress (actions.filterMap (r.eventOf h)) r'.ingress := by
  unfold dispatchBgpActions at ha
  obtain ⟨t, ht, ha⟩ := bind_eq_some_iff.mp ha
  cases ha
  have hsynced := syncEstablished_alike r h
  obtain ⟨halike, htrace⟩ := dispatchActions_traces ht
  rw [eventOf_alike hsynced, syncEstablished_ingress] at htrace
  rw [flushPeerOutput_ingress]
  exact ⟨hsynced.trans (halike.trans (flushPeerOutput_alike t h)), htrace⟩

theorem onBgpEstablished_frame (ho : r.onBgpEstablished h = some r') :
    Frame r r' ∧ r'.ingress = r.ingress := by
  obtain ⟨e, he, ho⟩ := bind_eq_some_iff.mp ho
  cases ho
  have hsame : r.egress.Same e := Egress.same_onBgpEstablished he
  split
  · exact ⟨(Frame.of_egress hsame).trans (.notePolicy _ _), rfl⟩
  · exact ⟨.of_egress hsame, rfl⟩

/-! ## Operations -/

/-- The router whose session has taken a step. -/
def stepped (r : DefaultRouter) (h : UInt64) (s : Session) (p : BgpPeer) : DefaultRouter :=
  r.setSession h { s with peer := p }

theorem stepPeer_traces (hstep : r.stepPeer fuel h s ev = some r') :
    ∃ p actions, s.peer.step ev = .ok (p, actions) ∧ Alike (r.stepped h s p) r' ∧
      Ingress.Traces r.ingress (actions.filterMap ((r.stepped h s p).eventOf h)) r'.ingress := by
  obtain ⟨⟨p, actions⟩, hp, hstep⟩ := bind_eq_some_iff.mp hstep
  obtain ⟨halike, htrace⟩ := dispatchBgpActions_traces hstep
  exact ⟨p, actions, Outcome.toOption_eq_some.mp hp, halike, htrace⟩

theorem applyFed_traces {up : Bool} (ha : r.applyFed fuel h up actions = some r') :
    Alike r r' ∧ Ingress.Traces r.ingress (actions.filterMap (r.eventOf h)) r'.ingress := by
  obtain ⟨t, ht, ha⟩ := bind_eq_some_iff.mp ha
  have hdumped : Frame r t ∧ t.ingress = r.ingress := by
    split at ht
    · exact onBgpEstablished_frame ht
    · cases ht
      exact ⟨.refl _, rfl⟩
  have halike₀ := Alike.of_frame hdumped.1
  obtain ⟨halike, htrace⟩ := dispatchBgpActions_traces ha
  rw [eventOf_alike halike₀, hdumped.2] at htrace
  exact ⟨halike₀.trans halike, htrace⟩

/-- The router that has closed a session. -/
def silenced (r : DefaultRouter) (h : UInt64) (s : Session) : DefaultRouter :=
  r.setSession h { s with peer := (s.peer.closed []).1 }

/-- The loser of a collision goes down; it arms and cancels no timer. -/
theorem closeCollisionLoser_traces (hs : r.session h = some s)
    (hc : r.closeCollisionLoser fuel h = some r') :
    ∃ t, Alike (r.silenced h s) t ∧ t.ingress = r.ingress ∧ t.timers = r.timers ∧
      t.dispatchBgpActions fuel h [.close] = some r' := by
  simp only [closeCollisionLoser, hs] at hc
  obtain ⟨p, hp, hc⟩ := bind_eq_some_iff.mp hc
  obtain ⟨⟨q, actions⟩, hq, hc⟩ := bind_eq_some_iff.mp hc
  have hstill := BgpPeer.still_enqueue (Outcome.toOption_eq_some.mp hp)
  rw [BgpPeer.step_manualStop] at hq
  cases hq
  refine ⟨r.setSession h { s with peer := (p.closed []).1 },
    ⟨fun k => ?_, rfl, fun _ => rfl, rfl, rfl, rfl⟩, rfl, rfl, hc⟩
  rw [silenced, session_setSession, session_setSession]
  split
  · have hclosed := congrArg (fun p : BgpPeer => (p.closed []).1) hstill
    exact congrArg (fun q => some { s with peer := q, output := [], established := false }) hclosed
  · rfl

/-! ## Owners -/

/-- The origin the routes of a session carry. -/
def own (r : DefaultRouter) (k : UInt64) : Option RouteOrigin :=
  (r.session k).map fun s => s.peer.routeOrigin

/-- The sessions and what decides on their routes are the same, time and state aside. -/
structure SameOwners (r r' : DefaultRouter) : Prop where
  own : r'.own = r.own
  settings : r'.settings = r.settings
  nextHandle : r'.nextHandle = r.nextHandle

theorem SameOwners.refl (r : DefaultRouter) : SameOwners r r := ⟨rfl, rfl, rfl⟩

theorem SameOwners.trans {r'' : DefaultRouter} (ho : SameOwners r r') (ho' : SameOwners r' r'') :
    SameOwners r r'' :=
  ⟨ho'.own.trans ho.own, ho'.settings.trans ho.settings, ho'.nextHandle.trans ho.nextHandle⟩

theorem SameOwners.of_alike (ha : Alike r r') : SameOwners r r' :=
  { ha with own := funext fun k => ha.map_session k _ rfl }

theorem SameOwners.setSession {s' : Session} (hs : r.session h = some s)
    (horigin : s'.peer.routeOrigin = s.peer.routeOrigin) : SameOwners r (r.setSession h s') :=
  ⟨funext (map_session_setSession hs horigin), rfl, rfl⟩

theorem routeOrigin_of_cfg {p q : BgpPeer} (hcfg : q.cfg = p.cfg) :
    q.routeOrigin = p.routeOrigin := by
  rw [BgpPeer.routeOrigin, BgpPeer.routeOrigin, hcfg]

/-! ## Losses -/

end DefaultRouter

/-- The event takes routes away or notes that they may go. -/
def ImportEvent.IsLoss : ImportEvent → Prop
  | .down _ _ | .ended _ _ | .elapsed _ _ => True
  | _ => False

namespace DefaultRouter

variable {r r' : DefaultRouter} {fuel : Nat} {h : UInt64} {s : Session} {ev : BgpEvent}
  {id : UInt32}

/-- The sessions keep their routes or lose some of them. -/
structure Loses (r r' : DefaultRouter) : Prop where
  owners : SameOwners r r'
  trace : ∃ evs, Ingress.Traces r.ingress evs r'.ingress ∧ ∀ e ∈ evs, e.IsLoss

/-- A timer or a lost connection announces nothing: the events are losses of sessions. -/
theorem isLoss_of_quiet {actions : List BgpAction}
    (hquiet : ∀ a ∈ actions, (∃ id ms, a = .setTimer id ms) ∨ a = .close ∨ BgpPeer.IsEmit a) :
    ∀ e ∈ actions.filterMap (r.eventOf h), e.IsLoss := by
  intro e he
  obtain ⟨a, ha, hevent⟩ := List.mem_filterMap.mp he
  obtain ⟨id, ms, rfl⟩ | rfl | ⟨x, rfl⟩ := hquiet a ha <;> cases hevent
  trivial

theorem Loses.of_ingress (ho : SameOwners r r') (hi : r'.ingress = r.ingress) : Loses r r' :=
  ⟨ho, [], hi ▸ .nil _, by simp⟩

theorem Loses.trans {r'' : DefaultRouter} (hl : Loses r r') (hl' : Loses r' r'') : Loses r r'' := by
  obtain ⟨evs, htrace, hevs⟩ := hl.trace
  obtain ⟨evs', htrace', hevs'⟩ := hl'.trace
  refine ⟨hl.owners.trans hl'.owners, evs ++ evs', htrace.append htrace', ?_⟩
  exact List.forall_mem_append.mpr ⟨hevs, hevs'⟩

theorem Loses.of_effect {g : Ingress} {e : ImportEvent} (he : Effect r r' g) (hloss : e.IsLoss)
    (hg : r.ingress.after e = g) : Loses r r' := by
  refine ⟨.of_alike (.of_frame he.frame), [e], traces_of_effect he (hg ▸ .refl _), ?_⟩
  simpa using hloss

theorem loses_foldlM {ι : Type} {f : DefaultRouter → ι → Option DefaultRouter}
    (hf : ∀ r i r', f r i = some r' → Loses r r') {l : List ι} (hl : l.foldlM f r = some r') :
    Loses r r' :=
  foldlM_invariant (P := Loses r) (fun i _ _ _ ht hone => ht.trans (hf _ i _ hone))
    (.of_ingress (.refl r) rfl) hl

theorem stepPeer_loses (hs : r.session h = some s) (hev : ∀ m, ev ≠ .message m)
    (hstep : r.stepPeer fuel h s ev = some r') : Loses r r' := by
  obtain ⟨p, actions, hp, halike, htrace⟩ := stepPeer_traces hstep
  have htrans := BgpPeer.step_transition hp
  have hput : SameOwners r (r.stepped h s p) := .setSession hs (routeOrigin_of_cfg htrans.cfg)
  exact ⟨hput.trans (.of_alike halike), _, htrace, isLoss_of_quiet (htrans.quiet hev)⟩

theorem closeSession_loses (hc : r.closeSession fuel h = some r') : Loses r r' := by
  unfold closeSession at hc
  split at hc
  · cases hc
    exact .of_ingress (.refl r) rfl
  · rename_i s hs
    exact stepPeer_loses hs (by simp) hc

theorem shutdownSession_loses (hc : r.shutdownSession fuel h = some r') : Loses r r' := by
  unfold shutdownSession at hc
  split at hc
  · cases hc
    exact .of_ingress (.refl r) rfl
  split at hc
  · exact closeSession_loses hc
  obtain ⟨t, ht, hc⟩ := bind_eq_some_iff.mp hc
  have hcease := cease_effect ht
  have htold : Loses r { t with administrativeClose := h :: t.administrativeClose } :=
    .of_ingress ((SameOwners.of_alike (.of_frame hcease.frame)).trans ⟨rfl, rfl, rfl⟩)
      hcease.ingress
  exact htold.trans (closeSession_loses hc)

theorem startSession_loses (hc : r.startSession fuel h = some r') : Loses r r' := by
  unfold startSession at hc
  simp only at hc
  split at hc
  · cases hc
    exact .of_ingress ⟨rfl, rfl, rfl⟩ rfl
  rename_i s hs
  obtain ⟨⟨p₁, as₁⟩, h₁, hc⟩ := bind_eq_some_iff.mp hc
  obtain ⟨⟨p₂, as₂⟩, h₂, hc⟩ := bind_eq_some_iff.mp hc
  obtain ⟨t, ht, hc⟩ := bind_eq_some_iff.mp hc
  have ht₁ := BgpPeer.step_transition (Outcome.toOption_eq_some.mp h₁)
  have ht₂ := BgpPeer.step_transition (Outcome.toOption_eq_some.mp h₂)
  obtain ⟨halike, htrace⟩ := dispatchBgpActions_traces ht
  have hcfg : p₂.cfg = s.peer.cfg := ht₂.cfg.trans ht₁.cfg
  have hcleared : SameOwners r { r with egress := r.egress.clearMrai h } := ⟨rfl, rfl, rfl⟩
  have hput : SameOwners { r with egress := r.egress.clearMrai h }
      ({ r with egress := r.egress.clearMrai h }.stepped h s p₂) :=
    .setSession hs (routeOrigin_of_cfg hcfg)
  have hquiet : ∀ a ∈ as₁ ++ as₂,
      (∃ id ms, a = .setTimer id ms) ∨ a = .close ∨ BgpPeer.IsEmit a := by
    exact List.forall_mem_append.mpr ⟨ht₁.quiet nofun, ht₂.quiet nofun⟩
  have hdispatched : Loses r t :=
    ⟨hcleared.trans (hput.trans (.of_alike halike)), _, htrace, isLoss_of_quiet hquiet⟩
  cases hc
  refine hdispatched.trans ?_
  split
  · exact .of_ingress ⟨rfl, rfl, rfl⟩ rfl
  rename_i s' hs'
  have hmark : SameOwners t
      (t.setSession h { s' with established := false, wasEstablished := false }) :=
    .setSession hs' rfl
  exact .of_ingress (hmark.trans ⟨rfl, rfl, rfl⟩) rfl

theorem timerEvent_quiet (he : timerEvent id = some ev) (m : BgpMessage) : ev ≠ .message m := by
  unfold timerEvent at he
  rintro rfl
  split at he <;> cases he

theorem expire_loses (he : expire fuel r id = some r') : Loses r r' := by
  unfold expire at he
  split at he
  · rename_i s ev hs hev
    exact stepPeer_loses hs (timerEvent_quiet hev) he
  · cases he
    exact .of_ingress (.refl r) rfl

theorem finishFamily_loses {family : NlriFamily} (hf : r.finishFamily fuel h family = some r') :
    Loses r r' :=
  .of_effect (e := .ended h family) (finishFamily_effect hf) trivial rfl

theorem processGracefulRestart_loses (hp : r.processGracefulRestart fuel = some r') :
    Loses r r' := by
  obtain ⟨t, ht, hp⟩ := bind_eq_some_iff.mp hp
  have hwindows : Loses r t := loses_foldlM
    (fun u k u' hone => .of_effect (e := .elapsed k ((u.session k).any Session.established))
      (restartExpired_effect hone) trivial rfl) ht
  exact hwindows.trans (loses_foldlM (fun _ _ _ => finishFamily_loses) hp)

theorem tick_loses {now : UInt64} {order : PopOrder UInt32} (ht : r.tick fuel now order = some r') :
    Loses r r' := by
  obtain ⟨t, hexp, ht⟩ := bind_eq_some_iff.mp ht
  obtain ⟨e, he, ht⟩ := bind_eq_some_iff.mp ht
  have hclock : Loses r { r with nowMs := now, timers := r.timers.pending now.toNat } :=
    .of_ingress ⟨rfl, rfl, rfl⟩ rfl
  have hexpired := loses_foldlM (fun _ _ _ => expire_loses) hexp
  have hsame : t.egress.Same e := Egress.same_flushMrai he
  have hflushed : Loses t { t with egress := e } :=
    .of_ingress (.of_alike (.of_frame (.of_egress hsame))) rfl
  exact hclock.trans (hexpired.trans (hflushed.trans (processGracefulRestart_loses ht)))

/-! ## Feeds -/

theorem stampPeerSource_path (addr : Option IpAddr) (route : Route) :
    PathKey.of (stampPeerSource addr route) = .of route := by
  cases addr <;> rfl

theorem importConfig_fed {p : BgpPeer} (hs : r.session h = some s) (hcfg : p.cfg = s.peer.cfg)
    (k : UInt64) : (r.fed h s p).importConfig k = r.importConfig k :=
  importConfig_congr rfl rfl (map_session_setSession hs (by rw [hcfg]) k)

/-- A route of the session is announced, and the pipeline decides on it as it stands. -/
structure Announces (r : DefaultRouter) (h : UInt64) (route : Route) (stored : Option Route) :
    Prop where
  owner : r.own h = some route.origin
  admitted : stored = (r.importConfig route.origin.peer).admitRoute r.nowMs route

section

variable (r : DefaultRouter) (h : UInt64)

/-- What the actions of a session may do to the import side. -/
def Stems : ImportEvent → Prop
  | .announced route stored _ => r.Announces h route stored
  | .withdrew _ _ _ | .down _ _ | .ended _ _ => True
  | _ => False

/-- The action installs a route. -/
def installs : BgpAction → Bool
  | .installRoute _ => true
  | _ => false

/-- How many routes a feed announces. -/
def announces (bytes : Bytes) : Nat :=
  match r.session h with
  | none => 0
  | some s =>
    match s.peer.feedBytes bytes with
    | .ok out => out.2.countP installs
    | _ => 0

theorem countP_announced_eventOf (actions : List BgpAction) :
    (actions.filterMap (r.eventOf h)).countP ImportEvent.isAnnounced = actions.countP installs := by
  induction actions with
  | nil => rfl
  | cons a actions ih =>
    rw [List.filterMap_cons, List.countP_cons, ← ih]
    cases a <;> simp [eventOf, installs, ImportEvent.isAnnounced, List.countP_cons]

end

/-- Closing the loser of a collision ends its session and leaves the decisions on routes
alone. -/
theorem closeCollisionLoser_loses (hc : r.closeCollisionLoser fuel h = some r') :
    SameOwners r r' ∧ (∀ k, r'.importConfig k = r.importConfig k) ∧ r'.nowMs = r.nowMs ∧
      ∃ evs, Ingress.Traces r.ingress evs r'.ingress ∧
        ∀ e ∈ evs, ∃ retained, e = .down h retained := by
  cases hs : r.session h with
  | none =>
    simp only [closeCollisionLoser, hs] at hc
    cases hc
    exact ⟨.refl r, fun _ => rfl, rfl, [], .nil _, by simp⟩
  | some s =>
    obtain ⟨t, ht, hingress, -, hc⟩ := closeCollisionLoser_traces hs hc
    obtain ⟨halike, htrace⟩ := dispatchBgpActions_traces hc
    have hput : SameOwners r (r.silenced h s) := .setSession hs rfl
    have hlast := ht.trans halike
    rw [hingress] at htrace
    refine ⟨hput.trans (.of_alike hlast), fun k => ?_, hlast.nowMs, _, htrace, ?_⟩
    · refine (hlast.importConfig k).trans (importConfig_congr rfl rfl ?_)
      exact map_session_setSession hs (by rfl) k
    · simp [eventOf]

/-- What the actions of a feed do, in a router that decides on routes as `r` does. -/
theorem applyFed_stems {t : DefaultRouter} {up : Bool} {actions : List BgpAction}
    (hs : r.session h = some s) (himport : ∀ k, t.importConfig k = r.importConfig k)
    (hnow : t.nowMs = r.nowMs) (hnames : ∀ a ∈ actions, s.peer.Names a)
    (ha : t.applyFed fuel h up actions = some r') :
    SameOwners t r' ∧ ∃ evs, Ingress.Traces t.ingress evs r'.ingress ∧ (∀ e ∈ evs, r.Stems h e) ∧
      evs.countP ImportEvent.isAnnounced = actions.countP installs := by
  obtain ⟨halike, htrace⟩ := applyFed_traces ha
  refine ⟨.of_alike halike, _, htrace, fun e he => ?_, countP_announced_eventOf t h actions⟩
  obtain ⟨a, ha, hevent⟩ := List.mem_filterMap.mp he
  have hname := hnames a ha
  cases a with
  | installRoute route =>
    cases hevent
    have hpath : (t.stamped route).origin = route.origin :=
      congrArg PathKey.origin (stampPeerSource_path _ route)
    refine ⟨?_, ?_⟩
    · rw [hpath, hname.1, own, hs, map_some]
    · rw [himport, hnow]
  | close | withdrawRoute | endOfRib =>
    cases hevent
    trivial
  | setTimer | cancelTimer | routeRefreshRequested | beginOfRouteRefresh | emit => cases hevent

/-- A feed announces routes of its session, withdraws some and loses some; it may end
another session of the collision group. -/
theorem feedInput_stems {bytes : Bytes} (hf : r.feedInput fuel h bytes = some r') :
    SameOwners r r' ∧ ∃ evs, Ingress.Traces r.ingress evs r'.ingress ∧ (∀ e ∈ evs, r.Stems h e) ∧
      evs.countP ImportEvent.isAnnounced ≤ r.announces h bytes := by
  have hnothing : r' = r → SameOwners r r' ∧ ∃ evs, Ingress.Traces r.ingress evs r'.ingress ∧
      (∀ e ∈ evs, r.Stems h e) ∧ evs.countP ImportEvent.isAnnounced ≤ r.announces h bytes := by
    rintro rfl
    exact ⟨.refl _, [], .nil _, by simp, by simp⟩
  cases hs : r.session h with
  | none =>
    rw [feedInput, hs] at hf
    exact hnothing (some.inj hf).symm
  | some s =>
    by_cases hbytes : bytes = []
    · simp only [feedInput, hs, if_pos hbytes] at hf
      exact hnothing (some.inj hf).symm
    simp only [feedInput, hs, if_neg hbytes] at hf
    obtain ⟨⟨p, actions⟩, hp, hf⟩ := bind_eq_some_iff.mp hf
    have hfeed := Outcome.toOption_eq_some.mp hp
    obtain ⟨hcfg, hnames⟩ := BgpPeer.feedBytes_names hfeed
    have hput : SameOwners r (r.fed h s p) := .setSession hs (routeOrigin_of_cfg hcfg)
    have hcount : r.announces h bytes = actions.countP installs := by
      rw [announces, hs]
      simp only [hfeed]
    split at hf
    · obtain ⟨hsame, evs, htrace, hstems, hannounced⟩ :=
        applyFed_stems hs (importConfig_fed hs hcfg) rfl hnames hf
      exact ⟨hput.trans hsame, evs, htrace, hstems, (hannounced.trans hcount.symm).le⟩
    rename_i closing hclosing
    obtain ⟨t, ht, hf⟩ := bind_eq_some_iff.mp hf
    obtain ⟨hlost, himport, hnow, downs, hdown, hdowns⟩ := closeCollisionLoser_loses ht
    have hlost' := hput.trans hlost
    have hstems : ∀ e ∈ downs, r.Stems h e := by
      intro e he
      obtain ⟨retained, rfl⟩ := hdowns e he
      trivial
    have hquiet : downs.countP ImportEvent.isAnnounced = 0 := by
      refine List.countP_eq_zero.mpr fun e he => ?_
      obtain ⟨retained, rfl⟩ := hdowns e he
      simp [ImportEvent.isAnnounced]
    split at hf
    · cases hf
      exact ⟨hlost', downs, hdown, hstems, hquiet.trans_le (Nat.zero_le _)⟩
    · obtain ⟨hsame, evs, htrace, hstems', hannounced⟩ := applyFed_stems hs
        (fun k => (himport k).trans (importConfig_fed hs hcfg k)) hnow hnames hf
      refine ⟨hlost'.trans hsame, _, hdown.append htrace, ?_, ?_⟩
      · exact List.forall_mem_append.mpr ⟨hstems, hstems'⟩
      · rw [List.countP_append, hquiet, hannounced, hcount, Nat.zero_add]

end DefaultRouter

end LibRouting.Router
