/-
  Router/ImportSide.lean --- the import side of the router as a machine of its own.

  What the sessions have announced, and the accounts kept of it, change independently of
  the routing table.  Each operation on it is a function here, and the router's function
  of the same purpose is shown to have that effect and to leave the rest alone.
-/
import LibRouting.Router.Frame

set_option autoImplicit false

namespace LibRouting.Router

open Foundation Core Bgp Policy Rib Option

namespace Ingress

/-! ## Operations -/

/-- The two sides differ at most in the flags of the max-prefix records. -/
structure Agrees (g g' : Ingress) : Prop where
  adjRibIn : g'.adjRibIn = g.adjRibIn
  prePolicy : g'.prePolicy = g.prePolicy
  gracefulRestart : g'.gracefulRestart = g.gracefulRestart
  counts : ∀ h : UInt64,
    (g'.maxPrefix[h]?).map MaxPrefixState.count = (g.maxPrefix[h]?).map MaxPrefixState.count

section

variable (g : Ingress) (h : UInt64)

theorem Agrees.refl : g.Agrees g := ⟨rfl, rfl, rfl, fun _ => rfl⟩

/-- `import_route`; `stored` is what the pipeline makes of the route. -/
def imported (route : Route) (stored : Option Route) (keep : Bool) : Ingress :=
  match stored with
  | none => g.retainRaw keep route
  | some r => ((g.retainRaw keep route).noteRefreshed r.origin.peer r).store r

/-- `withdraw_from_session`. -/
def withdrawn (origin : RouteOrigin) (key : RouteKey) (pathId : UInt32) : Ingress :=
  let g := { g with prePolicy := g.prePolicy.withdraw origin key pathId }
  if (g.adjRibIn.get origin key pathId).isSome then g.remove origin key pathId else g

/-- `session_down_cleanup`: a session without routes keeps its raw routes. -/
def cleaned : Ingress :=
  if (g.held h).isEmpty then g else g.purge h

/-- `teardown_bgp_session`, with the retention that applies. -/
def tornDown : Option GracefulRestartState → Ingress
  | none => (g.unlatched h).cleaned h
  | some state =>
    if g.gracefulRestart.contains h then g.unlatched h
    else { g.unlatched h with gracefulRestart := g.gracefulRestart.insert h state }

/-- Remove a path that was not announced again. -/
def expire (o : RouteOrigin) (g : Ingress) (route : Route) : Ingress :=
  { g with adjRibIn := g.adjRibIn.withdraw o route.key route.pathId }.uncount h 1

/-- The paths of a family that were not announced again. -/
def staleOf (o : RouteOrigin) (family : NlriFamily) (state : GracefulRestartState) : List Route :=
  (g.adjRibIn.iterOrigin o).filter fun route =>
    route.key.family = family && !state.hasRefreshed route

end

section

variable (h : UInt64) (family : NlriFamily) (g : Ingress)

/-- `purge_unrefreshed_family`. -/
def purgeFamily (state : GracefulRestartState) (g : Ingress) : Ingress :=
  (originsOf h).foldl (fun g o => (g.staleOf o family state).foldl (expire h o) g) g

/-- The restart record of a session after a family has ended. -/
def familyEnded (state : GracefulRestartState) (g : Ingress) : Ingress :=
  let llgrDeadlines := state.llgrDeadlines.erase family
  { g with gracefulRestart :=
      if llgrDeadlines.isEmpty then g.gracefulRestart.erase h
      else g.gracefulRestart.insert h { state with llgrDeadlines } }

/-- The end of the retention of a family. -/
def finished : Ingress :=
  match g.gracefulRestart[h]? with
  | none => g
  | some state => (g.familyEnded h family state).purgeFamily h family state

/-- The restart window has elapsed; `up` says that the session is back. -/
def windowElapsed (up : Bool) (h : UInt64) (g : Ingress) : Ingress :=
  match g.gracefulRestart[h]? with
  | none => g
  | some state =>
    let marked := g.gracefulRestart.insert h { state with markedStale := true }
    if state.llgrDeadlines.isEmpty then
      if up then { g with gracefulRestart := marked }
      else cleaned { g with gracefulRestart := g.gracefulRestart.erase h } h
    else (originsOf h).foldl (stale state h) { g with gracefulRestart := marked }

/-- Take a route over from the raw table. -/
def refed (route : Route) : Ingress :=
  { g.noteRefreshed h route with adjRibIn := g.adjRibIn.feedPrePolicy route.origin route }

/-- `soft_reconfig_inbound`; `admitted` are the routes the hooks admit. -/
def reimported (h : UInt64) (admitted : List Route) : Ingress :=
  (admitted.foldl (refed h) { g with adjRibIn := g.adjRibIn.clearFor ⟨0, h⟩ }).recount h

/-- What `remove_session` forgets at once. -/
def forgotten (h : UInt64) : Ingress :=
  { g with
    prePolicy := (originsOf h).foldl AdjRibIn.clearFor g.prePolicy
    maxPrefix := g.maxPrefix.erase h
    gracefulRestart := g.gracefulRestart.erase h }

end

/-- `remove_session`. -/
def dropped (g : Ingress) (h : UInt64) : Ingress :=
  (g.adjRibIn.iterAll.filter fun route => route.origin.peer = h).foldl
    (fun g route => g.withdrawn route.origin route.key route.pathId) (g.forgotten h)

end Ingress

namespace DefaultRouter

variable {r r' : DefaultRouter} {fuel : Nat} {h : UInt64} {key : RouteKey} {s : Session}
  {state : GracefulRestartState} {family : NlriFamily}

/-! ## What the router does to it -/

/-- The import side changes as told and nothing else does. -/
structure Effect (r r' : DefaultRouter) (g : Ingress) : Prop where
  frame : Frame r r'
  ingress : r'.ingress = g

theorem Effect.of_ingress {g g' : Ingress} (h : Effect { r with ingress := g } r' g') :
    Effect r r' g' :=
  ⟨(Frame.of_ingress r g).trans h.frame, h.ingress⟩

theorem effect_reselect {g : Ingress} (h : { r with ingress := g }.reselect fuel key = some r') :
    Effect r r' g :=
  .of_ingress ⟨(reselect_frame h).1, (reselect_frame h).2⟩

theorem effect_foldlM {ι : Type} {f : DefaultRouter → ι → Option DefaultRouter}
    {F : Ingress → ι → Ingress} (hf : ∀ r i r', f r i = some r' → Effect r r' (F r.ingress i)) :
    ∀ {l : List ι} {r r' : DefaultRouter}, l.foldlM f r = some r' →
      Effect r r' (l.foldl F r.ingress)
  | [], r, r', h => by
      cases h
      exact ⟨.refl r, rfl⟩
  | i :: l, r, r', h => by
      obtain ⟨t, hi, h⟩ := foldlM_cons_some.mp h
      have hfirst := hf r i t hi
      have hrest := effect_foldlM hf h
      rw [hfirst.ingress] at hrest
      exact ⟨hfirst.frame.trans hrest.frame, hrest.ingress⟩

theorem frame_setSession {s' : Session} (hs : r.session h = some s) (hstill : s'.still = s.still) :
    Frame r (r.setSession h s') :=
  Frame.of_egress (Egress.same_setSession hs hstill)

theorem flushPeerOutput_frame (r : DefaultRouter) (h : UInt64) : Frame r (r.flushPeerOutput h) := by
  unfold flushPeerOutput
  split
  · exact .refl r
  · rename_i s hs
    exact frame_setSession hs rfl

theorem flushPeerOutput_ingress (r : DefaultRouter) (h : UInt64) :
    (r.flushPeerOutput h).ingress = r.ingress := by
  unfold flushPeerOutput
  split <;> rfl

theorem cease_effect {subcode : UInt8} (hc : r.cease h subcode = some r') :
    Effect r r' r.ingress := by
  unfold cease at hc
  split at hc
  · cases hc
    exact ⟨.refl r, rfl⟩
  rename_i s hs
  obtain ⟨p, hp, hc⟩ := bind_eq_some_iff.mp hc
  cases hc
  refine ⟨frame_setSession hs ?_, rfl⟩
  exact congrArg (fun p => { s with peer := p, output := [] })
    (BgpPeer.still_enqueue (Outcome.toOption_eq_some.mp hp))

theorem checkMaxPrefix_effect (hc : r.checkMaxPrefix h = some r') :
    ∃ g, r.ingress.Agrees g ∧ Effect r r' g := by
  unfold checkMaxPrefix at hc
  split at hc
  case h_2 =>
    cases hc
    exact ⟨_, .refl _, .refl r, rfl⟩
  case h_1 s st hs hst =>
    split at hc
    · cases hc
      exact ⟨_, .refl _, .refl r, rfl⟩
    rename_i limit _
    refine ⟨{ r.ingress with maxPrefix :=
      r.ingress.maxPrefix.insert h (st.checked s.options limit r.nowMs) },
      ⟨rfl, rfl, rfl, fun k => ?_⟩, ?_⟩
    · rw [lookup_insert]
      split
      · rename_i heq
        subst heq
        rw [hst]
        rfl
      · rfl
    · split at hc
      · obtain ⟨t, ht, rfl⟩ := map_eq_some_iff.mp hc
        have hcease := cease_effect ht
        exact ⟨((Frame.of_ingress r _).trans hcease.frame).trans (flushPeerOutput_frame t h),
          (flushPeerOutput_ingress t h).trans hcease.ingress⟩
      · cases hc
        exact ⟨.of_ingress r _, rfl⟩

theorem importRoute_effect {route : Route} (hi : r.importRoute fuel route = some r') :
    ∃ g, (r.ingress.imported route ((r.importConfig route.origin.peer).admitRoute r.nowMs route)
      (r.keepsRaw route.origin.peer)).Agrees g ∧ Effect r r' g := by
  unfold importRoute at hi
  unfold Ingress.imported
  simp only at hi
  generalize r.importConfig route.origin.peer = c at hi ⊢
  split at hi
  · rename_i hdeny
    cases hi
    rw [show c.admitRoute r.nowMs route = none by rw [ImportConfig.admitRoute, if_pos hdeny]]
    exact ⟨_, .refl _, (Frame.of_ingress r _).trans (.notePolicy _ _), rfl⟩
  cases hadm : c.admitRoute r.nowMs route with
  | none =>
    rw [hadm] at hi
    cases hi
    exact ⟨_, .refl _, .of_ingress r _, rfl⟩
  | some stored =>
    simp only [hadm] at hi
    obtain ⟨t, ht, hi⟩ := bind_eq_some_iff.mp hi
    have hsel := reselect_frame ht
    obtain ⟨g, hg, hcheck⟩ := checkMaxPrefix_effect hi
    rw [hsel.2] at hg
    exact ⟨g, hg, ((Frame.of_ingress r _).trans hsel.1).trans hcheck.frame, hcheck.ingress⟩

theorem withdrawFromSession_effect {o : RouteOrigin} {pathId : UInt32}
    (hw : r.withdrawFromSession fuel o key pathId = some r') :
    Effect r r' (r.ingress.withdrawn o key pathId) := by
  unfold withdrawFromSession at hw
  unfold Ingress.withdrawn
  simp only at hw ⊢
  split at hw
  · rename_i hget
    cases hw
    rw [hget]
    exact ⟨.of_ingress r _, rfl⟩
  · rename_i route hget
    rw [hget]
    exact effect_reselect hw

theorem sessionDownCleanup_effect (hc : r.sessionDownCleanup fuel h = some r') :
    Effect r r' (r.ingress.cleaned h) := by
  unfold sessionDownCleanup at hc
  unfold Ingress.cleaned
  simp only [List.isEmpty_map] at hc
  split at hc
  · rename_i hempty
    cases hc
    rw [if_pos hempty]
    exact ⟨.refl r, rfl⟩
  rename_i hempty
  rw [if_neg hempty]
  obtain ⟨hframe, hin⟩ := reselectAll_frame hc
  have hout : r.egress.Same ((originsOf h).foldl
      (fun (e : Egress) o => { e with adjRibOut := e.adjRibOut.clearFor o }) r.egress) :=
    Egress.same_of_sessions rfl
  exact ⟨((Frame.of_egress hout).trans (.of_ingress _ _)).trans hframe, hin⟩

theorem teardownBgpSession_effect (ht : r.teardownBgpSession fuel h = some r') :
    Effect r r' (r.ingress.tornDown h (r.retention h)) := by
  unfold teardownBgpSession at ht
  have hsame : r.egress.Same (r.egress.clearMrai h) := Egress.same_of_sessions rfl
  have hmrai :
      Frame r { r with egress := r.egress.clearMrai h, ingress := r.ingress.unlatched h } :=
    (Frame.of_egress hsame).trans (.of_ingress _ _)
  have hretain : retention { r with
      egress := r.egress.clearMrai h, ingress := r.ingress.unlatched h } h = r.retention h := rfl
  simp only [hretain] at ht
  unfold Ingress.tornDown
  cases hkept : r.retention h with
  | none =>
    simp only [hkept] at ht
    have hclean := sessionDownCleanup_effect ht
    exact ⟨hmrai.trans hclean.frame, hclean.ingress⟩
  | some state =>
    simp only [hkept] at ht ⊢
    split at ht <;> rename_i hgr <;> cases ht
    · rw [if_pos (show r.ingress.gracefulRestart.contains h = true from hgr)]
      exact ⟨hmrai, rfl⟩
    · rw [if_neg (show ¬r.ingress.gracefulRestart.contains h = true from hgr)]
      exact ⟨hmrai.trans (.of_ingress _ _), rfl⟩

theorem enterLlgrPeriod_effect (he : r.enterLlgrPeriod fuel h state = some r') :
    Effect r r' ((originsOf h).foldl (Ingress.stale state h) r.ingress) := by
  unfold enterLlgrPeriod at he
  simp only at he
  exact (foldlM_invariant
    (P := fun t =>
      Effect { r with ingress := (originsOf h).foldl (Ingress.stale state h) r.ingress }
      t ((originsOf h).foldl (Ingress.stale state h) r.ingress))
    (fun key _ t t' ht hstep => by
      obtain ⟨u, hu, hstep⟩ := bind_eq_some_iff.mp hstep
      obtain ⟨e, he, hstep⟩ := bind_eq_some_iff.mp hstep
      cases hstep
      have hsame : u.egress.Same e := Egress.same_withdrawFrom he
      exact ⟨(ht.frame.trans (reselect_frame hu).1).trans (.of_egress hsame),
        (reselect_frame hu).2.trans ht.ingress⟩)
    ⟨.refl _, rfl⟩ he).of_ingress

theorem purgeUnrefreshedFamily_effect
    (hp : r.purgeUnrefreshedFamily fuel h family state = some r') :
    Effect r r' (r.ingress.purgeFamily h family state) :=
  effect_foldlM (fun _ o _ hturn => effect_foldlM
    (F := Ingress.expire h o) (fun _ _ _ hone => effect_reselect hone) hturn) hp

theorem finishFamily_effect (hf : r.finishFamily fuel h family = some r') :
    Effect r r' (r.ingress.finished h family) := by
  unfold finishFamily at hf
  unfold Ingress.finished
  cases hgr : r.ingress.gracefulRestart[h]? with
  | none =>
    simp only [hgr] at hf
    cases hf
    exact ⟨.refl r, rfl⟩
  | some state =>
    simp only [hgr] at hf
    exact (purgeUnrefreshedFamily_effect hf).of_ingress

theorem restartExpired_effect (hx : r.restartExpired fuel h = some r') :
    Effect r r' (r.ingress.windowElapsed ((r.session h).any Session.established) h) := by
  unfold restartExpired at hx
  unfold Ingress.windowElapsed
  cases hgr : r.ingress.gracefulRestart[h]? with
  | none =>
    simp only [hgr] at hx
    cases hx
    exact ⟨.refl r, rfl⟩
  | some state =>
    simp only [hgr] at hx ⊢
    split at hx
    · rename_i hnone
      rw [if_pos hnone]
      split at hx
      · rename_i hup
        cases hx
        rw [if_pos hup]
        exact ⟨.of_ingress r _, rfl⟩
      rename_i hup
      rw [if_neg hup]
      exact (sessionDownCleanup_effect hx).of_ingress
    · rename_i hnone
      rw [if_neg hnone]
      exact (enterLlgrPeriod_effect hx).of_ingress

theorem softReconfigInbound_effect (hs : r.softReconfigInbound fuel h = some r')
    (hraw : r.ingress.prePolicy.iterOrigin ⟨0, h⟩ ≠ []) :
    Effect r r' (r.ingress.reimported h (r.softAdmitted h)) := by
  unfold softReconfigInbound at hs
  rw [if_neg (by simpa using hraw)] at hs
  obtain ⟨t, ht, hs⟩ := bind_eq_some_iff.mp hs
  cases hs
  obtain ⟨hframe, hin⟩ := reselectAll_frame ht
  refine ⟨((Frame.of_ingress r _).trans hframe).trans (.of_ingress t _), ?_⟩
  rw [hin]
  rfl

/-- The router without a session and what it has been sent. -/
def without (r : DefaultRouter) (h : UInt64) : DefaultRouter :=
  { r with
    egress :=
      { sessions := r.egress.sessions.erase h
        adjRibOut := (originsOf h).foldl AdjRibOut.clearFor r.egress.adjRibOut
        mrai := r.egress.mrai.erase h }
    sessionPolicy := r.sessionPolicy.erase h
    collisionMeta := r.collisionMeta.erase h }

theorem removeSession_effect (hs : r.session h = some s) (hr : r.removeSession fuel h = some r') :
    Effect (r.without h) r' (r.ingress.dropped h) := by
  unfold removeSession at hr
  simp only [hs] at hr
  have hdrop := effect_foldlM
    (F := fun g (route : Route) => g.withdrawn route.origin route.key route.pathId)
    (fun _ _ _ hone => withdrawFromSession_effect hone) hr
  exact hdrop.of_ingress (r := r.without h) (g := r.ingress.forgotten h)

end DefaultRouter

end LibRouting.Router
