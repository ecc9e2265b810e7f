/-
  Router/Ownership.lean --- the tables of received routes file every route under its own
  path and under the origin of a session.
-/
import LibRouting.Router.ImportEvents

set_option autoImplicit false

namespace LibRouting.Router

open Foundation Core Bgp Policy Rib List Option
open Std (ExtTreeMap)

/-! ## Tables -/

/-- Every route of one table is filed in the other, under the same path. -/
def Within (rib' rib : AdjRibIn) : Prop :=
  ∀ (k : PathKey) (route : Route), rib'[k]? = some route →
    ∃ old, rib[k]? = some old ∧ PathKey.of route = .of old

namespace Within

variable {rib rib' rib'' : AdjRibIn}

theorem refl (rib : AdjRibIn) : Within rib rib := fun _ route hk => ⟨route, hk, rfl⟩

theorem trans (h : Within rib'' rib') (h' : Within rib' rib) : Within rib'' rib := by
  intro k route hk
  obtain ⟨mid, hmid, hpath⟩ := h k route hk
  obtain ⟨old, hold, hpath'⟩ := h' k mid hmid
  exact ⟨old, hold, hpath.trans hpath'⟩

section

variable (rib : AdjRibIn) (o : RouteOrigin)

theorem withdraw (key : RouteKey) (pathId : UInt32) : Within (rib.withdraw o key pathId) rib := by
  intro k route hk
  rw [AdjRibIn.withdraw, lookup_erase] at hk
  split at hk
  · cases hk
  · exact ⟨route, hk, rfl⟩

theorem clearFor : Within (rib.clearFor o) rib := by
  intro k route hk
  rw [AdjRibIn.clearFor, ExtTreeMap.getElem?_filter'] at hk
  exact ⟨route, (filter_eq_some_iff.mp hk).1, rfl⟩

theorem mutateOrigin {f : Route → Option Route}
    (hf : ∀ route route', f route = some route' → PathKey.of route' = .of route) :
    Within (rib.mutateOrigin o f) rib := by
  intro k route hk
  rw [AdjRibIn.mutateOrigin, ExtTreeMap.getElem?_filterMap', bind_eq_some_iff] at hk
  obtain ⟨old, hold, hk⟩ := hk
  split at hk
  · exact ⟨old, hold, hf old route hk⟩
  · cases hk
    exact ⟨route, hold, rfl⟩

end

end Within

/-- Every route is filed under its path, and its origin is the one `own` gives its session. -/
structure Filed (own : UInt64 → Option RouteOrigin) (rib : AdjRibIn) : Prop where
  place : ∀ (k : PathKey) (route : Route), rib[k]? = some route → k = .of route
  owner : ∀ (k : PathKey) (route : Route), rib[k]? = some route →
    own k.origin.peer = some k.origin

namespace Filed

variable {own : UInt64 → Option RouteOrigin} {rib rib' : AdjRibIn} {route : Route}

theorem empty (own : UInt64 → Option RouteOrigin) : Filed own ∅ := by
  constructor <;> intro k route hk <;> simp at hk

theorem within (h : Filed own rib) (hsub : Within rib' rib) : Filed own rib' where
  place k route hk := by
    obtain ⟨old, hold, hpath⟩ := hsub k route hk
    rw [hpath]
    exact h.place k old hold
  owner k route hk := by
    obtain ⟨old, hold, -⟩ := hsub k route hk
    exact h.owner k old hold

theorem feedPrePolicy (h : Filed own rib) (howner : own route.origin.peer = some route.origin) :
    Filed own (rib.feedPrePolicy route.origin route) := by
  have hnew : ∀ (k : PathKey) (r : Route), (rib.feedPrePolicy route.origin route)[k]? = some r →
      (k = .of route ∧ r = route) ∨ rib[k]? = some r := by
    intro k r hk
    rw [AdjRibIn.feedPrePolicy, lookup_insert] at hk
    split at hk
    · rename_i heq
      exact .inl ⟨heq.symm, (some.inj hk).symm⟩
    · exact .inr hk
  refine ⟨fun k r hk => ?_, fun k r hk => ?_⟩ <;> obtain ⟨rfl, rfl⟩ | hk := hnew k r hk
  · rfl
  · exact h.place k r hk
  · exact howner
  · exact h.owner k r hk

/-- The owners may change where no route is. -/
theorem congr_own (h : Filed own rib) {own' : UInt64 → Option RouteOrigin}
    (hown : ∀ (k : PathKey) (route : Route), rib[k]? = some route →
      own' k.origin.peer = own k.origin.peer) : Filed own' rib :=
  { h with owner k route hk := (hown k route hk).trans (h.owner k route hk) }

theorem mem_iterOrigin (h : Filed own rib) {o : RouteOrigin} (hr : route ∈ rib.iterOrigin o) :
    rib[PathKey.of route]? = some route ∧ route.origin = o := by
  obtain ⟨key, pathId, hget⟩ := AdjRibIn.mem_iterOrigin.mp hr
  have hplace := h.place ⟨o, key, pathId⟩ route hget
  refine ⟨hplace ▸ hget, ?_⟩
  exact (congrArg PathKey.origin hplace).symm

end Filed

theorem staled_path {s : GracefulRestartState} {route route' : Route}
    (h : s.staled route = some route') : PathKey.of route' = .of route := by
  unfold GracefulRestartState.staled at h
  split at h
  · cases h
    rfl
  split at h
  · cases h
  cases h
  unfold markStale
  simp only
  split <;> rfl

/-! ## The import side -/

namespace Ingress
variable {route : Route} {ι : Type} {f : Ingress → ι → Ingress} {l : List ι}

/-- Both tables are filed. -/
structure Filed (own : UInt64 → Option RouteOrigin) (g : Ingress) : Prop where
  routes : Router.Filed own g.adjRibIn
  raw : Router.Filed own g.prePolicy

variable {own : UInt64 → Option RouteOrigin} {g g' : Ingress} {h : UInt64}

theorem Filed.of_tables (hg : g.Filed own) (hin : g'.adjRibIn = g.adjRibIn)
    (hraw : g'.prePolicy = g.prePolicy) : g'.Filed own :=
  ⟨hin ▸ hg.routes, hraw ▸ hg.raw⟩

theorem Filed.agrees (hg : g.Filed own) (ha : g.Agrees g') : g'.Filed own :=
  hg.of_tables ha.adjRibIn ha.prePolicy

theorem Filed.retainRaw (hg : g.Filed own) (keep : Bool)
    (howner : own route.origin.peer = some route.origin) : (g.retainRaw keep route).Filed own := by
  unfold Ingress.retainRaw
  split
  · exact ⟨hg.routes, hg.raw.feedPrePolicy howner⟩
  · exact hg

theorem retainRaw_adjRibIn (g : Ingress) (keep : Bool) (route : Route) :
    (g.retainRaw keep route).adjRibIn = g.adjRibIn := by
  unfold retainRaw
  split <;> rfl

theorem retainRaw_maxPrefix (g : Ingress) (keep : Bool) (route : Route) :
    (g.retainRaw keep route).maxPrefix = g.maxPrefix := by
  unfold retainRaw
  split <;> rfl

theorem Filed.imported (hg : g.Filed own) {stored : Option Route} {keep : Bool}
    (howner : own route.origin.peer = some route.origin)
    (hstored : ∀ r, stored = some r → PathKey.of r = .of route) :
    (g.imported route stored keep).Filed own := by
  have hraw := hg.retainRaw keep howner
  cases stored with
  | none => exact hraw
  | some r =>
    have horigin : r.origin = route.origin := congrArg PathKey.origin (hstored r rfl)
    exact ⟨hraw.routes.feedPrePolicy (by rw [horigin]; exact howner), hraw.raw⟩

theorem withdrawn_adjRibIn (g : Ingress) (o : RouteOrigin) (key : RouteKey) (pathId : UInt32) :
    (g.withdrawn o key pathId).adjRibIn = g.adjRibIn.withdraw o key pathId := by
  unfold withdrawn
  simp only
  split
  · rfl
  rename_i hnone
  refine ExtTreeMap.ext_getElem? fun k => ?_
  change g.adjRibIn[k]? = (g.adjRibIn.erase ⟨o, key, pathId⟩)[k]?
  rw [lookup_erase]
  split
  · rename_i heq
    subst heq
    simpa [AdjRibIn.get] using hnone
  · rfl

theorem withdrawn_prePolicy (g : Ingress) (o : RouteOrigin) (key : RouteKey) (pathId : UInt32) :
    (g.withdrawn o key pathId).prePolicy = g.prePolicy.withdraw o key pathId := by
  unfold withdrawn
  simp only
  split <;> rfl

/-- Routes may have gone or been marked, but none has come. -/
structure Shrinks (g g' : Ingress) : Prop where
  routes : Within g'.adjRibIn g.adjRibIn
  raw : Within g'.prePolicy g.prePolicy

theorem Shrinks.of_tables (hin : g'.adjRibIn = g.adjRibIn) (hraw : g'.prePolicy = g.prePolicy) :
    g.Shrinks g' :=
  ⟨hin ▸ .refl _, hraw ▸ .refl _⟩

theorem Shrinks.trans {g'' : Ingress} (hs : g.Shrinks g') (hs' : g'.Shrinks g'') : g.Shrinks g'' :=
  ⟨hs'.routes.trans hs.routes, hs'.raw.trans hs.raw⟩

theorem Shrinks.foldl (hf : ∀ i g, Shrinks g (f g i)) (g : Ingress) : g.Shrinks (l.foldl f g) :=
  foldlRecOn l f (.of_tables rfl rfl) fun g' hs i _ => hs.trans (hf i g')

theorem Filed.shrinks (hg : g.Filed own) (hs : g.Shrinks g') : g'.Filed own :=
  ⟨hg.routes.within hs.routes, hg.raw.within hs.raw⟩

theorem withdrawn_shrinks (g : Ingress) (o : RouteOrigin) (key : RouteKey) (pathId : UInt32) :
    g.Shrinks (g.withdrawn o key pathId) := by
  constructor
  · rw [withdrawn_adjRibIn]
    exact .withdraw _ o key pathId
  · rw [withdrawn_prePolicy]
    exact .withdraw _ o key pathId

theorem cleaned_shrinks (g : Ingress) (h : UInt64) : g.Shrinks (g.cleaned h) := by
  unfold cleaned
  split
  · exact .of_tables rfl rfl
  · exact ⟨(Within.clearFor _ _).trans (.clearFor _ _), (Within.clearFor _ _).trans (.clearFor _ _)⟩

theorem tornDown_shrinks (g : Ingress) (h : UInt64) (retained : Option GracefulRestartState) :
    g.Shrinks (g.tornDown h retained) := by
  have hunlatched : g.Shrinks (g.unlatched h) := .of_tables rfl rfl
  unfold tornDown
  split
  · exact hunlatched.trans (cleaned_shrinks _ h)
  · split
    · exact hunlatched
    · exact hunlatched.trans (.of_tables rfl rfl)

theorem expire_shrinks (h : UInt64) (o : RouteOrigin) (route : Route) (g : Ingress) :
    g.Shrinks (g.expire h o route) :=
  ⟨.withdraw _ _ _ _, .refl _⟩

theorem stale_shrinks (s : GracefulRestartState) (h : UInt64) (o : RouteOrigin) (g : Ingress) :
    g.Shrinks (g.stale s h o) :=
  ⟨.mutateOrigin _ o fun _ _ => staled_path, .refl _⟩

theorem purgeFamily_shrinks (h : UInt64) (family : NlriFamily) (state : GracefulRestartState)
    (g : Ingress) : g.Shrinks (g.purgeFamily h family state) := by
  unfold purgeFamily
  refine .foldl (fun o g => ?_) g
  exact .foldl (expire_shrinks h o) g

theorem finished_shrinks (g : Ingress) (h : UInt64) (family : NlriFamily) :
    g.Shrinks (g.finished h family) := by
  unfold finished
  split
  · exact .of_tables rfl rfl
  · rename_i state _
    have hended : g.Shrinks (g.familyEnded h family state) := .of_tables rfl rfl
    exact hended.trans (purgeFamily_shrinks h family state _)

theorem windowElapsed_shrinks (g : Ingress) (up : Bool) (h : UInt64) :
    g.Shrinks (g.windowElapsed up h) := by
  have hmarked : ∀ gracefulRestart, g.Shrinks { g with gracefulRestart } :=
    fun _ => .of_tables rfl rfl
  fun_cases windowElapsed up h g with
  | case1 | case2 => exact hmarked _
  | case3 => exact (hmarked _).trans (cleaned_shrinks _ h)
  | case4 => exact (hmarked _).trans (.foldl (stale_shrinks _ h) _)

theorem Filed.foldl (hf : ∀ i ∈ l, ∀ g, g.Filed own → (f g i).Filed own) (hg : g.Filed own) :
    (l.foldl f g).Filed own :=
  foldlRecOn l f hg fun g hg i hi => hf i hi g hg

theorem Filed.reimported (hg : g.Filed own) {admitted : List Route}
    (howner : ∀ route ∈ admitted, own route.origin.peer = some route.origin) :
    (g.reimported h admitted).Filed own := by
  have hcleared : Filed own { g with adjRibIn := g.adjRibIn.clearFor ⟨0, h⟩ } :=
    ⟨hg.routes.within (.clearFor _ _), hg.raw⟩
  have hfed := hcleared.foldl (f := refed h) (l := admitted) fun route hr g hg =>
    ⟨hg.routes.feedPrePolicy (howner route hr), hg.raw⟩
  exact hfed.of_tables rfl rfl

/-- A session with raw routes of an external origin is external. -/
theorem Filed.raw_owner (hg : g.Filed own) (hraw : g.prePolicy.iterOrigin ⟨0, h⟩ ≠ []) :
    own h = some ⟨0, h⟩ := by
  obtain ⟨raw, hmem⟩ := exists_mem_of_ne_nil _ hraw
  obtain ⟨hget, horigin⟩ := hg.raw.mem_iterOrigin hmem
  have howner := hg.raw.owner _ raw hget
  simpa only [PathKey.of, horigin] using howner

/-! ## A session that is removed -/

/-- The owners without a session. -/
def disowned (own : UInt64 → Option RouteOrigin) (h : UInt64) : UInt64 → Option RouteOrigin :=
  fun k => if k = h then none else own k

theorem foldl_withdrawn_adjRibIn (l : List Route) (g : Ingress) (k : PathKey) :
    (l.foldl (fun g route => g.withdrawn route.origin route.key route.pathId) g).adjRibIn[k]? =
      if k ∈ l.map PathKey.of then none else g.adjRibIn[k]? := by
  induction l generalizing g with
  | nil => simp
  | cons route l ih =>
    rw [foldl_cons, ih, withdrawn_adjRibIn, AdjRibIn.withdraw, lookup_erase, map_cons, ← PathKey.of]
    by_cases hk : k = .of route
    · simp [hk]
    · simp [hk, Ne.symm hk]

theorem dropped_getElem? (hg : g.Filed own) (h : UInt64) (k : PathKey) :
    (g.dropped h).adjRibIn[k]? = if k.origin.peer = h then none else g.adjRibIn[k]? := by
  rw [dropped, foldl_withdrawn_adjRibIn]
  change (if _ then none else g.adjRibIn[k]?) = _
  cases hk : g.adjRibIn[k]? with
  | none => simp
  | some route =>
    have hplace := hg.routes.place k route hk
    refine if_congr ⟨fun hmem => ?_, fun hpeer => ?_⟩ rfl rfl
    · obtain ⟨r, hr, rfl⟩ := mem_map.mp hmem
      exact of_decide_eq_true (mem_filter.mp hr).2
    · refine mem_map.mpr ⟨route, mem_filter.mpr ⟨AdjRibIn.mem_iterAll.mpr ⟨k, hk⟩, ?_⟩,
        hplace.symm⟩
      rw [hplace] at hpeer
      exact decide_eq_true hpeer

/-- Every session's routes carry one of its two origins. -/
def Owners (own : UInt64 → Option RouteOrigin) : Prop :=
  ∀ (h : UInt64) (o : RouteOrigin), own h = some o → o ∈ originsOf h

theorem Owners.peer_eq_iff {rib : AdjRibIn} (hown : Owners own) (hf : Router.Filed own rib)
    {k : PathKey} (hk : rib[k]? = some route) :
    k.origin.peer = h ↔ k.origin = ⟨0, h⟩ ∨ k.origin = ⟨1, h⟩ := by
  constructor
  · rintro rfl
    simpa [originsOf] using hown _ _ (hf.owner k route hk)
  · rintro (heq | heq) <;> rw [heq]

/-- A table without the origins of a session holds nothing of it, and what it held of
others. -/
theorem clearFor_clearFor_getElem? {rib : AdjRibIn} (hown : Owners own)
    (hf : Router.Filed own rib) (k : PathKey) :
    ((rib.clearFor ⟨0, h⟩).clearFor ⟨1, h⟩)[k]? = if k.origin.peer = h then none else rib[k]? := by
  simp only [AdjRibIn.clearFor, ExtTreeMap.getElem?_filter']
  cases hk : rib[k]? with
  | none => simp
  | some route =>
      by_cases h₀ : k.origin = ⟨0, h⟩ <;> simp [hown.peer_eq_iff hf hk, h₀, Option.filter]

theorem Filed.dropped (hown : Owners own) (hg : g.Filed own) (h : UInt64) :
    (g.dropped h).Filed (disowned own h) := by
  have hshrinks : (g.forgotten h).Shrinks (g.dropped h) :=
    .foldl (fun _ g => g.withdrawn_shrinks _ _ _) _
  have hforgotten := hg.raw.within ((Within.clearFor _ ⟨1, h⟩).trans (.clearFor _ ⟨0, h⟩))
  constructor
  · refine (hg.routes.within hshrinks.routes).congr_own fun k route hk => if_neg fun hpeer => ?_
    rw [dropped_getElem? hg, if_pos hpeer] at hk
    cases hk
  · refine (hforgotten.within hshrinks.raw).congr_own fun k route hk => if_neg fun hpeer => ?_
    obtain ⟨old, hold, -⟩ := hshrinks.raw k route hk
    change ((g.prePolicy.clearFor ⟨0, h⟩).clearFor ⟨1, h⟩)[k]? = some old at hold
    rw [clearFor_clearFor_getElem? hown hg.raw, if_pos hpeer] at hold
    cases hold

end Ingress

/-! ## The router -/

namespace DefaultRouter

variable {r r' : DefaultRouter} {fuel : Nat}

/-- Every session carries its handle, the handles to come are free, and no import hook
moves a route. -/
structure Named (r : DefaultRouter) : Prop where
  ids : ∀ (h : UInt64) (s : Session), r.session h = some s → s.peer.cfg.peerId = h
  fresh : ∀ h : UInt64, r.nextHandle ≤ h → r.session h = none
  hooks : ∀ hook ∈ r.settings.hooks.imports, KeepsPath hook

theorem Named.owners (hn : r.Named) : Ingress.Owners r.own := by
  intro h o ho
  obtain ⟨s, hs, rfl⟩ := map_eq_some_iff.mp ho
  rw [BgpPeer.routeOrigin, hn.ids h s hs, originsOf]
  split <;> simp

theorem own_eq_none {k : UInt64} : r.own k = none ↔ r.session k = none := map_eq_none_iff

/-- The owners say which handles are in use and what they carry. -/
theorem Named.of_owners (hn : r.Named) (ho : SameOwners r r') : r'.Named where
  ids h s hs := by
    have hsame : r.own h = some s.peer.routeOrigin := by
      rw [← ho.own, own, hs, map_some]
    obtain ⟨s₀, hs₀, horigin⟩ := map_eq_some_iff.mp hsame
    have hpeer := congrArg RouteOrigin.peer horigin
    exact hpeer.symm.trans (hn.ids h s₀ hs₀)
  fresh h hle := by
    rw [← own_eq_none, ho.own, own_eq_none]
    exact hn.fresh h (ho.nextHandle ▸ hle)
  hooks := ho.settings ▸ hn.hooks

/-- What an operation does to the sessions' names and to the import side. -/
inductive Accounted (r : DefaultRouter) : RouterOp → DefaultRouter → Prop
  | loses {op : RouterOp} {r' : DefaultRouter} (hl : Loses r r') : Accounted r op r'
  | feeds {r' : DefaultRouter} (h : UInt64) (bytes : Bytes) (evs : List ImportEvent)
      (ho : SameOwners r r') (ht : Ingress.Traces r.ingress evs r'.ingress)
      (hevs : ∀ e ∈ evs, r.Stems h e)
      (hfew : evs.countP ImportEvent.isAnnounced ≤ r.announces h bytes) :
      Accounted r (.feedInput h bytes) r'
  | reimports {r' : DefaultRouter} (h : UInt64) (ho : SameOwners r r')
      (hraw : r.ingress.prePolicy.iterOrigin ⟨0, h⟩ ≠ [])
      (hi : r'.ingress = r.ingress.reimported h (r.softAdmitted h)) :
      Accounted r (.softReconfigInbound h) r'
  | adds {r' : DefaultRouter} (c : SessionConfig) (s : Session)
      (hs : ∀ k, r'.session k = if r.nextHandle = k then some s else r.session k)
      (hid : s.peer.cfg.peerId = r.nextHandle) (hi : r'.ingress = r.ingress)
      (hnext : r'.nextHandle.toNat = r.nextHandle.toNat + 1)
      (hhooks : r'.settings.hooks = r.settings.hooks) : Accounted r (.addSession c) r'
  | drops {r' : DefaultRouter} (h : UInt64)
      (ho : SameOwners (r.without h) r') (hi : r'.ingress = r.ingress.dropped h) :
      Accounted r (.removeSession h) r'
  | configures (change : SettingChange) :
      Accounted r (.configure change) { r with settings := change.apply r.settings }

theorem SameOwners.of_aside (ha : Aside r r') : SameOwners r r' where
  own := by
    funext k
    have hsame := congrArg (Option.map fun s : Session => s.peer.routeOrigin) (ha.sessions k)
    rwa [Option.map_map, Option.map_map] at hsame
  settings := ha.settings
  nextHandle := ha.nextHandle

theorem routeOrigin_apply (change : SessionChange) (s : Session) :
    (change.apply s).peer.routeOrigin = s.peer.routeOrigin := by
  cases change <;> rfl

theorem addSession_accounted {c : SessionConfig} (h : r.addSession c = some r') :
    Accounted r (.addSession c) r' := by
  unfold addSession at h
  simp only at h
  split at h
  · cases h
  rename_i hroom
  cases h
  refine .adds c { peer := .new (c.peerConfig r.nextHandle), options := c.options }
    (fun k => ?_) rfl rfl ?_ rfl
  · exact session_setSession r r.nextHandle k _
  · have hlt := r.nextHandle.toNat_lt
    rw [UInt64.toNat_add]
    exact Nat.mod_eq_of_lt (by simp; omega)

theorem perform_accounted {op : RouterOp} (h : r.perform fuel op = some r') :
    Accounted r op r' := by
  cases op with
  | addSession c => exact addSession_accounted h
  | removeSession k =>
    cases hs : r.session k with
    | none =>
      simp only [perform, removeSession, hs] at h
      cases h
      exact .loses (.of_ingress (.refl r) rfl)
    | some s =>
      have hdrop := removeSession_effect hs h
      exact .drops k (.of_alike (.of_frame hdrop.frame)) hdrop.ingress
  | startSession k => exact .loses (startSession_loses h)
  | closeSession k => exact .loses (closeSession_loses h)
  | shutdownSession k => exact .loses (shutdownSession_loses h)
  | configureSession k change =>
    cases h
    refine .loses ?_
    unfold configureSession
    split
    · exact .of_ingress (.refl r) rfl
    rename_i s hs
    split
    · exact .of_ingress (.refl r) rfl
    · exact .of_ingress (.setSession hs (routeOrigin_apply change s)) rfl
  | feedInput k bytes =>
    obtain ⟨ho, evs, ht, hevs, hfew⟩ := feedInput_stems h
    exact .feeds k bytes evs ho ht hevs hfew
  | tick now => exact .loses (tick_loses h)
  | softReconfigInbound k =>
    by_cases hraw : r.ingress.prePolicy.iterOrigin ⟨0, k⟩ = []
    · simp only [perform, softReconfigInbound, hraw, isEmpty_nil, if_true] at h
      cases h
      exact .loses (.of_ingress (.refl r) rfl)
    · have hsoft := softReconfigInbound_effect h hraw
      exact .reimports k (.of_alike (.of_frame hsoft.frame)) hraw hsoft.ingress
  | configure change =>
    cases h
    exact .configures change
  | _ =>
    have haside := perform_aside rfl h
    exact .loses (.of_ingress (.of_aside haside) haside.ingress)

end DefaultRouter

/-- The change does not bring in an import hook that moves routes. -/
def DefaultRouter.SettingChange.KeepsPaths : DefaultRouter.SettingChange → Prop
  | .hooks chain => ∀ hook ∈ chain.imports, KeepsPath hook
  | _ => True

/-- The operation does not bring in an import hook that moves routes. -/
def RouterOp.KeepsPaths : RouterOp → Prop
  | .configure change => change.KeepsPaths
  | _ => True

namespace DefaultRouter

variable {r r' : DefaultRouter} {fuel : Nat} {route : Route} {e : ImportEvent} {op : RouterOp}
  {stored : Option Route} {h : UInt64} {g : Ingress}

theorem own_without (r : DefaultRouter) (h : UInt64) :
    (r.without h).own = Ingress.disowned r.own h := by
  funext k
  unfold own session without Ingress.disowned
  simp only [lookup_erase]
  by_cases hk : k = h
  · simp [hk]
  · simp [hk, Ne.symm hk]

theorem Accounted.named (ha : Accounted r op r') (hn : r.Named) (hop : op.KeepsPaths) :
    r'.Named := by
  cases ha with
  | loses hl => exact hn.of_owners hl.owners
  | feeds _ _ _ ho | reimports _ ho => exact hn.of_owners ho
  | adds c s hs hid _ hnext hhooks =>
    refine ⟨fun k t ht => ?_, fun k hk => ?_, hhooks ▸ hn.hooks⟩
    · rw [hs] at ht
      split at ht
      · cases ht
        rename_i heq
        rw [hid, heq]
      · exact hn.ids k t ht
    · rw [UInt64.le_iff_toNat_le, hnext] at hk
      rw [hs, if_neg (by rintro rfl; omega)]
      exact hn.fresh k (UInt64.le_iff_toNat_le.mpr (by omega))
  | drops h ho hi =>
    have hwithout : (r.without h).Named := by
      refine ⟨fun k s hs => ?_, fun k hk => ?_, hn.hooks⟩
      · simp only [session, without, lookup_erase] at hs
        split at hs
        · cases hs
        · exact hn.ids k s hs
      · simp only [session, without, lookup_erase]
        split
        · rfl
        · exact hn.fresh k hk
    exact hwithout.of_owners ho
  | configures change =>
    refine ⟨hn.ids, hn.fresh, ?_⟩
    cases change with
    | hooks chain => exact hop
    | _ => exact hn.hooks

theorem Announces.path (hn : r.Named) (ha : r.Announces h route stored) {s : Route}
    (hs : stored = some s) : PathKey.of s = .of route := by
  have hhooks : ∀ hook ∈ (r.importConfig route.origin.peer).hooks.imports, KeepsPath hook := by
    unfold importConfig
    split <;> exact hn.hooks
  obtain ⟨horigin, hkey, hid⟩ :=
    ImportConfig.admitRoute_keepsPath _ hhooks (ha.admitted.symm.trans hs)
  rw [PathKey.of, PathKey.of, horigin, hkey, hid]

theorem Announces.owned (hn : r.Named) (ha : r.Announces h route stored) :
    route.origin.peer = h ∧ r.own route.origin.peer = some route.origin := by
  have hpeer : route.origin.peer = h := by
    have hmem := hn.owners h _ ha.owner
    simp only [originsOf, mem_cons, not_mem_nil, or_false] at hmem
    obtain heq | heq := hmem <;> rw [heq]
  exact ⟨hpeer, hpeer ▸ ha.owner⟩

/-- A raw route that the hooks admit keeps its path. -/
theorem mem_softAdmitted (hn : r.Named) (hr : route ∈ r.softAdmitted h) :
    ∃ raw ∈ r.ingress.prePolicy.iterOrigin ⟨0, h⟩, PathKey.of route = .of raw := by
  obtain ⟨raw, hraw, hadmit⟩ := mem_filterMap.mp hr
  obtain ⟨horigin, hkey, hid⟩ := runHooks_keepsPath hn.hooks hadmit
  refine ⟨raw, hraw, ?_⟩
  rw [PathKey.of, PathKey.of, horigin, hkey, hid]

theorem softAdmitted_owned (hn : r.Named) (hf : r.ingress.Filed r.own)
    (hr : route ∈ r.softAdmitted h) : route.origin = ⟨0, h⟩ ∧ r.own h = some ⟨0, h⟩ := by
  obtain ⟨raw, hraw, hpath⟩ := mem_softAdmitted hn hr
  obtain ⟨hget, horigin⟩ := hf.raw.mem_iterOrigin hraw
  have howner := hf.raw.owner _ raw hget
  simp only [PathKey.of, horigin] at howner
  exact ⟨(congrArg PathKey.origin hpath).trans horigin, howner⟩

theorem shrinks_of_loss (he : e.IsLoss) (g : Ingress) : g.Shrinks (g.after e) := by
  cases e with
  | down h retained => exact g.tornDown_shrinks h retained
  | ended h family => exact g.finished_shrinks h family
  | elapsed h up => exact g.windowElapsed_shrinks up h
  | announced | withdrew | reimported | dropped => exact he.elim

/-- What a session does other than announce takes routes away. -/
theorem shrinks_of_stem (he : r.Stems h e) (hquiet : e.isAnnounced = false) (g : Ingress) :
    g.Shrinks (g.after e) := by
  cases e with
  | announced => cases hquiet
  | withdrew o key pathId => exact g.withdrawn_shrinks o key pathId
  | down k retained => exact g.tornDown_shrinks k retained
  | ended k family => exact g.finished_shrinks k family
  | elapsed | reimported | dropped => exact he.elim

theorem filed_after_stem (hn : r.Named) (he : r.Stems h e) (hg : g.Filed r.own) :
    (g.after e).Filed r.own := by
  cases e with
  | announced route stored keep =>
    exact hg.imported (Announces.owned hn he).2 fun s hs => Announces.path hn he hs
  | _ => exact hg.shrinks (shrinks_of_stem he rfl g)

theorem filed_of_owners {own : UInt64 → Option RouteOrigin} (hg : g.Filed own)
    {own' : UInt64 → Option RouteOrigin} (ho : ∀ k, own k ≠ none → own' k = own k) :
    g.Filed own' := by
  have hused : ∀ {rib : AdjRibIn}, Router.Filed own rib → Router.Filed own' rib := by
    intro rib hrib
    refine hrib.congr_own fun k route hk => ho _ ?_
    rw [hrib.owner k route hk]
    exact some_ne_none _
  exact ⟨hused hg.routes, hused hg.raw⟩

theorem Accounted.filed (ha : Accounted r op r') (hn : r.Named) (hf : r.ingress.Filed r.own) :
    r'.ingress.Filed r'.own := by
  cases ha with
  | loses hl =>
    obtain ⟨evs, ht, hevs⟩ := hl.trace
    rw [hl.owners.own]
    exact ht.invariant (fun _ _ => Ingress.Filed.agrees)
      (fun e he g hg => hg.shrinks (shrinks_of_loss (hevs e he) g)) hf
  | feeds h bytes evs ho ht hevs _ =>
    rw [ho.own]
    exact ht.invariant (fun _ _ => Ingress.Filed.agrees)
      (fun e he _ => filed_after_stem hn (hevs e he)) hf
  | reimports h ho _ hi =>
    rw [ho.own, hi]
    refine hf.reimported fun route hr => ?_
    obtain ⟨horigin, howner⟩ := softAdmitted_owned hn hf hr
    rw [horigin]
    exact howner
  | adds c s hs hid hi _ _ =>
    rw [hi]
    refine filed_of_owners hf fun k hk => ?_
    unfold own at hk ⊢
    rw [hs, if_neg]
    rintro rfl
    rw [hn.fresh _ (UInt64.le_refl _)] at hk
    exact hk rfl
  | drops h ho hi =>
    rw [hi, ho.own, own_without]
    exact hf.dropped hn.owners h
  | configures change => exact hf

theorem named_new : new.Named := by
  have hnone : ∀ h, new.session h = none := fun h => ExtTreeMap.getElem?_empty
  refine ⟨fun h s hs => ?_, fun h _ => hnone h, by simp [new]⟩
  rw [hnone] at hs
  cases hs

/-- Whatever has happened, the sessions carry their handles and the tables are filed, as
long as no import hook moves routes. -/
theorem run_filed {ops : List RouterOp}
    (hops : Along (perform fuel) (fun _ op => op.KeepsPaths) new ops)
    (hrun : exec (perform fuel) new ops = some r) : r.Named ∧ r.ingress.Filed r.own :=
  exec_invariant (P := fun r => r.Named ∧ r.ingress.Filed r.own)
    (fun _ _ _ ht hop hstep =>
      have ha := perform_accounted hstep
      ⟨ha.named ht.1 hop, ha.filed ht.1 ht.2⟩)
    ⟨named_new, .empty _, .empty _⟩ hops hrun

end DefaultRouter

end LibRouting.Router
