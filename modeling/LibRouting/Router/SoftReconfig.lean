/-
  Router/SoftReconfig.lean --- soft reconfiguration against importing the stored raw
  routes of a session once more.
-/
import LibRouting.Router.PrefixBooks

set_option autoImplicit false

namespace LibRouting.Router

open Foundation Core Bgp Policy Rib Option List

/-! ## Filling a table -/

namespace AdjRibIn

/-- Store routes in turn, each under its path. -/
def feedAll (rib : AdjRibIn) (routes : List Route) : AdjRibIn :=
  routes.foldl (fun rib route => rib.feedPrePolicy route.origin route) rib

theorem feedAll_getElem?_of_ne {k : PathKey} :
    ∀ {routes : List Route} {rib : AdjRibIn}, (∀ route ∈ routes, PathKey.of route ≠ k) →
      (feedAll rib routes)[k]? = rib[k]?
  | [], _, _ => rfl
  | route :: routes, rib, h => by
      rw [feedAll, foldl_cons, ← feedAll,
        feedAll_getElem?_of_ne fun r hr => h r (.tail _ hr), AdjRibIn.feedPrePolicy,
        lookup_insert, if_neg]
      exact fun heq => h route (.head _) heq

theorem feedAll_cons (rib : AdjRibIn) (route : Route) (routes : List Route) :
    feedAll rib (route :: routes) = feedAll (rib.feedPrePolicy route.origin route) routes := rfl

theorem feedPrePolicy_getElem? (rib : AdjRibIn) (route : Route) (k : PathKey) :
    (rib.feedPrePolicy route.origin route)[k]? =
      if PathKey.of route = k then some route else rib[k]? :=
  lookup_insert ..

/-- Where the paths differ, a pipeline that keeps paths stores under each path what it makes
of the route with that path. -/
theorem feedAll_filterMap_getElem? {f : Route → Option Route} {raws : List Route}
    (hf : ∀ raw route, f raw = some route → PathKey.of route = .of raw)
    (hnodup : (raws.map PathKey.of).Nodup) (rib : AdjRibIn) {raw : Route} (hraw : raw ∈ raws) :
    (feedAll rib (raws.filterMap f))[PathKey.of raw]? = (f raw).or rib[PathKey.of raw]? := by
  induction raws generalizing rib with
  | nil => cases hraw
  | cons raw₀ raws ih =>
    obtain ⟨hnew, hnodup⟩ := nodup_cons.mp hnodup
    have hother : ∀ route ∈ raws.filterMap f, PathKey.of route ≠ .of raw₀ := by
      intro route hr heq
      obtain ⟨raw₁, hmem, hmade⟩ := mem_filterMap.mp hr
      exact hnew (mem_map.mpr ⟨raw₁, hmem, (hf raw₁ route hmade).symm.trans heq⟩)
    rw [filterMap_cons]
    obtain rfl | hraw := mem_cons.mp hraw
    · cases hmade : f raw with
      | none => rw [feedAll_getElem?_of_ne hother, none_or]
      | some route =>
        simp only
        rw [feedAll_cons, feedAll_getElem?_of_ne hother, feedPrePolicy_getElem?,
          if_pos (hf raw route hmade), some_or]
    · have hne : PathKey.of raw₀ ≠ .of raw :=
        fun heq => hnew (mem_map.mpr ⟨raw, hraw, heq.symm⟩)
      cases hmade : f raw₀ with
      | none => exact ih hnodup rib hraw
      | some route =>
        simp only
        rw [feedAll_cons, ih hnodup _ hraw, feedPrePolicy_getElem?,
          if_neg (hf raw₀ route hmade ▸ hne)]

end AdjRibIn

theorem foldl_importRoute (c : ImportConfig) (now : UInt64) (raws : List Route) (rib : AdjRibIn) :
    raws.foldl (importRoute c now) rib =
      AdjRibIn.feedAll rib (raws.filterMap (c.admitRoute now)) := by
  induction raws generalizing rib with
  | nil => rfl
  | cons raw raws ih =>
    rw [foldl_cons, ih, filterMap_cons, importRoute]
    cases c.admitRoute now raw <;> rfl

/-! ## Importing once more -/

namespace ImportConfig

/-- The gates of `import_route` in front of the hooks. -/
def gatesPass (c : ImportConfig) (route : Route) : Bool :=
  !c.rfc8212Denies && c.safetyAdmits route &&
    !(c.enforceFirstAs && isEbgp route && c.firstAsRejects route)

theorem admit_eq (c : ImportConfig) (now : UInt64) (route : Route) :
    c.admitRoute now route =
      if c.gatesPass route then c.hooks.runImport { route with ageMs := now } else none := by
  unfold admitRoute gatesPass
  cases c.rfc8212Denies <;> cases c.safetyAdmits route <;>
    cases c.enforceFirstAs && isEbgp route && c.firstAsRejects route <;> rfl

end ImportConfig

namespace DefaultRouter

variable (r : DefaultRouter) (fuel : Nat) (h : UInt64)

/-- The raw routes stored for a session. -/
def storedRaw : List Route := (originsOf h).flatMap r.ingress.prePolicy.iterOrigin

/-- The Adj-RIB-In with every stored raw route of a session imported once more and nothing
else of that session. -/
def afresh : AdjRibIn :=
  (r.storedRaw h).foldl (Router.importRoute (r.importConfig h) r.nowMs)
    ((originsOf h).foldl AdjRibIn.clearFor r.ingress.adjRibIn)

/-- The keys of the routes a session held or holds now, in order. -/
def afreshKeys : List RouteKey :=
  let readmitted := (r.storedRaw h).filterMap ((r.importConfig h).admitRoute r.nowMs)
  (((r.ingress.held h ++ readmitted).map Route.key).foldl (fun s k => s.insert k)
    (∅ : Std.ExtTreeSet RouteKey compare)).toList

/-- The router after the decision process has run over the imported routes. -/
def reevaluated : Option DefaultRouter :=
  { r with ingress := { r.ingress with adjRibIn := r.afresh h } }.reselectAll fuel (r.afreshKeys h)

/-- The tables soft reconfiguration is about. -/
def tables : AdjRibIn × LocRib := (r.ingress.adjRibIn, r.rib.locRib)

/-- Every stored raw route that the hooks admit passes the other gates. -/
def GatesAgree : Prop :=
  ∀ raw ∈ r.storedRaw h, (r.settings.hooks.runImport { raw with ageMs := r.nowMs }).isSome →
    (r.importConfig h).gatesPass raw

variable {r fuel h} {r' : DefaultRouter} {g g' : Ingress}

/-- The router with another import side. -/
def withIngress (r : DefaultRouter) (g : Ingress) : DefaultRouter := { r with ingress := g }

theorem onRib_withIngress (hin : g'.adjRibIn = g.adjRibIn)
    (change : Decision → RibState → Option RibState) :
    (r.withIngress g').onRib change = ((r.withIngress g).onRib change).map (·.withIngress g') := by
  have hdecision : (r.withIngress g').decision = (r.withIngress g).decision := by
    unfold decision
    simp only [withIngress, hin]
    rfl
  have hexport : (r.withIngress g').exportContext = (r.withIngress g).exportContext := rfl
  unfold onRib
  rw [hdecision, hexport]
  simp only [show (r.withIngress g').rib = (r.withIngress g).rib from rfl,
    show (r.withIngress g').egress = (r.withIngress g).egress from rfl]
  cases change (r.withIngress g).decision (r.withIngress g).rib with
  | none => rfl
  | some st =>
    simp only [bind_eq_bind, bind_some]
    cases st.exports.foldlM (Egress.perform (r.withIngress g).exportContext)
      (r.withIngress g).egress <;> rfl

theorem reselectAll_withIngress (hin : g'.adjRibIn = g.adjRibIn) (keys : List RouteKey) :
    (r.withIngress g').reselectAll fuel keys =
      ((r.withIngress g).reselectAll fuel keys).map (·.withIngress g') := by
  induction keys generalizing r with
  | nil => rfl
  | cons key keys ih =>
    have hone : (r.withIngress g').reselect fuel key =
        ((r.withIngress g).reselect fuel key).map (·.withIngress g') := onRib_withIngress hin _
    rw [reselectAll, reselectAll, foldlM_cons, foldlM_cons, hone]
    cases hfirst : (r.withIngress g).reselect fuel key with
    | none => rfl
    | some t =>
      have hsame : t = t.withIngress g := by
        have hkept : t.ingress = g := (reselect_frame hfirst).2
        rw [withIngress, ← hkept]
      change (t.withIngress g').reselectAll fuel keys = Option.map _ (t.reselectAll fuel keys)
      rw [ih, ← hsame]

end DefaultRouter

/-! ## Sessions of one origin -/

namespace Filed

variable {own : UInt64 → Option RouteOrigin} {rib : AdjRibIn} {o : RouteOrigin}

theorem iterOrigin_eq_nil (hf : Filed own rib) (ho : own o.peer ≠ some o) :
    rib.iterOrigin o = [] := by
  refine eq_nil_iff_forall_not_mem.mpr fun route hr => ho ?_
  obtain ⟨hget, rfl⟩ := hf.mem_iterOrigin hr
  exact hf.owner _ route hget

theorem clearFor_eq_self (hf : Filed own rib) (ho : own o.peer ≠ some o) :
    rib.clearFor o = rib := by
  refine Std.ExtTreeMap.ext_getElem? fun k => ?_
  have hget := AdjRibIn.get_clearFor rib o k.origin k.key k.pathId
  change (rib.clearFor o)[k]? = if o = k.origin then none else rib[k]? at hget
  rw [hget]
  split
  · rename_i heq
    cases hk : rib[k]? with
    | none => rfl
    | some route =>
      have howner := hf.owner k route hk
      rw [← heq] at howner
      exact absurd howner ho
  · rfl

end Filed

theorem refed_fold_eq_feedAll (h : UInt64) (routes : List Route) (g : Ingress) :
    (routes.foldl (Ingress.refed h) g).adjRibIn = AdjRibIn.feedAll g.adjRibIn routes := by
  induction routes generalizing g with
  | nil => rfl
  | cons route routes ih => exact (ih _).trans rfl

namespace DefaultRouter

variable {r r' : DefaultRouter} {fuel : Nat} {h : UInt64} {o : RouteOrigin} {raw : Route}

theorem importConfig_hooks (r : DefaultRouter) (h : UInt64) :
    (r.importConfig h).hooks = r.settings.hooks := by
  unfold importConfig
  split <;> rfl

/-- Everything of the session is under one origin. -/
structure Under (r : DefaultRouter) (h : UInt64) (o : RouteOrigin) : Prop where
  raw : r.storedRaw h = r.ingress.prePolicy.iterOrigin o
  held : r.ingress.held h = r.ingress.adjRibIn.iterOrigin o
  cleared : (originsOf h).foldl AdjRibIn.clearFor r.ingress.adjRibIn =
    r.ingress.adjRibIn.clearFor o

theorem under_of_own (hf : r.ingress.Filed r.own) (ho : r.own h = some o)
    (hmem : o ∈ originsOf h) : r.Under h o := by
  have hnot (tag : UInt32) (htag : o ≠ ⟨tag, h⟩) :
      r.own (⟨tag, h⟩ : RouteOrigin).peer ≠ some ⟨tag, h⟩ := by
    change r.own h ≠ _
    rw [ho]
    simpa using htag
  simp only [originsOf, mem_cons, not_mem_nil, or_false] at hmem
  obtain rfl | rfl := hmem
  · have hnot := hnot 1 (by simp)
    have hkept := hf.routes.within (.clearFor r.ingress.adjRibIn ⟨0, h⟩)
    refine ⟨?_, ?_, hkept.clearFor_eq_self hnot⟩
    · simp [storedRaw, originsOf, hf.raw.iterOrigin_eq_nil hnot]
    · simp [Ingress.held, originsOf, hf.routes.iterOrigin_eq_nil hnot]
  · have hnot := hnot 0 (by simp)
    refine ⟨?_, ?_, ?_⟩
    · simp [storedRaw, originsOf, hf.raw.iterOrigin_eq_nil hnot]
    · simp [Ingress.held, originsOf, hf.routes.iterOrigin_eq_nil hnot]
    · simp [originsOf, hf.routes.clearFor_eq_self hnot]

/-- The hooks make of a stored raw route what `import_route` makes of it. -/
theorem readmitted_eq (hraw : ∀ raw ∈ r.storedRaw h,
      r.settings.hooks.runImport { raw with ageMs := r.nowMs } =
        (r.importConfig h).admitRoute r.nowMs raw) (hext : r.Under h ⟨0, h⟩) :
    (r.storedRaw h).filterMap ((r.importConfig h).admitRoute r.nowMs) = r.softAdmitted h := by
  rw [softAdmitted, ← hext.raw]
  exact filterMap_congr fun raw hmem => (hraw raw hmem).symm

theorem gatesAgree_iff : r.GatesAgree h ↔ ∀ raw ∈ r.storedRaw h,
    r.settings.hooks.runImport { raw with ageMs := r.nowMs } =
      (r.importConfig h).admitRoute r.nowMs raw := by
  refine forall₂_congr fun raw _ => ?_
  rw [ImportConfig.admit_eq, importConfig_hooks]
  cases (r.importConfig h).gatesPass raw <;>
    cases r.settings.hooks.runImport { raw with ageMs := r.nowMs } <;> simp

theorem afresh_eq (hu : r.Under h o) :
    r.afresh h = AdjRibIn.feedAll (r.ingress.adjRibIn.clearFor o)
      ((r.storedRaw h).filterMap ((r.importConfig h).admitRoute r.nowMs)) := by
  rw [afresh, foldl_importRoute, hu.cleared]

theorem softReimport_adjRibIn (r : DefaultRouter) (h : UInt64) :
    (r.softReimport h).adjRibIn =
      AdjRibIn.feedAll (r.ingress.adjRibIn.clearFor ⟨0, h⟩) (r.softAdmitted h) :=
  refed_fold_eq_feedAll h (r.softAdmitted h) _

/-- When the gates agree, soft reconfiguration returns what importing once more returns, and
returns when it returns. -/
theorem softReconfigInbound_eq (hext : r.Under h ⟨0, h⟩) (hagree : r.GatesAgree h)
    (hraw : r.storedRaw h ≠ []) :
    (r.softReconfigInbound fuel h).map tables = (r.reevaluated fuel h).map tables := by
  have hsame := readmitted_eq (gatesAgree_iff.mp hagree) hext
  have hin : (r.softReimport h).adjRibIn = r.afresh h := by
    rw [softReimport_adjRibIn, afresh_eq hext, hsame]
  have hkeys : r.softKeys h = r.afreshKeys h := by
    rw [softKeys, afreshKeys, hsame, hext.held, map_append]
  have hstored : r.ingress.prePolicy.iterOrigin ⟨0, h⟩ ≠ [] := hext.raw ▸ hraw
  unfold softReconfigInbound
  rw [if_neg (by simpa using hstored), hkeys]
  change (((r.withIngress (r.softReimport h)).reselectAll fuel (r.afreshKeys h)).bind _).map _ =
    ((r.withIngress { r.ingress with adjRibIn := r.afresh h }).reselectAll fuel
      (r.afreshKeys h)).map _
  rw [reselectAll_withIngress (g := { r.ingress with adjRibIn := r.afresh h }) hin]
  cases hsel : (r.withIngress { r.ingress with adjRibIn := r.afresh h }).reselectAll fuel
      (r.afreshKeys h) with
  | none => rfl
  | some t =>
    have hkept : t.ingress.adjRibIn = r.afresh h := by
      rw [(reselectAll_frame hsel).2]
      rfl
    simp only [map_some, bind_some, tables]
    congr 1
    exact Prod.ext (hin.trans hkept.symm) rfl

/-- A pipeline that keeps paths, run over the stored raw routes, leaves under the path of
each what it makes of it. -/
theorem refilled_getElem? (hf : r.ingress.Filed r.own) (hu : r.Under h o) {f : Route → Option Route}
    (hkeeps : ∀ raw route, f raw = some route → PathKey.of route = .of raw)
    (hraw : raw ∈ r.storedRaw h) :
    (AdjRibIn.feedAll (r.ingress.adjRibIn.clearFor o)
      ((r.storedRaw h).filterMap f))[PathKey.of raw]? =
      f raw := by
  have hnodup : ((r.storedRaw h).map PathKey.of).Nodup := by
    rw [hu.raw]
    exact Ingress.nodup_iterOrigin hf.raw _
  have hempty : (r.ingress.adjRibIn.clearFor o)[PathKey.of raw]? = none := by
    have hget := AdjRibIn.get_clearFor r.ingress.adjRibIn o raw.origin raw.key raw.pathId
    rwa [if_pos (hf.raw.mem_iterOrigin (hu.raw ▸ hraw)).2.symm] at hget
  rw [AdjRibIn.feedAll_filterMap_getElem? hkeeps hnodup _ hraw, hempty, or_none]

theorem runImport_path (hn : r.Named) (raw route : Route)
    (hmade : r.settings.hooks.runImport { raw with ageMs := r.nowMs } = some route) :
    PathKey.of route = .of raw := by
  obtain ⟨horigin, hkey, hid⟩ := runHooks_keepsPath hn.hooks hmade
  rw [PathKey.of, PathKey.of, horigin, hkey, hid]

theorem admitRoute_path (hn : r.Named) (raw route : Route)
    (hmade : (r.importConfig h).admitRoute r.nowMs raw = some route) :
    PathKey.of route = .of raw := by
  rw [ImportConfig.admit_eq, importConfig_hooks] at hmade
  split at hmade
  · exact runImport_path hn raw route hmade
  · cases hmade

/-- Importing once more leaves under the path of a raw route what it makes of it. -/
theorem afresh_stored (hn : r.Named) (hf : r.ingress.Filed r.own) (hu : r.Under h o)
    (hraw : raw ∈ r.storedRaw h) :
    (r.afresh h)[PathKey.of raw]? = (r.importConfig h).admitRoute r.nowMs raw := by
  rw [afresh_eq hu]
  exact refilled_getElem? hf hu (admitRoute_path hn) hraw

/-- If the tables agree, so do the pipelines on every stored raw route. -/
theorem gatesAgree_of_eq (hn : r.Named) (hf : r.ingress.Filed r.own) (hext : r.Under h ⟨0, h⟩)
    (heq : (r.softReimport h).adjRibIn = r.afresh h) : r.GatesAgree h := by
  rw [gatesAgree_iff]
  intro raw hraw
  rw [← refilled_getElem? hf hext (runImport_path hn) hraw, ← afresh_stored hn hf hext hraw, ← heq,
    softReimport_adjRibIn, softAdmitted, hext.raw]

/-- The session holds what importing its raw routes once more makes of them, and nothing
else. -/
def HoldsAfresh (r : DefaultRouter) (h : UInt64) : Prop :=
  (∀ raw ∈ r.storedRaw h,
    r.ingress.adjRibIn[PathKey.of raw]? = (r.importConfig h).admitRoute r.nowMs raw) ∧
  ∀ route ∈ r.ingress.held h, ∃ raw ∈ r.storedRaw h, PathKey.of raw = .of route

theorem afresh_eq_iff (hn : r.Named) (hf : r.ingress.Filed r.own) (hu : r.Under h o) :
    r.ingress.adjRibIn = r.afresh h ↔ r.HoldsAfresh h := by
  -- a path of no raw route is empty, or of another session
  have hother {k : PathKey} (hk : ∀ raw ∈ r.storedRaw h, PathKey.of raw ≠ k) :
      (r.afresh h)[k]? = if o = k.origin then none else r.ingress.adjRibIn[k]? := by
    rw [afresh_eq hu, AdjRibIn.feedAll_getElem?_of_ne]
    · exact AdjRibIn.get_clearFor r.ingress.adjRibIn o k.origin k.key k.pathId
    · intro route hr
      obtain ⟨raw, hraw, hmade⟩ := mem_filterMap.mp hr
      exact admitRoute_path hn raw route hmade ▸ hk raw hraw
  constructor
  · intro heq
    refine ⟨fun raw hraw => heq ▸ afresh_stored hn hf hu hraw, fun route hr => ?_⟩
    obtain ⟨hget, horigin⟩ := hf.routes.mem_iterOrigin (hu.held ▸ hr)
    by_contra hnone
    push Not at hnone
    rw [heq, hother hnone] at hget
    simp [PathKey.of, horigin] at hget
  · rintro ⟨hstored, hheld⟩
    refine Std.ExtTreeMap.ext_getElem? fun k => ?_
    by_cases hk : ∃ raw ∈ r.storedRaw h, PathKey.of raw = k
    · obtain ⟨raw, hraw, rfl⟩ := hk
      rw [hstored raw hraw, afresh_stored hn hf hu hraw]
    · push Not at hk
      rw [hother hk, eq_comm, ite_eq_right_iff]
      rintro rfl
      by_contra hsome
      obtain ⟨route, hroute⟩ := Option.ne_none_iff_exists'.mp (Ne.symm hsome)
      obtain rfl := hf.routes.place k route hroute
      obtain ⟨raw, hraw, heq⟩ := hheld route (hu.held ▸ AdjRibIn.mem_iterOrigin.mpr ⟨_, _, hroute⟩)
      exact hk raw hraw heq

/-- The session is external and the gates agree on its raw routes; or it is internal, holds
what importing them once more makes of them, and the decision process leaves the Loc-RIB as
it is. -/
def SoftSuffices (r : DefaultRouter) (fuel : Nat) (h : UInt64) : Prop :=
  (r.own h = some ⟨0, h⟩ ∧ r.GatesAgree h) ∨
    (r.own h = some ⟨1, h⟩ ∧ r.HoldsAfresh h ∧
      (r.reselectAll fuel (r.afreshKeys h)).map (fun t => t.rib.locRib) = some r.rib.locRib)

/-- After every history, on a session with stored raw routes: soft reconfiguration leaves the
Adj-RIB-In and the Loc-RIB that importing every raw route once more and selecting over the
result leaves, exactly when it suffices to run the hooks.  On an external session whose gates
agree the two return together. -/
theorem softReconfig_reimports_iff {fuel₀ : Nat} {ops : List RouterOp}
    (hops : Along (perform fuel₀) (fun _ op => op.KeepsPaths) new ops)
    (hrun : exec (perform fuel₀) new ops = some r) (hraw : r.storedRaw h ≠ []) :
    (r.own h = some ⟨0, h⟩ → r.GatesAgree h →
      (r.softReconfigInbound fuel h).map tables = (r.reevaluated fuel h).map tables) ∧
    ∀ r', r.softReconfigInbound fuel h = some r' →
      (r'.ingress.adjRibIn = r.afresh h ∧
        (r.reevaluated fuel h).map (fun t => t.rib.locRib) = some r'.rib.locRib ↔
          r.SoftSuffices fuel h) := by
  obtain ⟨hn, hf⟩ := run_filed hops hrun
  have hunder (o : RouteOrigin) (ho : r.own h = some o) (hmem : o ∈ originsOf h) : r.Under h o :=
    under_of_own hf ho hmem
  refine ⟨fun ho hagree => softReconfigInbound_eq (hunder _ ho (.head _)) hagree hraw, ?_⟩
  intro r' hsoft
  -- the raw routes are filed under the origin of their session
  obtain ⟨raw, hmem⟩ := exists_mem_of_ne_nil _ hraw
  obtain ⟨o, ho, hmem⟩ := mem_flatMap.mp hmem
  obtain ⟨hget, horigin⟩ := hf.raw.mem_iterOrigin hmem
  have howner := hf.raw.owner _ raw hget
  simp only [PathKey.of, horigin] at howner
  simp only [originsOf, mem_cons, not_mem_nil, or_false] at ho
  obtain rfl | rfl := ho
  · have hext := hunder _ howner (.head _)
    have hin := (softReconfigInbound_effect hsoft (hext.raw ▸ hraw)).ingress
    constructor
    · rintro ⟨heq, -⟩
      refine .inl ⟨howner, gatesAgree_of_eq hn hf hext ?_⟩
      rw [← heq, hin]
      rfl
    · rintro (⟨-, hagree⟩ | ⟨hother, -⟩)
      · have htables : (r.softReconfigInbound fuel h).map tables = _ :=
          softReconfigInbound_eq hext hagree hraw
        rw [hsoft, map_some] at htables
        obtain ⟨t, ht, hsame⟩ := map_eq_some_iff.mp htables.symm
        obtain ⟨hin, hrib⟩ := Prod.mk.inj hsame
        rw [← hin, ← hrib, ht, (reselectAll_frame ht).2]
        exact ⟨rfl, rfl⟩
      · rw [howner] at hother
        simp at hother
  · -- nothing is stored under the external origin, so the call returns at once
    have hnone : r.ingress.prePolicy.iterOrigin ⟨0, h⟩ = [] := by
      refine hf.raw.iterOrigin_eq_nil ?_
      change r.own h ≠ _
      rw [howner]
      simp
    rw [softReconfigInbound, hnone, isEmpty_nil, if_pos rfl] at hsoft
    cases hsoft
    have hsuffices : r.SoftSuffices fuel h ↔ r.HoldsAfresh h ∧
        (r.reselectAll fuel (r.afreshKeys h)).map (fun t => t.rib.locRib) = some r.rib.locRib := by
      simp [SoftSuffices, howner]
    rw [hsuffices, ← afresh_eq_iff hn hf (hunder _ howner (.tail _ (.head _)))]
    refine and_congr_right fun heq => ?_
    rw [reevaluated, ← heq]

/-- A session that keeps the routes it receives as they are. -/
def recordingSession (peerAs : Asn) : SessionConfig where
  localAs := 65001
  peerAs := peerAs
  localBgpId := 1
  options := { softReconfigInbound := true }

/-- The session comes up and its neighbour announces 198.51.100.0/24. -/
def recordingRun (peerAs : Asn) (path : List Asn) : List RouterOp :=
  [.addSession (recordingSession peerAs), .startSession 1,
    .feedInput 1 (greeting ((recordingSession peerAs).neighbour 2)),
    .feedInput 1 (updateFrame (announcement path [⟨0, .newV4 (.padded 4 [198, 51, 100]) 24⟩]))]

/-- The router after the run. -/
def recordingRouter : DefaultRouter :=
  (exec (perform 8) new (recordingRun 65002 [65002])).getD new

/-- An external session whose raw route passes the gates. -/
theorem softReconfig_reimports_external :
    ∃ r', recordingRouter.softReconfigInbound 8 1 = some r' ∧
      r'.ingress.adjRibIn = recordingRouter.afresh 1 ∧
      (recordingRouter.reevaluated 8 1).map (fun t => t.rib.locRib) = some r'.rib.locRib := by
  have hrun : exec (perform 8) new (recordingRun 65002 [65002]) = some recordingRouter :=
    (getD_of_ne_none (by decide +kernel) new).symm
  have hops : Along (perform 8) (fun _ op => op.KeepsPaths) new (recordingRun 65002 [65002]) :=
    .of_forall fun op hop _ => by
      simp only [recordingRun, mem_cons, not_mem_nil, or_false] at hop
      obtain rfl | rfl | rfl | rfl := hop <;> trivial
  have hsoft : (recordingRouter.softReconfigInbound 8 1).isSome = true := by decide +kernel
  obtain ⟨r', hr'⟩ := isSome_iff_exists.mp hsoft
  have hagree : recordingRouter.GatesAgree 1 := by
    unfold GatesAgree
    decide +kernel
  have hraw : recordingRouter.storedRaw 1 ≠ [] := by decide +kernel
  exact ⟨r', hr', ((softReconfig_reimports_iff hops hrun hraw).2 r' hr').mpr
    (.inl ⟨by decide +kernel, hagree⟩)⟩

/-- RFC 8212 rejects the route of an external session without an import policy, and soft
reconfiguration brings it in.  A new hook drops the route of an internal session, and soft
reconfiguration leaves it in. -/
theorem softReconfig_differs :
    (exec (perform 8) new (.configure (.ebgpRequiresPolicy true) :: recordingRun 65002 [65002])).map
        (fun r => ((r.softReconfigInbound 8 1).map (fun r' => r'.ingress.adjRibIn.size),
          (r.storedRaw 1).length, (r.afresh 1).size)) = some (some 1, 1, 0) ∧
    (exec (perform 8) new (recordingRun 65001 [65003] ++
        [.configure (.hooks ⟨[fun route => (route, .drop)], []⟩)])).map
        (fun r => ((r.softReconfigInbound 8 1).map (fun r' => r'.ingress.adjRibIn.size),
          (r.storedRaw 1).length, (r.afresh 1).size)) = some (some 1, 1, 0) := by
  constructor <;> decide +kernel

end DefaultRouter

end LibRouting.Router
