/-
  Babel/Feasibility.lean --- what a node says about a source over time.

  The node of RFC 8966 remembers, per source, the best distance it has advertised.
  Here the memory is the feasibility distance of each neighbour's own table: it is per
  target, it is not shared between neighbours, and it goes with the selected route.
  Runs in which none of this matters say ever better distances about every source.
-/
import LibRouting.Babel.Runtime
import LibRouting.Foundation.Run

set_option autoImplicit false

namespace LibRouting.Babel

open Foundation Core BabelRouteTable List

/-! ## The node -/

/-- A distance advertised for a source. -/
structure Claim where
  key : RouteKey
  distance : Distance
  deriving DecidableEq, Repr

/-- What the route says of its source. -/
def BabelRoute.claim (r : BabelRoute) : Claim := ⟨r.key, r.distance⟩

/-- The claims whose routes a delta installs into the Loc-RIB. -/
def BabelRuntime.publishes (rt : BabelRuntime) (d : RuntimeDelta) : List Claim :=
  (rt.routes.bestRoutes.filter fun r => d.installed.contains (rt.ribRoute r)).map (·.claim)

/-- The Babel sessions of a router and everything it has advertised or published, the
latest first. -/
structure Speaker where
  sessions : Sessions
  history : List Claim

/-- What can happen to a node.  A received frame is its TLVs one after the other and the
end of the frame. -/
inductive SpeakerEvent where
  | addSession (h : Handle) (address : IpAddr)
  | removeSession (h : Handle)
  | notePeer (h : Handle) (address : IpAddr)
  | setOwnRouterId (h : Handle) (id : Octets 8)
  | routerId (h : Handle) (id : Octets 8)
  | nextHop (h : Handle) (ae : UInt8) (address : IpAddr)
  | update (h : Handle) (u : Update) (link : Option UInt32) (nowMs : Nat)
  | endFrame (h : Handle)
  | gc (nowMs : Nat)
  | flush (h : Handle)
  | readvertise (exclude : Handle)

namespace Speaker
variable {n n' : Speaker} {h : Handle} {rt : BabelRuntime}

/-- No session. -/
def empty : Speaker := ⟨∅, []⟩

section

variable (n : Speaker)

/-- A step of one session that publishes nothing. -/
def quietly (h : Handle) (f : BabelRuntime → BabelRuntime) : Option Speaker :=
  n.sessions[h]?.map fun rt => { n with sessions := n.sessions.insert h (f rt) }

/-- A step of one session with the delta it publishes. -/
def publishing (h : Handle) (f : BabelRuntime → BabelRuntime × RuntimeDelta) : Option Speaker :=
  n.sessions[h]?.map fun rt =>
    { sessions := n.sessions.insert h (f rt).1
      history := (f rt).1.publishes (f rt).2 ++ n.history }

/-- One event; `none` where it cannot happen. -/
def step : SpeakerEvent → Option Speaker
  | .addSession h address =>
    if n.sessions.contains h then none
    else some { n with sessions := n.sessions.insert h (.new address) }
  | .removeSession h => some { n with sessions := n.sessions.erase h }
  | .notePeer h address => n.quietly h fun rt => { rt with address := address }
  | .setOwnRouterId h id => n.quietly h fun rt => { rt with ownRouterId := some id }
  | .routerId h id => n.quietly h fun rt => { rt with routerId := id }
  | .nextHop h ae address => n.quietly h fun rt =>
    if ae = 1 then { rt with nextHopV4 := some address }
    else { rt with nextHopV6 := some address }
  | .update h u link nowMs => n.quietly h fun rt => rt.applyUpdate u link nowMs
  | .endFrame h => n.publishing h (·.endFrame)
  | .gc nowMs =>
    some
      { sessions := n.sessions.map fun _ rt => (rt.gc nowMs).1
        history := (n.sessions.toList.flatMap fun e =>
          (e.2.gc nowMs).1.publishes (e.2.gc nowMs).2) ++ n.history }
  | .flush h => n.publishing h (·.flush)
  | .readvertise exclude =>
    some { n with history := (babelReachable n.sessions exclude).map (·.claim) ++ n.history }

/-! ## Properties -/

/-- Every claim is at least as good as all the earlier ones for its source. -/
def Monotone (history : List Claim) : Prop :=
  history.Pairwise fun later earlier =>
    later.key = earlier.key → later.distance.AtLeast earlier.distance
  deriving Decidable

/-- Every route in use is at least as good as all that was said about its source. -/
def Usable : Prop :=
  ∀ e ∈ n.sessions.toList, ∀ r ∈ valuesOf e.2.routes.routes, ∀ c ∈ n.history,
    c.key = r.key → r.distance.AtLeast c.distance

/-- A feasibility distance recorded in the table of a session. -/
structure Recorded where
  session : Handle
  target : Target
  distance : Distance
  deriving DecidableEq, Repr

/-- The feasibility distances of all sessions. -/
def recorded : List Recorded :=
  n.sessions.toList.flatMap fun e =>
    e.2.routes.feasible.toList.map fun f => ⟨e.1, f.1, f.2⟩

/-- No table loses the distance of a target. -/
def Keeps (n n' : Speaker) : Prop :=
  ∀ d ∈ n.recorded, ∃ d' ∈ n'.recorded, d'.session = d.session ∧ d'.target = d.target
  deriving Decidable

/-- Every target is learned from one neighbour only. -/
def OneUpstream : Prop :=
  ∀ d ∈ n.recorded, ∀ d' ∈ n.recorded, d.target = d'.target → d.session = d'.session
  deriving Decidable

/-- The sequence numbers accepted for a target stay in half the number circle. -/
def InWindow (base : Target → UInt16) (n : Speaker) : Prop :=
  ∀ d ∈ n.recorded, d.distance.InWindow (base d.target)
  deriving Decidable

/-- A step that forgets no distance, takes no target from a second neighbour and moves no
sequence number out of its window. -/
def Orderly (base : Target → UInt16) (n : Speaker) (e : SpeakerEvent) : Prop :=
  ∀ n' ∈ n.step e, n.Keeps n' ∧ n'.OneUpstream ∧ n'.InWindow base
  deriving Decidable

/-! ## Tables -/

/-- The table of a session; a session that is not there has the empty one. -/
def table (h : Handle) : BabelRouteTable :=
  (n.sessions[h]?.map (·.routes)).getD .new

/-- The claim is the stored route of some session. -/
def Offers (c : Claim) : Prop :=
  ∃ h r, (n.table h).routes[c.key]? = some r ∧ r.distance = c.distance

end

theorem table_of_session (hs : n.sessions[h]? = some rt) : n.table h = rt.routes := by
  simp [table, hs]

theorem table_insert (n : Speaker) (h h' : Handle) (rt : BabelRuntime) (history : List Claim) :
    (Speaker.mk (n.sessions.insert h rt) history).table h' =
      if h = h' then rt.routes else n.table h' := by
  simp only [table, lookup_insert]
  split <;> rfl

theorem session_of_route {k : RouteKey} {r : BabelRoute} (hr : (n.table h).routes[k]? = some r) :
    ∃ rt, n.sessions[h]? = some rt ∧ n.table h = rt.routes := by
  cases hs : n.sessions[h]? with
  | none => simp [table, hs, BabelRouteTable.new] at hr
  | some rt => exact ⟨rt, rfl, table_of_session hs⟩

theorem mem_recorded {d : Recorded} :
    d ∈ n.recorded ↔ (n.table d.session).feasible[d.target]? = some d.distance := by
  obtain ⟨h, g, x⟩ := d
  simp only [recorded, mem_flatMap, mem_map, Prod.exists,
    Std.ExtTreeMap.mem_toList_iff_getElem?_eq_some, Recorded.mk.injEq]
  constructor
  · rintro ⟨_, rt, hs, _, _, hd, rfl, rfl, rfl⟩
    rw [table_of_session hs]
    exact hd
  · intro hd
    cases hs : n.sessions[h]? with
    | none => simp [table, hs, BabelRouteTable.new] at hd
    | some rt =>
      rw [table_of_session hs] at hd
      exact ⟨h, rt, hs, g, x, hd, rfl, rfl, rfl⟩

theorem usable_iff :
    n.Usable ↔ ∀ h k r, (n.table h).routes[k]? = some r → ∀ c ∈ n.history,
      c.key = k → r.distance.AtLeast c.distance := by
  constructor
  · intro hu h k r hr c hc hk
    obtain ⟨rt, hs, ht⟩ := session_of_route hr
    rw [ht] at hr
    refine hu (h, rt) (Std.ExtTreeMap.mem_toList_iff_getElem?_eq_some.mpr hs) r
      (mem_valuesOf.mpr ⟨k, hr⟩) c hc ?_
    rw [hk, rt.routes.keyed k r hr]
  · rintro hu ⟨h, rt⟩ he r hr c hc hk
    obtain ⟨k, hr⟩ := mem_valuesOf.mp hr
    have hs := Std.ExtTreeMap.mem_toList_iff_getElem?_eq_some.mp he
    rw [← table_of_session hs] at hr
    exact hu h k r hr c hc (hk.trans ((n.table h).keyed k r hr))

/-! ## What a step does -/

/-- The tables after a step: each lost routes and distances at most, or one of them
accepted an update. -/
inductive Tables (n n' : Speaker) : Prop where
  | within (h : ∀ s, (n'.table s).Within (n.table s))
  | accept (s : Handle) (route : BabelRoute) (timing : RouteTiming)
      (admits : (n.table s).admits route = true)
      (table : n'.table s = (n.table s).accept route timing)
      (others : ∀ s', s' ≠ s → n'.table s' = n.table s')

/-- What is said in a step is in use after it. -/
def Says (n n' : Speaker) : Prop :=
  ∃ batch, n'.history = batch ++ n.history ∧ ∀ c ∈ batch, n'.Offers c

theorem says_nothing (h : n'.history = n.history) : Says n n' :=
  ⟨[], h, by simp⟩

theorem tables_insert {rt' : BabelRuntime} {history : List Claim} (hs : n.sessions[h]? = some rt)
    (hrt : rt'.routes.Within rt.routes ∨
      ∃ route timing, rt.routes.admits route = true ∧ rt'.routes = rt.routes.accept route timing) :
    Tables n ⟨n.sessions.insert h rt', history⟩ := by
  rw [← table_of_session hs] at hrt
  obtain hwithin | ⟨route, timing, hadmits, htable⟩ := hrt
  · refine .within fun s => ?_
    rw [table_insert]
    split
    case isTrue heq =>
      subst heq
      exact hwithin
    case isFalse => exact .refl _
  · refine .accept h route timing hadmits ?_ fun s hne => ?_
    · rw [table_insert, if_pos rfl, htable]
    · rw [table_insert, if_neg (Ne.symm hne)]

theorem tables_quietly {f : BabelRuntime → BabelRuntime} (hstep : n.quietly h f = some n')
    (hf : ∀ rt, (f rt).routes.Within rt.routes ∨
      ∃ route timing, rt.routes.admits route = true ∧
        (f rt).routes = rt.routes.accept route timing) :
    Tables n n' ∧ Says n n' := by
  obtain ⟨rt, hs, rfl⟩ := Option.map_eq_some_iff.mp hstep
  exact ⟨tables_insert hs (hf rt), says_nothing rfl⟩

theorem route_of_mem_publishes {d : RuntimeDelta} {c : Claim} (h : c ∈ rt.publishes d) :
    ∃ r, rt.routes.routes[c.key]? = some r ∧ r.distance = c.distance := by
  obtain ⟨r, hr, rfl⟩ := mem_map.mp h
  obtain ⟨hr, -⟩ := mem_filter.mp hr
  exact ⟨r, routes_of_mem_bestRoutes hr, rfl⟩

theorem tables_publishing {f : BabelRuntime → BabelRuntime × RuntimeDelta}
    (hstep : n.publishing h f = some n') (hf : ∀ rt, (f rt).1.routes.Within rt.routes) :
    Tables n n' ∧ Says n n' := by
  obtain ⟨rt, hs, rfl⟩ := Option.map_eq_some_iff.mp hstep
  refine ⟨tables_insert hs (.inl (hf rt)), _, rfl, fun c hc => ?_⟩
  obtain ⟨r, hr, hd⟩ := route_of_mem_publishes hc
  refine ⟨h, r, ?_, hd⟩
  rw [table_insert, if_pos rfl]
  exact hr

theorem tables_gc (n : Speaker) (nowMs : Nat) (hstep : n.step (.gc nowMs) = some n') :
    Tables n n' ∧ Says n n' := by
  obtain rfl := Option.some.inj hstep
  constructor
  · refine .within fun s => ?_
    rw [table, table, Std.ExtTreeMap.getElem?_map]
    cases n.sessions[s]? with
    | none => exact .refl _
    | some rt => simpa using within_expire rt.routes nowMs
  · refine ⟨_, rfl, fun c hc => ?_⟩
    obtain ⟨⟨s, rt⟩, he, hc⟩ := mem_flatMap.mp hc
    obtain ⟨r, hr, hd⟩ := route_of_mem_publishes hc
    have hs := Std.ExtTreeMap.mem_toList_iff_getElem?_eq_some.mp he
    refine ⟨s, r, ?_, hd⟩
    rw [table, Std.ExtTreeMap.getElem?_map, hs]
    exact hr

theorem says_readvertise (n : Speaker) (exclude : Handle)
    (hstep : n.step (.readvertise exclude) = some n') : Says n n' := by
  obtain rfl := Option.some.inj hstep
  refine ⟨_, rfl, fun c hc => ?_⟩
  obtain ⟨r, hr, rfl⟩ := mem_map.mp hc
  obtain ⟨s, rt, hs, hbest⟩ := session_of_mem_babelReachable hr
  refine ⟨s, r, ?_, rfl⟩
  rw [table, hs]
  exact routes_of_mem_bestRoutes hbest

theorem step_cases {e : SpeakerEvent} (hstep : n.step e = some n') : Tables n n' ∧ Says n n' := by
  cases e with
  | addSession h address =>
    simp only [step] at hstep
    split at hstep
    case isTrue => cases hstep
    case isFalse =>
      obtain rfl := Option.some.inj hstep
      refine ⟨.within fun s => ?_, says_nothing rfl⟩
      rw [table_insert]
      split
      case isTrue => exact within_new _
      case isFalse => exact .refl _
  | removeSession h =>
    obtain rfl := Option.some.inj hstep
    refine ⟨.within fun s => ?_, says_nothing rfl⟩
    rw [table, lookup_erase]
    split
    case isTrue => exact within_new _
    case isFalse => exact .refl _
  | notePeer h address | setOwnRouterId h id
  | routerId h id => exact tables_quietly hstep fun rt => .inl (.refl _)
  | nextHop h ae address =>
    refine tables_quietly hstep fun rt => .inl ?_
    split
    case isTrue => exact .refl _
    case isFalse => exact .refl _
  | update h u link nowMs =>
    exact tables_quietly hstep fun rt => rt.applyUpdate_cases u link nowMs
  | endFrame h =>
    refine tables_publishing hstep fun rt => ?_
    rw [BabelRuntime.endFrame_routes]
    exact .refl _
  | gc nowMs => exact tables_gc n nowMs hstep
  | flush h =>
    refine tables_publishing hstep fun rt => ?_
    rw [BabelRuntime.flush_routes]
    exact within_new _
  | readvertise exclude =>
    refine ⟨.within fun s => ?_, says_readvertise n exclude hstep⟩
    obtain rfl := Option.some.inj hstep
    exact .refl _

/-! ## The invariant -/

section Invariant

variable (base : Target → UInt16) {n n' : Speaker} {s : Handle} {g : Target} {d : Distance}
  {claims : List Claim} {s' : Handle} {route : BabelRoute} {timing : RouteTiming}
  {batch : List Claim}

/-- A distance of the target recorded in the table of session `s` covers `d`. -/
def CoveredBy (n : Speaker) (s : Handle) (g : Target) (d : Distance) : Prop :=
  d.InWindow (base g) ∧ ∃ f, (n.table s).feasible[g]? = some f ∧ f.AtLeast d

/-- What ties the tables to what was said: recorded distances cover the stored routes and
all the claims. -/
structure Covered (n : Speaker) (said : List Claim) : Prop where
  upstream : n.OneUpstream
  window : n.InWindow base
  routes : ∀ (s : Handle) (k : RouteKey) (r : BabelRoute),
    (n.table s).routes[k]? = some r → n.CoveredBy base s k.target r.distance
  claims : ∀ c ∈ said, ∃ s, n.CoveredBy base s c.key.target c.distance
  usable : ∀ (s : Handle) (k : RouteKey) (r : BabelRoute),
    (n.table s).routes[k]? = some r → ∀ c ∈ said, c.key = k → r.distance.AtLeast c.distance

variable {base}

theorem OneUpstream.eq (h : n.OneUpstream) {d' : Distance} (hd : (n.table s).feasible[g]? = some d)
    (hd' : (n.table s').feasible[g]? = some d') : s = s' :=
  h ⟨s, g, d⟩ (mem_recorded.mpr hd) ⟨s', g, d'⟩ (mem_recorded.mpr hd') rfl

theorem InWindow.get (h : n.InWindow base) (hd : (n.table s).feasible[g]? = some d) :
    d.InWindow (base g) :=
  h ⟨s, g, d⟩ (mem_recorded.mpr hd)

theorem Keeps.get (h : n.Keeps n') (hd : (n.table s).feasible[g]? = some d) :
    ∃ d', (n'.table s).feasible[g]? = some d' := by
  obtain ⟨⟨s', g', d'⟩, hmem, rfl, rfl⟩ := h ⟨s, g, d⟩ (mem_recorded.mpr hd)
  exact ⟨d', mem_recorded.mp hmem⟩

/-- A step loses no recorded distance and only betters it; a route that is stored after it was
stored before or has the distance recorded for its target. -/
structure Advances (n n' : Speaker) : Prop where
  feasible : ∀ {s} {g : Target} {d}, (n.table s).feasible[g]? = some d →
    ∃ d' : Distance, (n'.table s).feasible[g]? = some d' ∧ d'.AtLeast d
  routes : ∀ {s} {k : RouteKey} {r}, (n'.table s).routes[k]? = some r →
    (n.table s).routes[k]? = some r ∨ (n'.table s).feasible[k.target]? = some r.distance

theorem Advances.within (hkeeps : n.Keeps n') (h : ∀ s, (n'.table s).Within (n.table s)) :
    Advances n n' := by
  refine ⟨fun {s g d} hd => ?_, fun {s k r} hr => .inl ((h s).routes k r hr)⟩
  obtain ⟨d', hd'⟩ := hkeeps.get hd
  have heq := (h s).feasible g d' hd'
  rw [hd] at heq
  cases heq
  exact ⟨d, hd', .rfl' d⟩

/-- An accepted update is recorded and beats what was recorded for its target. -/
theorem Advances.accept (hadmits : (n.table s).admits route = true)
    (htable : n'.table s = (n.table s).accept route timing)
    (hothers : ∀ s', s' ≠ s → n'.table s' = n.table s') : Advances n n' := by
  refine ⟨fun {s' g d} hd => ?_, fun {s' k r} hr => ?_⟩
  all_goals
    by_cases hs : s' = s
    case neg => first | exact ⟨d, hothers s' hs ▸ hd, .rfl' d⟩ | exact .inl (hothers s' hs ▸ hr)
    subst hs
  · rw [htable, accept_feasible hadmits]
    split
    case isTrue hg => exact ⟨_, rfl, .inl (admits_iff.mp hadmits d (hg ▸ hd))⟩
    case isFalse => exact ⟨d, hd, .rfl' d⟩
  · rw [htable, accept_routes] at hr
    split at hr
    case isTrue hk =>
      cases hr
      right
      rw [htable, accept_feasible hadmits, if_pos (congrArg _ hk)]
      rfl
    case isFalse => exact .inl hr

theorem CoveredBy.advance (hwindow : n.InWindow base) (hwindow' : n'.InWindow base)
    (hadv : Advances n n') (h : n.CoveredBy base s g d) : n'.CoveredBy base s g d := by
  obtain ⟨hd, f, hf, hle⟩ := h
  obtain ⟨f', hf', hle'⟩ := hadv.feasible hf
  exact ⟨hd, f', hf', .trans (hwindow'.get hf') (hwindow.get hf) hd hle' hle⟩

section

variable (hc : n.Covered base claims)
include hc

theorem Covered.advance (hup : n'.OneUpstream) (hwindow : n'.InWindow base)
    (hadv : Advances n n') : n'.Covered base claims := by
  refine ⟨hup, hwindow, fun s k r hr => ?_, fun c hmem => ?_, fun s k r hr c hmem hk => ?_⟩
  · obtain hold | hnew := hadv.routes hr
    · exact (hc.routes s k r hold).advance hc.window hwindow hadv
    · exact ⟨hwindow.get hnew, _, hnew, .rfl' _⟩
  · exact (hc.claims c hmem).imp fun s h => h.advance hc.window hwindow hadv
  · obtain hold | hnew := hadv.routes hr
    · exact hc.usable s k r hold c hmem hk
    · -- the claim is covered by a distance of the same target, so by this session's
      obtain ⟨s', h⟩ := hc.claims c hmem
      obtain ⟨-, f, hf, hle⟩ := h.advance hc.window hwindow hadv
      rw [hk] at hf
      obtain rfl := hup.eq hf hnew
      obtain rfl := Option.some.inj (hf.symm.trans hnew)
      exact hle

/-- Claims that are in use may be made. -/
theorem Covered.spoken (hbatch : ∀ c ∈ batch, n.Offers c) : n.Covered base (batch ++ claims) := by
  refine ⟨hc.upstream, hc.window, hc.routes, fun c hmem => ?_, fun s k r hr c hmem hk => ?_⟩
  · obtain hb | hold := mem_append.mp hmem
    · obtain ⟨s, r, hr, hd⟩ := hbatch c hb
      rw [← hd]
      exact ⟨s, hc.routes s c.key r hr⟩
    · exact hc.claims c hold
  · obtain hb | hold := mem_append.mp hmem
    · obtain ⟨s', r', hr', hd⟩ := hbatch c hb
      subst hk
      obtain ⟨-, f, hf, -⟩ := hc.routes s c.key r hr
      obtain ⟨-, f', hf', -⟩ := hc.routes s' c.key r' hr'
      obtain rfl := hc.upstream.eq hf hf'
      rw [hr] at hr'
      cases hr'
      rw [hd]
      exact .rfl' _
    · exact hc.usable s k r hr c hold hk

/-- What is in use is at least as good as what was said, so saying it keeps the history
monotone. -/
theorem Covered.monotone_spoken (hbatch : ∀ c ∈ batch, n.Offers c) (hmono : Monotone claims) :
    Monotone (batch ++ claims) := by
  refine pairwise_append.mpr ⟨?_, hmono, fun c hb c' hold hk => ?_⟩
  · refine pairwise_of_forall_mem_list fun c hb c' hb' hk => ?_
    obtain ⟨s, r, hr, hd⟩ := hbatch c hb
    rw [← hd]
    exact (hc.spoken hbatch).usable s c.key r hr c' (mem_append_left _ hb') hk.symm
  · obtain ⟨s, r, hr, hd⟩ := hbatch c hb
    rw [← hd]
    exact hc.usable s c.key r hr c' hold hk.symm

end

theorem covered_step {e : SpeakerEvent} (hn : n.Covered base n.history ∧ Monotone n.history)
    (horderly : n.Orderly base e) (hstep : n.step e = some n') :
    n'.Covered base n'.history ∧ Monotone n'.history := by
  obtain ⟨hkeeps, hup, hwindow⟩ := horderly n' hstep
  obtain ⟨htables, batch, hhistory, hbatch⟩ := step_cases hstep
  have hadv : Advances n n' := by
    cases htables with
    | within h => exact .within hkeeps h
    | accept s route timing hadmits htable hothers => exact .accept hadmits htable hothers
  have hc := hn.1.advance hup hwindow hadv
  rw [hhistory]
  exact ⟨hc.spoken hbatch, hc.monotone_spoken hbatch hn.2⟩

theorem covered_empty : empty.Covered base [] := by
  have hnone : empty.recorded = [] := by simp [recorded, empty]
  refine ⟨by simp [OneUpstream, hnone], by simp [InWindow, hnone], fun s k r hr => ?_, by simp,
    by simp⟩
  simp [table, empty, BabelRouteTable.new] at hr

end Invariant

/-- In every run that forgets no distance, learns each target from one neighbour and keeps
the sequence numbers of each target in half the number circle, what is advertised or
published for a source is at least as good as all that was advertised for it before, and
so is every route in use. -/
theorem advertised_monotone (base : Target → UInt16) {es : List SpeakerEvent} {n : Speaker}
    (hrun : exec step empty es = some n) (horderly : Along step (Orderly base) empty es) :
    Monotone n.history ∧ n.Usable := by
  have hempty : empty.Covered base empty.history ∧ Monotone empty.history :=
    ⟨covered_empty, List.Pairwise.nil⟩
  have hn := exec_invariant (P := fun n => n.Covered base n.history ∧ Monotone n.history)
    (fun _ _ _ => covered_step) hempty horderly hrun
  exact ⟨hn.2, usable_iff.mpr hn.1.usable⟩

/-! ## Runs -/

/-- A neighbour at `10.0.0.h` that announces routes of one originator. -/
def meet (h : Handle) : List SpeakerEvent :=
  [.addSession h (.v4 (.padded 4 [10, 0, 0, h.toUInt8])), .routerId h (.padded 8 [7])]

/-- An update for `10.0.0.0/8`, with interval 4 s. -/
def announce (h : Handle) (seqno metric : UInt16) : SpeakerEvent :=
  .update h ⟨1, 8, 400, seqno, metric, [10], 0, []⟩ (some 96) 0

/-- A retraction of the example prefix. -/
def retract (h : Handle) : SpeakerEvent := announce h 0 Update.retraction

/-- One neighbour improves its claim twice; the claim that is worse is not taken. -/
def improving : List SpeakerEvent :=
  meet 1 ++ [announce 1 5 100, .endFrame 1, .readvertise 2, announce 1 5 90, .endFrame 1,
    announce 1 5 400, .endFrame 1, .readvertise 2, announce 1 6 300, .endFrame 1, .readvertise 2]

/-- The neighbour retracts its route and comes back with a worse one. -/
def retracting : List SpeakerEvent :=
  meet 1 ++ [announce 1 5 100, .readvertise 2, retract 1, announce 1 5 400, .readvertise 2]

/-- Two neighbours announce the same source; each interface hears about the other's. -/
def twoUpstreams : List SpeakerEvent :=
  meet 1 ++ meet 2 ++ [announce 1 5 100, announce 2 5 400, .readvertise 2, .readvertise 1]

/-- The sequence number of a source moves around the circle. -/
def circling : List SpeakerEvent :=
  meet 1 ++ [announce 1 0 100, .readvertise 2, announce 1 0x7000 100, announce 1 0xe000 100,
    .readvertise 2]

/-- What was said in a run about `10.0.0.0/8`, the latest first. -/
def said (es : List SpeakerEvent) : Option (List (UInt16 × UInt32)) :=
  (exec step empty es).map fun n => n.history.map fun c => (c.distance.seqno, c.distance.metric)

theorem advertised_monotone_improving :
    said improving =
        some [(6, 396), (6, 396), (5, 186), (5, 186), (5, 196), (5, 196)] ∧
      ∃ n, exec step empty improving = some n ∧ Monotone n.history ∧ n.Usable := by
  have hsaid : said improving =
      some [(6, 396), (6, 396), (5, 186), (5, 186), (5, 196), (5, 196)] := by decide +kernel
  refine ⟨hsaid, ?_⟩
  obtain ⟨n, hrun, -⟩ := Option.map_eq_some_iff.mp hsaid
  exact ⟨n, hrun, advertised_monotone (fun _ => 5) hrun (by decide +kernel)⟩

/-- The history is not monotone after a retraction, with two neighbours, or once the
sequence numbers have wrapped. -/
theorem advertised_not_monotone :
    (said retracting = some [(5, 496), (5, 196)] ∧
      said twoUpstreams = some [(5, 496), (5, 196)] ∧
      said circling = some [(0xe000, 196), (0, 196)]) ∧
    ∀ es ∈ [retracting, twoUpstreams, circling],
      (exec step empty es).map (fun n => decide (Monotone n.history)) = some false := by
  decide +kernel

end Speaker

end LibRouting.Babel
