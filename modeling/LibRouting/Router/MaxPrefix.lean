/-
  Router/MaxPrefix.lean --- max-prefix accounting over whole runs of the router, and the
  limit it enforces.
-/
import LibRouting.Router.PrefixBooks

set_option autoImplicit false

namespace LibRouting.Router

open Foundation Core Bgp Policy Rib Ingress Option

/-- The limit of the session has been found exceeded. -/
def Ingress.tripped (g : Ingress) (h : UInt64) : Bool :=
  (g.maxPrefix[h]?).any MaxPrefixState.exceeded

theorem Ingress.tripped_reimported (g : Ingress) (h : UInt64) (admitted : List Route) :
    (g.reimported h admitted).tripped h = g.tripped h := by
  unfold tripped reimported recount
  simp only
  rw [lookup_modify, refed_fold_maxPrefix]
  cases hm : g.maxPrefix[h]? <;> simp

/-! ## The accounts -/

namespace DefaultRouter

variable {r r' : DefaultRouter} {fuel : Nat} {op : RouterOp} {g : Ingress} {h : UInt64}
  {s : Session} {limit : UInt32} {own : UInt64 → Option RouteOrigin} {e : ImportEvent}
  {route : Route}

/-- The session may hold so many routes: it has no limit, or a higher one, or its limit has
tripped already. -/
def mayHold (r : DefaultRouter) (h : UInt64) (n : Nat) : Bool :=
  ((r.session h).bind fun s => s.options.maximumPrefix).all fun limit =>
    n ≤ limit.toNat || r.ingress.tripped h

/-- An operation that the accounts can follow: the counters do not overflow, import hooks do
not move routes, and soft reconfiguration finds an account, or brings nothing in, and does
not go beyond the limit. -/
def Accountable (r : DefaultRouter) : RouterOp → Prop
  | .feedInput h bytes => r.ingress.entries h + r.announces h bytes < 2 ^ 32
  | .softReconfigInbound h =>
    ((r.ingress.maxPrefix[h]?).isSome ∨ r.softAdmitted h = []) ∧
      (r.softAdmitted h).length < 2 ^ 32 ∧
      r.mayHold h (r.softAdmitted h).length
  | .configure change => change.KeepsPaths
  | _ => True

theorem Accountable.keepsPaths (h : r.Accountable op) : op.KeepsPaths := by
  cases op with
  | configure change => exact h
  | _ => trivial

/-- The sessions carry their handles and the books are right. -/
structure Audited (r : DefaultRouter) : Prop where
  named : r.Named
  booked : r.ingress.Booked r.own

theorem audited_new : new.Audited := ⟨named_new, ⟨.empty _, .empty _⟩, fun _ => rfl⟩

theorem booked_after_loss (hown : Owners own) (he : e.IsLoss) (hg : g.Booked own) :
    (g.after e).Booked own := by
  cases e with
  | down h retained => exact hg.tornDown hown h retained
  | ended h family => exact hg.finished h family
  | elapsed h up => exact hg.windowElapsed hown up h
  | announced | withdrew | reimported | dropped => exact he.elim

/-- A feed is booked as long as there is room for what it announces. -/
theorem booked_after_stem (hn : r.Named) (he : r.Stems h e) {n : Nat}
    (hg : g.Booked r.own ∧ g.entries h + ((if e.isAnnounced then 1 else 0) + n) < 2 ^ 32) :
    (g.after e).Booked r.own ∧ (g.after e).entries h + n < 2 ^ 32 := by
  obtain ⟨hg, hroom⟩ := hg
  have hfewer {g' : Ingress} (hg' : g'.Booked r.own) (hs : g.Shrinks g') :
      g'.Booked r.own ∧ g'.entries h + n < 2 ^ 32 := by
    have hless := entries_shrinks hs h
    exact ⟨hg', by omega⟩
  cases e with
  | announced route stored keep =>
    obtain ⟨hpeer, howner⟩ := Announces.owned hn he
    have hmore := g.entries_imported route stored keep h
    simp only [ImportEvent.isAnnounced, if_true] at hroom
    refine ⟨hg.imported howner (fun s hs => Announces.path hn he hs) ?_, ?_⟩
    · rw [hpeer]
      omega
    · change (g.imported route stored keep).entries h + n < 2 ^ 32
      omega
  | withdrew o key pathId =>
    exact hfewer (hg.withdrawn o key pathId) (g.withdrawn_shrinks o key pathId)
  | down k retained =>
    exact hfewer (hg.tornDown hn.owners k retained) (g.tornDown_shrinks k retained)
  | ended k family => exact hfewer (hg.finished k family) (g.finished_shrinks k family)
  | elapsed | reimported | dropped => exact he.elim

/-- Every operation that the accounts can follow leaves them right. -/
theorem Accounted.audited (ha : Accounted r op r') (haudit : r.Audited) (hop : r.Accountable op) :
    r'.Audited := by
  obtain ⟨hn, hg⟩ := haudit
  refine ⟨ha.named hn hop.keepsPaths, ?_⟩
  cases ha with
  | loses hl =>
    obtain ⟨evs, ht, hevs⟩ := hl.trace
    rw [hl.owners.own]
    exact ht.invariant (fun _ _ => Booked.agrees)
      (fun e he _ => booked_after_loss hn.owners (hevs e he)) hg
  | feeds h bytes evs ho ht hevs hfew =>
    rw [ho.own]
    have hroom : r.ingress.entries h + (evs.countP ImportEvent.isAnnounced + 0) < 2 ^ 32 := by
      have hall : r.ingress.entries h + r.announces h bytes < 2 ^ 32 := hop
      omega
    exact (ht.countdown (P := fun n g => g.Booked r.own ∧ g.entries h + n < 2 ^ 32)
      (fun n g g' hg hagree => ⟨hg.1.agrees hagree,
        entries_of_adjRibIn hagree.adjRibIn h ▸ hg.2⟩)
      (fun e he n g => booked_after_stem hn (hevs e he)) ⟨hg, hroom⟩).1
  | reimports h ho hraw hi =>
    rw [ho.own, hi]
    exact hg.reimported (hg.filed.raw_owner hraw)
      (fun route hr => (softAdmitted_owned hn hg.filed hr).1) hop.1
      hop.2.1
  | adds c s hs hid hi hnext hhooks =>
    have hfiled := (Accounted.adds c s hs hid hi hnext hhooks).filed hn hg.filed
    rw [hi] at hfiled ⊢
    exact ⟨hfiled, hg.balanced⟩
  | drops h ho hi =>
    rw [hi, ho.own, own_without]
    exact hg.dropped hn.owners h
  | configures change => exact hg

/-! ## The limit -/

theorem checkMaxPrefix_tripped {st : MaxPrefixState} (hs : r.session h = some s)
    (hlimit : s.options.maximumPrefix = some limit) (hst : r.ingress.maxPrefix[h]? = some st)
    (hc : r.checkMaxPrefix h = some r') :
    r'.ingress.tripped h = (st.exceeded || decide (limit < st.count)) := by
  unfold checkMaxPrefix at hc
  simp only [hs, hst, hlimit] at hc
  have hrecord : r'.ingress.maxPrefix =
      r.ingress.maxPrefix.insert h (st.checked s.options limit r.nowMs) := by
    split at hc
    · obtain ⟨t, ht, rfl⟩ := map_eq_some_iff.mp hc
      rw [flushPeerOutput_ingress, (cease_effect ht).ingress]
    · cases hc
      rfl
  rw [tripped, hrecord, Std.ExtTreeMap.getElem?_insert_self, any_some]
  simp only [MaxPrefixState.checked, MaxPrefixState.trips]
  cases st.exceeded <;> simp

/-- A stored route leaves an account of its session, with the latch as it was. -/
theorem store_account (hbooked : (g.store route).Booked own) :
    ∃ st, (g.store route).maxPrefix[route.origin.peer]? = some st ∧
      st.exceeded = g.tripped route.origin.peer ∧
      st.count.toNat = (g.store route).entries route.origin.peer := by
  have hhere : (g.store route).adjRibIn[PathKey.of route]? = some route :=
    Std.ExtTreeMap.getElem?_insert_self
  have hpos : (g.store route).entries route.origin.peer ≠ 0 := by
    intro hzero
    have hfalse := entries_eq_zero.mp hzero _ route hhere
    simp [PathKey.of] at hfalse
  have hbal := hbooked.balanced route.origin.peer
  cases hst : (g.store route).maxPrefix[route.origin.peer]? with
  | none =>
    rw [counter, hst] at hbal
    exact absurd hbal.symm hpos
  | some st =>
    rw [counter, hst] at hbal
    refine ⟨st, rfl, ?_, hbal⟩
    unfold Ingress.store at hst
    simp only at hst
    unfold tripped
    split at hst
    · rw [hst]
      rfl
    · rw [Std.ExtTreeMap.getElem?_insert_self] at hst
      cases hst
      cases g.maxPrefix[route.origin.peer]? <;> rfl

/-- The limit trips on the first stored route beyond it. -/
theorem importRoute_tripped (haudit : r.Audited) (hs : r.session h = some s)
    (hlimit : s.options.maximumPrefix = some limit) (horigin : route.origin = s.peer.routeOrigin)
    (hroom : r.ingress.entries h + 1 < 2 ^ 32) (hi : r.importRoute fuel route = some r') :
    r'.ingress.tripped h = (r.ingress.tripped h ||
      (((r.importConfig h).admitRoute r.nowMs route).isSome &&
        decide (limit.toNat < r'.ingress.entries h))) := by
  obtain ⟨hn, hg⟩ := haudit
  have howner : r.own h = some route.origin := by
    rw [own, hs, map_some, horigin]
  have hpeer : route.origin.peer = h := by
    rw [horigin]
    exact hn.ids h s hs
  have hann : r.Announces h route ((r.importConfig route.origin.peer).admitRoute r.nowMs route) :=
    ⟨howner, rfl⟩
  subst hpeer
  obtain ⟨g, hagree, himported⟩ := importRoute_effect hi
  have hbooked : (r.ingress.imported route
      ((r.importConfig route.origin.peer).admitRoute r.nowMs route)
      (r.keepsRaw route.origin.peer)).Booked r.own :=
    hg.imported (Announces.owned hn hann).2 (fun s hs => Announces.path hn hann hs) hroom
  unfold importRoute at hi
  simp only at hi
  cases hadm : (r.importConfig route.origin.peer).admitRoute r.nowMs route with
  | none =>
    have hsame : r'.ingress = r.ingress.retainRaw (r.keepsRaw route.origin.peer) route := by
      split at hi
      · cases hi
        rfl
      · rw [hadm] at hi
        cases hi
        rfl
    rw [hsame, tripped, retainRaw_maxPrefix, isSome_none, Bool.false_and,
      Bool.or_false]
    rfl
  | some stored =>
    have hpass : (r.importConfig route.origin.peer).rfc8212Denies = false := by
      by_contra hdeny
      rw [ImportConfig.admitRoute, if_pos (by simpa using hdeny)] at hadm
      cases hadm
    simp only [hpass, Bool.false_eq_true, if_false, hadm] at hi
    obtain ⟨t, ht, hi⟩ := bind_eq_some_iff.mp hi
    obtain ⟨hframe, hin⟩ := reselect_frame ht
    have hstored : stored.origin = route.origin :=
      congrArg PathKey.origin (Announces.path hn hann hadm)
    rw [hstored] at hi hin
    rw [hadm] at hagree hbooked
    simp only [Ingress.imported, hstored] at hagree hbooked
    have hsession : t.egress.sessions[route.origin.peer]?.map Session.still = some s.still := by
      have hsame := hframe.sessions route.origin.peer
      rw [show r.egress.sessions[route.origin.peer]? = some s from hs] at hsame
      exact hsame
    obtain ⟨s', hs', hstill⟩ := map_eq_some_iff.mp hsession
    have hoptions : s'.options = s.options := by
      have hsame := congrArg Session.options hstill
      exact hsame
    obtain ⟨st, hst, hlatch, hcount⟩ := store_account hbooked
    rw [hstored] at hst hlatch hcount
    have hrecord : t.ingress.maxPrefix[route.origin.peer]? = some st := by
      rw [hin]
      exact hst
    rw [checkMaxPrefix_tripped hs' (hoptions ▸ hlimit) hrecord hi, hlatch,
      himported.ingress, entries_of_adjRibIn hagree.adjRibIn, ← hcount,
      isSome_some, Bool.true_and]
    congr 1
    rw [tripped, tripped]
    exact congrArg (fun m : Std.ExtTreeMap UInt64 MaxPrefixState compare =>
      (m[route.origin.peer]?).any MaxPrefixState.exceeded) (retainRaw_maxPrefix _ _ _)

/-- Soft reconfiguration does not check the limit. -/
theorem softReconfigInbound_tripped (haudit : r.Audited) (hs : r.session h = some s)
    (hlimit : s.options.maximumPrefix = some limit)
    (hraw : r.ingress.prePolicy.iterOrigin ⟨0, h⟩ ≠ [])
    (hmay : r.mayHold h (r.softAdmitted h).length)
    (hsoft : r.softReconfigInbound fuel h = some r') :
    r'.ingress.tripped h =
      (r.ingress.tripped h || decide (limit.toNat < r'.ingress.entries h)) := by
  obtain ⟨hn, hg⟩ := haudit
  have howner := hg.filed.raw_owner hraw
  have hin := (softReconfigInbound_effect hsoft hraw).ingress
  have hle := entries_reimported_le howner hg.filed (r.softAdmitted h)
  rw [hin, tripped_reimported]
  rw [mayHold, hs, bind_some, hlimit, all_some, Bool.or_eq_true] at hmay
  obtain hfew | htripped := hmay
  · have hno : ¬limit.toNat < (r.ingress.reimported h (r.softAdmitted h)).entries h := by
      have hbound := of_decide_eq_true hfew
      omega
    simp [hno]
  · rw [htripped]
    rfl

/-- In every run whose operations the accounts can follow, the max-prefix counter of every
session is the number of routes held for it, and the limit of a session trips exactly when
the routes stored for it exceed it. -/
theorem maxPrefix_counter_exact {ops : List RouterOp}
    (hops : Along (perform fuel) Accountable new ops)
    (hrun : exec (perform fuel) new ops = some r) :
    (∀ h, r.ingress.counter h = r.ingress.entries h) ∧
    (∀ (h : UInt64) (s : Session) (limit : UInt32) (route : Route) (r' : DefaultRouter),
      r.session h = some s → s.options.maximumPrefix = some limit →
      route.origin = s.peer.routeOrigin → r.ingress.entries h + 1 < 2 ^ 32 →
      r.importRoute fuel route = some r' →
      r'.ingress.tripped h = (r.ingress.tripped h ||
        (((r.importConfig h).admitRoute r.nowMs route).isSome &&
          decide (limit.toNat < r'.ingress.entries h)))) ∧
    ∀ (h : UInt64) (s : Session) (limit : UInt32) (r' : DefaultRouter),
      r.session h = some s → s.options.maximumPrefix = some limit →
      r.ingress.prePolicy.iterOrigin ⟨0, h⟩ ≠ [] → r.Accountable (.softReconfigInbound h) →
      r.softReconfigInbound fuel h = some r' →
      r'.ingress.tripped h =
        (r.ingress.tripped h || decide (limit.toNat < r'.ingress.entries h)) := by
  have haudit : r.Audited := exec_invariant
    (fun _ _ _ ht hop hstep => (perform_accounted hstep).audited ht hop) audited_new hops hrun
  refine ⟨haudit.booked.balanced, ?_, ?_⟩
  · intro h s limit route r' hs hlimit horigin hroom hi
    exact importRoute_tripped haudit hs hlimit horigin hroom hi
  · intro h s limit r' hs hlimit hraw hop hsoft
    exact softReconfigInbound_tripped haudit hs hlimit hraw hop.2.2 hsoft

/-- A check that suffices for an operation: no import hook is brought in. -/
def passesAudit (r : DefaultRouter) : RouterOp → Bool
  | .feedInput h bytes => r.ingress.entries h + r.announces h bytes < 2 ^ 32
  | .softReconfigInbound h =>
    ((r.ingress.maxPrefix[h]?).isSome || r.softAdmitted h = []) &&
      (r.softAdmitted h).length < 2 ^ 32 &&
      r.mayHold h (r.softAdmitted h).length
  | .configure (.hooks chain) => chain.imports.isEmpty
  | _ => true

theorem accountable_of_passesAudit (h : r.passesAudit op = true) : r.Accountable op := by
  cases op with
  | feedInput k bytes => simpa [passesAudit, Accountable] using h
  | softReconfigInbound k => simpa [passesAudit, Accountable, and_assoc] using h
  | configure change =>
    cases change with
    | hooks chain =>
      have hnone : chain.imports = [] := by simpa [passesAudit] using h
      simp [Accountable, SettingChange.KeepsPaths, hnone]
    | _ => trivial
  | _ => trivial

/-- A session that keeps what it receives and may hold so many routes. -/
def watchedSession (limit : UInt32) : SessionConfig where
  localAs := 65001
  peerAs := 65002
  localBgpId := 1
  options := { softReconfigInbound := true, maximumPrefix := some limit }

/-- The session comes up. -/
def watchedStart (limit : UInt32) : List RouterOp :=
  [.addSession (watchedSession limit), .startSession 1,
    .feedInput 1 (greeting ((watchedSession limit).neighbour 2))]

/-- 192.0.2.0/24 and 198.51.100.0/24. -/
def watchedPrefix : Prefix := .newV4 (.padded 4 [192, 0, 2]) 24

/-- A prefix beside the watched one. -/
def secondPrefix : Prefix := .newV4 (.padded 4 [198, 51, 100]) 24

/-- The neighbour announces a prefix. -/
def watchedUpdate (pfx : Prefix) : RouterOp :=
  .feedInput 1 (updateFrame (announcement [65002] [⟨0, pfx⟩]))

/-- The neighbour's route as `import_route` gets it. -/
def watchedRoute : Route :=
  { localRoute (.new secondPrefix .ipv4Unicast) none (announcement [65002] []).attributes 0 with
    origin := ⟨0, 1⟩ }

/-- A route comes, goes and comes again, and is imported once more from the raw copy. -/
def recountedRun : List RouterOp :=
  watchedStart 1 ++
    [watchedUpdate watchedPrefix, .feedInput 1 (updateFrame (withdrawal [⟨0, watchedPrefix⟩])),
      watchedUpdate watchedPrefix, .softReconfigInbound 1]

/-- The router after the run. -/
def watchedRouter : DefaultRouter := (exec (perform 8) new recountedRun).getD new

/-- The second route of a session that may hold one trips the limit. -/
theorem maxPrefix_counter_exact_second :
    exec (perform 8) new recountedRun = some watchedRouter ∧
      watchedRouter.ingress.entries 1 = 1 ∧ watchedRouter.ingress.tripped 1 = false ∧
      (∀ h, watchedRouter.ingress.counter h = watchedRouter.ingress.entries h) ∧
      ∃ s r', watchedRouter.session 1 = some s ∧ s.options.maximumPrefix = some 1 ∧
        watchedRouter.importRoute 8 watchedRoute = some r' ∧ r'.ingress.tripped 1 = true := by
  have hrun : exec (perform 8) new recountedRun = some watchedRouter :=
    (getD_of_ne_none (by decide +kernel) new).symm
  have hchecked : Along (perform 8) (fun r op => r.passesAudit op = true) new recountedRun := by
    decide +kernel
  obtain ⟨hbooks, htrip, -⟩ := maxPrefix_counter_exact
    (hchecked.mono fun _ _ => accountable_of_passesAudit) hrun
  have hsession : (watchedRouter.session 1).map (fun s =>
      (s.options.maximumPrefix, s.peer.routeOrigin)) = some (some 1, ⟨0, 1⟩) := by decide +kernel
  have himported : (watchedRouter.importRoute 8 watchedRoute).map (fun r =>
      r.ingress.entries 1) = some 2 := by decide +kernel
  obtain ⟨s, hs, hread⟩ := map_eq_some_iff.mp hsession
  obtain ⟨r', hr', hentries⟩ := map_eq_some_iff.mp himported
  obtain ⟨hlimit, horigin⟩ := Prod.ext_iff.mp hread
  refine ⟨hrun, by decide +kernel, by decide +kernel, hbooks, s, r', hs, hlimit, hr', ?_⟩
  have hadmitted : ((watchedRouter.importConfig 1).admitRoute watchedRouter.nowMs
      watchedRoute).isSome = true := by decide +kernel
  rw [htrip 1 s 1 watchedRoute r' hs hlimit horigin.symm (by decide +kernel) hr', hadmitted,
    hentries]
  simp

/-- A hook drops the only route of a session, so the session has no account.  When the hook
is gone, soft reconfiguration brings the route in and the counter stays at zero. -/
theorem maxPrefix_counter_missed :
    (exec (perform 8) new
      ([.configure (.hooks ⟨[fun route => (route, .drop)], []⟩)] ++ watchedStart 0 ++
        [watchedUpdate watchedPrefix, .configure (.hooks {}), .softReconfigInbound 1])).map
      (fun r => (r.ingress.counter 1, r.ingress.entries 1, r.ingress.tripped 1)) =
    some (0, 1, false) := by
  decide +kernel

end DefaultRouter

end LibRouting.Router
