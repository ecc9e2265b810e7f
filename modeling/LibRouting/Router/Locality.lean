/-
  Router/Locality.lean --- how far a change of one key reaches.

  The decision process for a key changes the Loc-RIB at that key and at the keys of
  aggregates, and exports those keys only.  Carrying out an export of a key leaves alone
  what the sessions have been sent for the other keys.
-/
import LibRouting.Router.ExportPaths

set_option autoImplicit false

namespace LibRouting.Router

open Foundation Core Bgp Policy Rib Option List

/-! ## Exports -/

/-- The key the export pipeline is called for. -/
def Export.key : Export → RouteKey
  | .selection key _ => key
  | .withdrawal key => key

/-- The paths of a selection stand under its key. -/
def Export.Keyed : Export → Prop
  | .selection key ranked => ∀ route ∈ ranked, route.key = key
  | .withdrawal _ => True

/-- From one routing table to the next the Loc-RIB has changed at keys in `S` only, and only
those were exported; the originated routes have changed at keys in `A` only. -/
structure RibState.Within (S A : RouteKey → Prop) (st st' : RibState) : Prop where
  locRib : ∀ key, ¬S key → st'.locRib.paths key = st.locRib.paths key
  originated : ∀ key, ¬A key → st'.originated.get key = st.originated.get key
  exports : ∃ added, st'.exports = st.exports ++ added ∧ ∀ x ∈ added, S x.key ∧ x.Keyed

namespace RibState

variable {S S' A A' : RouteKey → Prop} {st st' st'' : RibState} {key : RouteKey}

theorem Within.of_eq (hrib : st'.locRib = st.locRib) (horiginated : st'.originated = st.originated)
    (hexports : st'.exports = st.exports) : Within S A st st' :=
  ⟨fun key _ => by rw [hrib], fun key _ => by rw [horiginated], [],
    by rw [hexports, append_nil], by simp⟩

theorem Within.refl (st : RibState) : Within S A st st := .of_eq rfl rfl rfl

theorem Within.trans (h : Within S A st st') (h' : Within S A st' st'') : Within S A st st'' := by
  obtain ⟨added, hadded, hin⟩ := h.exports
  obtain ⟨added', hadded', hin'⟩ := h'.exports
  refine ⟨fun key hkey => (h'.locRib key hkey).trans (h.locRib key hkey),
    fun key hkey => (h'.originated key hkey).trans (h.originated key hkey), added ++ added', ?_, ?_⟩
  · rw [hadded', hadded, append_assoc]
  · exact forall_mem_append.mpr ⟨hin, hin'⟩

theorem Within.mono (h : Within S A st st') (hS : ∀ key, S key → S' key)
    (hA : ∀ key, A key → A' key) : Within S' A' st st' := by
  obtain ⟨added, hadded, hin⟩ := h.exports
  exact ⟨fun key hkey => h.locRib key fun hk => hkey (hS key hk),
    fun key hkey => h.originated key fun hk => hkey (hA key hk), added, hadded,
    fun x hx => ⟨hS _ (hin x hx).1, (hin x hx).2⟩⟩

theorem Within.exporting (x : Export) (hx : S x.key) (hkeyed : x.Keyed) :
    Within S A st (st.exporting x) :=
  ⟨fun _ _ => rfl, fun _ _ => rfl, [x], rfl, fun y hy => by
    rw [mem_singleton.mp hy]
    exact ⟨hx, hkeyed⟩⟩

theorem Within.installSet (ranked : List Route) (hkey : S key) :
    Within S A st { st with locRib := st.locRib.installSet key ranked } := by
  refine ⟨fun k hk => ?_, fun _ _ => rfl, [], by simp, by simp⟩
  rw [LocRib.paths_installSet, if_neg]
  rintro rfl
  exact hk hkey

theorem Within.uninstall (hkey : S key) :
    Within S A st { st with locRib := st.locRib.uninstall key } := by
  refine ⟨fun k hk => ?_, fun _ _ => rfl, [], by simp, by simp⟩
  rw [LocRib.paths_uninstall, if_neg]
  rintro rfl
  exact hk hkey

theorem Within.unoriginate (hkey : A key) :
    Within S A st { st with originated := st.originated.erase key } := by
  refine ⟨fun _ _ => rfl, fun k hk => ?_, [], by simp, by simp⟩
  rw [RouteTable.get_erase, if_neg]
  rintro rfl
  exact hk hkey

theorem Within.originate {route : Route} (hkey : A route.key) :
    Within S A st { st with originated := st.originated.insert route } := by
  refine ⟨fun _ _ => rfl, fun k hk => ?_, [], by simp, by simp⟩
  rw [RouteTable.get_insert, if_neg]
  rintro rfl
  exact hk hkey

end RibState

/-! ## The decision process -/

namespace Decision

open RibState

variable {d : Decision} {apply : Apply} {st st' : RibState} {key : RouteKey} {route : Route}

/-- The key of an aggregate. -/
def IsAggregateKey (d : Decision) (key : RouteKey) : Prop :=
  ∃ entry ∈ d.aggregates.toList, aggregateKey entry.1 = key

/-- How far a change of a key reaches. -/
def Reach (d : Decision) (key k : RouteKey) : Prop := k = key ∨ d.IsAggregateKey k

/-- `apply_selection` reaches no further than its key and the aggregates. -/
def Local (d : Decision) (apply : Apply) : Prop :=
  ∀ (st st' : RibState) (key : RouteKey) (ranked : List Route),
    (∀ route ∈ ranked, route.key = key) → apply st key ranked = some st' →
    Within (d.Reach key) d.IsAggregateKey st st'

theorem rankCandidates_subset {routes : List Route} (h : route ∈ d.rankCandidates routes) :
    route ∈ routes := by
  unfold rankCandidates at h
  split at h
  · exact (mem_insertionSort _).mp (mem_of_mem_take h)
  · exact minBy_mem (mem_toList.mp h)

theorem received_key (h : route ∈ d.received key) : route.key = key :=
  of_decide_eq_true (mem_filter.mp h).2

theorem candidates_key (h : route ∈ d.candidates st key) : route.key = key := by
  simp only [candidates, mem_append, mem_toList] at h
  rcases h with (((h | h) | h) | h) | h
  · exact received_key h
  all_goals exact RouteTable.key_of_get h

section

variable (ha : d.Local apply)
include ha

theorem reselect_within (h : d.reselect apply st key = some st') :
    Within (d.Reach key) d.IsAggregateKey st st' :=
  ha st st' key _ (fun _ hr => candidates_key (rankCandidates_subset hr)) h

theorem unoriginate_within (h : d.unoriginate apply st key = some st') :
    Within (d.Reach key) (d.Reach key) st st' := by
  unfold unoriginate at h
  split at h
  · have hrest := reselect_within ha h
    refine Within.trans ?_ (hrest.mono (fun _ hk => hk) fun _ hk => .inr hk)
    exact (Within.unoriginate (.inl rfl)).trans (.of_eq rfl rfl rfl)
  · cases h
    exact .refl st

theorem redistributeInto_within {pipe : RedistributionPipe}
    (h : d.redistributeInto apply route st pipe = some st') :
    Within (d.Reach route.key) d.IsAggregateKey st st' := by
  unfold redistributeInto at h
  split at h
  · dsimp only at h
    split at h
    · cases h
      exact .refl st
    have hrest := ha _ st' route.key _ (fun r hr => by
      rcases mem_append.mp (rankCandidates_subset hr) with hr | hr
      · exact received_key hr
      · rw [mem_singleton.mp hr]
        rfl) h
    refine Within.trans ?_ hrest
    exact .of_eq rfl rfl rfl
  · cases h
    unfold ospfRedistribute
    split <;> exact .of_eq rfl rfl rfl
  · cases h
    unfold ospfRedistributeV3
    split <;> exact .of_eq rfl rfl rfl
  · cases h
    exact .refl st

theorem redistributeRoute_within (h : d.redistributeRoute apply st route = some st') :
    Within (d.Reach route.key) d.IsAggregateKey st st' := by
  unfold redistributeRoute at h
  split at h
  · cases h
    exact .refl st
  · exact foldlM_invariant (P := Within (d.Reach route.key) d.IsAggregateKey st)
      (fun _ _ _ _ ht hstep => ht.trans (redistributeInto_within ha hstep)) (.refl st) h

theorem recomputeAggregate_within {best : List Route} {entry : Prefix × AggregateOptions}
    (hentry : entry ∈ d.aggregates.toList)
    (h : d.recomputeAggregate apply best st entry = some st') :
    Within d.IsAggregateKey d.IsAggregateKey st st' := by
  have hkey : d.IsAggregateKey (aggregateKey entry.1) := ⟨entry, hentry, rfl⟩
  -- what reaches from the aggregate's key reaches aggregates only
  have hreach : ∀ k, d.Reach (aggregateKey entry.1) k → d.IsAggregateKey k := by
    rintro k (rfl | hk)
    · exact hkey
    · exact hk
  unfold recomputeAggregate at h
  dsimp only at h
  generalize (if entry.2.asSet = true then contributingAses (contributing best entry.1) else []) =
    ases at h
  obtain ⟨mid, hmid, h⟩ := bind_eq_some_iff.mp h
  have hfirst : Within d.IsAggregateKey d.IsAggregateKey st mid := by
    split at hmid
    · exact (unoriginate_within ha hmid).mono hreach hreach
    · cases hmid
      exact .refl st
  refine hfirst.trans ?_
  split at h
  · cases h
    refine Within.trans ?_ (Within.exporting (.selection _ _) hkey ?_)
    · exact (Within.installSet _ hkey).trans (Within.originate hkey)
    · intro route hroute
      rw [mem_singleton.mp hroute]
      rfl
  · split at h
    · exact (unoriginate_within ha h).mono hreach hreach
    · cases h
      exact .refl _

theorem recomputeAggregates_within (h : d.recomputeAggregates apply st = some st') :
    Within d.IsAggregateKey d.IsAggregateKey st st' :=
  foldlM_invariant (P := Within d.IsAggregateKey d.IsAggregateKey st)
    (fun _ hentry _ _ ht hstep => ht.trans (recomputeAggregate_within ha hentry hstep))
    (.refl st) h

theorem applyWith_local : d.Local (d.applyWith apply) := by
  intro st st' key ranked hkeyed h
  have hself : d.Reach key key := .inl rfl
  have hagg : ∀ k, d.IsAggregateKey k → d.Reach key k := fun _ hk => .inr hk
  unfold applyWith at h
  cases ranked with
  | nil =>
    refine Within.trans ?_ ((recomputeAggregates_within ha h).mono hagg fun _ hk => hk)
    exact (Within.uninstall hself).trans
      ((Within.exporting (.withdrawal key) hself trivial).trans (.of_eq rfl rfl rfl))
  | cons newBest rest =>
    obtain ⟨mid, hmid, h⟩ := bind_eq_some_iff.mp h
    have hnew : newBest.key = key := hkeyed newBest (.head _)
    refine (Within.installSet (newBest :: rest) hself).trans
      (Within.trans ?_ ((recomputeAggregates_within ha h).mono hagg fun _ hk => hk))
    refine Within.trans ?_ (Within.exporting (.selection key (newBest :: rest)) hself hkeyed)
    split at hmid
    · cases hmid
      exact .refl _
    · rw [← hnew]
      rw [← hnew] at hmid
      exact redistributeRoute_within ha hmid

end

/-- Pipes that lead out of BGP leave the Loc-RIB alone. -/
theorem redistributeRoute_locRib (hpipes : ∀ pipe ∈ d.pipes, pipe.target ≠ .bgp)
    (h : d.redistributeRoute apply st route = some st') : st'.locRib = st.locRib := by
  unfold redistributeRoute at h
  split at h
  · cases h
    rfl
  refine foldlM_invariant (P := fun t => t.locRib = st.locRib) (fun pipe hpipe t t' ht hstep => ?_)
    rfl h
  have htarget := hpipes pipe (mem_filter.mp hpipe).1
  unfold redistributeInto at hstep
  split at hstep
  · exact absurd (by assumption) htarget
  · cases hstep
    unfold ospfRedistribute
    split <;> exact ht
  · cases hstep
    unfold ospfRedistributeV3
    split <;> exact ht
  · cases hstep
    exact ht

/-- Without a pipe into BGP the ranking is what stands in the Loc-RIB afterwards, at a key
that is not an aggregate's. -/
theorem applyWith_paths (ha : d.Local apply) (hpipes : ∀ pipe ∈ d.pipes, pipe.target ≠ .bgp)
    (hagg : ¬d.IsAggregateKey key) {ranked : List Route}
    (h : d.applyWith apply st key ranked = some st') : st'.locRib.paths key = ranked := by
  unfold applyWith at h
  cases ranked with
  | nil =>
    rw [(recomputeAggregates_within ha h).locRib key hagg]
    show LocRib.paths (st.locRib.uninstall key) key = []
    rw [LocRib.paths_uninstall, if_pos rfl]
  | cons newBest rest =>
    obtain ⟨mid, hmid, h⟩ := bind_eq_some_iff.mp h
    rw [(recomputeAggregates_within ha h).locRib key hagg]
    have hinstalled : mid.locRib = st.locRib.installSet key (newBest :: rest) := by
      split at hmid
      · cases hmid
        rfl
      · exact redistributeRoute_locRib hpipes hmid
    show LocRib.paths mid.locRib key = newBest :: rest
    rw [hinstalled, LocRib.paths_installSet, if_pos rfl]

theorem applySelection_local (d : Decision) (fuel : Nat) : d.Local (d.applySelection fuel) := by
  induction fuel with
  | zero =>
    intro st st' key ranked _ h
    cases h
  | succ fuel ih => exact applyWith_local ih

end Decision

/-! ## The export pipeline -/

theorem mem_exportDelta {current : List (UInt32 × Route)} {wanted : List Route} {route : Route}
    (h : route ∈ (exportDelta current wanted).1) : route ∈ wanted := by
  rcases mem_append.mp h with h | h
  · obtain ⟨entry, -, hroute⟩ := mem_filterMap.mp h
    obtain ⟨new, hnew, hroute⟩ := bind_eq_some_iff.mp hroute
    split at hroute
    · cases hroute
    · cases hroute
      exact mem_of_find?_eq_some hnew
  · exact (mem_filter.mp h).1

namespace Egress
variable {routes : List Route} {ids : List UInt32}

/-- What the sessions have been sent for the other keys is as it was. -/
def Elsewhere (key : RouteKey) (e e' : Egress) : Prop :=
  ∀ (dest : RouteOrigin) (k : RouteKey) (id : UInt32), k ≠ key →
    e'.adjRibOut.get dest k id = e.adjRibOut.get dest k id

variable {e e' e'' : Egress} {session : UInt64} {now : UInt64} {c : ExportContext} {key : RouteKey}

theorem Elsewhere.of_eq (h : e'.adjRibOut = e.adjRibOut) : Elsewhere key e e' :=
  fun _ _ _ _ => by rw [h]

theorem Elsewhere.refl (e : Egress) : Elsewhere key e e := .of_eq rfl

theorem Elsewhere.trans (h : Elsewhere key e e') (h' : Elsewhere key e' e'') :
    Elsewhere key e e'' :=
  fun dest k id hk => (h' dest k id hk).trans (h dest k id hk)

theorem elsewhere_foldlM {ι : Type} {f : Egress → ι → Option Egress} {l : List ι}
    (hf : ∀ i ∈ l, ∀ e e', f e i = some e' → Elsewhere key e e') (h : l.foldlM f e = some e') :
    Elsewhere key e e' :=
  foldlM_invariant (P := Elsewhere key e) (fun i hi t t' ht hstep => ht.trans (hf i hi t t' hstep))
    (.refl e) h

theorem elsewhere_recordSent (hkeys : ∀ route ∈ routes, route.key = key) :
    Elsewhere key e (e.recordSent session routes) := by
  intro dest k id hk
  unfold recordSent
  generalize e.adjRibOut = rib
  induction routes generalizing rib with
  | nil => rfl
  | cons route routes ih =>
    have hroute : (⟨destOf session, route.key, route.pathId⟩ : PathKey) ≠ ⟨dest, k, id⟩ := by
      rw [hkeys route (.head _)]
      intro heq
      cases heq
      exact hk rfl
    have hrest := ih (fun r hr => hkeys r (.tail _ hr))
      (rib.advertise (destOf session) route route.pathId)
    rw [AdjRibOut.get_advertise, if_neg hroute] at hrest
    exact hrest

theorem get_recordWithdrawn (ids : List UInt32) (dest : RouteOrigin) (k : RouteKey) (id : UInt32) :
    (e.recordWithdrawn session key ids).adjRibOut.get dest k id =
      if dest = destOf session ∧ k = key ∧ id ∈ ids then none else e.adjRibOut.get dest k id := by
  unfold recordWithdrawn
  generalize e.adjRibOut = rib
  induction ids generalizing rib with
  | nil => simp
  | cons i ids ih =>
    have hrest := ih (rib.suppress (destOf session) key i)
    rw [foldl_cons]
    refine hrest.trans ?_
    rw [AdjRibOut.get_suppress]
    by_cases hsame : dest = destOf session ∧ k = key
    · obtain ⟨rfl, rfl⟩ := hsame
      by_cases hid : id = i
      · simp [hid]
      · simp [hid, Ne.symm hid]
    have hne : (⟨destOf session, key, i⟩ : PathKey) ≠ ⟨dest, k, id⟩ := by
      intro heq
      cases heq
      exact hsame ⟨rfl, rfl⟩
    have hnot : ∀ l : List UInt32, ¬(dest = destOf session ∧ k = key ∧ id ∈ l) :=
      fun l h => hsame ⟨h.1, h.2.1⟩
    rw [if_neg hne, if_neg (hnot ids), if_neg (hnot _)]

theorem Sends.elsewhere (h : Sends (· = key) session e e') : Elsewhere key e e' := by
  induction h with
  | refl => exact .refl e
  | output _ _ _ ih | noted _ _ ih => exact ih.trans (.of_eq rfl)
  | sent _ hK ih => exact ih.trans (elsewhere_recordSent hK)
  | withdrawn _ ids hK ih =>
    refine ih.trans fun dest k id hk => ?_
    rw [get_recordWithdrawn, hK, if_neg]
    exact fun hcond => hk hcond.2.1

/-- A withdrawal of these paths reaches the connection. -/
def withdrawalSent (e : Egress) (session : UInt64) (key : RouteKey) (ids : List UInt32) : Bool :=
  (e.sessions[session]?).any fun s =>
    (s.peer.withdrawPaths (ids.map fun id => ⟨id, key.pfx⟩) key.family).toOption.any fun p =>
      p.outBuf ≠ []

/-- A withdrawal takes the paths it names out of the Adj-RIB-Out when it is sent, and
touches no other session. -/
theorem queueOrSendWithdrawal_spec (h : e.queueOrSendWithdrawal now session key ids = some e') :
    (∀ other, other ≠ session → e'.sessions[other]? = e.sessions[other]?) ∧
      ∀ dest k id, e'.adjRibOut.get dest k id =
        if e.withdrawalSent session key ids ∧ dest = destOf session ∧ k = key ∧ id ∈ ids then none
        else e.adjRibOut.get dest k id := by
  unfold queueOrSendWithdrawal sendWithdrawal at h
  cases hs : e.sessions[session]? with
  | none =>
    simp only [setMrai, hs, Option.some.injEq] at h
    subst h
    exact ⟨fun _ _ => rfl, fun _ _ _ => by simp [withdrawalSent, hs]⟩
  | some s =>
    simp only [setMrai, hs] at h
    obtain ⟨p, hp, h⟩ := bind_eq_some_iff.mp h
    have hothers : ∀ other, other ≠ session →
        (e.sessions.insert session (Session.flush { s with peer := p }))[other]? =
          e.sessions[other]? := by
      intro other hne
      rw [lookup_insert, if_neg (Ne.symm hne)]
    have hsent : e.withdrawalSent session key ids = decide (p.outBuf ≠ []) := by
      simp [withdrawalSent, hs, hp]
    split at h <;> cases h
    · rename_i hempty
      refine ⟨hothers, fun dest k id => ?_⟩
      rw [if_neg]
      · rfl
      · rw [hsent, hempty]
        simp
    · rename_i hnonempty
      refine ⟨hothers, fun dest k id => ?_⟩
      rw [get_recordWithdrawn, hsent]
      simp only [ne_eq, hnonempty, not_false_eq_true, decide_true, true_and]
      rfl

theorem elsewhere_withdrawFrom {wanted : Session → Bool}
    (h : e.withdrawFrom now wanted key = some e') : Elsewhere key e e' :=
  elsewhere_foldlM (fun _ _ _ _ hstep =>
    (Sends.refl.queueOrSendWithdrawal (K := (· = key)) rfl hstep).elsewhere) h

theorem exportWorkFor_key (hk : ∀ session, ∀ hook ∈ c.hooks.exports, KeepsPath (hook session))
    {ranked : List Route} (hranked : ∀ route ∈ ranked, route.key = key) {route : Route}
    (h : route ∈ (exportWorkFor c e session key ranked).1) : route.key = key := by
  unfold exportWorkFor at h
  split at h
  · cases h
  split at h
  · obtain ⟨-, -, o, ho, -, hrun⟩ := mem_desired.mp (mem_exportDelta h)
    exact (runExportTo_keepsPath (hk session) hrun).2.1.trans
      (hranked o.route (route_mem_of_mem_pathOffers ho))
  · cases h

/-- The export of a key leaves the other keys alone, where the export hooks leave the key of
a route alone. -/
theorem elsewhere_perform (hk : ∀ session, ∀ hook ∈ c.hooks.exports, KeepsPath (hook session))
    {x : Export} (hx : x.Keyed) (h : e.perform c x = some e') : Elsewhere x.key e e' := by
  cases x with
  | selection key ranked =>
    refine elsewhere_foldlM (fun work hwork e e' hstep => ?_) h
    obtain ⟨session, -, rfl⟩ := mem_map.mp hwork
    exact (Sends.refl.transmit (K := (· = key))
      (fun _ hroute => exportWorkFor_key hk hx hroute) rfl hstep).elsewhere
  | withdrawal key =>
    unfold perform propagateWithdrawal at h
    exact elsewhere_withdrawFrom h

end Egress

/-! ## The router -/

namespace DefaultRouter

variable {r r' : DefaultRouter} {fuel : Nat} {key : RouteKey}

/-- The key of an aggregate of the router. -/
def IsAggregateKey (r : DefaultRouter) (key : RouteKey) : Prop := r.decision.IsAggregateKey key

/-- `reselect` leaves the other keys alone, those of aggregates aside. -/
theorem reselect_elsewhere
    (hk : ∀ session, ∀ hook ∈ r.settings.hooks.exports, KeepsPath (hook session))
    (hidle : r.rib.exports = []) (h : r.reselect fuel key = some r') :
    ∀ k, k ≠ key → ¬r.IsAggregateKey k →
      r'.rib.locRib.paths k = r.rib.locRib.paths k ∧
        ∀ dest id, r'.egress.adjRibOut.get dest k id = r.egress.adjRibOut.get dest k id := by
  intro k hne hagg
  obtain ⟨st, hst, h⟩ := bind_eq_some_iff.mp h
  obtain ⟨e, he, h⟩ := bind_eq_some_iff.mp h
  cases h
  have hwithin := Decision.reselect_within (Decision.applySelection_local r.decision fuel) hst
  have houtside : ¬r.decision.Reach key k := by
    rintro (heq | hk')
    · exact hne heq
    · exact hagg hk'
  refine ⟨hwithin.locRib k houtside, fun dest id => ?_⟩
  obtain ⟨added, hadded, hin⟩ := hwithin.exports
  rw [hidle, nil_append] at hadded
  rw [hadded] at he
  refine foldlM_invariant
    (P := fun e => e.adjRibOut.get dest k id = r.egress.adjRibOut.get dest k id)
    (fun x hx t t' ht hstep => ?_) rfl he
  have hxk : k ≠ x.key := by
    rintro rfl
    exact houtside (hin x hx).1
  exact (Egress.elsewhere_perform hk (hin x hx).2 hstep dest k id hxk).trans ht

/-- `reselect` changes originated routes at the keys of aggregates only. -/
theorem reselect_originated (h : r.reselect fuel key = some r') {k : RouteKey}
    (hagg : ¬r.IsAggregateKey k) : r'.rib.originated.get k = r.rib.originated.get k := by
  obtain ⟨st, hst, h⟩ := bind_eq_some_iff.mp h
  obtain ⟨e, -, h⟩ := bind_eq_some_iff.mp h
  cases h
  have hwithin := Decision.reselect_within (Decision.applySelection_local r.decision fuel) hst
  exact hwithin.originated k hagg

theorem reselect_idle (h : r.reselect fuel key = some r') : r'.rib.exports = [] := by
  obtain ⟨st, -, h⟩ := bind_eq_some_iff.mp h
  obtain ⟨e, -, h⟩ := bind_eq_some_iff.mp h
  cases h
  rfl

theorem reselect_paths (hpipes : ∀ pipe ∈ r.pipes, pipe.target ≠ .bgp)
    (hagg : ¬r.IsAggregateKey key) (h : r.reselect fuel key = some r') :
    r'.rib.locRib.paths key = r.decision.rankCandidates (r.decision.candidates r.rib key) := by
  obtain ⟨st, hst, h⟩ := bind_eq_some_iff.mp h
  obtain ⟨e, -, h⟩ := bind_eq_some_iff.mp h
  cases h
  cases fuel with
  | zero => cases hst
  | succ fuel =>
    have hpaths := Decision.applyWith_paths (Decision.applySelection_local r.decision fuel)
      hpipes hagg hst
    exact hpaths

end DefaultRouter

end LibRouting.Router
