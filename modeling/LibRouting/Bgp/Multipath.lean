/-
  Bgp/Multipath.lean --- the multipath set (`BestPath::multipath`, `compare_multipath`).

  `compareMultipath` repeats the decision process without its last tie-breakers, the
  age of a route and the peer it came from.  The set is collected in the order of the
  candidate list and cut off when it is full, so the selected route can be crowded out
  and the order of arrival can show.  `multipath_correct_iff` says when neither happens.
-/
import LibRouting.Bgp.BestPath
import LibRouting.Foundation.Ties

set_option autoImplicit false

namespace LibRouting.Bgp

open Foundation Core List

/-- The knobs `multipath` reads besides those of the decision process. -/
structure MultipathConfig extends BestPathConfig where
  multipath : UInt32 := 1
  multipathRelax : Bool := false
  deriving DecidableEq, Repr

namespace BestPath

/-! ## The comparison without the last tie-breakers -/

section

variable (cfg : BestPathConfig) (a b : Route)

/-- Steps 6 to 11 without the age of the routes. -/
def compareTies : Route → Route → Ordering :=
  compareLex (whenEnabled cfg.preferExternals (compareOn isInternal)) <|
  compareLex (whenEnabled cfg.compareIgpMetric (compareOn igpMetricOf)) <|
  compareLex (whenEnabled cfg.preferNextHopSelf (compareOn fun r => !nextHopMatches r)) <|
  compareLex (whenEnabled cfg.deterministicRouterId (compareOn originatorIdOf))
    (compareOn clusterListLen)

/-- `BestPath::compare_multipath`. -/
def compareMultipath : Ordering :=
  (compareBeforeMed cfg a b).then
    ((if MedComparable cfg a b then compareMed cfg a b else .eq).then (compareTies cfg a b))

/-- The route `a` with the age and the peer of `b`: what the last tie-breakers look at is
made equal. -/
def levelled : Route :=
  { a with ageMs := b.ageMs, origin := { a.origin with peer := b.origin.peer } }

/-- `compare_multipath` is `compare` up to the last tie-breakers. -/
theorem compareMultipath_eq : compareMultipath cfg a b = compare cfg (levelled a b) b := by
  have hbefore : compareBeforeMed cfg (levelled a b) b = compareBeforeMed cfg a b := rfl
  have hmed :
      (if MedComparable cfg (levelled a b) b then compareMed cfg (levelled a b) b else .eq) =
      if MedComparable cfg a b then compareMed cfg a b else .eq := rfl
  have hage : compareOn Route.ageMs (levelled a b) b = .eq := Std.ReflOrd.compare_self
  have hpeer : compareOn (fun r : Route => r.origin.peer) (levelled a b) b = .eq :=
    Std.ReflOrd.compare_self
  have hafter : compareAfterMed cfg (levelled a b) b = compareTies cfg a b := by
    unfold compareAfterMed compareTies
    simp only [compareLex, whenEnabled, hage, hpeer]
    cases cfg.deterministicRouterId <;> simp only [Bool.not_true, Bool.not_false, if_true,
      Bool.false_eq_true, if_false, Ordering.then_eq, Ordering.eq_then] <;> rfl
  unfold compareMultipath compare
  rw [hbefore, hmed, hafter]

end

/-! ## The set -/

section

variable (cfg : MultipathConfig)

/-- A candidate that belongs with the best route. -/
def tiesWith (r best : Route) : Bool :=
  compareMultipath cfg.toBestPathConfig r best = .eq && (cfg.multipathRelax || sameNeighbor r best)

/-- The loop of `multipath`: candidates are pushed until the set is full. -/
def collect (keep : Route → Bool) (limit : Nat) : List Route → List Route → List Route
  | out, [] => out
  | out, r :: rest =>
    if keep r then
      if limit ≤ (out ++ [r]).length then out ++ [r] else collect keep limit (out ++ [r]) rest
    else collect keep limit out rest

/-- `BestPath::multipath`. -/
def multipath (routes : List Route) : Option (List Route) :=
  match select cfg.toBestPathConfig routes with
  | none => none
  | some best =>
    if cfg.multipath ≤ 1 then some [best]
    else
      let out := collect (fun r => tiesWith cfg r best) cfg.multipath.toNat [] routes
      some (if out = [] then [best] else out)

theorem collect_eq {keep : Route → Bool} {limit : Nat} {out routes : List Route}
    (h : out.length < limit) :
    collect keep limit out routes = out ++ (routes.filter keep).take (limit - out.length) := by
  induction routes generalizing out with
  | nil => simp [collect]
  | cons r routes ih =>
    rw [collect]
    by_cases hr : keep r = true
    · rw [if_pos hr, filter_cons_of_pos hr]
      obtain ⟨k, hk⟩ : ∃ k, limit - out.length = k + 1 := ⟨limit - out.length - 1, by omega⟩
      rw [hk, take_succ_cons]
      split
      · rename_i hfull
        simp only [length_append, length_cons, length_nil] at hfull
        obtain rfl : k = 0 := by omega
        simp
      rename_i hroom
      simp only [length_append, length_cons, length_nil] at hroom
      have hk' : limit - (out ++ [r]).length = k := by simp; omega
      rw [ih (by simp; omega), hk', append_assoc]
      rfl
    · rw [if_neg hr, filter_cons_of_neg hr, ih h]

/-! ## What the set is for -/

/-- A candidate ties with the best route under `compare` up to the last tie-breakers; it
comes from the same neighbouring AS unless the operator relaxed that. -/
def Eligible (best r : Route) : Prop :=
  compare cfg.toBestPathConfig (levelled r best) best = .eq ∧
    (cfg.multipathRelax = true ∨ sameNeighbor r best = true)

instance (cfg : MultipathConfig) (best : Route) : DecidablePred (Eligible cfg best) := fun _ =>
  inferInstanceAs (Decidable (_ ∧ _))

/-- How many members the set may have; the selected route is always one of them. -/
def room : Nat := max 1 cfg.multipath.toNat

/-- A multipath set of the candidates around the selected route. -/
structure IsMultipathSet (cfg : MultipathConfig) (routes : List Route) (best : Route)
    (out : List Route) : Prop where
  selected : best ∈ out
  bounded : out.length ≤ room cfg
  eligible : ∀ r ∈ out, r ∈ routes ∧ Eligible cfg best r
  complete : out.length < room cfg → out.Perm (routes.filter fun r => Eligible cfg best r)

/-- The candidates have a multipath set, and it does not depend on their order. -/
structure MultipathCorrect (cfg : MultipathConfig) (routes : List Route) : Prop where
  isSet : routes ≠ [] → ∃ best out, select cfg.toBestPathConfig routes = some best ∧
    multipath cfg routes = some out ∧ IsMultipathSet cfg routes best out
  order : ∀ l, l.Perm routes → ∀ out out', multipath cfg routes = some out →
    multipath cfg l = some out' → SameUpTo (compare cfg.toBestPathConfig) out' out

theorem tiesWith_iff (r best : Route) : tiesWith cfg r best = true ↔ Eligible cfg best r := by
  simp [tiesWith, Eligible, compareMultipath_eq]

theorem compare_self (cfg : BestPathConfig) (r : Route) : compare cfg r r = .eq := by
  have hswap : compare cfg r r = (compare cfg r r).swap :=
    guardedLex_oriented (medComparable_equivalence cfg).symm r r
  cases hc : compare cfg r r with
  | eq => rfl
  | lt =>
    rw [hc] at hswap
    cases hswap
  | gt =>
    rw [hc] at hswap
    cases hswap

theorem tiesWith_self (r : Route) : tiesWith cfg r r = true := by
  refine (tiesWith_iff cfg r r).mpr ⟨compare_self _ r, .inr ?_⟩
  simp [sameNeighbor]

end

theorem multipath_pos {cfg : MultipathConfig} (hm : ¬ cfg.multipath ≤ 1) :
    0 < cfg.multipath.toNat := by
  rw [UInt32.le_iff_toNat_le] at hm
  exact Nat.zero_lt_of_lt (Nat.not_le.mp hm)

theorem multipath_of_select {cfg : MultipathConfig} {routes : List Route} {best : Route}
    (h : select cfg.toBestPathConfig routes = some best) (hmem : best ∈ routes) :
    multipath cfg routes = some (if cfg.multipath ≤ 1 then [best]
      else (tiesOf (tiesWith cfg) routes best).take cfg.multipath.toNat) := by
  unfold multipath
  rw [h]
  dsimp only
  split
  · rfl
  rename_i hm
  have hlimit := multipath_pos hm
  rw [collect_eq (by simpa using hlimit), nil_append, length_nil, Nat.sub_zero, if_neg]
  · rfl
  · -- the selected route ties with itself
    intro hnil
    have hties : best ∈ routes.filter fun r => tiesWith cfg r best :=
      mem_filter.mpr ⟨hmem, tiesWith_self cfg best⟩
    rcases take_eq_nil_iff.mp hnil with hzero | hnone
    · omega
    · rw [hnone] at hties
      cases hties

/-! ## When the set is right -/

section Correct

variable {cfg : MultipathConfig} {routes : List Route} {best : Route}

theorem isMultipathSet_single (hm : cfg.multipath ≤ 1) (hbest : best ∈ routes) :
    IsMultipathSet cfg routes best [best] := by
  have hroom : room cfg = 1 := by
    rw [UInt32.le_iff_toNat_le] at hm
    exact Nat.max_eq_left hm
  refine ⟨by simp, by simp [hroom], fun r hr => ?_, fun hlt => ?_⟩
  · obtain rfl := mem_singleton.mp hr
    exact ⟨hbest, (tiesWith_iff cfg r r).mp (tiesWith_self cfg r)⟩
  · simp [hroom] at hlt

/-- The collected ties are a multipath set as soon as the selected route is among them. -/
theorem isMultipathSet_ties (hm : ¬ cfg.multipath ≤ 1)
    (hbest : best ∈ (tiesOf (tiesWith cfg) routes best).take cfg.multipath.toNat) :
    IsMultipathSet cfg routes best
      ((tiesOf (tiesWith cfg) routes best).take cfg.multipath.toNat) := by
  have hroom : room cfg = cfg.multipath.toNat := by
    rw [UInt32.le_iff_toNat_le] at hm
    exact Nat.max_eq_right (Nat.le_of_lt (Nat.not_le.mp hm))
  refine ⟨hbest, ?_, fun r hr => ?_, fun hlt => ?_⟩
  · rw [hroom, length_take]
    exact Nat.min_le_left _ _
  · obtain ⟨hmem, htie⟩ := mem_filter.mp (mem_of_mem_take hr)
    exact ⟨hmem, (tiesWith_iff cfg r best).mp htie⟩
  · rw [hroom, length_take] at hlt
    rw [take_of_length_le (by omega)]
    have hsame : tiesOf (tiesWith cfg) routes best =
        routes.filter fun r => Eligible cfg best r := by
      refine filter_congr fun r _ => ?_
      rw [Bool.eq_iff_iff, tiesWith_iff, decide_eq_true_eq]
    rw [hsame]

end Correct

/-! ## The candidates that MED is compared among -/

/-- No candidate beats the route before MED is compared. -/
def isFront (cfg : BestPathConfig) (routes : List Route) (r : Route) : Bool :=
  routes.all fun x => (compareBeforeMed cfg r x).isLE

/-- The candidates that are minimal before MED. -/
def front (cfg : BestPathConfig) (routes : List Route) : List Route :=
  routes.filter (isFront cfg routes)

section Front

variable {cfg : BestPathConfig} {routes l : List Route} {r x : Route}

theorem isFront_iff :
    isFront cfg routes r = true ↔ ∀ x ∈ routes, (compareBeforeMed cfg r x).isLE := by
  simp [isFront]

theorem isFront_of_isLE (hx : isFront cfg routes x = true)
    (hrx : (compareBeforeMed cfg r x).isLE) : isFront cfg routes r = true :=
  isFront_iff.mpr fun y hy => Std.TransCmp.isLE_trans hrx (isFront_iff.mp hx y hy)

theorem compareBeforeMed_eq_lt (hr : isFront cfg routes r = true)
    (hx : isFront cfg routes x = false)
    (hmem : x ∈ routes) : compareBeforeMed cfg r x = .lt := by
  cases hc : compareBeforeMed cfg r x with
  | lt => rfl
  | eq =>
    have hle : (compareBeforeMed cfg x r).isLE := by simp [Std.OrientedCmp.eq_comm.mp hc]
    exact absurd (isFront_of_isLE hr hle) (by simp [hx])
  | gt => simpa [hc] using isFront_iff.mp hr x hmem

/-- The selected route is that of the candidates in front. -/
theorem minBy_front (hp : l.Perm routes) :
    minBy (compare cfg) (l.filter (isFront cfg routes)) = select cfg l := by
  by_cases hnil : l = []
  · rw [hnil]
    rfl
  refine minBy_filter (fun a _ hfront b hb hnot => ?_) ?_
  · have hlt := compareBeforeMed_eq_lt hfront hnot (hp.subset hb)
    simp [compare, hlt, Std.OrientedCmp.gt_of_lt hlt]
  · have hpre : PreorderOn (compareBeforeMed cfg) l :=
      ⟨fun _ _ _ _ => Std.OrientedCmp.eq_swap, fun _ _ _ _ _ _ => Std.TransCmp.isLE_trans⟩
    obtain ⟨m, hm⟩ : ∃ m, minBy (compareBeforeMed cfg) l = some m := minBy_isSome hnil
    have hmin := (minBy_minimal hpre.rankedBy hm).of_perm hp
    exact ⟨m, minBy_mem hm, isFront_iff.mpr hmin.2⟩

theorem minimal_front_iff :
    Minimal (compare cfg) (front cfg routes) r ↔ Minimal (compare cfg) routes r := by
  constructor
  · rintro ⟨hr, hmin⟩
    obtain ⟨hmem, hfront⟩ := mem_filter.mp hr
    refine ⟨hmem, fun x hx => ?_⟩
    cases hnot : isFront cfg routes x with
    | true => exact hmin x (mem_filter.mpr ⟨hx, hnot⟩)
    | false => simp [compare, compareBeforeMed_eq_lt hfront hnot hx]
  · rintro ⟨hmem, hmin⟩
    refine ⟨mem_filter.mpr ⟨hmem, isFront_iff.mpr fun x hx => ?_⟩,
      fun x hx => hmin x (mem_filter.mp hx).1⟩
    exact (Ordering.isLE_then_iff_and.mp (hmin x hx)).1

end Front

section

variable {cfg : MultipathConfig} {routes l out : List Route} {b : Route}

/-- What ties with a candidate in front is in front. -/
theorem tiesOf_front (hb : isFront cfg.toBestPathConfig routes b = true) :
    tiesOf (tiesWith cfg) (l.filter (isFront cfg.toBestPathConfig routes)) b =
      tiesOf (tiesWith cfg) l b := by
  unfold tiesOf
  rw [filter_filter]
  refine filter_congr fun r _ => ?_
  cases htie : tiesWith cfg r b with
  | false => rfl
  | true =>
    have heq : compareMultipath cfg.toBestPathConfig r b = .eq := by simp_all [tiesWith]
    rw [Bool.true_and]
    exact isFront_of_isLE hb (by simp [(Ordering.then_eq_eq.mp heq).1])

theorem stable_front_iff {m : Nat} :
    Stable (compare cfg.toBestPathConfig) (tiesWith cfg) m (front cfg.toBestPathConfig routes) ↔
      Stable (compare cfg.toBestPathConfig) (tiesWith cfg) m routes := by
  have hties {b : Route} (hb : Minimal (compare cfg.toBestPathConfig) routes b) :
      tiesOf (tiesWith cfg) (front cfg.toBestPathConfig routes) b =
        tiesOf (tiesWith cfg) routes b :=
    tiesOf_front (mem_filter.mp (minimal_front_iff.mpr hb).1).2
  simp only [Stable, minimal_front_iff]
  refine or_congr ?_ ?_ <;> refine forall₄_congr fun a b ha hb => ?_
  · rw [hties ha, hties hb]
  · rw [hties ha, hties hb]

/-- The set of an order of the candidates in terms of those in front. -/
theorem multipath_front (hp : l.Perm routes) (hs : minBy (compare cfg.toBestPathConfig)
      (l.filter (isFront cfg.toBestPathConfig routes)) = some b) :
    multipath cfg l = some (if cfg.multipath ≤ 1 then [b]
      else (tiesOf (tiesWith cfg) (l.filter (isFront cfg.toBestPathConfig routes)) b).take
        cfg.multipath.toNat) := by
  obtain ⟨hmem, hfront⟩ := mem_filter.mp (minBy_mem hs)
  rw [tiesOf_front hfront]
  exact multipath_of_select ((minBy_front hp).symm.trans hs) hmem

theorem exists_selected (hp : l.Perm routes) (h : multipath cfg l = some out) :
    ∃ b, minBy (compare cfg.toBestPathConfig)
      (l.filter (isFront cfg.toBestPathConfig routes)) = some b := by
  rw [minBy_front hp]
  cases hs : select cfg.toBestPathConfig l with
  | none => simp [multipath, hs] at h
  | some b => exact ⟨b, rfl⟩

end

/-- On a candidate list without a MED cycle among those that are minimal before MED, the
multipath set contains the selected route and does not depend on the order of the candidates
exactly when the operator asks for one path, or every choice of ties is the same: either every
minimum of `compare` has the same ties up to `eq` and there is room for all of them, or minima
tie with nothing but minima and equally many of them. -/
theorem multipath_correct_iff (cfg : MultipathConfig) (routes : List Route)
    (hno : ∀ x ∈ front cfg.toBestPathConfig routes, ∀ y ∈ front cfg.toBestPathConfig routes,
      ∀ z ∈ front cfg.toBestPathConfig routes, ¬ MedCycle cfg.toBestPathConfig x y z) :
    MultipathCorrect cfg routes ↔ cfg.multipath ≤ 1 ∨
      Stable (compare cfg.toBestPathConfig) (tiesWith cfg) cfg.multipath.toNat routes := by
  have hr := ((guardedLex_preorderOn_iff (medComparable_equivalence cfg.toBestPathConfig)
    (front cfg.toBestPathConfig routes)).mpr hno).rankedBy
  rw [← stable_front_iff]
  constructor
  · intro h
    by_cases hm : cfg.multipath ≤ 1
    · exact .inl hm
    right
    cases hs : minBy (compare cfg.toBestPathConfig) (front cfg.toBestPathConfig routes) with
    | none =>
      -- no candidates, no minima
      refine .inl fun a b ha _ => ?_
      obtain ⟨m, hsome⟩ : ∃ m, minBy (compare cfg.toBestPathConfig) _ = some m :=
        minBy_isSome (ne_nil_of_mem ha.1)
      cases hs.symm.trans hsome
    | some best =>
      refine (choice_perm_iff hr (tiesWith_self cfg) (multipath_pos hm) hs).mp fun l hp b hb => ?_
      -- an order of the candidates in front is that of an order of all of them
      have hall :
          (l ++ routes.filter fun r => !isFront cfg.toBestPathConfig routes r).Perm routes :=
        (hp.append_right _).trans (filter_append_perm _ routes)
      have hkeep : (l ++ routes.filter fun r => !isFront cfg.toBestPathConfig routes r).filter
          (isFront cfg.toBestPathConfig routes) = l := by
        rw [filter_append, filter_eq_self.mpr fun r hmem => (mem_filter.mp (hp.subset hmem)).2,
          filter_eq_nil_iff.mpr (by simp), append_nil]
      have hout := multipath_front (.refl routes) hs
      have hout' := multipath_front hall (hkeep.symm ▸ hb)
      rw [if_neg hm] at hout hout'
      rw [hkeep] at hout'
      exact h.order _ hall _ _ hout hout'
  · intro hcond
    refine ⟨fun hne => ?_, fun l hp out out' hout hout' => ?_⟩
    · obtain ⟨best, hs⟩ : ∃ best, select cfg.toBestPathConfig routes = some best := minBy_isSome hne
      have hs' := (minBy_front (.refl routes)).trans hs
      refine ⟨best, _, hs, multipath_of_select hs (minBy_mem hs), ?_⟩
      by_cases hm : cfg.multipath ≤ 1
      · rw [if_pos hm]
        exact isMultipathSet_single hm (minBy_mem hs)
      rw [if_neg hm]
      refine isMultipathSet_ties hm ?_
      rw [← tiesOf_front (mem_filter.mp (minBy_mem hs')).2]
      exact (hcond.resolve_left hm).mem_take hr (multipath_pos hm) (tiesWith_self cfg) hs'
    · obtain ⟨best, hs⟩ := exists_selected (.refl routes) hout
      obtain ⟨b, hb⟩ := exists_selected hp hout'
      have hmin := minBy_minimal hr hs
      have hmin' := minBy_minimal (hr.mono (hp.filter _).subset) hb
      rw [multipath_front (.refl routes) hs] at hout
      rw [multipath_front hp hb] at hout'
      cases hout
      cases hout'
      by_cases hm : cfg.multipath ≤ 1
      · rw [if_pos hm, if_pos hm]
        have hbest := hmin'.of_perm (hp.filter _)
        exact ⟨[b], .refl _, .cons ((hr.eq_iff hbest.1 hmin.1).mpr (hbest.rank_eq hr hmin)) .nil⟩
      · rw [if_neg hm, if_neg hm]
        exact (hcond.resolve_left hm).choice_perm hr (hp.filter _) hmin hmin'

/-- Two routes of one neighbouring AS, and room for both. -/
theorem multipath_correct_two :
    MultipathCorrect { multipath := 2 } [routeVia 1 0 2, routeVia 1 0 1] := by
  have hmed : ∀ x ∈ [routeVia 1 0 2, routeVia 1 0 1], ∀ y ∈ [routeVia 1 0 2, routeVia 1 0 1],
      compareMed {} x y ≠ .lt := by decide +kernel
  have hmin : ∀ b, Minimal (compare {}) [routeVia 1 0 2, routeVia 1 0 1] b →
      b = routeVia 1 0 1 := by
    have hbeaten : ∀ x ∈ [routeVia 1 0 2, routeVia 1 0 1],
        (compare {} x (routeVia 1 0 1)).isLE → x = routeVia 1 0 1 := by decide +kernel
    exact fun b hb => hbeaten b hb.1 (hb.2 _ (by simp))
  refine (multipath_correct_iff _ _ fun x hx y hy z hz hcycle => hmed x (mem_filter.mp hx).1 y
    (mem_filter.mp hy).1 hcycle.within_xy).mpr (.inr (.inl fun a b ha hb => ?_))
  obtain rfl := hmin a ha
  obtain rfl := hmin b hb
  refine ⟨length_filter_le _ _, _, .refl _, ?_⟩
  exact forall₂_same.mpr fun r _ => compare_self _ r

/-- Three routes of one neighbouring AS that differ in the peer only, and room for two: the
set takes the first two of the list and leaves out the selected route. -/
theorem multipath_misses_best :
    select {} [routeVia 1 0 3, routeVia 1 0 2, routeVia 1 0 1] = some (routeVia 1 0 1) ∧
    multipath { multipath := 2 } [routeVia 1 0 3, routeVia 1 0 2, routeVia 1 0 1] =
      some [routeVia 1 0 3, routeVia 1 0 2] ∧
    ¬ MultipathCorrect { multipath := 2 } [routeVia 1 0 3, routeVia 1 0 2, routeVia 1 0 1] := by
  have hselect : select {} [routeVia 1 0 3, routeVia 1 0 2, routeVia 1 0 1] =
      some (routeVia 1 0 1) := by decide +kernel
  have hset : multipath { multipath := 2 } [routeVia 1 0 3, routeVia 1 0 2, routeVia 1 0 1] =
      some [routeVia 1 0 3, routeVia 1 0 2] := by decide +kernel
  refine ⟨hselect, hset, fun h => ?_⟩
  obtain ⟨best, out, hs, ho, hout⟩ := h.isSet (by simp)
  obtain rfl : routeVia 1 0 1 = best := Option.some.inj (hselect.symm.trans hs)
  obtain rfl : [routeVia 1 0 3, routeVia 1 0 2] = out := Option.some.inj (hset.symm.trans ho)
  have hmissing : routeVia 1 0 1 ∉ [routeVia 1 0 3, routeVia 1 0 2] := by decide +kernel
  exact hmissing hout.selected

end BestPath

end LibRouting.Bgp
