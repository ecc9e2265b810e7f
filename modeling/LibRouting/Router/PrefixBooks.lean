/-
  Router/PrefixBooks.lean --- the max-prefix counter of a session against the routes it
  holds, event by event.

  The counter moves by increments, decrements and recounts at six places.  Each of them is
  an event of the import side.
-/
import LibRouting.Router.Ownership

set_option autoImplicit false

namespace LibRouting.Router

open Foundation Core Bgp Policy Rib List Option
open Std (ExtTreeMap)

/-! ## The books -/

namespace Ingress
variable {route : Route} {o : RouteOrigin} {rib : AdjRibIn} {admitted : List Route}

/-- The max-prefix counter of a session. -/
def counter (g : Ingress) (h : UInt64) : Nat :=
  ((g.maxPrefix[h]?).map fun st => st.count.toNat).getD 0

/-- How many Adj-RIB-In entries are held for a session, whatever their origin. -/
def entries (g : Ingress) (h : UInt64) : Nat :=
  countKeys (fun k : PathKey => k.origin.peer = h) g.adjRibIn

/-- The tables are filed and every counter is right. -/
structure Booked (own : UInt64 → Option RouteOrigin) (g : Ingress) : Prop where
  filed : g.Filed own
  balanced : ∀ h, g.counter h = g.entries h

variable {own : UInt64 → Option RouteOrigin} {g g' : Ingress} {h k : UInt64}

theorem counter_lt (g : Ingress) (h : UInt64) : g.counter h < 2 ^ 32 := by
  unfold counter
  cases g.maxPrefix[h]? with
  | none => simp
  | some st => exact st.count.toNat_lt

theorem counter_of_maxPrefix (hm : g'.maxPrefix = g.maxPrefix) (h : UInt64) :
    g'.counter h = g.counter h := by
  rw [counter, counter, hm]

theorem counter_agrees (ha : g.Agrees g') (h : UInt64) : g'.counter h = g.counter h := by
  have hsame := congrArg (Option.map UInt32.toNat) (ha.counts h)
  rw [Option.map_map, Option.map_map] at hsame
  exact congrArg (Option.getD · 0) hsame

theorem entries_of_adjRibIn (hin : g'.adjRibIn = g.adjRibIn) (h : UInt64) :
    g'.entries h = g.entries h := by
  rw [entries, entries, hin]

theorem entries_eq_zero : g.entries h = 0 ↔
    ∀ (k : PathKey) (route : Route), g.adjRibIn[k]? = some route → k.origin.peer ≠ h := by
  rw [entries, countKeys_eq_zero]
  simp

theorem entries_shrinks (hs : g.Shrinks g') (h : UInt64) : g'.entries h ≤ g.entries h :=
  countKeys_le fun k hk => by
    obtain ⟨route, hroute⟩ := isSome_iff_exists.mp hk
    obtain ⟨old, hold, -⟩ := hs.routes k route hroute
    rw [hold]
    rfl

theorem Booked.agrees (hg : g.Booked own) (ha : g.Agrees g') : g'.Booked own := by
  refine ⟨hg.filed.agrees ha, fun h => ?_⟩
  rw [counter_agrees ha, entries_of_adjRibIn ha.adjRibIn, hg.balanced]

theorem Booked.of_tables (hg : g.Booked own) (hin : g'.adjRibIn = g.adjRibIn)
    (hraw : g'.prePolicy = g.prePolicy) (hm : g'.maxPrefix = g.maxPrefix) : g'.Booked own := by
  refine ⟨hg.filed.of_tables hin hraw, fun h => ?_⟩
  rw [counter_of_maxPrefix hm, entries_of_adjRibIn hin, hg.balanced]

/-! ## Counting -/

theorem toNat_saturatingSucc {n : UInt32} (hn : n.toNat + 1 < 2 ^ 32) :
    (saturatingSucc n).toNat = n.toNat + 1 := by
  have hne : n ≠ 0xffffffff := by
    rintro rfl
    simp at hn
  rw [saturatingSucc, if_neg hne, UInt32.toNat_add]
  exact Nat.mod_eq_of_lt (by simpa using hn)

theorem toNat_saturatingSub (n m : UInt32) : (saturatingSub n m).toNat = n.toNat - m.toNat := by
  unfold saturatingSub
  split
  · rename_i hle
    exact UInt32.toNat_sub_of_le n m hle
  rename_i hle
  rw [UInt32.le_iff_toNat_le] at hle
  simp
  omega

theorem counter_uncount (g : Ingress) (s : UInt64) {n : Nat} (hn : n < 2 ^ 32) (h : UInt64) :
    (g.uncount s n).counter h = if s = h then g.counter h - n else g.counter h := by
  unfold counter uncount
  rw [lookup_modify]
  by_cases hs : s = h
  · subst hs
    have hcut : (UInt32.ofNat n).toNat = n := by
      rw [UInt32.toNat_ofNat']
      exact Nat.mod_eq_of_lt hn
    cases g.maxPrefix[s]? with
    | none => simp
    | some st => simp [MaxPrefixState.uncounted, toNat_saturatingSub, hcut]
  · simp [hs]

theorem Booked.take (hg : g.Booked own) {key : RouteKey} {pathId : UInt32}
    (hget : g.adjRibIn[(⟨o, key, pathId⟩ : PathKey)]? = some route) {raw : AdjRibIn}
    (hraw : Router.Filed own raw) :
    Booked own ({ g with
      adjRibIn := g.adjRibIn.withdraw o key pathId
      prePolicy := raw }.uncount o.peer 1) := by
  refine ⟨⟨hg.filed.routes.within (.withdraw _ _ _ _), hraw⟩, fun h => ?_⟩
  rw [counter_uncount _ _ (by decide)]
  have herase := countKeys_erase (fun k : PathKey => k.origin.peer = h) g.adjRibIn ⟨o, key, pathId⟩
  rw [ExtTreeMap.contains_eq_isSome_getElem?, hget] at herase
  have hbal : g.counter h = countKeys (fun k : PathKey => k.origin.peer = h) g.adjRibIn :=
    hg.balanced h
  change (if o.peer = h then g.counter h - 1 else g.counter h) =
    countKeys (fun k : PathKey => k.origin.peer = h) (g.adjRibIn.erase ⟨o, key, pathId⟩)
  by_cases hh : o.peer = h
  · simp only [hh, decide_true, isSome_some, Bool.and_true, if_true] at herase ⊢
    omega
  · simp only [hh, decide_false, Bool.false_and, Bool.false_eq_true, if_false] at herase ⊢
    omega

/-! ## Announcements and withdrawals -/

theorem Booked.store (hg : g.Booked own) (howner : own route.origin.peer = some route.origin)
    (hroom : g.entries route.origin.peer + 1 < 2 ^ 32) : (g.store route).Booked own := by
  have hinsert := fun h => countKeys_insert (fun k : PathKey => k.origin.peer = h) g.adjRibIn
    (.of route) route
  have hcontains : g.adjRibIn.contains (.of route) =
      (g.adjRibIn.get route.origin route.key route.pathId).isSome :=
    ExtTreeMap.contains_eq_isSome_getElem?
  refine ⟨⟨hg.filed.routes.feedPrePolicy howner, hg.filed.raw⟩, fun h => ?_⟩
  change _ = countKeys (fun k : PathKey => k.origin.peer = h) (g.adjRibIn.insert (.of route) route)
  rw [hinsert h, hcontains]
  have hbal := hg.balanced h
  unfold Ingress.store counter
  simp only
  cases hget : g.adjRibIn.get route.origin route.key route.pathId with
  | some old =>
    simp only [isSome_some, Bool.not_true, Bool.and_false, Bool.false_eq_true, if_false]
    exact hbal
  | none =>
    rw [lookup_insert]
    by_cases hh : route.origin.peer = h
    · subst hh
      have hcount : (((g.maxPrefix[route.origin.peer]?).getD {}).count).toNat =
          g.entries route.origin.peer := by
        rw [← hbal, counter]
        cases g.maxPrefix[route.origin.peer]? <;> rfl
      simp only [if_true, map_some, getD_some, MaxPrefixState.counted]
      rw [toNat_saturatingSucc (by rw [hcount]; exact hroom), hcount]
      simp [PathKey.of, entries]
    · simp only [if_false, PathKey.of, hh, decide_false, Bool.false_and, Bool.false_eq_true]
      exact hbal

theorem Booked.imported (hg : g.Booked own) {stored : Option Route} {keep : Bool}
    (howner : own route.origin.peer = some route.origin)
    (hstored : ∀ r, stored = some r → PathKey.of r = .of route)
    (hroom : g.entries route.origin.peer + 1 < 2 ^ 32) :
    (g.imported route stored keep).Booked own := by
  have hin := retainRaw_adjRibIn g keep route
  have hm := retainRaw_maxPrefix g keep route
  have hraw : (g.retainRaw keep route).Booked own := by
    refine ⟨hg.filed.retainRaw keep howner, fun h => ?_⟩
    rw [counter_of_maxPrefix hm, entries_of_adjRibIn hin, hg.balanced]
  cases stored with
  | none => exact hraw
  | some r =>
    have horigin : r.origin = route.origin := congrArg PathKey.origin (hstored r rfl)
    have hnoted : ((g.retainRaw keep route).noteRefreshed r.origin.peer r).Booked own :=
      hraw.of_tables rfl rfl rfl
    refine hnoted.store (by rw [horigin]; exact howner) ?_
    have hsame : ((g.retainRaw keep route).noteRefreshed r.origin.peer r).entries
        route.origin.peer = g.entries route.origin.peer := entries_of_adjRibIn hin _
    rw [horigin] at hsame ⊢
    rw [hsame]
    exact hroom

theorem entries_imported (g : Ingress) (route : Route) (stored : Option Route) (keep : Bool)
    (h : UInt64) : (g.imported route stored keep).entries h ≤ g.entries h + 1 := by
  cases stored with
  | none =>
    change (g.retainRaw keep route).entries h ≤ _
    rw [entries_of_adjRibIn (retainRaw_adjRibIn g keep route)]
    omega
  | some r =>
    have hin := retainRaw_adjRibIn g keep route
    change countKeys _ ((g.retainRaw keep route).adjRibIn.insert (.of r) r) ≤ countKeys _ _ + 1
    rw [countKeys_insert, hin]
    split <;> omega

theorem Booked.withdrawn (hg : g.Booked own) (o : RouteOrigin) (key : RouteKey)
    (pathId : UInt32) : (g.withdrawn o key pathId).Booked own := by
  have hraw := hg.filed.raw.within (.withdraw _ o key pathId)
  unfold Ingress.withdrawn
  simp only
  split
  · rename_i hsome
    obtain ⟨route, hget⟩ := isSome_iff_exists.mp hsome
    exact hg.take hget hraw
  · refine ⟨⟨hg.filed.routes, hraw⟩, hg.balanced⟩

/-! ## Purges -/

theorem length_iterOrigin (rib : AdjRibIn) (o : RouteOrigin) :
    (rib.iterOrigin o).length = countKeys (fun k : PathKey => k.origin = o) rib := by
  rw [AdjRibIn.iterOrigin, length_filterMap_eq_countP, countKeys]
  congr 1
  funext e
  by_cases he : e.1.origin = o <;> simp [he]

theorem entries_eq_add (hown : Owners own) (hf : g.Filed own) (h : UInt64) :
    g.entries h = countKeys (fun k : PathKey => k.origin = ⟨0, h⟩) g.adjRibIn +
      countKeys (fun k : PathKey => k.origin = ⟨1, h⟩) g.adjRibIn := by
  refine countP_or (fun e he => ?_) fun e _ => ?_
  · have hget := ExtTreeMap.mem_toList_iff_getElem?_eq_some.mp he
    simp [hown.peer_eq_iff hf.routes hget]
  · by_cases heq : e.1.origin = ⟨0, h⟩ <;> simp [heq]

theorem length_held (hown : Owners own) (hf : g.Filed own) (h : UInt64) :
    (g.held h).length = g.entries h := by
  rw [entries_eq_add hown hf, held]
  simp [originsOf, length_iterOrigin]

/-- The account of one session is closed and its entries are gone. -/
theorem balanced_without (hg : g.Booked own)
    (hcounter : ∀ k, g'.counter k = if h = k then 0 else g.counter k)
    (hin : ∀ p : PathKey, g'.adjRibIn[p]? = if p.origin.peer = h then none else g.adjRibIn[p]?)
    (k : UInt64) : g'.counter k = g'.entries k := by
  rw [hcounter]
  split
  · subst k
    refine (entries_eq_zero.mpr fun p route hp => ?_).symm
    rw [hin] at hp
    exact (ite_none_left_eq_some.mp hp).1
  · rename_i hk
    rw [hg.balanced]
    refine (countKeys_congr fun p hp => ?_).symm
    rw [hin, if_neg]
    rw [of_decide_eq_true hp]
    exact fun heq => hk heq.symm

theorem Booked.purge (hown : Owners own) (hg : g.Booked own) (h : UInt64) :
    (g.purge h).Booked own := by
  have hlen := length_held hown hg.filed h
  have hlt : (g.held h).length < 2 ^ 32 := by
    rw [hlen, ← hg.balanced]
    exact g.counter_lt h
  have hfiled : (g.purge h).Filed own :=
    ⟨(hg.filed.routes.within (.clearFor _ _)).within (.clearFor _ _),
      (hg.filed.raw.within (.clearFor _ _)).within (.clearFor _ _)⟩
  refine ⟨hfiled, balanced_without (h := h) hg (fun k => ?_)
    (clearFor_clearFor_getElem? hown hg.filed.routes)⟩
  refine (counter_uncount g h hlt k).trans ?_
  split
  · rw [hlen, ‹h = k›, hg.balanced, Nat.sub_self]
  · rfl

theorem Booked.cleaned (hown : Owners own) (hg : g.Booked own) (h : UInt64) :
    (g.cleaned h).Booked own := by
  unfold Ingress.cleaned
  split
  · exact hg
  · exact hg.purge hown h

theorem unlatched_agrees (g : Ingress) (h : UInt64) : g.Agrees (g.unlatched h) := by
  refine ⟨rfl, rfl, rfl, fun k => ?_⟩
  rw [unlatched, lookup_modify]
  split
  · rename_i heq
    subst heq
    rw [Option.map_map]
    rfl
  · rfl

theorem Booked.tornDown (hown : Owners own) (hg : g.Booked own) (h : UInt64)
    (retained : Option GracefulRestartState) : (g.tornDown h retained).Booked own := by
  have hunlatched : (g.unlatched h).Booked own := hg.agrees (g.unlatched_agrees h)
  unfold Ingress.tornDown
  split
  · exact hunlatched.cleaned hown h
  · split
    · exact hunlatched
    · exact hunlatched.of_tables rfl rfl rfl

/-! ## Stale routes -/

theorem nodup_iterOrigin (hf : Router.Filed own rib) (o : RouteOrigin) :
    ((rib.iterOrigin o).map PathKey.of).Nodup := by
  have hpaths : (rib.iterOrigin o).map PathKey.of =
      (rib.toList.map (·.1)).filter fun k => k.origin = o := by
    rw [AdjRibIn.iterOrigin, map_filterMap, ← filterMap_eq_filter, filterMap_map]
    refine filterMap_congr fun e he => ?_
    have hplace := hf.place e.1 e.2 (ExtTreeMap.mem_toList_iff_getElem?_eq_some.mp he)
    by_cases heq : e.1.origin = o <;> simp [heq, Option.guard, ← hplace]
  rw [hpaths]
  exact nodup_keys_filter _ rib

/-- Routes of one session are removed one by one. -/
theorem Booked.expireAll (ho : o.peer = h) {l : List Route} :
    ∀ {g : Ingress}, g.Booked own →
      (∀ route ∈ l, g.adjRibIn[PathKey.of route]? = some route ∧ route.origin = o) →
      (l.map PathKey.of).Nodup → (l.foldl (expire h o) g).Booked own := by
  induction l with
  | nil => exact fun hg _ _ => hg
  | cons route l ih =>
    intro g hg hhere hnodup
    obtain ⟨hget, horigin⟩ := hhere route (.head _)
    obtain ⟨hnew, hnodup⟩ := nodup_cons.mp hnodup
    subst horigin ho
    refine ih (hg.take hget hg.filed.raw) (fun r hr => ?_) hnodup
    obtain ⟨hr', hro⟩ := hhere r (.tail _ hr)
    refine ⟨?_, hro⟩
    change (g.adjRibIn.erase (.of route))[PathKey.of r]? = some r
    rw [lookup_erase, if_neg, hr']
    exact fun heq => hnew (mem_map.mpr ⟨r, hr, heq.symm⟩)

theorem Booked.foldl_origins {f : Ingress → RouteOrigin → Ingress} (hg : g.Booked own)
    (hf : ∀ (o : RouteOrigin) (g : Ingress), o.peer = h → g.Booked own → (f g o).Booked own) :
    ((originsOf h).foldl f g).Booked own :=
  hf _ _ rfl (hf _ _ rfl hg)

theorem Booked.finished (hg : g.Booked own) (h : UInt64) (family : NlriFamily) :
    (g.finished h family).Booked own := by
  unfold Ingress.finished
  split
  · exact hg
  rename_i state _
  have hended : (g.familyEnded h family state).Booked own := hg.of_tables rfl rfl rfl
  refine hended.foldl_origins fun o g ho hg => hg.expireAll ho (fun route hr => ?_) ?_
  · exact hg.filed.routes.mem_iterOrigin (mem_filter.mp hr).1
  · exact (nodup_iterOrigin hg.filed.routes o).sublist ((filter_sublist).map _)

theorem removedBy_eq (rib : AdjRibIn) (o : RouteOrigin) (f : Route → Option Route) :
    rib.removedBy o f = rib.toList.countP fun e => e.1.origin = o && (f e.2).isNone := by
  rw [AdjRibIn.removedBy, AdjRibIn.iterOrigin, countP_filterMap]
  congr 1
  funext e
  by_cases heq : e.1.origin = o <;> simp [heq]

/-- Entering the long-lived period removes the routes that may not be kept. -/
theorem Booked.stale (ho : o.peer = h) (s : GracefulRestartState) (hg : g.Booked own) :
    (g.stale s h o).Booked own := by
  have hsplit : ∀ k : UInt64, g.entries k = (g.stale s h o).entries k +
      if h = k then g.adjRibIn.removedBy o s.staled else 0 := by
    intro k
    have hcount := countKeys_filterMap (fun p : PathKey => p.origin.peer = k) g.adjRibIn
      fun p r => if p.origin = o then s.staled r else some r
    rw [removedBy_eq]
    refine hcount.trans (congrArg _ ?_)
    split
    · rename_i hk
      congr 1
      funext e
      by_cases heq : e.1.origin = o <;> simp [heq, ho, hk]
    rename_i hk
    refine countP_eq_zero.mpr fun e _ => ?_
    by_cases heq : e.1.origin = o
    · simp [heq, ho, hk]
    · simp [heq]
  have hlt : g.adjRibIn.removedBy o s.staled < 2 ^ 32 := by
    have hle := hsplit h
    rw [if_pos rfl, ← hg.balanced] at hle
    have hcounter := g.counter_lt h
    omega
  refine ⟨hg.filed.shrinks (stale_shrinks s h o g), fun k => ?_⟩
  have hcounter : (g.stale s h o).counter k = if h = k then
      g.counter k - g.adjRibIn.removedBy o s.staled else g.counter k := counter_uncount _ h hlt k
  have hk := hsplit k
  rw [← hg.balanced] at hk
  rw [hcounter]
  split
  · rename_i heq
    rw [if_pos heq] at hk
    omega
  · rename_i heq
    rw [if_neg heq] at hk
    exact hk

theorem Booked.windowElapsed (hown : Owners own) (hg : g.Booked own) (up : Bool) (h : UInt64) :
    (g.windowElapsed up h).Booked own := by
  have hmarked : ∀ gracefulRestart, Booked own { g with gracefulRestart } :=
    fun _ => hg.of_tables rfl rfl rfl
  fun_cases Ingress.windowElapsed up h g with
  | case1 => exact hg
  | case2 => exact hmarked _
  | case3 => exact (hmarked _).cleaned hown h
  | case4 state => exact (hmarked _).foldl_origins fun o g ho hg => hg.stale ho state

/-! ## Soft reconfiguration and removal -/

section

variable (h : UInt64) (l : List Route) (g : Ingress)

theorem refed_fold_adjRibIn {k : PathKey} (hk : ∀ route ∈ l, PathKey.of route ≠ k) :
    (l.foldl (refed h) g).adjRibIn[k]? = g.adjRibIn[k]? := by
  refine foldlRecOn (motive := fun t : Ingress => t.adjRibIn[k]? = _) l _ rfl
    fun t ht route hr => ?_
  change (t.adjRibIn.insert (.of route) route)[k]? = _
  rw [lookup_insert, if_neg (hk route hr), ht]

theorem refed_fold_maxPrefix : (l.foldl (refed h) g).maxPrefix = g.maxPrefix :=
  foldlRecOn (motive := fun t : Ingress => t.maxPrefix = _) l _ rfl fun _ ht _ _ => ht

theorem entries_refed_fold_le (k : UInt64) :
    (l.foldl (refed h) g).entries k ≤ g.entries k + l.length := by
  induction l generalizing g with
  | nil => exact Nat.le_refl _
  | cons route l ih =>
    have hrest := ih (refed h g route)
    have hone : (refed h g route).entries k ≤ g.entries k + 1 := by
      change countKeys _ (g.adjRibIn.insert (.of route) route) ≤ countKeys _ _ + 1
      rw [countKeys_insert]
      split <;> omega
    rw [foldl_cons, length_cons]
    omega

theorem counter_recount (h k : UInt64) :
    (g.recount h).counter k =
      if h = k ∧ (g.maxPrefix[h]?).isSome then (g.adjRibIn.iterOrigin ⟨0, h⟩).length % 2 ^ 32
      else g.counter k := by
  unfold counter recount
  simp only
  rw [lookup_modify]
  by_cases hk : h = k
  · subst hk
    cases hm : g.maxPrefix[h]? <;> simp
  · simp [hk]

end

/-- Without the routes an external session held and with those admitted again, no other
session's account changes. -/
theorem entries_reimported_ne (hadmitted : ∀ route ∈ admitted, route.origin = ⟨0, h⟩) (hk : h ≠ k) :
    (g.reimported h admitted).entries k = g.entries k := by
  refine countKeys_congr fun p hp => ?_
  have hpeer : p.origin.peer = k := of_decide_eq_true hp
  change (admitted.foldl (refed h)
    { g with adjRibIn := g.adjRibIn.clearFor ⟨0, h⟩ }).adjRibIn[p]? = g.adjRibIn[p]?
  rw [refed_fold_adjRibIn]
  · have hcleared := AdjRibIn.get_clearFor g.adjRibIn ⟨0, h⟩ p.origin p.key p.pathId
    rw [if_neg] at hcleared
    · exact hcleared
    · rintro heq
      rw [← heq] at hpeer
      exact hk hpeer
  · rintro route hr rfl
    refine hk ?_
    rw [← hpeer, PathKey.of, hadmitted route hr]

theorem length_external (howner : own h = some ⟨0, h⟩) (hf : g.Filed own) :
    (g.adjRibIn.iterOrigin ⟨0, h⟩).length = g.entries h := by
  rw [length_iterOrigin, entries, countKeys, countKeys]
  refine countP_congr fun e he => ?_
  have hown := hf.routes.owner e.1 e.2 (ExtTreeMap.mem_toList_iff_getElem?_eq_some.mp he)
  simp only [decide_eq_true_eq]
  constructor
  · intro heq
    rw [heq]
  · intro heq
    rw [heq, howner] at hown
    exact (some.inj hown).symm

/-- An external session holds what was admitted again and nothing else. -/
theorem entries_reimported_le (howner : own h = some ⟨0, h⟩) (hf : g.Filed own)
    (admitted : List Route) : (g.reimported h admitted).entries h ≤ admitted.length := by
  have hzero : Ingress.entries { g with adjRibIn := g.adjRibIn.clearFor ⟨0, h⟩ } h = 0 := by
    refine entries_eq_zero.mpr fun k route hk hpeer => ?_
    rw [AdjRibIn.clearFor, ExtTreeMap.getElem?_filter'] at hk
    obtain ⟨hk, hne⟩ := filter_eq_some_iff.mp hk
    have hown := hf.routes.owner k route hk
    rw [hpeer, howner] at hown
    exact of_decide_eq_true hne (some.inj hown).symm
  have hle := entries_refed_fold_le h admitted { g with adjRibIn := g.adjRibIn.clearFor ⟨0, h⟩ } h
  rw [hzero, Nat.zero_add] at hle
  exact hle

/-- The raw routes of an external session take the place of those it held.  The account,
if there is one, is set anew; if there is none, nothing may come in. -/
theorem Booked.reimported (hg : g.Booked own) (howner : own h = some ⟨0, h⟩)
    (hadmitted : ∀ route ∈ admitted, route.origin = ⟨0, h⟩)
    (haccount : (g.maxPrefix[h]?).isSome ∨ admitted = []) (hroom : admitted.length < 2 ^ 32) :
    (g.reimported h admitted).Booked own := by
  have hfiled : (g.reimported h admitted).Filed own := by
    refine hg.filed.reimported fun route hr => ?_
    rw [hadmitted route hr]
    exact howner
  refine ⟨hfiled, fun k => ?_⟩
  have hm : (admitted.foldl (refed h)
      { g with adjRibIn := g.adjRibIn.clearFor ⟨0, h⟩ }).maxPrefix = g.maxPrefix :=
    refed_fold_maxPrefix h admitted _
  by_cases hk : h = k
  · subst hk
    have hle := entries_reimported_le howner hg.filed admitted
    have hlen := length_external howner hfiled
    have hcounter : (g.reimported h admitted).counter h =
        if h = h ∧ (g.maxPrefix[h]?).isSome then
          ((g.reimported h admitted).adjRibIn.iterOrigin ⟨0, h⟩).length % 2 ^ 32
        else g.counter h := by
      rw [Ingress.reimported, counter_recount, hm, counter_of_maxPrefix hm]
      rfl
    rw [hcounter, hlen]
    split
    · exact Nat.mod_eq_of_lt (by omega)
    rename_i hnone
    have hnone : g.maxPrefix[h]? = none := by simpa using hnone
    rw [hnone] at haccount
    obtain rfl := haccount.resolve_left (by simp)
    have hzero : g.counter h = 0 := by rw [counter, hnone]; rfl
    have hbal := hg.balanced h
    simp only [length_nil] at hle
    omega
  · rw [entries_reimported_ne hadmitted hk, Ingress.reimported, counter_recount,
      if_neg (by simp [hk]),
      counter_of_maxPrefix hm, hg.balanced]

theorem forgotten_maxPrefix (h : UInt64) (l : List Route) {g : Ingress}
    (hg : g.maxPrefix[h]? = none) (hl : ∀ route ∈ l, route.origin.peer = h) (k : UInt64) :
    (l.foldl (fun g route => g.withdrawn route.origin route.key route.pathId) g).maxPrefix[k]? =
      g.maxPrefix[k]? := by
  refine foldlRecOn (motive := fun t : Ingress => ∀ j : UInt64, t.maxPrefix[j]? = g.maxPrefix[j]?)
    l _ (fun _ => rfl) (fun t ht route hr j => ?_) k
  rw [← ht j]
  unfold withdrawn
  simp only
  split
  · rw [remove, uncount, lookup_modify]
    split
    · rename_i heq
      subst heq
      simp [hl route hr, ht, hg]
    · rfl
  · rfl

theorem Booked.dropped (hown : Owners own) (hg : g.Booked own) (h : UInt64) :
    (g.dropped h).Booked (disowned own h) := by
  refine ⟨hg.filed.dropped hown h, balanced_without hg (fun k => ?_) (dropped_getElem? hg.filed h)⟩
  have hm : (g.dropped h).maxPrefix[k]? = (g.forgotten h).maxPrefix[k]? := by
    refine forgotten_maxPrefix h _ (by simp [forgotten]) (fun route hr => ?_) k
    exact of_decide_eq_true (mem_filter.mp hr).2
  rw [counter, hm, forgotten, lookup_erase]
  by_cases hk : h = k <;> simp [hk, counter]

end Ingress

end LibRouting.Router
