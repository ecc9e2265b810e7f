/-
  Babel/Sources.lean --- the Updates of one source among those of others.

  A source is a destination, a source prefix and a router-id.  Routes are stored per
  source, but the table records one feasibility distance for all the router-ids of a
  target, and a repeated claim leaves the stored next hop as it is.
-/
import Mathlib.Data.List.Induction
import LibRouting.Babel.Route

set_option autoImplicit false

namespace LibRouting.Babel

open Foundation Core List

/-- A call of `insert_timed`. -/
structure Announcement where
  route : BabelRoute
  intervalCs : UInt16
  nowMs : Nat
  deriving DecidableEq, Repr

namespace BabelRouteTable

variable {t o : BabelRouteTable} {k : RouteKey} {us : List Announcement} {u : Announcement}

section

variable (t : BabelRouteTable)

/-- The table after the announcement. -/
def hear (u : Announcement) : BabelRouteTable :=
  t.insertTimed u.route u.intervalCs u.nowMs

/-- The table after a history of Updates. -/
def after (us : List Announcement) : BabelRouteTable := us.foldl hear .new

/-- The Updates of one source. -/
def ofSource (k : RouteKey) (us : List Announcement) : List Announcement :=
  us.filter fun u => u.route.key = k

/-- The Update is not ignored. -/
def accepts (route : BabelRoute) : Bool :=
  t.isRefresh route || t.admits route

/-- What the table holds for a source. -/
def entry (k : RouteKey) : Option BabelRoute × Option RouteTiming :=
  (t.routes[k]?, t.timing[k]?)

/-- `o` is the table of the Update's source alone: the Update is accepted and stored in `t`
as it is in `o`, and once accepted the entry carries it. -/
structure Independent (t o : BabelRouteTable) (u : Announcement) : Prop where
  accepted : t.accepts u.route = o.accepts u.route
  stored : (t.hear u).entry u.route.key = (o.hear u).entry u.route.key
  carried : t.accepts u.route = true →
    ∃ r, (t.hear u).routes[u.route.key]? = some r ∧
      r.seqno = u.route.seqno ∧ r.metric = u.route.metric ∧ r.nextHop = u.route.nextHop

/-- A new source is admitted; a repeated claim repeats the next hop; another claim of a
stored source is admitted exactly when it beats the stored one. -/
def Undisturbed (route : BabelRoute) : Prop :=
  match t.routes[route.key]? with
  | none => t.admits route = true
  | some r =>
    if r.distance = route.distance then r.nextHop = route.nextHop
    else t.admits route = Babel.feasible route.distance r.distance

theorem after_append (us : List Announcement) (u : Announcement) :
    after (us ++ [u]) = (after us).hear u := by
  simp [after]

theorem hear_entry (u : Announcement) (k : RouteKey) :
    (t.hear u).entry k =
      if u.route.key = k ∧ t.accepts u.route = true then
        (if t.isRefresh u.route then t.routes[k]? else some { u.route with feasible := true },
          some ⟨u.intervalCs, u.nowMs⟩)
      else t.entry k := by
  by_cases hk : u.route.key = k
  · cases hr : t.isRefresh u.route <;> cases ha : t.admits u.route <;>
      simp [hear, insertTimed, accepts, entry, accept, hr, ha, hk]
  · cases hr : t.isRefresh u.route <;> cases ha : t.admits u.route <;>
      simp [hear, insertTimed, entry, accept, hr, ha, hk, lookup_insert]

end

/-- A source on its own is measured against its stored route. -/
theorem own_distance (h : ∀ u ∈ us, u.route.key = k) :
    (after us).feasible[k.target]? = ((after us).routes[k]?).map BabelRoute.distance := by
  induction us using reverseRecOn with
  | nil => simp [after, new]
  | append_singleton us u ih =>
    have ih := ih fun u hu => h u (by simp [hu])
    obtain rfl := h u (by simp)
    rw [after_append, hear, insertTimed]
    split
    · exact ih
    split
    · rename_i hadmits
      rw [accept_feasible hadmits, accept_routes, if_pos rfl, if_pos rfl]
      rfl
    · exact ih

theorem independent_iff (h : t.entry u.route.key = o.entry u.route.key)
    (hown : o.feasible[u.route.key.target]? = (o.routes[u.route.key]?).map BabelRoute.distance) :
    Independent t o u ↔ t.Undisturbed u.route := by
  have hroutes : t.routes[u.route.key]? = o.routes[u.route.key]? := congrArg Prod.fst h
  have hrefresh : o.isRefresh u.route = t.isRefresh u.route := by
    rw [isRefresh, isRefresh, hroutes]
  -- where both tables decide alike, they store alike
  have hstored : t.accepts u.route = o.accepts u.route →
      (t.hear u).entry u.route.key = (o.hear u).entry u.route.key := by
    intro haccepts
    rw [hear_entry, hear_entry, haccepts, hrefresh, hroutes, h]
  have hclaim : t.isRefresh u.route = false →
      (Independent t o u ↔ t.admits u.route = o.admits u.route) := by
    intro hfirst
    have haccepts : t.accepts u.route = o.accepts u.route ↔
        t.admits u.route = o.admits u.route := by
      rw [accepts, accepts, hrefresh, hfirst, Bool.false_or, Bool.false_or]
    refine ⟨fun hi => haccepts.mp hi.accepted, fun hin => ⟨haccepts.mpr hin,
      hstored (haccepts.mpr hin), fun hacc => ?_⟩⟩
    have hentry := hear_entry t u u.route.key
    rw [if_pos ⟨rfl, hacc⟩, hfirst] at hentry
    exact ⟨_, congrArg Prod.fst hentry, rfl, rfl, rfl⟩
  rw [Undisturbed]
  cases hr : t.routes[u.route.key]? with
  | none =>
    have hadmits : o.admits u.route = true := by rw [admits, hown, ← hroutes, hr]; rfl
    rw [hclaim (by rw [isRefresh, hr]), hadmits]
  | some r =>
    have hsame : t.isRefresh u.route = decide (r.distance = u.route.distance) := by
      rw [isRefresh, hr, Bool.eq_iff_iff]
      simp [BabelRoute.distance]
    dsimp only
    split
    · rename_i hd
      rw [decide_eq_true hd] at hsame
      have hacc : t.accepts u.route = true ∧ o.accepts u.route = true := by
        simp [accepts, hrefresh, hsame]
      have hentry := hear_entry t u u.route.key
      rw [if_pos ⟨rfl, hacc.1⟩, if_pos hsame, hr] at hentry
      have hheld : (t.hear u).routes[u.route.key]? = some r := congrArg Prod.fst hentry
      obtain ⟨hseqno, hmetric⟩ := Distance.mk.inj hd
      constructor
      · intro hi
        obtain ⟨r', hr', -, -, hnext⟩ := hi.carried hacc.1
        cases hheld.symm.trans hr'
        exact hnext
      · intro hnext
        have haccepts := hacc.1.trans hacc.2.symm
        exact ⟨haccepts, hstored haccepts, fun _ => ⟨r, hheld, hseqno, hmetric, hnext⟩⟩
    · rename_i hd
      rw [hclaim (hsame.trans (decide_eq_false hd))]
      have hadmits : o.admits u.route = Babel.feasible u.route.distance r.distance := by
        rw [admits, hown, ← hroutes, hr]
        rfl
      rw [hadmits]

theorem ofSource_append (k : RouteKey) (us : List Announcement) (u : Announcement) :
    ofSource k (us ++ [u]) = if u.route.key = k then ofSource k us ++ [u] else ofSource k us := by
  rw [ofSource, filter_append]
  split <;> simp_all [ofSource]

/-- The table agrees with that of every source on its own. -/
def Apart (us : List Announcement) : Prop :=
  ∀ k, (after us).entry k = (after (ofSource k us)).entry k

theorem Apart.append (h : Apart us)
    (hu : Independent (after us) (after (ofSource u.route.key us)) u) :
    Apart (us ++ [u]) := by
  intro k
  rw [after_append, ofSource_append]
  split
  · rename_i hk
    subst hk
    rw [after_append]
    exact hu.stored
  · rename_i hk
    rw [hear_entry, if_neg fun h => hk h.1]
    exact h k

theorem Apart.independent_iff (h : Apart us) :
    Independent (after us) (after (ofSource u.route.key us)) u ↔ (after us).Undisturbed u.route :=
  BabelRouteTable.independent_iff (h _) (own_distance (by simp [ofSource]))

/-- **Sources.**  Every Update of a history is accepted and stored as if its source were the
only one, and carried by the entry, exactly when no Update of the history is disturbed. -/
theorem sourcesIndependent_iff (us : List Announcement) :
    (∀ pre u, pre ++ [u] <+: us →
      Independent (after pre) (after (ofSource u.route.key pre)) u) ↔
      ∀ pre u, pre ++ [u] <+: us → (after pre).Undisturbed u.route := by
  -- along the history each of the two conditions keeps the sources apart
  have hapart : (∀ pre u, pre ++ [u] <+: us → Apart pre →
      Independent (after pre) (after (ofSource u.route.key pre)) u) →
      ∀ pre, pre <+: us → Apart pre := by
    intro hi pre hpre
    induction pre using reverseRecOn with
    | nil => exact fun k => rfl
    | append_singleton pre u ih =>
      have h := ih ((prefix_append pre [u]).trans hpre)
      exact h.append (hi pre u hpre h)
  constructor
  · intro hi pre u hpre
    have h := hapart (fun pre u hpre _ => hi pre u hpre) pre ((prefix_append pre [u]).trans hpre)
    exact h.independent_iff.mp (hi pre u hpre)
  · intro hu pre u hpre
    have h := hapart (fun pre u hpre h => h.independent_iff.mpr (hu pre u hpre)) pre
      ((prefix_append pre [u]).trans hpre)
    exact h.independent_iff.mpr (hu pre u hpre)

/-- A route to 10.0.0.0/8 of one router. -/
def tenEight (router : UInt8) (metric : UInt32) (nextHop : UInt8) : Announcement where
  route := ⟨⟨.newV4 (.padded 4 [10]) 8, none, .padded 8 [router]⟩, 1, metric,
    .v4 (.padded 4 [192, 0, 2, nextHop]), false⟩
  intervalCs := 400
  nowMs := 0

/-- The better route of one router shuts out another router, which would be accepted on its
own; a repeated claim with another next hop keeps the old one. -/
theorem router_shut_out :
    (after [tenEight 1 100 1]).accepts (tenEight 2 200 2).route = false ∧
    (after (ofSource (tenEight 2 200 2).route.key [tenEight 1 100 1])).accepts
      (tenEight 2 200 2).route = true ∧
    (after [tenEight 1 100 1]).accepts (tenEight 1 100 2).route = true ∧
    ((after [tenEight 1 100 1, tenEight 1 100 2]).routes[(tenEight 1 100 1).route.key]?).map
      BabelRoute.nextHop = some (.v4 (.padded 4 [192, 0, 2, 1])) := by
  decide +kernel

end BabelRouteTable

end LibRouting.Babel
