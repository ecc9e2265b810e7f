/-
  Router/LongLivedStale.lean --- what the peers without long-lived graceful restart are left
  with when a session goes into its long-lived stale period (`enter_llgr_period`,
  `withdraw_stale_from_non_llgr_sessions`).

  The loop takes the affected keys in turn.  Each turn runs the decision process and then
  withdraws from these peers whatever they have been sent for the key.
-/
import LibRouting.Router.Locality

set_option autoImplicit false

namespace LibRouting.Router

open Foundation Core Bgp Bgp.BestPath Policy Rib Option

/-! ## Withdrawals -/

namespace Egress

variable {e e' : Egress} {now : UInt64} {key : RouteKey} {session other : UInt64}
  {wanted : Session → Bool}

/-- Withdraw from a session what it has been sent for a key. -/
def withdrawHeld (now : UInt64) (key : RouteKey) (e : Egress) (session : UInt64) : Option Egress :=
  e.queueOrSendWithdrawal now session key (e.adjRibOut.txPathIds (destOf session) key)

/-- Whether that withdrawal reaches the connection. -/
def clears (e : Egress) (session : UInt64) (key : RouteKey) : Bool :=
  e.withdrawalSent session key (e.adjRibOut.txPathIds (destOf session) key)

theorem withdrawHeld_sessions (h : e.withdrawHeld now key session = some e')
    (hne : other ≠ session) :
    e'.sessions[other]? = e.sessions[other]? :=
  (queueOrSendWithdrawal_spec h).1 other hne

theorem withdrawHeld_get (h : e.withdrawHeld now key session = some e') (dest : RouteOrigin)
    (id : UInt32) :
    e'.adjRibOut.get dest key id =
      if e.clears session key ∧ dest = destOf session then none
      else e.adjRibOut.get dest key id := by
  have hget := (queueOrSendWithdrawal_spec h).2 dest key id
  by_cases hsent : e.clears session key = true ∧ dest = destOf session
  · rw [if_pos hsent, hget, ite_eq_left_iff]
    obtain ⟨hclears, rfl⟩ := hsent
    -- an identifier that is not withdrawn was not in use
    exact fun hnot => AdjRibOut.get_eq_none fun hmem => hnot ⟨hclears, rfl, rfl, hmem⟩
  · rw [if_neg hsent, hget, if_neg]
    exact fun hcond => hsent ⟨hcond.1, hcond.2.1⟩

theorem destOf_ne (h : other ≠ session) : destOf other ≠ destOf session := by
  intro heq
  exact h (congrArg RouteOrigin.peer heq)

/-- The withdrawal to one session is not affected by one to another. -/
theorem clears_withdrawHeld (h : e.withdrawHeld now key session = some e') (hne : other ≠ session) :
    e'.clears other key = e.clears other key := by
  have hpaths : e'.adjRibOut.pathsFor (destOf other) key =
    e.adjRibOut.pathsFor (destOf other) key := by
    refine AdjRibOut.pathsFor_congr fun id => ?_
    rw [withdrawHeld_get h, if_neg]
    exact fun hcond => destOf_ne hne hcond.2
  rw [clears, clears, withdrawalSent, withdrawalSent, withdrawHeld_sessions h hne,
    AdjRibOut.txPathIds, AdjRibOut.txPathIds, hpaths]

/-- The update of the key that waits in the queue of a session for its advertisement
interval. -/
def queued (e : Egress) (session : UInt64) (key : RouteKey) : List Route :=
  ((e.mraiOf session).pending[key]?.map PendingMraiUpdate.routes).getD []

theorem queued_setMrai (e : Egress) (m : MraiState) (k : RouteKey) :
    (e.setMrai session m).queued other k =
      if other = session then (m.pending[k]?.map PendingMraiUpdate.routes).getD []
      else e.queued other k := by
  simp only [queued, mraiOf, setMrai, lookup_insert, eq_comm (a := session)]
  split <;> rfl

theorem sendWithdrawal_queued {ids : List UInt32}
    (h : e.sendWithdrawal now session key ids = some e') (k : RouteKey) :
    e'.queued other k = e.queued other k := by
  unfold sendWithdrawal at h
  split at h
  · cases h
    rfl
  obtain ⟨p, -, h⟩ := bind_eq_some_iff.mp h
  split at h <;> cases h
  · rfl
  · refine (queued_setMrai _ _ k).trans ?_
    split
    · subst other
      rfl
    · rfl

/-- A withdrawal drops what is queued for the key, whether it goes out or not. -/
theorem withdrawHeld_queued (h : e.withdrawHeld now key session = some e') (k : RouteKey) :
    e'.queued other k = if other = session ∧ k = key then [] else e.queued other k := by
  rw [sendWithdrawal_queued h, queued_setMrai]
  by_cases hother : other = session
  · subst hother
    by_cases hkey : k = key
    · simp [hkey]
    · simp [hkey, lookup_erase, Ne.symm hkey, queued]
  · simp [hother]

theorem foldlM_withdrawHeld_queued {l : List UInt64}
    (h : l.foldlM (withdrawHeld now key) e = some e')
    (k : RouteKey) :
    e'.queued session k = if session ∈ l ∧ k = key then [] else e.queued session k := by
  induction l generalizing e with
  | nil =>
    cases h
    simp
  | cons first rest ih =>
    obtain ⟨mid, hmid, h⟩ := foldlM_cons_some.mp h
    rw [ih h, withdrawHeld_queued hmid]
    grind

theorem foldlM_withdrawHeld {l : List UInt64} (hl : l.Nodup)
    (h : l.foldlM (withdrawHeld now key) e = some e') :
    (∀ session ∈ l, ∀ id, e'.adjRibOut.get (destOf session) key id =
      if e.clears session key then none else e.adjRibOut.get (destOf session) key id) ∧
    ∀ dest, (∀ session ∈ l, dest ≠ destOf session) →
      ∀ id, e'.adjRibOut.get dest key id = e.adjRibOut.get dest key id := by
  induction l generalizing e with
  | nil =>
    cases h
    exact ⟨fun _ hmem => absurd hmem List.not_mem_nil, fun _ _ _ => rfl⟩
  | cons first rest ih =>
    obtain ⟨mid, hmid, h⟩ := foldlM_cons_some.mp h
    obtain ⟨hfirst, hrest⟩ := List.nodup_cons.mp hl
    obtain ⟨htaken, hleft⟩ := ih hrest h
    constructor
    · intro session hsession id
      rcases List.mem_cons.mp hsession with rfl | hsession
      · have hothers : ∀ other ∈ rest, destOf session ≠ destOf other := fun other hother =>
          destOf_ne fun heq => hfirst (heq ▸ hother)
        rw [hleft _ hothers, withdrawHeld_get hmid]
        simp
      have hne : session ≠ first := fun heq => hfirst (heq ▸ hsession)
      have hother : ¬(e.clears first key = true ∧ destOf session = destOf first) :=
        fun hcond => destOf_ne hne hcond.2
      rw [htaken session hsession, clears_withdrawHeld hmid hne, withdrawHeld_get hmid,
        if_neg hother]
    · intro dest hdest id
      rw [hleft dest (fun session hsession => hdest session (.tail _ hsession)),
        withdrawHeld_get hmid, if_neg fun hcond => hdest first (.head _) hcond.2]

theorem mem_withdrawFrom :
    session ∈ ((e.sessions.toList.filter fun entry => wanted entry.2 &&
      !(e.adjRibOut.txPathIds (destOf entry.1) key).isEmpty).map (·.1)) ↔
      ∃ s, e.sessions[session]? = some s ∧ wanted s = true ∧
        e.adjRibOut.txPathIds (destOf session) key ≠ [] := by
  simp only [List.mem_map, List.mem_filter, Prod.exists,
    Std.ExtTreeMap.mem_toList_iff_getElem?_eq_some, Bool.and_eq_true, Bool.not_eq_true',
    List.isEmpty_eq_false_iff]
  constructor
  · rintro ⟨other, s, ⟨hs, hwanted, hids⟩, rfl⟩
    exact ⟨s, hs, hwanted, hids⟩
  · rintro ⟨s, hs, hwanted, hids⟩
    exact ⟨session, s, ⟨hs, hwanted, hids⟩, rfl⟩

/-- A wanted session loses all it has been sent for the key when the withdrawal goes out;
nothing else changes. -/
theorem withdrawFrom_get (h : e.withdrawFrom now wanted key = some e') :
    (∀ session s, e.sessions[session]? = some s → wanted s = true →
      ∀ id, e'.adjRibOut.get (destOf session) key id =
        if e.clears session key then none else e.adjRibOut.get (destOf session) key id) ∧
    ∀ dest, (∀ session s, e.sessions[session]? = some s → wanted s = true → dest ≠ destOf session) →
      ∀ id, e'.adjRibOut.get dest key id = e.adjRibOut.get dest key id := by
  have hnodup : ((e.sessions.toList.filter fun entry => wanted entry.2 &&
      !(e.adjRibOut.txPathIds (destOf entry.1) key).isEmpty).map (·.1)).Nodup := by
    have hkeys := nodup_keys_filter (fun _ => true) e.sessions
    rw [List.filter_true] at hkeys
    exact hkeys.sublist (List.Sublist.map _ List.filter_sublist)
  obtain ⟨htaken, hleft⟩ := foldlM_withdrawHeld hnodup h
  constructor
  · intro session s hs hwanted id
    by_cases hids : e.adjRibOut.txPathIds (destOf session) key = []
    · rw [hleft, AdjRibOut.get_eq_none (by simp [hids]), ite_self]
      intro other hother heq
      obtain rfl : session = other := congrArg RouteOrigin.peer heq
      obtain ⟨-, -, -, hnonempty⟩ := mem_withdrawFrom.mp hother
      exact hnonempty hids
    · exact htaken session (mem_withdrawFrom.mpr ⟨s, hs, hwanted, hids⟩) id
  · intro dest hdest id
    refine hleft dest (fun session hsession => ?_) id
    obtain ⟨s, hs, hwanted, -⟩ := mem_withdrawFrom.mp hsession
    exact hdest session s hs hwanted

theorem withdrawFrom_queued (h : e.withdrawFrom now wanted key = some e') (k : RouteKey) :
    e'.queued session k =
      if (∃ s, e.sessions[session]? = some s ∧ wanted s = true ∧
        e.adjRibOut.txPathIds (destOf session) key ≠ []) ∧ k = key then []
      else e.queued session k := by
  simp only [foldlM_withdrawHeld_queued h, mem_withdrawFrom]

end Egress

/-! ## The turns of the loop -/

/-- One affected key. -/
structure LlgrTurn where
  key : RouteKey
  /-- The decision process has run; the withdrawals are about to be issued. -/
  before : DefaultRouter
  after : DefaultRouter

namespace DefaultRouter

/-- The loop body of `enter_llgr_period`. -/
def llgrTurn (fuel : Nat) (r : DefaultRouter) (key : RouteKey) : Option LlgrTurn := do
  let before ← r.reselect fuel key
  let egress ← before.egress.withdrawStaleFromNonLlgrSessions before.nowMs key
  some ⟨key, before, { before with egress }⟩

/-- The loop of `enter_llgr_period`, turn by turn. -/
def llgrTurns (fuel : Nat) : DefaultRouter → List RouteKey → Option (List LlgrTurn)
  | _, [] => some []
  | r, key :: keys => do
      let turn ← r.llgrTurn fuel key
      let rest ← llgrTurns fuel turn.after keys
      some (turn :: rest)

/-- The routes of the session are marked or dropped; the loop has not begun. -/
def staled (r : DefaultRouter) (h : UInt64) (state : GracefulRestartState) : DefaultRouter :=
  { r with ingress := (originsOf h).foldl (Ingress.stale state h) r.ingress }

/-- Where a sequence of turns leads. -/
def afterTurns (r : DefaultRouter) (turns : List LlgrTurn) : DefaultRouter :=
  (turns.getLast?.map LlgrTurn.after).getD r

variable {r r' : DefaultRouter} {fuel : Nat}

theorem afterTurns_cons (turn : LlgrTurn) (rest : List LlgrTurn) :
    r.afterTurns (turn :: rest) = turn.after.afterTurns rest := by
  unfold afterTurns
  cases rest with
  | nil => rfl
  | cons next rest => rw [List.getLast?_cons_cons]; rfl

theorem foldlM_eq_llgrTurns (keys : List RouteKey) (r : DefaultRouter) :
    keys.foldlM (fun r key => do
      let r ← r.reselect fuel key
      let egress ← r.egress.withdrawStaleFromNonLlgrSessions r.nowMs key
      some { r with egress }) r = (r.llgrTurns fuel keys).map r.afterTurns := by
  induction keys generalizing r with
  | nil => rfl
  | cons key keys ih =>
    rw [List.foldlM_cons, llgrTurns]
    unfold llgrTurn
    cases r.reselect fuel key with
    | none => rfl
    | some before =>
      cases hegress : before.egress.withdrawStaleFromNonLlgrSessions before.nowMs key with
      | none => simp [hegress]
      | some egress =>
        simp only [bind_eq_bind, bind_some, hegress]
        refine (ih { before with egress }).trans ?_
        cases llgrTurns fuel { before with egress } keys with
        | none => rfl
        | some rest => simp [afterTurns_cons]

theorem enterLlgrPeriod_eq (h : UInt64) (state : GracefulRestartState) :
    r.enterLlgrPeriod fuel h state =
      ((r.staled h state).llgrTurns fuel (r.ingress.unrefreshed state h)).map
        (r.staled h state).afterTurns :=
  foldlM_eq_llgrTurns _ _

/-! ## Fresh and stale paths -/

section

variable (r : DefaultRouter) (s : Session) (key : RouteKey)

/-- The paths of the selection for a key that a session is to see: all of them on an
Add-Path session, else the best one. -/
def shownTo : List Route :=
  if s.peer.addPathTxFor key.family then r.rib.locRib.paths key
  else (r.rib.locRib.best key).toList

/-- A path that was sent to the session: it carries no mark, and its source still has a path
without the mark in the selection the session is to see. -/
def Fresh (route : Route) : Prop :=
  isLlgrStale route = false ∧
    ∃ selected ∈ r.shownTo s key, selected.origin = route.origin ∧ isLlgrStale selected = false

/-- A path that was sent to the session: it carries the mark, or it is what was sent of a
source whose path has been marked since. -/
def Stale (route : Route) : Prop :=
  isLlgrStale route = true ∨
    ¬r.Fresh s key route ∧
      ∃ path ∈ r.decision.received key, path.origin = route.origin ∧ isLlgrStale path = true

/-- The session has been sent the path under this identifier and it was not withdrawn. -/
def Holds (session : UInt64) (key : RouteKey) (id : UInt32) (route : Route) : Prop :=
  r.egress.adjRibOut.get (destOf session) key id = some route

/-- The session has been sent the path, or it waits in the session's queue. -/
def Due (session : UInt64) (key : RouteKey) (route : Route) : Prop :=
  (∃ id, r.Holds session key id route) ∨ route ∈ r.egress.queued session key

end

end DefaultRouter

/-- The session is up and its peer has not negotiated long-lived graceful restart. -/
def Session.withoutLlgr (s : Session) : Bool := s.peer.established && !s.peer.llgrNegotiated

namespace LlgrTurn

/-- The withdrawals of the turn take away the stale paths and nothing else. -/
structure Separates (turn : LlgrTurn) : Prop where
  /-- A source with a fresh path in the selection is not withdrawn, or announced again. -/
  keeps : ∀ session s, turn.before.session session = some s → s.withoutLlgr = true →
    ∀ route, turn.before.Due session turn.key route → turn.before.Fresh s turn.key route →
      ∃ route', turn.after.Due session turn.key route' ∧ route'.origin = route.origin
  /-- No stale path is left. -/
  takes : ∀ session s, turn.before.session session = some s → s.withoutLlgr = true →
    ∀ route, turn.after.Due session turn.key route → ¬turn.before.Stale s turn.key route
  /-- The other sessions and the other keys are left alone. -/
  others : ∀ session key, (key ≠ turn.key ∨
      ∀ s, turn.before.session session = some s → s.withoutLlgr = false) →
    (∀ id route, turn.after.Holds session key id route ↔ turn.before.Holds session key id route) ∧
      turn.after.egress.queued session key = turn.before.egress.queued session key

/-- What a peer without LLGR has been sent for the key, or is to be sent, is of one kind.
A peer that has been sent something loses it with the queue, or only the queue if the
withdrawal cannot be sent; one that has been sent nothing is passed over. -/
def OfOneKind (turn : LlgrTurn) : Prop :=
  ∀ session s, turn.before.session session = some s → s.withoutLlgr = true →
    if turn.before.egress.adjRibOut.txPathIds (destOf session) turn.key = [] then
      ∀ route ∈ turn.before.egress.queued session turn.key, ¬turn.before.Stale s turn.key route
    else if turn.before.egress.clears session turn.key then
      ∀ route, turn.before.Due session turn.key route → ¬turn.before.Fresh s turn.key route
    else
      (∀ id route, turn.before.Holds session turn.key id route →
        ¬turn.before.Stale s turn.key route) ∧
      ∀ route ∈ turn.before.egress.queued session turn.key, turn.before.Fresh s turn.key route →
        ∃ id route', turn.before.Holds session turn.key id route' ∧ route'.origin = route.origin

end LlgrTurn

namespace DefaultRouter

variable {r : DefaultRouter} {fuel : Nat} {key : RouteKey} {turn : LlgrTurn} {s : Session}
  {k : RouteKey} {keys : List RouteKey} {turns : List LlgrTurn}

section

variable (h : r.llgrTurn fuel key = some turn) {session : UInt64}
include h

theorem llgrTurn_eq_some :
    turn.key = key ∧ r.reselect fuel key = some turn.before ∧
      ∃ egress, turn.before.egress.withdrawFrom turn.before.nowMs Session.withoutLlgr key =
        some egress ∧ turn.after = { turn.before with egress } := by
  obtain ⟨before, hbefore, h⟩ := bind_eq_some_iff.mp h
  obtain ⟨egress, hegress, h⟩ := bind_eq_some_iff.mp h
  cases h
  exact ⟨rfl, hbefore, egress, hegress, rfl⟩

/-- What a peer without LLGR has been sent for the key after a turn. -/
theorem llgrTurn_get (hs : turn.before.session session = some s) (hw : s.withoutLlgr = true)
    (id : UInt32) :
    turn.after.egress.adjRibOut.get (destOf session) turn.key id =
      if turn.before.egress.clears session turn.key then none
      else turn.before.egress.adjRibOut.get (destOf session) turn.key id := by
  obtain ⟨rfl, -, egress, hegress, hafter⟩ := llgrTurn_eq_some h
  rw [hafter]
  exact (Egress.withdrawFrom_get hegress).1 session s hs hw id

theorem llgrTurn_others
    (hk : k ≠ turn.key ∨ ∀ s, turn.before.session session = some s → s.withoutLlgr = false)
    (id : UInt32) :
    turn.after.egress.adjRibOut.get (destOf session) k id =
      turn.before.egress.adjRibOut.get (destOf session) k id := by
  obtain ⟨rfl, -, egress, hegress, hafter⟩ := llgrTurn_eq_some h
  rw [hafter]
  by_cases hkey : k = turn.key
  · subst hkey
    have hothers := hk.resolve_left (fun hne => hne rfl)
    refine (Egress.withdrawFrom_get hegress).2 (destOf session) (fun other s hs hw heq => ?_) id
    obtain rfl : session = other := congrArg RouteOrigin.peer heq
    rw [hothers s hs] at hw
    cases hw
  · exact Egress.elsewhere_withdrawFrom hegress _ _ _ hkey

theorem llgrTurn_queued (k : RouteKey) :
    turn.after.egress.queued session k =
      if (∃ s, turn.before.session session = some s ∧ s.withoutLlgr = true ∧
        turn.before.egress.adjRibOut.txPathIds (destOf session) turn.key ≠ []) ∧
        k = turn.key then []
      else turn.before.egress.queued session k := by
  obtain ⟨rfl, -, egress, hegress, hafter⟩ := llgrTurn_eq_some h
  rw [hafter]
  exact Egress.withdrawFrom_queued hegress k

/-- What a peer without LLGR has been sent or is to be sent for the key after a turn. -/
theorem llgrTurn_due (hs : turn.before.session session = some s) (hw : s.withoutLlgr = true)
    (route : Route) :
    turn.after.Due session turn.key route ↔
      if turn.before.egress.adjRibOut.txPathIds (destOf session) turn.key = [] then
        route ∈ turn.before.egress.queued session turn.key
      else if turn.before.egress.clears session turn.key then False
      else ∃ id, turn.before.Holds session turn.key id route := by
  simp only [Due, Holds, llgrTurn_get h hs hw, llgrTurn_queued h]
  by_cases hids : turn.before.egress.adjRibOut.txPathIds (destOf session) turn.key = []
  · have hnone : ∀ id, turn.before.egress.adjRibOut.get (destOf session) turn.key id = none :=
      fun id => AdjRibOut.get_eq_none (by simp [hids])
    simp [hids, hnone]
  · rw [if_pos ⟨⟨s, hs, hw, hids⟩, trivial⟩, if_neg hids]
    split <;> simp

/-- The turn separates fresh from stale paths exactly when a peer without LLGR never has
both kinds to lose. -/
theorem llgrTurn_separates :
    turn.Separates ↔ turn.OfOneKind := by
  constructor
  · intro hsep session s hs hw
    have hkeeps := hsep.keeps session s hs hw
    have htakes := hsep.takes session s hs hw
    simp only [llgrTurn_due h hs hw] at hkeeps htakes
    split
    · rename_i hids
      simpa only [if_pos hids] using htakes
    rename_i hids
    simp only [if_neg hids] at hkeeps htakes
    split
    · rename_i hclears
      intro route hdue hfresh
      obtain ⟨route', hnone, -⟩ := hkeeps route hdue hfresh
      rwa [if_pos hclears] at hnone
    · rename_i hclears
      simp only [if_neg hclears] at hkeeps htakes
      refine ⟨fun id route hheld => htakes route ⟨id, hheld⟩, fun route hqueued hfresh => ?_⟩
      obtain ⟨route', ⟨id, hheld⟩, horigin⟩ := hkeeps route (.inr hqueued) hfresh
      exact ⟨id, route', hheld, horigin⟩
  · intro hkind
    refine ⟨fun session s hs hw => ?_, fun session s hs hw => ?_, fun session k hk => ⟨?_, ?_⟩⟩
    · have hone := hkind session s hs hw
      intro route hdue hfresh
      simp only [llgrTurn_due h hs hw]
      split at hone
      · rename_i hids
        refine ⟨route, ?_, rfl⟩
        rw [if_pos hids]
        refine hdue.resolve_left ?_
        rintro ⟨id, hheld⟩
        rw [Holds, AdjRibOut.get_eq_none (by simp [hids])] at hheld
        cases hheld
      rename_i hids
      split at hone
      · exact absurd hfresh (hone route hdue)
      · rename_i hclears
        simp only [if_neg hids, if_neg hclears]
        obtain hheld | hqueued := hdue
        · exact ⟨route, hheld, rfl⟩
        · obtain ⟨id, route', hheld, horigin⟩ := hone.2 route hqueued hfresh
          exact ⟨route', ⟨id, hheld⟩, horigin⟩
    · have hone := hkind session s hs hw
      intro route hdue
      rw [llgrTurn_due h hs hw] at hdue
      split at hone
      · rename_i hids
        rw [if_pos hids] at hdue
        exact hone route hdue
      rename_i hids
      rw [if_neg hids] at hdue
      split at hone
      · rename_i hclears
        rw [if_pos hclears] at hdue
        exact hdue.elim
      · rename_i hclears
        rw [if_neg hclears] at hdue
        obtain ⟨id, hheld⟩ := hdue
        exact hone.1 id route hheld
    · intro id route
      rw [Holds, Holds, llgrTurn_others h hk]
    · rw [llgrTurn_queued h, if_neg]
      rintro ⟨⟨s, hs, hw, -⟩, rfl⟩
      have hnot := hk.resolve_left (fun hne => hne rfl) s hs
      rw [hw] at hnot
      cases hnot

end

/-! ## A whole period -/

/-- No peer without LLGR has a stale path for the key. -/
def NoneStale (r : DefaultRouter) (key : RouteKey) : Prop :=
  ∀ session s, r.session session = some s → s.withoutLlgr = true →
    ∀ id route, r.Holds session key id route → ¬r.Stale s key route

/-- Every candidate for the key carries the mark. -/
def OnlyStale (r : DefaultRouter) (key : RouteKey) : Prop :=
  ∀ route ∈ r.decision.candidates r.rib key, isLlgrStale route = true

variable {r' : DefaultRouter} {s' : Session}

theorem stale_congr (hpaths : r'.rib.locRib.paths key = r.rib.locRib.paths key)
    (hingress : r'.ingress = r.ingress) (hstill : s'.still = s.still) (route : Route) :
    r'.Stale s' key route ↔ r.Stale s key route := by
  have htx : s'.peer.addPathTxFor key.family = s.peer.addPathTxFor key.family := by
    have htx := congrArg (fun s : Session => s.peer.addPathTxFor key.family) hstill
    exact htx
  have hshown : r'.shownTo s' key = r.shownTo s key := by
    rw [shownTo, shownTo, htx, hpaths, LocRib.best, LocRib.best, hpaths]
  have hreceived : r'.decision.received key = r.decision.received key := by
    rw [Decision.received, Decision.received, decision, decision, hingress]
  rw [Stale, Stale, Fresh, Fresh, hshown, hreceived]

theorem withoutLlgr_back (h : Frame r r') {session : UInt64} (hs' : r'.session session = some s')
    (hw : s'.withoutLlgr = true) :
    ∃ s, r.session session = some s ∧ s.withoutLlgr = true ∧ s'.still = s.still := by
  have hsame := h.sessions session
  rw [show r'.egress.sessions[session]? = some s' from hs', map_some] at hsame
  obtain ⟨s, hs, hstill⟩ := map_eq_some_iff.mp hsame.symm
  have hwithout := congrArg Session.withoutLlgr hstill
  exact ⟨s, hs, hwithout.trans hw, hstill.symm⟩

theorem llgrTurn_frame (h : r.llgrTurn fuel key = some turn) :
    Frame r turn.after ∧ turn.after.ingress = r.ingress ∧ Frame turn.before turn.after ∧
      turn.after.ingress = turn.before.ingress ∧ turn.after.rib = turn.before.rib := by
  obtain ⟨rfl, hbefore, egress, hegress, hafter⟩ := llgrTurn_eq_some h
  obtain ⟨hframe, hingress⟩ := reselect_frame hbefore
  have hlast : Frame turn.before { turn.before with egress } :=
    .of_egress (Egress.same_withdrawFrom hegress)
  rw [hafter]
  exact ⟨hframe.trans hlast, hingress, hlast, rfl, rfl⟩

/-- A turn whose withdrawals hit only stale paths leaves none for its key. -/
theorem llgrTurn_noneStale (h : r.llgrTurn fuel key = some turn) (hkind : turn.OfOneKind) :
    turn.after.NoneStale turn.key := by
  obtain ⟨-, -, hframe, hingress, hrib⟩ := llgrTurn_frame h
  intro session s' hs' hw id route hheld
  obtain ⟨s, hs, hw, hstill⟩ := withoutLlgr_back hframe hs' hw
  rw [stale_congr (by rw [hrib]) hingress hstill]
  exact ((llgrTurn_separates h).mpr hkind).takes session s hs hw route (.inl ⟨id, hheld⟩)

/-- A turn leaves the other keys alone, those of aggregates aside. -/
theorem llgrTurn_noneStale_of_ne
    (hhooks : ∀ session, ∀ hook ∈ r.settings.hooks.exports, KeepsPath (hook session))
    (hidle : r.rib.exports = []) (h : r.llgrTurn fuel key = some turn) (hne : k ≠ key)
    (hagg : ¬r.IsAggregateKey k) (hnone : r.NoneStale k) : turn.after.NoneStale k := by
  obtain ⟨hframe, hingress, -, -, hrib⟩ := llgrTurn_frame h
  obtain ⟨hkey, hbefore, -⟩ := llgrTurn_eq_some h
  obtain ⟨hpaths, hheld⟩ := reselect_elsewhere hhooks hidle hbefore k hne hagg
  intro session s' hs' hw id route hafter
  obtain ⟨s, hs, hw, hstill⟩ := withoutLlgr_back hframe hs' hw
  rw [stale_congr (hrib ▸ hpaths) hingress hstill]
  rw [Holds, llgrTurn_others h (.inl (hkey ▸ hne)), hheld] at hafter
  exact hnone session s hs hw id route hafter

/-- The candidates for a key are the same before and after a turn, unless the key is an
aggregate's. -/
theorem llgrTurn_candidates (h : r.llgrTurn fuel key = some turn) (hagg : ¬r.IsAggregateKey k) :
    turn.after.decision.candidates turn.after.rib k = r.decision.candidates r.rib k := by
  obtain ⟨hframe, hingress, -, -, hrib⟩ := llgrTurn_frame h
  obtain ⟨-, hbefore, -⟩ := llgrTurn_eq_some h
  simp only [Decision.candidates, Decision.received, decision, hrib,
    reselect_originated hbefore hagg, hingress, hframe.staticRoutes, hframe.connectedRoutes,
    hframe.directRib]

/-- With every candidate marked nothing fresh is selected. -/
theorem llgrTurn_not_fresh (h : r.llgrTurn fuel key = some turn)
    (hpipes : ∀ pipe ∈ r.pipes, pipe.target ≠ .bgp) (hagg : ¬r.IsAggregateKey key)
    (honly : r.OnlyStale key) (s : Session) (route : Route) : ¬turn.before.Fresh s key route := by
  rintro ⟨-, selected, hselected, -, hmark⟩
  obtain ⟨-, hbefore, -⟩ := llgrTurn_eq_some h
  have hmem : selected ∈ turn.before.rib.locRib.paths key := by
    unfold shownTo at hselected
    split at hselected
    · exact hselected
    · exact List.mem_of_mem_head? (mem_toList.mp hselected)
  rw [reselect_paths hpipes hagg hbefore] at hmem
  rw [honly selected (Decision.rankCandidates_subset hmem)] at hmark
  cases hmark

theorem llgrTurns_cons (h : llgrTurns fuel r (key :: keys) = some turns) :
    ∃ first rest, r.llgrTurn fuel key = some first ∧
      llgrTurns fuel first.after keys = some rest ∧ turns = first :: rest := by
  obtain ⟨first, hfirst, h⟩ := bind_eq_some_iff.mp h
  obtain ⟨rest, hrest, h⟩ := bind_eq_some_iff.mp h
  cases h
  exact ⟨first, rest, hfirst, hrest, rfl⟩

/-- What every turn preserves holds where each of them begins. -/
theorem llgrTurns_mem {P : DefaultRouter → Prop}
    (hstep : ∀ r key turn, P r → r.llgrTurn fuel key = some turn → P turn.after)
    (h : llgrTurns fuel r keys = some turns) (hr : P r) (hturn : turn ∈ turns) :
    ∃ start : DefaultRouter, P start ∧ start.llgrTurn fuel turn.key = some turn := by
  induction keys generalizing r turns with
  | nil =>
    cases h
    cases hturn
  | cons key keys ih =>
    obtain ⟨first, rest, hfirst, hrest, rfl⟩ := llgrTurns_cons h
    rcases List.mem_cons.mp hturn with rfl | hturn
    · obtain ⟨rfl, -⟩ := llgrTurn_eq_some hfirst
      exact ⟨r, hr, hfirst⟩
    · exact ih hrest (hstep r key first hr hfirst) hturn

theorem isAggregateKey_of_frame (h : Frame r r') (k : RouteKey) :
    r'.IsAggregateKey k ↔ r.IsAggregateKey k := by
  rw [IsAggregateKey, IsAggregateKey, Decision.IsAggregateKey, Decision.IsAggregateKey, decision,
    decision, h.aggregates]

/-- Once the turn of a key is over, or if there was nothing to do, no stale path is left for
it. -/
theorem llgrTurns_noneStale
    (hhooks : ∀ session, ∀ hook ∈ r.settings.hooks.exports, KeepsPath (hook session))
    (hidle : r.rib.exports = []) (h : llgrTurns fuel r keys = some turns)
    (hagg : ¬r.IsAggregateKey k) (hkind : ∀ turn ∈ turns, turn.key = k → turn.OfOneKind)
    (hk : k ∈ keys ∨ r.NoneStale k) : (r.afterTurns turns).NoneStale k := by
  induction keys generalizing r turns with
  | nil =>
    cases h
    exact hk.resolve_left List.not_mem_nil
  | cons key keys ih =>
    obtain ⟨first, rest, hfirst, hrest, rfl⟩ := llgrTurns_cons h
    obtain ⟨hframe, -, -, -, hrib⟩ := llgrTurn_frame hfirst
    obtain ⟨hkey, hbefore, -⟩ := llgrTurn_eq_some hfirst
    rw [afterTurns_cons]
    refine ih ?_ ?_ hrest ?_ (fun turn hturn => hkind turn (.tail _ hturn)) ?_
    · rwa [hframe.settings]
    · rw [hrib]
      exact reselect_idle hbefore
    · rwa [isAggregateKey_of_frame hframe]
    by_cases hsame : k = key
    · subst hsame
      exact .inr (hkey ▸ llgrTurn_noneStale hfirst (hkind first (.head _) hkey))
    · rcases hk with hk | hnone
      · exact .inl ((List.mem_cons.mp hk).resolve_left hsame)
      · exact .inr (llgrTurn_noneStale_of_ne hhooks hidle hfirst hsame hagg hnone)

/-- With every candidate for a key marked no turn finds a fresh path for it. -/
theorem llgrTurns_not_fresh (h : llgrTurns fuel r keys = some turns)
    (hpipes : ∀ pipe ∈ r.pipes, pipe.target ≠ .bgp) (hagg : ¬r.IsAggregateKey k)
    (honly : r.OnlyStale k) (hturn : turn ∈ turns) (hkey : turn.key = k) (s : Session)
    (route : Route) : ¬turn.before.Fresh s k route := by
  obtain ⟨start, ⟨hpipes, hagg, honly⟩, hstart⟩ := llgrTurns_mem
    (P := fun r => (∀ pipe ∈ r.pipes, pipe.target ≠ .bgp) ∧ ¬r.IsAggregateKey k ∧ r.OnlyStale k)
    (fun r key turn ⟨hpipes, hagg, honly⟩ hstep => by
      have hframe := (llgrTurn_frame hstep).1
      refine ⟨by rwa [hframe.pipes], by rwa [isAggregateKey_of_frame hframe], fun path hpath => ?_⟩
      rw [llgrTurn_candidates hstep hagg] at hpath
      exact honly path hpath)
    h ⟨hpipes, hagg, honly⟩ hturn
  subst hkey
  exact llgrTurn_not_fresh hstart hpipes hagg honly s route

/-- When a session goes into its long-lived stale period, a turn of the loop separates the
stale paths from the others exactly if what its withdrawals hit is of one kind.  Where every
turn of a key does, no peer without LLGR is left with a stale path for it.  And nothing fresh
is hit where every candidate for the key is stale.

The export hooks are the embedder's; they leave alone which path a route is.  Between two
operations nothing is left to export. -/
theorem enterLlgrPeriod_separates {h : UInt64} {state : GracefulRestartState}
    (hhooks : ∀ session, ∀ hook ∈ r.settings.hooks.exports, KeepsPath (hook session))
    (hidle : r.rib.exports = []) (hrun : r.enterLlgrPeriod fuel h state = some r') :
    ∃ turns, (r.staled h state).llgrTurns fuel (r.ingress.unrefreshed state h) = some turns ∧
      (r.staled h state).afterTurns turns = r' ∧
      (∀ turn ∈ turns, turn.Separates ↔ turn.OfOneKind) ∧
      (∀ key ∈ r.ingress.unrefreshed state h, ¬r.IsAggregateKey key →
        (∀ turn ∈ turns, turn.key = key → turn.OfOneKind) → r'.NoneStale key) ∧
      ((∀ pipe ∈ r.pipes, pipe.target ≠ .bgp) → ∀ key, ¬r.IsAggregateKey key →
        (r.staled h state).OnlyStale key → ∀ turn ∈ turns, turn.key = key →
          ∀ s route, ¬turn.before.Fresh s key route) := by
  rw [enterLlgrPeriod_eq] at hrun
  obtain ⟨turns, hturns, rfl⟩ := map_eq_some_iff.mp hrun
  refine ⟨turns, hturns, rfl, ?_, ?_, ?_⟩
  · intro turn hturn
    obtain ⟨start, -, hstart⟩ := llgrTurns_mem (P := fun _ => True) (by simp) hturns trivial hturn
    exact llgrTurn_separates hstart
  · intro key hkey hagg hkind
    exact llgrTurns_noneStale hhooks hidle hturns hagg hkind (.inl hkey)
  · intro hpipes key hagg honly turn hturn hkey s route
    exact llgrTurns_not_fresh hturns hpipes hagg honly hturn hkey s route

/-! ## Three neighbours -/

/-- A neighbour with long-lived graceful restart and a restart time of one second. -/
def retainedSession : SessionConfig where
  localAs := 65000
  peerAs := 65001
  localBgpId := 9
  gracefulRestart := true
  gracefulRestartTime := 1
  longLivedGr := true
  longLivedStaleTime := 60
  mpFamilies := [.ipv4Unicast]

/-- A neighbour without. -/
def plainSession (peerAs : Asn) : SessionConfig where
  localAs := 65000
  peerAs := peerAs
  localBgpId := 9

/-- The prefix of the runs below. -/
def contestedPrefix : Prefix := .newV4 (.padded 4 [192, 0, 2]) 24

/-- Its key. -/
def contestedKey : RouteKey := .new contestedPrefix .ipv4Unicast

/-- Session 1 is the retained one; all three come up and the first announces the prefix. -/
def announcingRun : List RouterOp :=
  [.addSession retainedSession, .addSession (plainSession 65002), .addSession (plainSession 65003),
    .startSession 1, .startSession 2, .startSession 3,
    .feedInput 1 (greeting (retainedSession.neighbour 1)),
    .feedInput 2 (greeting ((plainSession 65002).neighbour 2)),
    .feedInput 3 (greeting ((plainSession 65003).neighbour 3)),
    .feedInput 1 (updateFrame (announcement [65001] [⟨0, contestedPrefix⟩]))]

/-- Session 1 is lost while no one else has the prefix. -/
def soleRun : List RouterOp := announcingRun ++ [.closeSession 1]

/-- Session 2 announces the prefix too before session 1 is lost. -/
def contestedRun : List RouterOp :=
  announcingRun ++ [.feedInput 2 (updateFrame (announcement [65002] [⟨0, contestedPrefix⟩])),
    .closeSession 1]

/-- The routes only session 1 has announced become stale: nothing fresh is hit. -/
theorem enterLlgrPeriod_separates_sole :
    ∃ r state r', exec (perform 8) new soleRun = some r ∧
      r.ingress.gracefulRestart[(1 : UInt64)]? = some state ∧
      r.enterLlgrPeriod 8 1 state = some r' ∧
      ∃ turns, (r.staled 1 state).afterTurns turns = r' ∧
        (∀ turn ∈ turns, turn.Separates ↔ turn.OfOneKind) ∧
        ∀ turn ∈ turns, turn.key = contestedKey →
          ∀ s route, ¬turn.before.Fresh s contestedKey route := by
  have heval : ((exec (perform 8) new soleRun).bind fun r =>
      (r.ingress.gracefulRestart[(1 : UInt64)]?).bind fun state =>
        (r.enterLlgrPeriod 8 1 state).map fun _ =>
          r.settings.hooks.exports.isEmpty && r.rib.exports.isEmpty && r.pipes.isEmpty &&
            r.aggregates.isEmpty &&
            ((r.staled 1 state).decision.candidates (r.staled 1 state).rib contestedKey).all
              isLlgrStale) = some true := by
    decide +kernel
  obtain ⟨r, hr, heval⟩ := bind_eq_some_iff.mp heval
  obtain ⟨state, hstate, heval⟩ := bind_eq_some_iff.mp heval
  obtain ⟨r', hrun, heval⟩ := map_eq_some_iff.mp heval
  simp only [Bool.and_eq_true, List.isEmpty_iff, List.all_eq_true] at heval
  obtain ⟨⟨⟨⟨hhooks, hidle⟩, hpipes⟩, haggs⟩, honly⟩ := heval
  obtain ⟨turns, -, hafter, hturns, -, hfresh⟩ :=
    enterLlgrPeriod_separates (by simp [hhooks]) hidle hrun
  refine ⟨r, state, r', hr, hstate, hrun, turns, hafter, hturns, ?_⟩
  refine hfresh (by simp [hpipes]) contestedKey ?_ honly
  rintro ⟨entry, hentry, -⟩
  rw [decision, Std.ExtTreeMap.isEmpty_iff.mp haggs] at hentry
  cases hentry

/-- The session has been sent the best path for the key of the turn, no stale one, and loses
it. -/
def losesBest (session : UInt64) (turn : LlgrTurn) : Bool :=
  (turn.before.session session).any (fun s =>
    s.withoutLlgr && !s.peer.addPathTxFor turn.key.family) &&
  (turn.before.egress.adjRibOut.get (destOf session) turn.key 0).any (fun route =>
    !isLlgrStale route && (turn.before.rib.locRib.best turn.key).any fun best =>
      best.origin = route.origin && !isLlgrStale best) &&
  turn.before.egress.clears session turn.key

/-- The path of session 2 is announced to session 3 and withdrawn at once, and nothing
announces it again. -/
theorem enterLlgrPeriod_takesFresh :
    ∃ r state turns, exec (perform 8) new contestedRun = some r ∧
      r.ingress.gracefulRestart[(1 : UInt64)]? = some state ∧
      (r.staled 1 state).llgrTurns 8 (r.ingress.unrefreshed state 1) = some turns ∧
      ∃ turn ∈ turns, ¬turn.Separates := by
  have heval : ((exec (perform 8) new contestedRun).bind fun r =>
      (r.ingress.gracefulRestart[(1 : UInt64)]?).bind fun state =>
        ((r.staled 1 state).llgrTurns 8 (r.ingress.unrefreshed state 1)).map fun turns =>
          turns.any (losesBest 3)) = some true := by
    decide +kernel
  obtain ⟨r, hr, heval⟩ := bind_eq_some_iff.mp heval
  obtain ⟨state, hstate, heval⟩ := bind_eq_some_iff.mp heval
  obtain ⟨turns, hturns, heval⟩ := map_eq_some_iff.mp heval
  obtain ⟨turn, hturn, hloses⟩ := List.any_eq_true.mp heval
  refine ⟨r, state, turns, hr, hstate, hturns, turn, hturn, fun hsep => ?_⟩
  simp only [losesBest, Bool.and_eq_true, any_eq_true, Bool.not_eq_true',
    decide_eq_true_eq] at hloses
  obtain ⟨⟨⟨s, hs, hw, htx⟩, route, hheld, hunmarked, best, hbest, horigin, hfresh⟩, hclears⟩ :=
    hloses
  obtain ⟨start, -, hstart⟩ := llgrTurns_mem (P := fun _ => True) (by simp) hturns trivial hturn
  have hkind := (llgrTurn_separates hstart).mp hsep 3 s hs hw
  have hids : turn.before.egress.adjRibOut.txPathIds (destOf 3) turn.key ≠ [] := by
    intro hnone
    rw [AdjRibOut.get_eq_none (by simp [hnone])] at hheld
    cases hheld
  rw [if_neg hids, if_pos hclears] at hkind
  refine hkind route (.inl ⟨0, hheld⟩) ⟨hunmarked, best, ?_, horigin, hfresh⟩
  rw [shownTo, htx, hbest]
  exact .head _

end DefaultRouter

end LibRouting.Router
