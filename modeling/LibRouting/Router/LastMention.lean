/-
  Router/LastMention.lean --- what a session's UPDATEs leave in the Adj-RIB-In.

  An UPDATE mentions paths: it withdraws some and announces some.  The Adj-RIB-In of a
  session should be decided, path by path, by the last mention alone.
-/
import LibRouting.Router.PrivateTags
import Mathlib.Data.List.Induction

set_option autoImplicit false

namespace LibRouting.Router

open Foundation Core Bgp Policy Rib Outcome BgpPeer List

/-! ## Mentions -/

/-- One mention of a path.  An announcement carries the route the import pipeline
stores for it, if it is admitted. -/
inductive Mention where
  | withdrawal (key : RouteKey) (pathId : UInt32)
  | announcement (key : RouteKey) (pathId : UInt32) (stored : Option Route)

namespace Mention

/-- The path that is mentioned. -/
def path : Mention → RouteKey × UInt32
  | withdrawal key pathId => (key, pathId)
  | announcement key pathId _ => (key, pathId)

/-- What the mention alone says about its path. -/
def verdict : Mention → Option Route
  | withdrawal _ _ => none
  | announcement _ _ stored => stored

/-- What the mention does to the Adj-RIB-In. -/
def effect (session : UInt64) (rib : AdjRibIn) : Mention → AdjRibIn
  | withdrawal key pathId => rib.withdraw ⟨0, session⟩ key pathId
  | announcement _ _ none => rib
  | announcement _ _ (some r) => rib.feedPrePolicy r.origin r

end Mention
variable {m : Mention} {path : RouteKey × UInt32}

/-- The mentions of an UPDATE that arrives at `now`, in the order they are taken up:
the withdrawals, then the announcements.  An announcement whose attributes the session
refuses (`accepted`) never reaches import. -/
def mentions (c : ImportConfig) (p : BgpPeer) (now : UInt64) (u : Update) :
    Outcome Empty (List Mention) := do
  let gone ← p.withdrawn u
  let xs ← p.announcements u
  let path := canonicalPath p.cfg (relayUnknown u.attributes)
  let attrs := normalize p.cfg u.attributes
  pure (gone.map (fun w => .withdrawal w.1 w.2) ++ xs.map fun x =>
    .announcement (.new x.pfx x.family) x.pathId
      (if accepted p u.attributes then
        c.admitRoute now (stampPeerSource c.peerAddress (x.route p path attrs))
      else none))

/-- The mentions of a sequence of UPDATEs with their arrival times. -/
def timeline (c : ImportConfig) (p : BgpPeer) : List (UInt64 × Update) →
    Outcome Empty (List Mention)
  | [] => ok []
  | (now, u) :: us => do
      let ms ← mentions c p now u
      let rest ← timeline c p us
      pure (ms ++ rest)

/-- The verdict of the last mention of a path; `none` when it was never mentioned. -/
def lastVerdict (ms : List Mention) (path : RouteKey × UInt32) : Option Route :=
  (ms.reverse.find? (·.path = path)).bind Mention.verdict

theorem lastVerdict_mentioned (ms : List Mention) (h : m.path = path) :
    lastVerdict (ms ++ [m]) path = m.verdict := by
  unfold lastVerdict
  rw [reverse_append, reverse_singleton, singleton_append,
    find?_cons_of_pos (by simpa using h)]
  rfl

theorem lastVerdict_unmentioned (ms : List Mention) {us : List Mention}
    (h : ∀ m ∈ us, m.path ≠ path) : lastVerdict (ms ++ us) path = lastVerdict ms path := by
  unfold lastVerdict
  rw [reverse_append, find?_append, find?_eq_none.mpr (by simpa using h), Option.none_or]

/-! ## The code's reception of UPDATEs -/

/-- One UPDATE received in Established, on the Adj-RIB-In. -/
def receiveUpdate (c : ImportConfig) (p : BgpPeer) (rib : AdjRibIn) (now : UInt64) (u : Update) :
    Outcome Empty AdjRibIn := do
  let actions ← p.handleUpdateInEstablished u
  pure (actions.foldl (dispatch c now) rib)

/-- UPDATEs received one after the other. -/
def receiveUpdates (c : ImportConfig) (p : BgpPeer) (rib : AdjRibIn) :
    List (UInt64 × Update) → Outcome Empty AdjRibIn
  | [] => ok rib
  | (now, u) :: us => do
      let rib' ← receiveUpdate c p rib now u
      receiveUpdates c p rib' us

section Reception

variable (c : ImportConfig) (now : UInt64)

/-- What is neither a route nor a withdrawal leaves the table alone. -/
theorem foldl_dispatch_quiet {actions : List BgpAction}
    (h : ∀ a ∈ actions, (∃ family, a = .endOfRib family) ∨ ∃ e, a = .emit e) (rib : AdjRibIn) :
    actions.foldl (dispatch c now) rib = rib := by
  induction actions with
  | nil => rfl
  | cons a actions ih =>
    obtain ⟨ha, hrest⟩ := forall_mem_cons.mp h
    obtain ⟨family, rfl⟩ | ⟨e, rfl⟩ := ha
    all_goals exact ih hrest

/-- Import acts on an announcement as its mention says. -/
theorem importRoute_eq_effect (rib : AdjRibIn) (route : Route) (key : RouteKey) (pathId : UInt32) :
    importRoute c now rib route =
      Mention.effect c.peer.peerId rib (.announcement key pathId (c.admitRoute now route)) := by
  unfold importRoute
  cases c.admitRoute now route <;> rfl

theorem foldl_dispatch_installs (p : BgpPeer) (path : AsPath) (attrs : PathAttributes)
    (xs : List Announcement) (rib : AdjRibIn) :
    (xs.map fun x => BgpAction.installRoute (x.route p path attrs)).foldl (dispatch c now) rib =
      (xs.map fun x => Mention.announcement (.new x.pfx x.family) x.pathId
        (c.admitRoute now (stampPeerSource c.peerAddress (x.route p path attrs)))).foldl
          (Mention.effect c.peer.peerId) rib := by
  rw [foldl_map, foldl_map]
  congr 1
  funext rib x
  exact importRoute_eq_effect c now rib _ _ _

/-- Announcements that never reach import leave the table alone. -/
theorem foldl_effect_refused (session : UInt64) (xs : List Announcement) (rib : AdjRibIn) :
    (xs.map fun x => Mention.announcement (.new x.pfx x.family) x.pathId none).foldl
      (Mention.effect session) rib = rib := by
  rw [foldl_map]
  induction xs with
  | nil => rfl
  | cons x xs ih => exact ih

/-- Receiving an UPDATE is taking up its mentions one by one. -/
theorem receiveUpdate_eq (p : BgpPeer) (rib : AdjRibIn) (u : Update) :
    receiveUpdate c p rib now u =
      (·.foldl (Mention.effect c.peer.peerId) rib) <$> mentions c p now u := by
  unfold receiveUpdate handleUpdateInEstablished mentions
  cases p.withdrawn u with
  | err e => exact e.elim
  | abort => rfl
  | ok gone =>
    cases p.announcements u with
    | err e => exact e.elim
    | abort => rfl
    | ok xs =>
      have heor := foldl_dispatch_quiet c now
        (fun a ha => .inl (mem_endOfRibActions (p := p) (u := u) ha)) rib
      have hlog (rib : AdjRibIn) : (if p.confedLeak u.attributes then [confedLog p.cfg]
          else []).foldl (dispatch c now) rib = rib := by
        refine foldl_dispatch_quiet c now (fun a ha => .inr ?_) rib
        obtain ⟨-, ha⟩ := mem_ite_nil_right.mp ha
        exact ⟨_, mem_singleton.mp ha⟩
      have hgone : (gone.map fun w => .withdrawRoute w.1 w.2).foldl (dispatch c now) rib =
          (gone.map fun w => .withdrawal w.1 w.2).foldl (Mention.effect c.peer.peerId) rib := by
        rw [foldl_map, foldl_map]
        rfl
      simp only [map_ok, ok_bind, pure_eq_ok, Outcome.ok.injEq, foldl_append, heor, hlog, hgone]
      cases p.accepted u.attributes with
      | true => exact foldl_dispatch_installs c now p _ _ _ _
      | false => exact (foldl_effect_refused _ _ _).symm

theorem receiveUpdates_eq (p : BgpPeer) (us : List (UInt64 × Update)) (rib : AdjRibIn) :
    receiveUpdates c p rib us =
      (·.foldl (Mention.effect c.peer.peerId) rib) <$> timeline c p us := by
  induction us generalizing rib with
  | nil => rfl
  | cons x us ih =>
    obtain ⟨now, u⟩ := x
    unfold receiveUpdates timeline
    rw [receiveUpdate_eq]
    cases mentions c p now u with
    | err e => exact e.elim
    | abort => rfl
    | ok ms =>
      simp only [map_ok, ok_bind, ih]
      cases timeline c p us with
      | err e => exact e.elim
      | abort => rfl
      | ok rest => simp only [map_ok, ok_bind, pure_eq_ok, foldl_append]

end Reception

/-! ## The table follows the mentions -/

/-- An admitted announcement of session `p` is stored under the session and under the
path that was announced. -/
def Mention.Own (p : BgpPeer) : Mention → Prop
  | .announcement key pathId (some r) =>
    r.origin = p.routeOrigin ∧ r.key = key ∧ r.pathId = pathId
  | _ => True

theorem stampPeerSource_path (peerAddress : Option IpAddr) (r : Route) :
    (stampPeerSource peerAddress r).origin = r.origin ∧
      (stampPeerSource peerAddress r).key = r.key ∧
      (stampPeerSource peerAddress r).pathId = r.pathId := by
  cases peerAddress <;> exact ⟨rfl, rfl, rfl⟩

section Runs

variable {c : ImportConfig} {p : BgpPeer} {ms us : List Mention} {rib : AdjRibIn}
  {origin : RouteOrigin}

theorem mentions_own (hhooks : ∀ hook ∈ c.hooks.imports, KeepsPath hook) {now : UInt64} {u : Update}
    (h : mentions c p now u = ok ms) : ∀ m ∈ ms, m.Own p := by
  obtain ⟨gone, -, h⟩ := bind_eq_ok.mp h
  obtain ⟨xs, -, h⟩ := bind_eq_ok.mp h
  cases h
  intro m hm
  rcases mem_append.mp hm with hm | hm
  · obtain ⟨w, -, rfl⟩ := mem_map.mp hm
    trivial
  obtain ⟨x, -, rfl⟩ := mem_map.mp hm
  split
  · cases hadmit : c.admitRoute now (stampPeerSource c.peerAddress (x.route p
        (canonicalPath p.cfg (relayUnknown u.attributes))
        (normalize p.cfg u.attributes))) with
    | none => trivial
    | some r =>
      obtain ⟨ho, hk, hi⟩ := c.admitRoute_keepsPath hhooks hadmit
      obtain ⟨ho', hk', hi'⟩ := stampPeerSource_path c.peerAddress (x.route p
        (canonicalPath p.cfg (relayUnknown u.attributes))
        (normalize p.cfg u.attributes))
      exact ⟨ho.trans ho', hk.trans hk', hi.trans hi'⟩
  · trivial

/-- The entries of the session are filed under its tag. -/
def Tagged (p : BgpPeer) (rib : AdjRibIn) : Prop :=
  ∀ tag key pathId, tag ≠ p.routeOrigin.proto → rib.get ⟨tag, p.cfg.peerId⟩ key pathId = none

/-- The entries of session `p` are what the last mentions say, and they are filed under
the tag of the session. -/
structure Follows (p : BgpPeer) (ms : List Mention) (rib : AdjRibIn) : Prop where
  tagged : Tagged p rib
  last : ∀ path, rib.get p.routeOrigin path.1 path.2 = lastVerdict ms path

/-- The mention is one the table can follow: a withdrawal on an internal session, or an
announcement that is not admitted, names a path without an entry. -/
def Heeded (p : BgpPeer) (rib : AdjRibIn) : Mention → Prop
  | .withdrawal key pathId =>
    p.cfg.peerRole.isInternal = true → rib.get p.routeOrigin key pathId = none
  | .announcement key pathId stored =>
    stored = none → rib.get p.routeOrigin key pathId = none

instance : (m : Mention) → Decidable (Heeded p rib m)
  | .withdrawal .. | .announcement .. => inferInstanceAs (Decidable (_ → _))

/-- The last mention of every path in an UPDATE is one the table it meets can follow. -/
def Heeds (p : BgpPeer) (rib : AdjRibIn) : List Mention → Prop
  | [] => True
  | m :: ms => ((∀ later ∈ ms, later.path ≠ m.path) → Heeded p rib m) ∧
      Heeds p (m.effect p.cfg.peerId rib) ms

instance decidableHeeds (p : BgpPeer) : (rib : AdjRibIn) → (ms : List Mention) →
    Decidable (Heeds p rib ms)
  | _, [] => .isTrue trivial
  | rib, m :: ms =>
    have := decidableHeeds p (m.effect p.cfg.peerId rib) ms
    inferInstanceAs (Decidable (_ ∧ _))

/-- A mention leaves the other paths alone. -/
theorem effect_get_other (hown : m.Own p) (h : m.path ≠ path) :
    (m.effect p.cfg.peerId rib).get origin path.1 path.2 = rib.get origin path.1 path.2 := by
  cases m with
  | withdrawal k i =>
    rw [Mention.effect, AdjRibIn.get_withdraw, if_neg]
    rintro ⟨⟩
    exact h rfl
  | announcement k i stored =>
    cases stored with
    | none => rfl
    | some r =>
      obtain ⟨-, rfl, rfl⟩ := hown
      rw [Mention.effect, AdjRibIn.get_feedPrePolicy, if_neg]
      exact fun heq => h (congrArg (fun k => (k.key, k.pathId)) heq)

theorem Tagged.effect (h : Tagged p rib) (hown : m.Own p) :
    Tagged p (m.effect p.cfg.peerId rib) := by
  intro tag key pathId htag
  cases m with
  | withdrawal k i =>
    rw [Mention.effect, AdjRibIn.get_withdraw, h tag key pathId htag, ite_self]
  | announcement k i stored =>
    cases stored with
    | none => exact h tag key pathId htag
    | some r =>
      rw [Mention.effect, AdjRibIn.get_feedPrePolicy, if_neg, h tag key pathId htag]
      intro heq
      have htag' : r.origin.proto = tag := congrArg (·.origin.proto) heq
      exact htag (by rw [← htag', hown.1])

/-- The entry of the mentioned path is what the mention says exactly when it is heeded. -/
theorem effect_get_own (hown : m.Own p) :
    (m.effect p.cfg.peerId rib).get p.routeOrigin m.path.1 m.path.2 = m.verdict ↔
      Heeded p rib m := by
  cases m with
  | withdrawal key pathId =>
    simp only [Mention.effect, Mention.verdict, AdjRibIn.get_withdraw, Mention.path, Heeded]
    cases hinternal : p.cfg.peerRole.isInternal <;> simp [routeOrigin, hinternal]
  | announcement key pathId stored =>
    cases stored with
    | none => simp [Mention.effect, Mention.verdict, Mention.path, Heeded]
    | some r =>
      obtain ⟨horigin, rfl, rfl⟩ := hown
      simp [Mention.effect, Mention.verdict, Mention.path, Heeded, AdjRibIn.get_feedPrePolicy,
        horigin]

theorem foldl_effect_get_other (hown : ∀ m ∈ us, m.Own p) (h : ∀ m ∈ us, m.path ≠ path) :
    (us.foldl (Mention.effect p.cfg.peerId) rib).get origin path.1 path.2 =
      rib.get origin path.1 path.2 := by
  induction us generalizing rib with
  | nil => rfl
  | cons m us ih =>
    obtain ⟨hm, hus⟩ := forall_mem_cons.mp hown
    obtain ⟨hne, hnes⟩ := forall_mem_cons.mp h
    exact (ih hus hnes).trans (effect_get_other hm hne)

/-- An UPDATE: a table that follows the mentions before it, except perhaps on the paths it
mentions, follows all of them behind it exactly when it heeds it. -/
theorem follows_update (htag : Tagged p rib) (hown : ∀ m ∈ us, m.Own p)
    (h : ∀ path, (∀ m ∈ us, m.path ≠ path) →
      rib.get p.routeOrigin path.1 path.2 = lastVerdict ms path) :
    Follows p (ms ++ us) (us.foldl (Mention.effect p.cfg.peerId) rib) ↔ Heeds p rib us := by
  induction us generalizing ms rib with
  | nil =>
    rw [append_nil]
    exact ⟨fun _ => trivial, fun _ => ⟨htag, fun path => h path (by simp)⟩⟩
  | cons m us ih =>
    obtain ⟨hm, hus⟩ := forall_mem_cons.mp hown
    rw [append_cons, foldl_cons, Heeds]
    -- the rest of the UPDATE starts behind `m`
    have hrest (hlast : (∀ later ∈ us, later.path ≠ m.path) → Heeded p rib m) :
        Follows p (ms ++ [m] ++ us) _ ↔ _ :=
      ih (htag.effect hm) hus fun path hnot => by
        by_cases hpath : m.path = path
        · rw [lastVerdict_mentioned ms hpath, ← hpath]
          exact (effect_get_own hm).mpr (hlast (hpath ▸ hnot))
        · rw [lastVerdict_unmentioned ms (by simpa using hpath), effect_get_other hm hpath]
          exact h path (forall_mem_cons.mpr ⟨hpath, hnot⟩)
    constructor
    · intro hfollows
      have hlast : (∀ later ∈ us, later.path ≠ m.path) → Heeded p rib m := by
        intro hnot
        rw [← effect_get_own hm, ← foldl_effect_get_other hus hnot, hfollows.last,
          lastVerdict_unmentioned _ hnot, lastVerdict_mentioned ms rfl]
      exact ⟨hlast, (hrest hlast).mp hfollows⟩
    · rintro ⟨hlast, hheeds⟩
      exact (hrest hlast).mpr hheeds

/-- The next UPDATE of a run. -/
theorem follows_next (hhooks : ∀ hook ∈ c.hooks.imports, KeepsPath hook) {rib₀ : AdjRibIn}
    (h : Follows p ms (ms.foldl (Mention.effect p.cfg.peerId) rib₀)) {now : UInt64} {u : Update}
    (hnext : mentions c p now u = ok us) :
    Follows p (ms ++ us) ((ms ++ us).foldl (Mention.effect p.cfg.peerId) rib₀) ↔
      Heeds p (ms.foldl (Mention.effect p.cfg.peerId) rib₀) us := by
  rw [foldl_append]
  exact follows_update h.tagged (mentions_own hhooks hnext) fun path _ => h.last path

theorem timeline_concat {us : List (UInt64 × Update)} {now : UInt64} {u : Update}
    {all : List Mention} : timeline c p (us ++ [(now, u)]) = ok all ↔
      ∃ ms rest, timeline c p us = ok ms ∧ mentions c p now u = ok rest ∧ ms ++ rest = all := by
  induction us generalizing all with
  | nil => simp [timeline, bind_eq_ok]
  | cons x us ih =>
    simp only [cons_append, timeline, bind_eq_ok, pure_eq_ok, Outcome.ok.injEq, ih]
    constructor
    · rintro ⟨first, hfirst, -, ⟨ms, rest, hms, hrest, rfl⟩, rfl⟩
      exact ⟨_, rest, ⟨first, hfirst, ms, hms, rfl⟩, hrest, append_assoc _ _ _⟩
    · rintro ⟨-, rest, ⟨first, hfirst, ms, hms, rfl⟩, hrest, rfl⟩
      exact ⟨first, hfirst, _, ⟨ms, rest, hms, hrest, rfl⟩, (append_assoc _ _ _).symm⟩

/-- The Adj-RIB-In of an established session over every sequence of UPDATEs: after every
UPDATE the entries follow the last mention of every path, exactly when every UPDATE is
heeded by the table it meets. -/
theorem adjRibIn_lastMention_iff (hcfg : c.peer = p.cfg)
    (hhooks : ∀ hook ∈ c.hooks.imports, KeepsPath hook) {rib₀ : AdjRibIn}
    (hfresh : ∀ tag key pathId, rib₀.get ⟨tag, p.cfg.peerId⟩ key pathId = none)
    (us : List (UInt64 × Update)) :
    (∀ seen, seen <+: us → ∃ ms rib, timeline c p seen = ok ms ∧
        receiveUpdates c p rib₀ seen = ok rib ∧ Follows p ms rib) ↔
      ∀ seen now u, seen ++ [(now, u)] <+: us → ∃ rib, receiveUpdates c p rib₀ seen = ok rib ∧
        ∃ ms, mentions c p now u = ok ms ∧ Heeds p rib ms := by
  have hreceive {seen ms} (h : timeline c p seen = ok ms) :
      receiveUpdates c p rib₀ seen = ok (ms.foldl (Mention.effect p.cfg.peerId) rib₀) := by
    rw [receiveUpdates_eq, h, hcfg]
    rfl
  constructor
  · intro h seen now u hpre
    obtain ⟨both, _, hboth, hrib, hafter⟩ := h _ hpre
    cases (hreceive hboth).symm.trans hrib
    obtain ⟨ms, next, hms, hnext, rfl⟩ := timeline_concat.mp hboth
    obtain ⟨_, _, hms', hrib, hbefore⟩ := h seen ((prefix_append _ _).trans hpre)
    cases hms.symm.trans hms'
    cases (hreceive hms).symm.trans hrib
    exact ⟨_, hrib, next, hnext, (follows_next hhooks hbefore hnext).mp hafter⟩
  · intro h seen
    -- one more UPDATE is seen at a time
    induction seen using reverseRecOn with
    | nil =>
      intro _
      refine ⟨[], rib₀, rfl, rfl, fun tag key pathId _ => hfresh tag key pathId, ?_⟩
      exact fun path => hfresh _ path.1 path.2
    | append_singleton seen x ih =>
      intro hpre
      obtain ⟨ms, _, hms, hrib, hbefore⟩ := ih ((prefix_append _ _).trans hpre)
      cases (hreceive hms).symm.trans hrib
      obtain ⟨_, hrib', next, hnext, hheeds⟩ := h seen x.1 x.2 hpre
      cases hrib.symm.trans hrib'
      have hboth : timeline c p (seen ++ [x]) = ok (ms ++ next) :=
        timeline_concat.mpr ⟨ms, next, hms, hnext, rfl⟩
      exact ⟨_, _, hboth, hreceive hboth, (follows_next hhooks hbefore hnext).mpr hheeds⟩

end Runs

/-- 100.0.2.0/24. -/
def network : Prefix := .newV4 (.padded 4 [100, 0, 2]) 24

/-- An internal session replaces a route in one UPDATE: the withdrawal is not heeded, but
the announcement behind it is the last mention. -/
theorem adjRibIn_lastMention_iff_replaced :
    let p := establishedAs { localAs := 65001, peerAs := 65001, localBgpId := 2 }
    let c : ImportConfig := { peer := p.cfg, safety := some { localAs := 65001 } }
    let us := [(5, announcement [65003] [⟨0, network⟩]),
      (9, { announcement [65004] [⟨0, network⟩] with withdrawn := [⟨0, network⟩] })]
    ∀ seen, seen <+: us → ∃ ms rib, timeline c p seen = ok ms ∧
      receiveUpdates c p ∅ seen = ok rib ∧ Follows p ms rib := by
  intro p c us
  refine (adjRibIn_lastMention_iff rfl (by simp [c])
    (fun _ _ _ => by simp [AdjRibIn.get]) us).mpr ?_
  intro seen now u hpre
  cases seen with
  | nil =>
    obtain ⟨⟨⟩, -⟩ := cons_prefix_cons.mp hpre
    decide +kernel
  | cons x seen =>
    obtain ⟨rfl, hrest⟩ := cons_prefix_cons.mp hpre
    cases seen with
    | nil =>
      obtain ⟨⟨⟩, -⟩ := cons_prefix_cons.mp hrest
      decide +kernel
    | cons y seen => simpa using hrest.length_le

/-- The route stays in the table of an internal session after its withdrawal, and in the
table of an external session after a second announcement that is rejected: its AS_PATH
no longer starts with the neighbour's AS. -/
theorem withdrawn_route_remains :
    (let p := establishedAs { localAs := 65001, peerAs := 65001, localBgpId := 2 }
     ∃ rib, receiveUpdates { peer := p.cfg, safety := some { localAs := 65001 } } p ∅
        [(5, announcement [65003] [⟨0, network⟩]), (9, withdrawal [⟨0, network⟩])] = ok rib ∧
      (rib.get p.routeOrigin (.new network .ipv4Unicast) 0).isSome = true) ∧
    (let p := establishedAs { localAs := 65002, peerAs := 65001, localBgpId := 2 }
     let c : ImportConfig :=
      { peer := p.cfg, safety := some { localAs := 65002 }, enforceFirstAs := true }
     ∃ rib, receiveUpdates c p ∅ [(5, announcement [65001] [⟨0, network⟩]),
        (9, announcement [65003] [⟨0, network⟩])] = ok rib ∧
      (rib.get p.routeOrigin (.new network .ipv4Unicast) 0).map (·.ageMs) = some 5) := by
  decide +kernel

end LibRouting.Router
