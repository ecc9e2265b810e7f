/-
  Router/Collision.lean --- connection collisions (RFC 4271 §6.8, `lr-router`).

  Two routers may each open a connection to the other, and each resolves the collision when
  an OPEN arrives.  Two routers stand at the two ends of two connections, with the bytes in
  flight, and everything interleaves.

  The decision by identifier is the same on both sides.  The rule that an Established
  connection wins is not: one side may have a connection Established that the other
  still has in OpenConfirm.
-/
import LibRouting.Bgp.OpenStream
import LibRouting.Router.Transports

set_option autoImplicit false

namespace LibRouting.Router

open Foundation Core Bgp Outcome Option List
open Function (update update_self update_of_ne)

/-! ## Resolving a collision -/

namespace Transports

/-- `close_collision_loser`: buffered replies are dropped, the Cease is queued and the
state machine stopped. -/
def closeCollisionLoser (t : Transports) (loser : UInt64) : Option Transports :=
  match t.peer loser with
  | none => some t
  | some p => do
      let p ← (BgpPeer.enqueue { p with outBuf := [] }
        (.notification ⟨BgpErrorCode.cease, 7, []⟩)).toOption
      let stopped ← (p.step .manualStop).toOption
      some { t.setPeer loser stopped.1 with collisionLost := loser :: t.collisionLost }

/-- `feed_input_at` up to the end of its collision phase.  The caller also learns what
was closed. -/
def feedInput (t : Transports) (h : UInt64) (bytes : Bytes) :
    Option (Transports × Option Closing) :=
  match t.peer h with
  | none => none
  | some p =>
    if bytes = [] then some (t, none)
    else do
      let fed ← (p.feedBytes bytes).toOption
      let t := t.setPeer h fed.1
      let t := if fed.1.receivedCeaseCollision then
        { t with collisionLost := h :: t.collisionLost } else t
      if p.state = .openSent ∧ (fed.1.state = .openConfirm ∨ fed.1.state = .established) then
        match t.resolveConnectionCollision h with
        | none => some (t, none)
        | some closing => do
            let t ← t.closeCollisionLoser closing.loser
            some (t, some closing)
      else some (t, none)

end Transports

/-! ## Two routers, two connections -/

/-- The handle a router has for a connection: its own is the first session, the one it
accepted the second. -/
def handle (router connection : Side) : UInt64 := if connection = router then 1 else 2

/-- Two routers, the bytes on their way on each connection to each of them, and every
closing so far with the router that made it.  A connection is named after the router
that initiated it. -/
structure Meeting where
  router : Side → Transports
  wire : Side → Side → Bytes
  closings : List (Side × Closing)

/-- What happens to one end of a connection. -/
inductive EndEvent where
  /-- The transport comes up. -/
  | opened
  | timer (id : TimerId)
  /-- The operator stops the session. -/
  | stopped
  | transportFatal
  | transportClosed
  /-- An established session sends an UPDATE or a ROUTE-REFRESH. -/
  | send (msg : BgpMessage)
  /-- The next `n` bytes arrive. -/
  | deliver (n : Nat)
  deriving DecidableEq

namespace Meeting

/-- The output a router has buffered for a connection goes on its way. -/
def flush (m : Meeting) (s c : Side) : Meeting :=
  match (m.router s).peer (handle s c) with
  | none => m
  | some p => { m with
      router := update m.router s ((m.router s).setPeer (handle s c) { p with outBuf := [] })
      wire := update m.wire c (update (m.wire c) s.other (m.wire c s.other ++ p.outBuf)) }

/-- A router replaces its session on a connection and flushes it. -/
def replace (m : Meeting) (s c : Side) (p : BgpPeer) : Meeting :=
  { m with router := update m.router s ((m.router s).setPeer (handle s c) p) }.flush s c

/-- A local event of a session. -/
def raise (m : Meeting) (s c : Side) (ev : BgpEvent) : Option Meeting := do
  let p ← (m.router s).peer (handle s c)
  let stepped ← (p.step ev).toOption
  some (m.replace s c stepped.1)

/-- One event at router `s` on connection `c`. -/
def step (m : Meeting) : Side × Side × EndEvent → Option Meeting
  | (s, c, .opened) => m.raise s c .transportOpen
  | (s, c, .timer id) => m.raise s c id.event
  | (s, c, .stopped) => m.raise s c .manualStop
  | (s, c, .transportFatal) => m.raise s c .transportFatal
  | (s, c, .transportClosed) => m.raise s c .transportClose
  | (s, c, .send msg) => do
      let p ← (m.router s).peer (handle s c)
      if p.established && msg.isRouting then
        let p ← (p.enqueue msg).toOption
        some (m.replace s c p)
      else none
  | (s, c, .deliver n) => do
      let p ← (m.router s).peer (handle s c)
      if p.state.reading then
        let fed ← (m.router s).feedInput (handle s c) ((m.wire c s).take n)
        let m := { m with
          router := update m.router s fed.1
          wire := update m.wire c (update (m.wire c) s ((m.wire c s).drop n))
          closings := m.closings ++ (fed.2.map fun k => (s, k)).toList }
        some ((m.flush s c).flush s c.other)
      else none

end Meeting

/-- A router with one session per connection, both in one collision group. -/
def twoSessions (group : UInt64) (s : Side) (p : Side → BgpPeer) (lost : List UInt64) :
    Transports where
  sessions := [(1, p s), (2, p s.other)]
  collisionMeta := [(1, group, true), (2, group, false)]
  collisionLost := lost

/-- Both routers have been told to start both sessions. -/
def Meeting.start (group : Side → UInt64) (cfg : Side → Side → PeerConfig) : Meeting where
  router s := twoSessions (group s) s (fun c => { BgpPeer.new (cfg s c) with state := .connect }) []
  wire _ _ := []
  closings := []

/-! ## The two sessions of a router -/

section TwoSessions

variable (group : UInt64) (s c : Side) (p : Side → BgpPeer) (lost : List UInt64)
  {ids : Side → RouterId}

@[simp] theorem peer_twoSessions : (twoSessions group s p lost).peer (handle s c) = some (p c) := by
  cases s <;> cases c <;> rfl

@[simp] theorem setPeer_twoSessions (q : BgpPeer) :
    (twoSessions group s p lost).setPeer (handle s c) q =
      twoSessions group s (update p c q) lost := by
  cases s <;> cases c <;> rfl

theorem collisionMeta_twoSessions :
    (twoSessions group s p lost).collisionMeta.lookup (handle s c) =
      some (group, decide (c = s)) := by
  cases s <;> cases c <;> rfl

theorem siblings_twoSessions :
    ((twoSessions group s p lost).collisionMeta.filter fun e =>
      e.1 ≠ handle s c ∧ e.2.1 = group).map Prod.fst = [handle s c.other] := by
  cases s <;> cases c <;> simp [twoSessions, handle, Side.other]

/-- The router whose identifier is the lower one. -/
def lower (ids : Side → RouterId) : Side := if ids .left < ids .right then .left else .right

theorem lower_eq_iff (hne : ids .left ≠ ids .right) (s : Side) :
    lower ids = s ↔ ids s < ids s.other := by
  have hlt : ids .right < ids .left ↔ ¬ ids .left < ids .right := by
    rw [UInt32.not_lt]
    constructor
    · exact UInt32.le_of_lt
    · intro hle
      exact UInt32.lt_of_le_of_ne hle (Ne.symm hne)
  unfold lower
  cases s with
  | left => by_cases h : ids .left < ids .right <;> simp [Side.other, h]
  | right => by_cases h : ids .left < ids .right <;> simp [Side.other, h, hlt]

variable {group s c p lost}

/-- What the router decides on the OPEN of a connection. -/
theorem resolve_twoSessions_eq {remoteId : RouterId} (hremote : (p c).peerBgpId = some remoteId) :
    (twoSessions group s p lost).resolveConnectionCollision (handle s c) =
      (twoSessions group s p lost).judge (handle s c) (decide (c = s)) (p c).cfg remoteId
        [handle s c.other] := by
  rw [Transports.resolveConnectionCollision, collisionMeta_twoSessions, peer_twoSessions]
  simp only [hremote, siblings_twoSessions]

/-- On distinct identifiers the AS numbers do not matter. -/
theorem remoteInitiatedWins_eq (hne : ids .left ≠ ids .right) {cfg : PeerConfig}
    (hlocal : cfg.localBgpId = ids s) :
    Transports.remoteInitiatedWins cfg (ids s.other) = decide (lower ids = s) := by
  have hs := lower_eq_iff hne s
  have hother := lower_eq_iff hne s.other
  rw [Side.other_other] at hother
  rw [Transports.remoteInitiatedWins, hlocal]
  by_cases hlt : ids s < ids s.other
  · rw [if_pos hlt, decide_eq_true (hs.mpr hlt)]
  have hgt : lower ids = s.other := by
    cases s <;> cases hl : lower ids <;> simp_all [Side.other]
  rw [if_neg hlt, if_pos (hother.mp hgt), hgt]
  simp

theorem loser_eq {l : Side} :
    (if (if decide (c = s) then !decide (l = s) else decide (l = s)) then handle s c.other
      else handle s c) = handle s l := by
  cases s <;> cases c <;> cases l <;> rfl

/-- A decision by identifier closes the connection that the router with the lower
identifier initiated, whichever router decides and whichever OPEN it decides on. -/
theorem resolve_twoSessions (hne : ids .left ≠ ids .right) (hlocal : (p c).cfg.localBgpId = ids s)
    (hremote : ∀ id, (p c).peerBgpId = some id → id = ids s.other) {k : Closing}
    (h : (twoSessions group s p lost).resolveConnectionCollision (handle s c) = some k) :
    (k.loser = handle s c ∨ k.loser = handle s c.other) ∧
      (k.rule = .identifier → k.loser = handle s (lower ids)) := by
  cases hid : (p c).peerBgpId with
  | none =>
    rw [Transports.resolveConnectionCollision, collisionMeta_twoSessions, peer_twoSessions] at h
    simp only [hid] at h
    cases h
  | some remoteId =>
    obtain rfl := hremote remoteId hid
    have hroles : decide (c.other = s) ≠ decide (c = s) := by
      cases s <;> cases c <;> decide
    have hloser := @loser_eq s c (lower ids)
    rw [resolve_twoSessions_eq hid, Transports.judge, peer_twoSessions] at h
    simp only [Transports.judge, collisionMeta_twoSessions, map_some, getD_some,
      if_neg hroles, remoteInitiatedWins_eq hne hlocal] at h
    generalize (if decide (c = s) then !decide (lower ids = s) else decide (lower ids = s)) = wins
      at h hloser
    split at h
    · cases h
    cases hstate : (p c.other).state with
    | idle | connect | active =>
      simp only [hstate] at h
      cases h
    | established =>
      simp only [hstate] at h
      cases h
      exact ⟨.inl rfl, fun hrule => by cases hrule⟩
    | openSent | openConfirm =>
      simp only [hstate] at h
      cases wins <;> cases h
      · exact ⟨.inl rfl, fun _ => hloser⟩
      · exact ⟨.inr rfl, fun _ => hloser⟩

end TwoSessions

/-! ## Every run -/

/-- One end of a connection: the session speaks for its router, and what is on its way
to it was written by the other. -/
structure EndSound (own remote : RouterId) (p : BgpPeer) (inbound : Bytes) : Prop where
  speaks : p.Speaks own remote
  stream : Frames remote (p.codec.carryover ++ inbound)

/-- One end has moved, and the wire to the other is as it was. -/
theorem EndSound.update {own remote : RouterId} {p : Side → BgpPeer} {q : BgpPeer} {c : Side}
    {wire wire' : Side → Bytes} (h : ∀ d, EndSound own remote (p d) (wire d))
    (hq : EndSound own remote q (wire' c)) (hwire : ∀ d, d ≠ c → wire' d = wire d) :
    ∀ d, EndSound own remote (update p c q d) (wire' d) :=
  (Function.forall_update_iff p fun d q => EndSound own remote q (wire' d)).mpr
    ⟨hq, fun d hd => hwire d hd ▸ h d⟩

/-- What holds of two routers in every state they reach. -/
structure Meeting.Sound (group : Side → UInt64) (ids : Side → RouterId) (m : Meeting) : Prop where
  routers : ∀ s, ∃ p lost, m.router s = twoSessions (group s) s p lost ∧
    ∀ c, EndSound (ids s) (ids s.other) (p c) (m.wire c s)
  closings : ∀ e ∈ m.closings, e.2.rule = .identifier → e.2.loser = handle e.1 (lower ids)

namespace Meeting.Sound

variable {group : Side → UInt64} {ids : Side → RouterId} {m m' : Meeting}

section

variable (h : m.Sound group ids) {s c : Side} {p : Side → BgpPeer} {lost : List UInt64}
include h

theorem router {wire : Side → Side → Bytes} {closings : List (Side × Closing)}
    (hends : ∀ c, EndSound (ids s) (ids s.other) (p c) (wire c s))
    (hwire : ∀ c, ∃ more, wire c s.other = m.wire c s.other ++ more ∧ Frames (ids s) more)
    (hclosings : ∀ e ∈ closings, e.2.rule = .identifier → e.2.loser = handle e.1 (lower ids)) :
    (Meeting.mk (update m.router s (twoSessions
      (group s) s p lost)) wire closings).Sound group ids := by
  refine ⟨fun t => ?_, hclosings⟩
  obtain rfl | rfl : t = s ∨ t = s.other := by
    cases s <;> cases t <;> simp [Side.other]
  · exact ⟨p, lost, update_self .., hends⟩
  · obtain ⟨q, lost', hq, hqends⟩ := h.routers s.other
    refine ⟨q, lost', (update_of_ne (Side.other_ne s) ..).trans hq, fun c => ?_⟩
    obtain ⟨more, heq, hmore⟩ := hwire c
    refine ⟨(hqends c).speaks, ?_⟩
    have hstream := (hqends c).stream
    rw [Side.other_other] at hstream ⊢
    change Frames (ids s) (_ ++ wire c s.other)
    rw [heq, ← append_assoc]
    exact hstream.append hmore

theorem flush (s c : Side) : (m.flush s c).Sound group ids := by
  obtain ⟨p, lost, hp, hends⟩ := h.routers s
  rw [Meeting.flush, hp, peer_twoSessions]
  dsimp only
  rw [setPeer_twoSessions]
  refine h.router (EndSound.update hends ?_ fun d hd => by rw [update_of_ne hd])
    (fun d => ?_) h.closings
  · rw [update_self, update_of_ne (Side.other_ne s).symm]
    exact ⟨⟨(hends c).speaks.localId, (hends c).speaks.remoteId, .nil _⟩, (hends c).stream⟩
  · by_cases hd : d = c
    · subst hd
      rw [update_self, update_self]
      exact ⟨_, rfl, (hends d).speaks.output⟩
    · rw [update_of_ne hd]
      exact ⟨[], by simp, .nil _⟩

theorem replace (hp : m.router s = twoSessions (group s) s p lost)
    (hends : ∀ d, EndSound (ids s) (ids s.other) (p d) (m.wire d s)) {q : BgpPeer}
    (hq : q.Speaks (ids s) (ids s.other)) (hcarry : q.codec.carryover = (p c).codec.carryover) :
    (m.replace s c q).Sound group ids := by
  refine flush ?_ s c
  rw [hp, setPeer_twoSessions]
  exact h.router (EndSound.update hends ⟨hq, by rw [hcarry]; exact (hends c).stream⟩ fun _ _ => rfl)
    (fun d => ⟨[], by simp, .nil _⟩) h.closings

theorem raise {ev : BgpEvent} (hev : ∀ msg, ev ≠ .message msg) (hstep : m.raise s c ev = some m') :
    m'.Sound group ids := by
  obtain ⟨p, lost, hp, hends⟩ := h.routers s
  rw [Meeting.raise, hp, peer_twoSessions, bind_eq_bind, bind_some] at hstep
  obtain ⟨stepped, hstepped, hm⟩ := bind_eq_some_iff.mp hstep
  cases hm
  have hok := toOption_eq_some.mp hstepped
  exact h.replace hp hends ((hends c).speaks.step (fun o ho => absurd ho (hev _)) hok)
    (BgpPeer.step_carryover hok)

end

end Meeting.Sound

/-! ### Reading -/

variable {group : UInt64} {s c : Side} {p : Side → BgpPeer} {lost : List UInt64} {t : Transports}

/-- Closing a session keeps what its end is known to be. -/
theorem closeCollisionLoser_twoSessions {own remote : RouterId} (hp : (p c).Speaks own remote)
    (h : (twoSessions group s p lost).closeCollisionLoser (handle s c) = some t) :
    ∃ q, t = twoSessions group s (update p c q) (handle s c :: lost) ∧ q.Speaks own remote ∧
      q.codec.carryover = (p c).codec.carryover := by
  rw [Transports.closeCollisionLoser, peer_twoSessions] at h
  obtain ⟨noted, hnoted, h⟩ := bind_eq_some_iff.mp h
  obtain ⟨stopped, hstopped, h⟩ := bind_eq_some_iff.mp h
  cases h
  rw [setPeer_twoSessions]
  have hnoted := toOption_eq_some.mp hnoted
  have hstopped := toOption_eq_some.mp hstopped
  have hdrained : BgpPeer.Speaks own remote { p c with outBuf := [] } :=
    ⟨hp.localId, hp.remoteId, .nil _⟩
  refine ⟨stopped.1, rfl, ?_, ?_⟩
  · exact (hdrained.enqueue (by simp) hnoted).step (by simp) hstopped
  · rw [BgpPeer.step_carryover hstopped, BgpPeer.enqueue_carryover hnoted]

/-- What reading does to a router: its ends stay what they are, and a decision by
identifier closes the connection of the lower identifier. -/
theorem feedInput_twoSessions {ids : Side → RouterId} (hne : ids .left ≠ ids .right)
    (inbound : Side → Bytes) {bytes rest : Bytes} (hcut : inbound c = bytes ++ rest)
    (hends : ∀ d, EndSound (ids s) (ids s.other) (p d) (inbound d)) {closing : Option Closing}
    (h : (twoSessions group s p lost).feedInput (handle s c) bytes = some (t, closing)) :
    ∃ q lost', t = twoSessions group s q lost' ∧
      (∀ d, EndSound (ids s) (ids s.other) (q d) (update inbound c rest d)) ∧
      ∀ k ∈ closing, k.rule = .identifier → k.loser = handle s (lower ids) := by
  rw [Transports.feedInput, peer_twoSessions] at h
  dsimp only at h
  by_cases hnil : bytes = []
  · rw [if_pos hnil] at h
    cases h
    subst hnil
    refine ⟨p, lost, rfl, fun d => ?_, by simp⟩
    rw [← hcut.trans (nil_append rest), Function.update_eq_self]
    exact hends d
  rw [if_neg hnil] at h
  obtain ⟨fed, hfed, h⟩ := bind_eq_some_iff.mp h
  have hfed := toOption_eq_some.mp hfed
  obtain ⟨hspeaks, hstream⟩ := (hends c).speaks.feedBytes
    (by have := (hends c).stream; rwa [hcut] at this) hfed
  -- the ends after the bytes are read, before any collision is resolved
  have hread : ∀ d, EndSound (ids s) (ids s.other) (update p c fed.1 d) (update inbound c rest d) :=
    EndSound.update hends ⟨hspeaks, by rwa [update_self]⟩ fun d hd => update_of_ne hd ..
  rw [setPeer_twoSessions] at h
  obtain ⟨lost₁, hlost⟩ : ∃ lost₁, (if fed.1.receivedCeaseCollision = true then
      { twoSessions group s (update p c fed.1) lost with
        collisionLost := handle s c :: (twoSessions group s (update p c fed.1) lost).collisionLost }
      else twoSessions group s (update p c fed.1) lost) =
        twoSessions group s (update p c fed.1) lost₁ := by
    split
    · exact ⟨handle s c :: lost, rfl⟩
    · exact ⟨lost, rfl⟩
  rw [hlost] at h
  by_cases hentered : (p c).state = .openSent ∧
      (fed.1.state = .openConfirm ∨ fed.1.state = .established)
  · rw [if_pos hentered] at h
    cases hres : (twoSessions group s (update p c fed.1) lost₁).resolveConnectionCollision
        (handle s c) with
    | none =>
      simp only [hres] at h
      cases h
      exact ⟨_, _, rfl, hread, by simp⟩
    | some k =>
      simp only [hres] at h
      obtain ⟨t', hclose, h⟩ := bind_eq_some_iff.mp h
      cases h
      obtain ⟨hloser, hrule⟩ := resolve_twoSessions hne (hread c).speaks.localId
        (hread c).speaks.remoteId hres
      obtain ⟨d, hd⟩ : ∃ d, k.loser = handle s d := hloser.elim (⟨_, ·⟩) (⟨_, ·⟩)
      rw [hd] at hclose
      obtain ⟨q, rfl, hq, hcarry⟩ := closeCollisionLoser_twoSessions (hread d).speaks hclose
      refine ⟨_, _, rfl, EndSound.update hread ⟨hq, by rw [hcarry]; exact (hread d).stream⟩
        fun _ _ => rfl, fun k' hk' => ?_⟩
      cases hk'
      exact hrule
  · rw [if_neg hentered] at h
    cases h
    exact ⟨_, _, rfl, hread, by simp⟩

namespace Meeting

variable {group : Side → UInt64} {ids : Side → RouterId} {m m' : Meeting} {s c : Side}

theorem Sound.deliver (h : m.Sound group ids) (hne : ids .left ≠ ids .right) {n : Nat}
    (hstep : m.step (s, c, .deliver n) = some m') : m'.Sound group ids := by
  obtain ⟨p, lost, hp, hends⟩ := h.routers s
  rw [Meeting.step, hp, peer_twoSessions, bind_eq_bind, bind_some] at hstep
  by_cases hreading : (p c).state.reading = true
  · rw [if_pos hreading] at hstep
    obtain ⟨⟨t, closing⟩, hfed, hm⟩ := bind_eq_some_iff.mp hstep
    cases hm
    have hcut : (fun d => m.wire d s) c = (m.wire c s).take n ++ (m.wire c s).drop n :=
      (take_append_drop n (m.wire c s)).symm
    obtain ⟨q, lost', rfl, hq, hrule⟩ :=
      feedInput_twoSessions hne (fun d => m.wire d s) hcut hends hfed
    refine Sound.flush (Sound.flush (h.router (fun d => ?_) (fun d => ?_) ?_) s c) s c.other
    · have hd := hq d
      by_cases hdc : d = c
      · subst hdc
        rw [update_self] at hd
        rwa [update_self, update_self]
      · rwa [update_of_ne hdc] at hd ⊢
    · refine ⟨[], ?_, .nil _⟩
      by_cases hdc : d = c <;> simp [hdc, Side.other_ne s]
    · intro e he hident
      rcases mem_append.mp he with he | he
      · exact h.closings e he hident
      · obtain ⟨k, hk, rfl⟩ := map_eq_some_iff.mp (mem_toList.mp he)
        exact hrule k hk hident
  · rw [if_neg hreading] at hstep
    cases hstep

theorem Sound.send (h : m.Sound group ids) {msg : BgpMessage}
    (hstep : m.step (s, c, .send msg) = some m') : m'.Sound group ids := by
  obtain ⟨p, lost, hp, hends⟩ := h.routers s
  rw [Meeting.step, hp, peer_twoSessions, bind_eq_bind, bind_some] at hstep
  by_cases hready : ((p c).established && msg.isRouting) = true
  · rw [if_pos hready] at hstep
    obtain ⟨q, hq, hm⟩ := bind_eq_some_iff.mp hstep
    cases hm
    have hq := toOption_eq_some.mp hq
    have hnot : ∀ o, msg = .open o → o.bgpId = ids s := by
      rintro o rfl
      simp [BgpMessage.isRouting] at hready
    exact h.replace hp hends ((hends c).speaks.enqueue hnot hq) (BgpPeer.enqueue_carryover hq)
  · rw [if_neg hready] at hstep
    cases hstep

theorem Sound.step (h : m.Sound group ids) (hne : ids .left ≠ ids .right)
    {e : Side × Side × EndEvent} (hstep : m.step e = some m') : m'.Sound group ids := by
  obtain ⟨s, c, e⟩ := e
  cases e with
  | opened | stopped | transportFatal | transportClosed => exact h.raise (by simp) hstep
  | timer id => exact h.raise (by cases id <;> simp [TimerId.event]) hstep
  | send msg => exact h.send hstep
  | deliver n => exact h.deliver hne hstep

theorem sound_start (group : Side → UInt64) {cfg : Side → Side → PeerConfig}
    (hid : ∀ s c, (cfg s c).localBgpId = ids s) :
    (start group cfg).Sound group ids := by
  refine ⟨fun s => ⟨fun c => { BgpPeer.new (cfg s c) with state := .connect }, [], rfl, ?_⟩,
    by simp [start]⟩
  intro c
  exact ⟨⟨hid s c, by simp [BgpPeer.new], .nil _⟩, .nil _⟩

theorem Sound.exec (h : m.Sound group ids) (hne : ids .left ≠ ids .right)
    {es : List (Side × Side × EndEvent)} (hrun : exec Meeting.step m es = some m') :
    m'.Sound group ids :=
  exec_invariant' (fun _ _ _ h hstep => h.step hne hstep) h hrun

/-- A router has closed the connection to resolve a collision. -/
def Closed (m : Meeting) (c : Side) : Prop := ∃ e ∈ m.closings, e.2.loser = handle e.1 c

/-- A connection was closed because the other one was Established. -/
def ClosedForEstablished (m : Meeting) (c : Side) : Prop :=
  ∃ e ∈ m.closings, e.2.loser = handle e.1 c ∧ e.2.rule = .established

/-- Two routers that decide by identifier close the same connection, the one that the lower
identifier initiated.  Both connections are closed only if a router finds that one already
Established when the OPEN on the other arrives. -/
theorem closings_agree (group : Side → UInt64) {ids : Side → RouterId}
    (hne : ids .left ≠ ids .right) {cfg : Side → Side → PeerConfig}
    (hid : ∀ s c, (cfg s c).localBgpId = ids s) {es : List (Side × Side × EndEvent)} {m : Meeting}
    (hrun : exec Meeting.step (start group cfg) es = some m) :
    (∀ e ∈ m.closings, e.2.rule = .identifier → e.2.loser = handle e.1 (lower ids)) ∧
      (m.Closed .left ∧ m.Closed .right → m.ClosedForEstablished (lower ids).other) := by
  have hsound := (sound_start group hid).exec hne hrun
  refine ⟨hsound.closings, ?_⟩
  rintro ⟨hleft, hright⟩
  have hhigher : m.Closed (lower ids).other := by
    cases lower ids with
    | left => exact hright
    | right => exact hleft
  obtain ⟨e, he, hloser⟩ := hhigher
  refine ⟨e, he, hloser, ?_⟩
  cases hrule : e.2.rule with
  | established => rfl
  | identifier =>
    have hlow := hloser.symm.trans (hsound.closings e he hrule)
    have hdiff : handle e.1 (lower ids).other ≠ handle e.1 (lower ids) := by
      cases e.1 <;> cases lower ids <;> decide
    exact absurd hlow hdiff

/-- Two routers: AS 65001 with identifier 1 and AS 65002 with identifier 2. -/
def exampleId : Side → RouterId
  | .left => 1
  | .right => 2

/-- An eBGP pair of sessions. -/
def exampleConfig (s _connection : Side) : PeerConfig where
  localAs := 65000 + exampleId s
  peerAs := 65000 + exampleId s.other
  localBgpId := exampleId s

/-- Both connections come up at once, and each router reads the OPEN on its own first. -/
def crossing : List (Side × Side × EndEvent) :=
  [(.left, .left, .opened), (.right, .left, .opened), (.left, .right, .opened),
   (.right, .right, .opened), (.left, .left, .deliver 41), (.right, .right, .deliver 41)]

/-- Both routers decide by identifier. -/
theorem closings_agree_crossing :
    ∃ m, exec Meeting.step (start (fun _ => 1) exampleConfig) crossing = some m ∧
      m.closings.length = 2 ∧
      ∀ e ∈ m.closings, e.2.rule = .identifier → e.2.loser = handle e.1 .left := by
  have hrun : (exec Meeting.step (start (fun _ => 1) exampleConfig) crossing).map
      (·.closings.length) = some 2 := by
    decide +kernel
  obtain ⟨m, hm, hlen⟩ := map_eq_some_iff.mp hrun
  exact ⟨m, hm, hlen, (@closings_agree (fun _ => 1) exampleId (by decide) exampleConfig
    (fun _ _ => rfl) crossing m hm).1⟩

/-- The left router's connection comes up while the right one has not opened its own.  It is
Established on the left and in OpenConfirm on the right when the OPENs of the second
connection arrive. -/
def race : List (Side × Side × EndEvent) :=
  [(.left, .left, .opened), (.right, .left, .opened), (.right, .left, .deliver 41),
   (.left, .left, .deliver 60), (.right, .right, .opened), (.left, .right, .opened),
   (.left, .right, .deliver 41), (.right, .right, .deliver 41)]

/-- The left router closes the new connection, the right router the old one. -/
theorem closings_race :
    ∃ m, exec Meeting.step (start (fun _ => 1) exampleConfig) race = some m ∧
      m.Closed .left ∧ m.Closed .right := by
  have hrun : (exec Meeting.step (start (fun _ => 1) exampleConfig) race).map (·.closings) =
      some [(.left, ⟨2, 1, .established⟩), (.right, ⟨2, 1, .identifier⟩)] := by
    decide +kernel
  obtain ⟨m, hm, hclosings⟩ := map_eq_some_iff.mp hrun
  refine ⟨m, hm, ?_, ?_⟩
  · exact ⟨(.right, ⟨2, 1, .identifier⟩), by rw [hclosings]; simp, rfl⟩
  · exact ⟨(.left, ⟨2, 1, .established⟩), by rw [hclosings]; simp, rfl⟩

end Meeting

end LibRouting.Router
