/-
  Babel/ChallengeRate.lean --- how often a peer is challenged and answered.

  The limits are kept in the peer's entry of the neighbour table.  They hold over a run
  as long as no entry is discarded while one of its limits still applies: an entry that
  was never accepted counts as active at time 0 only.
-/
import LibRouting.Babel.Replay

set_option autoImplicit false

namespace LibRouting.Babel

open Foundation Core List BabelAuthAction Net

/-! ## A rate limit -/

/-- The times of a log, latest first, are `interval` apart, and one that is not yet
`interval` old is the time the limiter remembers. -/
structure Limited (interval clock : UInt64) (last : Option UInt64) (log : List UInt64) : Prop where
  spaced : log.Pairwise fun later earlier => earlier.toNat + interval.toNat ≤ later.toNat
  recent : ∀ t ∈ log, t.toNat + interval.toNat ≤ clock.toNat ∨ last = some t

namespace Limited

variable {interval clock now t : UInt64} {last : Option UInt64} {log : List UInt64}

theorem le_of_due (hdue : BabelAuthInterface.due (some t) interval now = true)
    (hend : now.toNat + interval.toNat < 2 ^ 64) : t.toNat + interval.toNat ≤ now.toNat := by
  have ht := t.toNat_lt
  simp only [BabelAuthInterface.due, saturatingAdd, ge_iff_le, decide_eq_true_eq,
    UInt64.le_iff_toNat_le, UInt64.toNat_ofNat'] at hdue
  omega

variable (h : Limited interval clock last log)
include h

theorem wait (hclock : clock ≤ now) : Limited interval now last log := by
  refine ⟨h.spaced, fun t ht => ?_⟩
  rcases h.recent t ht with hold | hlast
  · exact .inl (Nat.le_trans hold (UInt64.le_iff_toNat_le.mp hclock))
  · exact .inr hlast

section

variable (hdue : BabelAuthInterface.due last interval clock = true)
  (hend : clock.toNat + interval.toNat < 2 ^ 64)
include hdue hend

theorem all_due : ∀ t ∈ log, t.toNat + interval.toNat ≤ clock.toNat := by
  intro t ht
  rcases h.recent t ht with hold | rfl
  · exact hold
  · exact le_of_due hdue hend

/-- What is due is logged and remembered. -/
theorem emit : Limited interval clock (some clock) (clock :: log) := by
  have hall := h.all_due hdue hend
  exact ⟨pairwise_cons.mpr ⟨hall, h.spaced⟩,
    forall_mem_cons.mpr ⟨.inr rfl, fun t ht => .inl (hall t ht)⟩⟩

/-- A limit that no longer applies may be forgotten. -/
theorem forget : Limited interval clock none log :=
  ⟨h.spaced, fun t ht => .inl (h.all_due hdue hend t ht)⟩

end

end Limited

namespace BabelAuthInterface

/-- Neither limit of the entry applies any more. -/
def unlimited (s : BabelAuthInterface) (e : NeighbourAuth) (now : UInt64) : Bool :=
  due e.lastRequestMs s.config.challengeIntervalMs now &&
    due e.lastReplyMs s.config.replyIntervalMs now

/-- Neither limit reaches beyond the end of the clock. -/
def clockFits (s : BabelAuthInterface) (now : UInt64) : Prop :=
  now.toNat + s.config.challengeIntervalMs.toNat < 2 ^ 64 ∧
    now.toNat + s.config.replyIntervalMs.toNat < 2 ^ 64
  deriving Decidable

/-- What was sent to the peer respects both limits. -/
structure Paced (s : BabelAuthInterface) (peer : IpAddr) (clock : UInt64)
    (requests replies : List UInt64) : Prop where
  requests : Limited s.config.challengeIntervalMs clock (s.entry peer).lastRequestMs requests
  replies : Limited s.config.replyIntervalMs clock (s.entry peer).lastReplyMs replies

variable {s s' : BabelAuthInterface} {peer : IpAddr} {now : UInt64} {requests replies : List UInt64}

theorem Paced.congr (h : Paced s peer now requests replies) (hconfig : s'.config = s.config)
    (hrequest : (s'.entry peer).lastRequestMs = (s.entry peer).lastRequestMs)
    (hreply : (s'.entry peer).lastReplyMs = (s.entry peer).lastReplyMs) :
    Paced s' peer now requests replies :=
  ⟨by rw [hconfig, hrequest]; exact h.requests, by rw [hconfig, hreply]; exact h.replies⟩

/-- The entry is discarded when neither of its limits applies. -/
theorem Paced.discard (h : Paced s peer now requests replies) (hconfig : s'.config = s.config)
    (hnew : s'.entry peer = .new s.config.pcWindow) (hfree : s.unlimited (s.entry peer) now = true)
    (hend : s.clockFits now) : Paced s' peer now requests replies := by
  obtain ⟨hrequest, hreply⟩ := Bool.and_eq_true_iff.mp hfree
  refine ⟨?_, ?_⟩
  · rw [hconfig, hnew]
    exact h.requests.forget hrequest hend.1
  · rw [hconfig, hnew]
    exact h.replies.forget hreply hend.2

/-! ## One datagram -/

/-- Part of a body has been walked. -/
structure WalkPaced (s : BabelAuthInterface) (header : BabelPseudoHeader) (now : UInt64)
    (replies : List UInt64) (tlvs : List BodyTlv) (w : Walk) : Prop
    extends WalkSpec s header.source now tlvs w where
  replies : Limited s.config.replyIntervalMs now (w.iface.entry header.source).lastReplyMs
    (replicate (w.actions.filterMap reply?).length now ++ replies)
  /-- Without a request to answer nothing is answered. -/
  silent : isMulticast header.destination = true ∨ tlvs.filterMap BodyTlv.challengeRequest = [] →
    (w.iface.entry header.source).lastReplyMs = (s.entry header.source).lastReplyMs

section Walk

variable {header : BabelPseudoHeader} {tlvs : List BodyTlv} {w w' : Walk} {t : BodyTlv}
  (h : WalkPaced s header now replies tlvs w)
include h

/-- An element that answers nothing. -/
theorem WalkPaced.same (hspec : WalkSpec s header.source now (tlvs ++ [t]) w')
    (hreply : (w'.iface.entry header.source).lastReplyMs =
      (w.iface.entry header.source).lastReplyMs)
    (hactions : w'.actions = w.actions) : WalkPaced s header now replies (tlvs ++ [t]) w' := by
  refine { hspec with replies := by rw [hreply, hactions]; exact h.replies, silent hno := ?_ }
  rw [hreply]
  refine h.silent (hno.imp_right fun hnil => ?_)
  rw [filterMap_append] at hnil
  exact (append_eq_nil_iff.mp hnil).1

theorem walkTlv_paced (hend : s.clockFits now) (t : BodyTlv) :
    WalkPaced s header now replies (tlvs ++ [t]) (walkTlv header now w t) := by
  have hspec := walkTlv_spec h.toWalkSpec t
  revert hspec
  fun_cases walkTlv header now w t with
  | case3 value hlooked s' actions hsched =>
    have hlen : value.length ≤ maxNonceLen ∧ isMulticast header.destination = false := by
      simpa [and_comm] using hlooked
    -- this request is seen, and so the body is not silent
    have hloud : ¬(isMulticast header.destination = true ∨ (tlvs ++ [BodyTlv.tlv
        challengeRequestTlv value]).filterMap BodyTlv.challengeRequest = []) := by
      simp [hlen, BodyTlv.challengeRequest]
    intro hspec
    refine { hspec with replies := ?_, silent hno := absurd hno hloud }
    unfold scheduleChallengeReply at hsched
    dsimp only at hsched
    split at hsched <;> obtain ⟨rfl, rfl⟩ := Prod.mk.inj hsched <;> rw [setEntry_entry]
    case isTrue hdue =>
      rw [h.touch.sender.1] at hdue
      rw [filterMap_append, length_append]
      exact h.replies.emit hdue hend.2
    case isFalse =>
      rw [append_nil]
      exact h.replies
  | case5 value hlen s' matched hmatch =>
    have hcases := challengeReplyMatches_cases w.iface header.source value now
    rw [hmatch] at hcases
    refine fun hspec => h.same hspec ?_ rfl
    rcases hcases with rfl | rfl
    · rfl
    · rw [setEntry_entry]
  | _ => exact fun hspec => h.same hspec rfl rfl

end Walk

theorem walk_paced (header : BabelPseudoHeader) (hend : s.clockFits now)
    (h : Limited s.config.replyIntervalMs now (s.entry header.source).lastReplyMs replies)
    (tlvs : List BodyTlv) :
    WalkPaced s header now replies tlvs (tlvs.foldl (walkTlv header now) { iface := s }) := by
  induction tlvs using List.reverseRecOn with
  | nil => exact ⟨walk_spec s header now [], h, fun _ => rfl⟩
  | append_singleton tlvs t ih =>
    rw [foldl_append]
    exact walkTlv_paced ih hend t

/-- What a datagram of the peer may not do while a limit applies: have the entry
discarded, and be answered before that. -/
def keepsLimits (s : BabelAuthInterface) (header : BabelPseudoHeader) (region : Bytes)
    (now : UInt64) : Bool :=
  !s.idle (s.entry header.source) now ||
    s.unlimited (s.entry header.source) now &&
      (isMulticast header.destination ||
        ((bodyTlvs (region.drop bodyOffset)).1.filterMap BodyTlv.challengeRequest).isEmpty)

/-- No challenge for the peer but an earlier one. -/
def ChallengeKept (peer : IpAddr) (s s' : BabelAuthInterface) : Prop :=
  ∀ p, (s'.entry peer).challenge = some p → (s.entry peer).challenge = some p

theorem Paced.setEntry {s₀ : BabelAuthInterface} {e : NeighbourAuth}
    (h : Paced s peer now requests replies ∧ ChallengeKept peer s₀ s)
    (hrequest : e.lastRequestMs = (s.entry peer).lastRequestMs)
    (hreply : e.lastReplyMs = (s.entry peer).lastReplyMs)
    (hchallenge : e.challenge = (s.entry peer).challenge) :
    Paced (s.setEntry peer e) peer now requests replies ∧
      ChallengeKept peer s₀ (s.setEntry peer e) := by
  refine ⟨h.1.congr rfl ?_ ?_, fun p hc => h.2 p ?_⟩ <;> rw [setEntry_entry] at *
  · exact hrequest
  · exact hreply
  · rwa [← hchallenge]

theorem receive_paced {header : BabelPseudoHeader} {region fresh : Bytes}
    (h : Paced s header.source now requests replies) (hend : s.clockFits now)
    (hkeeps : s.keepsLimits header region now = true) {s' : BabelAuthInterface}
    {out : BabelVerifyOutcome} (hreceive : s.receive region header now fresh = (s', out)) :
    Paced s' header.source now
        (replicate (out.actions.filterMap request?).length now ++ requests)
        (replicate (out.actions.filterMap reply?).length now ++ replies) ∧
      (out.actions.filterMap request? = [] →
        ChallengeKept header.source s s') := by
  have hr := receive_received s header region now fresh
  have hp := walk_paced header hend h.replies (bodyTlvs (region.drop bodyOffset)).1
  rw [hreceive] at hr
  generalize List.foldl _ _ _ = w at hr hp
  have hnone := requests_of_walk hp.toWalkSpec
  have hsender := hp.touch.sender.1
  obtain ⟨hrequest, hactivity⟩ :
      (w.iface.entry header.source).lastRequestMs = (s.entry header.source).lastRequestMs ∧
      (w.iface.entry header.source).lastActivityMs = (s.entry header.source).lastActivityMs := by
    obtain ⟨c, t, he, -⟩ := hp.touch.entry
    rw [he]
    exact ⟨rfl, rfl⟩
  have hwalk : Paced w.iface header.source now requests
      (replicate (w.actions.filterMap reply?).length now ++ replies) ∧
      ChallengeKept header.source s w.iface :=
    ⟨⟨by rw [hsender, hrequest]; exact h.requests, by rw [hsender]; exact hp.replies⟩,
      hp.touch.challenge⟩
  -- the entry is looked up again, and may be discarded, after the body was answered
  have hexpire : Paced (w.iface.expire header.source now) header.source now requests
        (replicate (w.actions.filterMap reply?).length now ++ replies) ∧
      ChallengeKept header.source s (w.iface.expire header.source now) := by
    rcases expire_idle w.iface header.source now with hsame | ⟨hidle, hnew⟩
    · refine ⟨hwalk.1.congr (expire_config ..) (by rw [hsame]) (by rw [hsame]), ?_⟩
      rw [ChallengeKept, hsame]
      exact hwalk.2
    have hidle' : s.idle (s.entry header.source) now = true := by
      simpa only [idle, hsender, hactivity] using hidle
    simp only [keepsLimits, hidle', Bool.not_true, Bool.false_or, Bool.and_eq_true,
      Bool.or_eq_true, List.isEmpty_iff] at hkeeps
    have hfree : w.iface.unlimited (w.iface.entry header.source) now = true := by
      simpa only [unlimited, hsender, hrequest, hp.silent hkeeps.2] using hkeeps.1
    have hend' : w.iface.clockFits now := by simpa only [clockFits, hsender] using hend
    refine ⟨hwalk.1.discard (expire_config ..) hnew hfree hend', ?_⟩
    rw [ChallengeKept, hnew]
    rintro p ⟨⟩
  cases hr with
  | dropped _ hactions =>
    rw [hactions, hnone]
    exact hwalk.imp_right fun hk _ => hk
  | answered _ _ _ hactions =>
    rw [hactions, hnone]
    refine .imp_right (fun hk _ => hk) (Paced.setEntry hwalk ?_ ?_ ?_) <;> rfl
  | replayed _ hactions =>
    rw [hactions, hnone]
    exact hexpire.imp_right fun hk _ => hk
  | counted _ _ hcount _ hactions =>
    obtain ⟨pcm, pcu, rfl⟩ := countPacket_entry hcount
    rw [hactions, hnone]
    refine .imp_right (fun hk _ => hk) (Paced.setEntry hexpire ?_ ?_ ?_) <;> rfl
  | challenged _ hactions =>
    rw [hactions, filterMap_append, filterMap_append, hnone]
    have hconfig : (w.iface.expire header.source now).config = s.config :=
      (expire_config ..).trans hsender
    unfold sendChallenge
    dsimp only
    split
    · rename_i hdue
      refine ⟨⟨?_, ?_⟩, fun hno => by cases hno⟩
      · rw [setEntry_entry]
        exact hexpire.1.requests.emit hdue (by rw [hconfig]; exact hend.1)
      · rw [setEntry_entry, length_append]
        exact hexpire.1.replies
    · simp only [filterMap_nil, append_nil]
      refine .imp_right (fun hk _ => hk) (Paced.setEntry hexpire ?_ ?_ ?_) <;> rfl

/-- A datagram changes the entry of its source only. -/
theorem receive_other (s : BabelAuthInterface) (header : BabelPseudoHeader) (region : Bytes)
    (now : UInt64) (fresh : Bytes) :
    (s.receive region header now fresh).1.config = s.config ∧ ∀ b, b ≠ header.source →
      (s.receive region header now fresh).1.entry b = s.entry b := by
  have hw := (walk_spec s header now (bodyTlvs (region.drop bodyOffset)).1).touch
  obtain ⟨hsender, hothers⟩ := (receive_received s header region now fresh).others
  exact ⟨hsender.1.trans hw.sender.1, fun b hb => (hothers b hb).trans (hw.others b hb)⟩

end BabelAuthInterface

/-! ## Runs -/

/-- An interface, and when the requests and replies to one peer were sent, latest first. -/
structure Watch where
  iface : BabelAuthInterface
  clock : UInt64
  requests : List UInt64 := []
  replies : List UInt64 := []

/-- What happens on one interface. -/
inductive AuthEvent where
  /-- A datagram arrives; `fresh` is the nonce of a challenge it may cause. -/
  | receive (packet : Bytes) (header : BabelPseudoHeader) (now : UInt64) (fresh : Bytes)
  | gc (now : UInt64)
  deriving DecidableEq, Repr

namespace Watch

/-- One event, not before the last one. -/
def step (mac : MacFunction) (peer : IpAddr) (n : Watch) : AuthEvent → Option Watch
  | .receive packet header now fresh =>
    if now < n.clock then none
    else
      let (s, out) := n.iface.verify mac packet header now fresh
      let actions := if header.source = peer then out.actions else []
      some
        { iface := s
          clock := now
          requests := replicate (actions.filterMap request?).length now ++
            n.requests
          replies := replicate (actions.filterMap reply?).length now ++
            n.replies }
  | .gc now => if now < n.clock then none else some { n with iface := n.iface.gc now, clock := now }

/-- The event leaves the limits of the peer in place. -/
def limitsKept (mac : MacFunction) (peer : IpAddr) (n : Watch) : AuthEvent → Bool
  | .receive packet header now _ => n.iface.clockFits now &&
      match n.iface.check mac packet header with
      | .verified region => header.source ≠ peer || n.iface.keepsLimits header region now
      | _ => true
  | .gc now => n.iface.clockFits now &&
      (!n.iface.idle (n.iface.entry peer) now || n.iface.unlimited (n.iface.entry peer) now)

/-- What was sent since `n₀` respects the limits, and a challenge that `n₀` did not have
came with a request. -/
structure Ok (peer : IpAddr) (n₀ n : Watch) : Prop where
  config : n.iface.config = n₀.iface.config
  paced : n.iface.Paced peer n.clock n.requests n.replies
  later : ∃ later, n.requests = later ++ n₀.requests ∧
    (later = [] → BabelAuthInterface.ChallengeKept peer n₀.iface n.iface)

section Steps

variable {mac : MacFunction} {peer : IpAddr} {n₀ n n' : Watch} {s : BabelAuthInterface}
  {now : UInt64}

section

variable (h : Ok peer n₀ n)
include h

theorem Ok.paced_now (hclock : ¬now < n.clock) : n.iface.Paced peer now n.requests n.replies :=
  have hle : n.clock ≤ now := UInt64.not_lt.mp hclock
  ⟨h.paced.requests.wait hle, h.paced.replies.wait hle⟩

/-- Nothing is sent to the peer, and its entry is kept or discarded. -/
theorem Ok.quiet (hconfig : s.config = n.iface.config)
    (hpaced : s.Paced peer now n.requests n.replies)
    (hentry : s.entry peer = n.iface.entry peer ∨ s.entry peer = .new n.iface.config.pcWindow) :
    Ok peer n₀ { n with iface := s, clock := now } := by
  obtain ⟨later, hlater, hkept⟩ := h.later
  refine ⟨hconfig.trans h.config, hpaced, later, hlater, fun hnil p hc => ?_⟩
  rcases hentry with heq | heq
  · rw [heq] at hc
    exact hkept hnil p hc
  · rw [heq] at hc
    cases hc

theorem Ok.same (hclock : ¬now < n.clock) (hconfig : s.config = n.iface.config)
    (hentry : s.entry peer = n.iface.entry peer) :
    Ok peer n₀ { n with iface := s, clock := now } :=
  h.quiet hconfig ((h.paced_now hclock).congr hconfig (by rw [hentry]) (by rw [hentry]))
    (.inl hentry)

end

theorem step_ok {e : AuthEvent} (h : Ok peer n₀ n) (hkept : n.limitsKept mac peer e = true)
    (hstep : n.step mac peer e = some n') : Ok peer n₀ n' := by
  cases e with
  | gc now =>
    simp only [step] at hstep
    split at hstep
    · cases hstep
    rename_i hclock
    cases hstep
    simp only [limitsKept, Bool.and_eq_true, Bool.or_eq_true, decide_eq_true_eq] at hkept
    rcases n.iface.gc_idle peer now with hsame | ⟨hidle, hnew⟩
    · exact h.same hclock rfl hsame
    · exact h.quiet rfl
        ((h.paced_now hclock).discard rfl hnew (hkept.2.resolve_left (by simp [hidle])) hkept.1)
          (.inr hnew)
  | receive packet header now fresh =>
    simp only [step, BabelAuthInterface.verify] at hstep
    split at hstep
    · cases hstep
    rename_i hclock
    cases hcheck : n.iface.check mac packet header with
    | refused e | unverified region =>
      rw [hcheck] at hstep
      cases hstep
      simpa using h.same hclock rfl rfl
    | verified region =>
      rw [hcheck] at hstep
      simp only [limitsKept, hcheck, Bool.and_eq_true, Bool.or_eq_true, decide_eq_true_eq] at hkept
      by_cases hpeer : header.source = peer
      · subst hpeer
        cases hreceive : n.iface.receive region header now fresh with
        | mk s out =>
          simp only [hreceive, if_true] at hstep
          cases hstep
          obtain ⟨hpaced, hnew⟩ := BabelAuthInterface.receive_paced (h.paced_now hclock) hkept.1
            (hkept.2.resolve_left (by simp)) hreceive
          have hconfig := (n.iface.receive_other header region now fresh).1
          rw [hreceive] at hconfig
          obtain ⟨later, hlater, hold⟩ := h.later
          refine ⟨hconfig.trans h.config, hpaced, _, by rw [hlater, append_assoc],
            fun hnil p hc => ?_⟩
          obtain ⟨hsent, hnil⟩ := append_eq_nil_iff.mp hnil
          exact hold hnil p (hnew (by simpa using hsent) p hc)
      · rw [if_neg hpeer] at hstep
        cases hstep
        obtain ⟨hconfig, hentry⟩ := n.iface.receive_other header region now fresh
        exact h.same hclock hconfig (hentry peer (Ne.symm hpeer))

end Steps

/-- As long as every event leaves the limits in place, the requests to a peer are the
challenge interval apart and the replies the reply interval, and a pending challenge gives way
to another nonce only with a request that keeps that distance. -/
theorem challenges_paced {mac : MacFunction} {peer : IpAddr} {s : BabelAuthInterface}
    {clock : UInt64} {es es' : List AuthEvent} {n n' : Watch}
    (hkept : Along (step mac peer) (limitsKept mac peer · ·) { iface := s, clock := clock } es)
    (hrun : exec (step mac peer) { iface := s, clock := clock } es = some n)
    (hkept' : Along (step mac peer) (limitsKept mac peer · ·) n es')
    (hrun' : exec (step mac peer) n es' = some n') :
    n'.requests.Pairwise (fun later earlier =>
        earlier.toNat + s.config.challengeIntervalMs.toNat ≤ later.toNat) ∧
      n'.replies.Pairwise (fun later earlier =>
        earlier.toNat + s.config.replyIntervalMs.toNat ≤ later.toNat) ∧
      ∀ p p', (n.iface.entry peer).challenge = some p →
        (n'.iface.entry peer).challenge = some p' → p'.nonce ≠ p.nonce →
        ∃ later ∈ n'.requests, ∀ earlier ∈ n.requests,
          earlier.toNat + s.config.challengeIntervalMs.toNat ≤ later.toNat := by
  have hstep : ∀ n₀ n e n', Ok peer n₀ n → limitsKept mac peer n e = true →
      n.step mac peer e = some n' → Ok peer n₀ n' := fun _ _ _ _ h hkept => step_ok h hkept
  have hn : Ok peer ⟨s, clock, [], []⟩ n :=
    exec_invariant (hstep _) ⟨rfl, ⟨⟨.nil, by simp⟩, .nil, by simp⟩, [], rfl, fun _ _ hp => hp⟩
      hkept hrun
  have hn' : Ok peer n n' :=
    exec_invariant (hstep _) ⟨rfl, hn.paced, [], rfl, fun _ _ hp => hp⟩ hkept' hrun'
  have hconfig := hn'.config.trans hn.config
  have hrequests := hn'.paced.requests.spaced
  have hreplies := hn'.paced.replies.spaced
  rw [hconfig] at hrequests hreplies
  refine ⟨hrequests, hreplies, fun p p' hp hp' hne => ?_⟩
  obtain ⟨later, hlater, hsame⟩ := hn'.later
  rw [hlater] at hrequests ⊢
  cases later with
  | nil =>
    rw [hsame rfl p' hp'] at hp
    cases hp
    exact absurd rfl hne
  | cons t later =>
    exact ⟨t, .head _, fun earlier he => rel_of_pairwise_cons hrequests
      (mem_append_right later he)⟩

/-- A datagram of Alice with an index that Bob does not know reaches Bob. -/
def unknownIndex (now : UInt64) : AuthEvent :=
  let d := datagram alice bob [9] 1 []
  .receive (d.region ++ [16, 16] ++ replicate 16 7) d.header now [1]

/-- The interface of `bob` at a time. -/
def bobAt (clock : UInt64) : Watch := { iface := ((started none).nodes bob).iface, clock }

/-- The first of two challenges is 300 ms old. -/
theorem challenges_paced_twice :
    (exec (step constantMac alice) (bobAt 0) [unknownIndex 0, unknownIndex 300]).map
      Watch.requests = some [300, 0] ∧
    [(300 : UInt64), 0].Pairwise fun later earlier => earlier.toNat + 300 ≤ later.toNat := by
  have hrun : (exec (step constantMac alice) (bobAt 0)
      [unknownIndex 0, unknownIndex 300]).map Watch.requests = some [300, 0] := by decide +kernel
  refine ⟨hrun, ?_⟩
  obtain ⟨n, hn, hlog⟩ := Option.map_eq_some_iff.mp hrun
  have hend : Along (step constantMac alice) (limitsKept constantMac alice · ·) n [] := trivial
  have hpaced := (challenges_paced (by decide +kernel) hn hend rfl).1
  rw [hlog] at hpaced
  exact hpaced

/-- Five minutes after the start Bob forgets that they have just challenged Alice. -/
theorem challenged_twice :
    (exec (step constantMac alice) (bobAt 0)
      [unknownIndex 300000, unknownIndex 300001]).map Watch.requests = some [300001, 300000] ∧
    ((started none).nodes bob).iface.config.challengeIntervalMs = 300 := by
  decide +kernel

end Watch

end LibRouting.Babel
