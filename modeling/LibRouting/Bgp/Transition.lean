/-
  Bgp/Transition.lean --- the transitions of a session, one by one, what holds of a whole
  `feed_bytes` call because it holds of each of them, and the hold and keepalive timers a
  session asks for.

  The state machine arms and cancels timers by actions.  How many are armed afterwards is a
  fold over its actions, and can be compared with how many its state calls for.
-/
import LibRouting.Bgp.Fsm
import LibRouting.Bgp.Stream
import LibRouting.Bgp.UpdateParts

set_option autoImplicit false

namespace LibRouting.Bgp

open Foundation Core Outcome List

namespace BgpPeer

variable {p q : BgpPeer} {ev : BgpEvent} {actions : List BgpAction} {msg : BgpMessage} {r : BgpPeer}
  {o : Open} {state : BgpState}

theorem cfg_of_still (h : q.still = p.still) : q.cfg = p.cfg := by
  have hcfg := congrArg cfg h
  exact hcfg

/-! ## Transitions -/

theorem step_manualStop (p : BgpPeer) : p.step .manualStop = ok (p.closed []) := by
  cases hs : p.state <;> rw [BgpPeer.step.eq_def, hs]

theorem Transition.cfg (h : Transition p ev q actions) : q.cfg = p.cfg :=
  h.preserves (P := (·.cfg = p.cfg)) rfl id
    (fun h _ henq => (cfg_of_still (still_enqueue henq)).trans h)
    fun _ _ => ⟨rfl, rfl⟩

/-! ## Routes -/

/-- A route that is installed is a BGP route of this session. -/
def Names (p : BgpPeer) : BgpAction → Prop
  | .installRoute r => r.origin = p.routeOrigin ∧ r.protocol = .bgp
  | _ => True

theorem handleUpdateInEstablished_names {u : Update}
    (h : p.handleUpdateInEstablished u = ok actions) : ∀ a ∈ actions, p.Names a := by
  intro a ha
  obtain ⟨_, rfl⟩ | ⟨_, _, rfl⟩ | ⟨_, rfl⟩ | ⟨_, rfl, hroute⟩ :=
    handleUpdateInEstablished_cases h ha
  iterate 3
    · trivial
  · exact hroute

theorem Transition.names (h : Transition p ev q actions) : ∀ a ∈ actions, p.Names a := by
  intro a ha
  cases h with
  | ignored | opened | retried => cases ha
  | started | confirmed | kept | refused =>
    obtain rfl := mem_singleton.mp ha
    trivial
  | accepted _ _ _ hq =>
    obtain ⟨-, -, rfl⟩ | ⟨-, -, rfl⟩ := hq
    · simp only [mem_cons, not_mem_nil, or_false] at ha
      obtain rfl | rfl := ha <;> trivial
    · cases ha
  | heard =>
    simp only [rearmHold, mem_cons, not_mem_nil, or_false] at ha
    obtain rfl | rfl := ha <;> trivial
  | refreshed r =>
    unfold routeRefreshActions at ha
    repeat' split at ha
    all_goals simp_all [Names]
  | updated u hs hu =>
    obtain ha | ha := mem_append.mp ha
    · exact handleUpdateInEstablished_names hu a ha
    · simp only [rearmHold, mem_cons, not_mem_nil, or_false] at ha
      obtain rfl | rfl := ha <;> trivial
  | down _ _ _ _ hemits =>
    obtain ha | ha := mem_append.mp ha
    · obtain ⟨e, rfl⟩ := hemits a ha
      trivial
    · obtain rfl := mem_singleton.mp ha
      trivial

/-- Without a message from the peer a session sets timers, goes down, or tells the embedder
something. -/
theorem Transition.quiet (h : Transition p ev q actions) (hev : ∀ m, ev ≠ .message m) :
    ∀ a ∈ actions, (∃ id ms, a = .setTimer id ms) ∨ a = .close ∨ IsEmit a := by
  intro a ha
  cases h with
  | ignored | opened | retried => cases ha
  | started | kept =>
    obtain rfl := mem_singleton.mp ha
    exact .inl ⟨_, _, rfl⟩
  | refused | accepted | confirmed | heard | refreshed | updated => exact absurd rfl (hev _)
  | down _ _ _ _ hemits =>
    obtain ha | ha := mem_append.mp ha
    · exact .inr (.inr (hemits a ha))
    · exact .inr (.inl (mem_singleton.mp ha))

/-! ## Whole feeds -/

/-- The state machine without what it has sent and what it has read. -/
def calm (p : BgpPeer) : BgpPeer :=
  { p.still with received := {}, codec := { p.codec with carryover := [] } }

/-- The events a feed gives to the state machine, each with the peer that takes it. -/
def feedSteps (p : BgpPeer) (buf : Bytes) : List (BgpPeer × BgpEvent) :=
  match tryDecodeFrame buf (p.codec.rxAddPath .ipv4Unicast) with
  | .ok (some (n, msg)) =>
    if _h : 0 < n ∧ n ≤ buf.length then
      let t := { p.holding (buf.drop n) with received := p.received.count msg }
      (t, .message msg) ::
        match t.step (.message msg) with
        | .ok (q, _) => feedSteps q (buf.drop n)
        | _ => []
    else []
  | .err e => [((p.holding buf).countError e, decodeErrorEvent e)]
  | _ => []
termination_by buf.length
decreasing_by
  simp only [length_drop]
  omega

/-- One event after the other; between two of them the peer reads on. -/
inductive Steps : BgpPeer → List (BgpPeer × BgpEvent) → BgpPeer → List BgpAction → Prop
  | done {p q : BgpPeer} (h : q.calm = p.calm) : Steps p [] q []
  | step {p t q r : BgpPeer} {ev : BgpEvent} {rest : List (BgpPeer × BgpEvent)}
      {actions more : List BgpAction} (h : t.calm = p.calm) (hev : Received ev)
      (hone : t.step ev = ok (q, actions)) (hrest : Steps q rest r more) :
      Steps p ((t, ev) :: rest) r (actions ++ more)

theorem feedLoop_steps {buf : Bytes} (h : p.feedLoop buf = ok (q, actions)) :
    Steps p (p.feedSteps buf) q actions := by
  fun_induction p.feedLoop buf generalizing actions with
  | case1 | case4 => cases h
  | case2 p buf hdec =>
    cases h
    simpa [feedSteps, hdec] using .done rfl
  | case3 p buf k msg hdec hk ih =>
    obtain ⟨⟨p₁, as⟩, hone, h⟩ := bind_eq_ok.mp h
    obtain ⟨⟨p₂, more⟩, hrest, h⟩ := bind_eq_ok.mp h
    cases h
    rw [feedSteps, hdec]
    simp only [dif_pos hk, hone]
    exact .step rfl (.inl ⟨msg, rfl⟩) hone (ih p₁ hrest)
  | case5 p buf e hdec =>
    obtain ⟨n, hn⟩ := decodeErrorEvent_eq e
    rw [feedSteps, hdec]
    simp only [hn] at h ⊢
    have hcalm : ((p.holding buf).countError e).calm = p.calm := by cases e <;> rfl
    have hsteps := Steps.step hcalm (.inr ⟨n, rfl⟩) h (.done rfl)
    rwa [append_nil] at hsteps

theorem cfg_of_calm (h : q.calm = p.calm) : q.cfg = p.cfg := by
  have hcfg := congrArg cfg h
  exact hcfg

/-- A feed keeps the configuration and installs routes of its session only. -/
theorem Steps.names {steps : List (BgpPeer × BgpEvent)} (h : Steps p steps q actions) :
    q.cfg = p.cfg ∧ ∀ a ∈ actions, p.Names a := by
  induction h with
  | done h => exact ⟨cfg_of_calm h, by simp⟩
  | step h _ hone _ ih =>
    have htrans := step_transition hone
    have hcfg := htrans.cfg.trans (cfg_of_calm h)
    refine ⟨ih.1.trans hcfg, fun a ha => ?_⟩
    obtain ha | ha := mem_append.mp ha
    · have hname := htrans.names a ha
      cases a <;> simp_all [Names, routeOrigin, cfg_of_calm h]
    · have hname := ih.2 a ha
      cases a <;> simp_all [Names, routeOrigin]

theorem feedBytes_names {bytes : Bytes} (h : p.feedBytes bytes = ok (q, actions)) :
    q.cfg = p.cfg ∧ ∀ a ∈ actions, p.Names a :=
  (feedLoop_steps h).names

end BgpPeer

/-- How many timers are armed under an identifier after an action. -/
def BgpAction.tally (id : TimerId) (n : Nat) : BgpAction → Nat
  | .setTimer i _ => if i = id then n + 1 else n
  | .cancelTimer i => if i = id then 0 else n
  | _ => n

/-- The action is about a timer. -/
def BgpAction.isTimer : BgpAction → Bool
  | .setTimer _ _ | .cancelTimer _ => true
  | _ => false

theorem BgpAction.tally_of_not_timer {a : BgpAction} (h : a.isTimer = false) (id : TimerId)
    (n : Nat) : a.tally id n = n := by
  cases a with
  | setTimer | cancelTimer => cases h
  | _ => rfl

theorem foldl_tally_of_not_timer {actions : List BgpAction} (h : ∀ a ∈ actions, a.isTimer = false)
    (id : TimerId) (n : Nat) : actions.foldl (BgpAction.tally id) n = n := by
  induction actions with
  | nil => rfl
  | cons a actions ih =>
    rw [foldl_cons, BgpAction.tally_of_not_timer (h a (.head _))]
    exact ih fun a ha => h a (.tail _ ha)

/-- The two timers that watch over a session that is up. -/
def TimerId.Watches (id : TimerId) : Prop := id = .hold ∨ id = .keepalive

/-- What the timers of a session follow: its state and the hold time it has agreed on. -/
structure Phase where
  state : BgpState
  holdTime : UInt16

namespace Phase

/-- The session is up, or nearly, and has agreed on a hold time. -/
def Timed (ph : Phase) : Prop :=
  (ph.state = .openConfirm ∨ ph.state = .established) ∧ 0 < ph.holdTime
  deriving Decidable

/-- How many hold timers, and how many keepalive timers, the phase calls for. -/
def wanted (ph : Phase) : Nat := if ph.Timed then 1 else 0

variable {ph ph' : Phase}

theorem wanted_of_timed (h : ph.Timed) : ph.wanted = 1 := if_pos h

theorem wanted_of_not_timed (h : ¬ ph.Timed) : ph.wanted = 0 := if_neg h

theorem not_timed_of_state {state : BgpState} {holdTime : UInt16}
    (h : ¬ (state = .openConfirm ∨ state = .established)) : ¬ Timed ⟨state, holdTime⟩ :=
  fun htimed => h htimed.1

theorem tally_of_not_timed {actions : List BgpAction} {id : TimerId} (h : ¬ ph.Timed)
    (h' : ¬ ph'.Timed) (hnone : actions.foldl (BgpAction.tally id) 0 = 0) :
    actions.foldl (BgpAction.tally id) ph.wanted = ph'.wanted := by
  rw [wanted_of_not_timed h, wanted_of_not_timed h']
  exact hnone

end Phase

namespace BgpPeer

open Phase

variable {p q : BgpPeer} {actions : List BgpAction} {id : TimerId} {ev : BgpEvent}

/-- The part of a peer that its timers depend on. -/
def phase (p : BgpPeer) : Phase := ⟨p.state, p.negotiatedHoldTime⟩

/-! ## What arrives -/

/-- The session goes on with the right timers after the event: nothing takes it down while
it is watched, nothing arms the hold timer of a session without a hold time, and no
keepalive timer expires. -/
def Bears (p : BgpPeer) : BgpEvent → Prop
  | .message .keepalive | .message (.update _) =>
    p.state = .established → 0 < p.negotiatedHoldTime
  | .timerKeepalive => p.state ≠ .established
  | ev => Ends p.state ev → ¬ p.phase.Timed

instance (p : BgpPeer) (ev : BgpEvent) : Decidable (p.Bears ev) := by
  unfold Bears Ends
  repeat' split
  all_goals infer_instance

theorem handleUpdateInEstablished_not_timer {u : Update}
    (h : p.handleUpdateInEstablished u = ok actions) : ∀ a ∈ actions, a.isTimer = false := by
  intro a ha
  obtain ⟨_, rfl⟩ | ⟨_, _, rfl⟩ | ⟨_, rfl⟩ | ⟨_, rfl, -⟩ := handleUpdateInEstablished_cases h ha <;>
    rfl

/-- Re-arming leaves one hold timer and the keepalive timers alone. -/
theorem foldl_tally_rearmHold (p : BgpPeer) (hid : id.Watches) {n : Nat} (hn : n = 1) :
    p.rearmHold.foldl (BgpAction.tally id) n = 1 := by
  obtain rfl | rfl := hid
  · rfl
  · exact hn

/-- An event that the session bears leaves it with the timers it calls for. -/
theorem step_tally (h : p.step ev = ok (q, actions)) (hb : p.Bears ev) (hid : id.Watches) :
    actions.foldl (BgpAction.tally id) p.phase.wanted = q.phase.wanted := by
  cases step_transition h with
  | ignored => rfl
  | started hs =>
    refine tally_of_not_timed (not_timed_of_state (by simp [hs])) (not_timed_of_state (by simp)) ?_
    obtain rfl | rfl := hid <;> rfl
  | opened hs =>
    refine tally_of_not_timed (not_timed_of_state ?_) (not_timed_of_state (by simp)) rfl
    obtain hs | hs := hs <;> simp [hs]
  | retried hs | refused _ hs =>
    exact tally_of_not_timed (not_timed_of_state (by simp [hs])) (not_timed_of_state (by simp)) rfl
  | @accepted p₁ q _ o hs hp₁ hq =>
    have hp : ¬ p.phase.Timed := not_timed_of_state (by simp [hs])
    obtain ⟨hhold, hq, rfl⟩ | ⟨hhold, rfl, rfl⟩ := hq
    · have hsame := congrArg negotiatedHoldTime (still_enqueue hq)
      have hpos : 0 < q.negotiatedHoldTime := hsame ▸ hhold
      rw [wanted_of_not_timed hp, wanted_of_timed ⟨.inl rfl, hpos⟩]
      obtain rfl | rfl := hid <;> rfl
    · exact tally_of_not_timed hp (fun h => hhold h.2) rfl
  | confirmed hs =>
    simp [wanted, Timed, phase, hs, BgpAction.tally]
  | heard hs =>
    have hp : p.phase.Timed := ⟨.inr hs, hb hs⟩
    rw [wanted_of_timed hp]
    exact (foldl_tally_rearmHold p hid rfl).trans (wanted_of_timed hp).symm
  | refreshed r hs =>
    refine foldl_tally_of_not_timer ?_ id _
    intro a ha
    unfold routeRefreshActions at ha
    repeat' split at ha
    all_goals simp_all [BgpAction.isTimer]
  | updated u hs hu =>
    have hp : p.phase.Timed := ⟨.inr hs, hb hs⟩
    rw [foldl_append, foldl_tally_of_not_timer (handleUpdateInEstablished_not_timer hu),
      wanted_of_timed hp]
    exact foldl_tally_rearmHold p hid rfl
  | kept hs => exact absurd hs hb
  | @down q emits _ notified collided hends hemits hq =>
    have hp : ¬ p.phase.Timed := by
      unfold Bears at hb
      split at hb
      · exact hends.elim
      · exact hends.elim
      · exact hends.elim
      · exact hb hends
    refine tally_of_not_timed hp (not_timed_of_state (by simp)) (foldl_tally_of_not_timer ?_ id 0)
    refine forall_mem_append.mpr ⟨fun a ha => ?_, by simp [BgpAction.isTimer]⟩
    obtain ⟨e, rfl⟩ := hemits a ha
    rfl

theorem phase_of_calm (h : q.calm = p.calm) : q.phase = p.phase := by
  have hphase := congrArg phase h
  exact hphase

theorem Steps.tally {steps : List (BgpPeer × BgpEvent)} (h : Steps p steps q actions)
    (hb : ∀ x ∈ steps, x.1.Bears x.2) (hid : id.Watches) :
    actions.foldl (BgpAction.tally id) p.phase.wanted = q.phase.wanted := by
  induction h with
  | done h =>
    rw [phase_of_calm h]
    rfl
  | step h _ hone _ ih =>
    rw [foldl_append, ← phase_of_calm h, step_tally hone (hb _ (.head _)) hid]
    exact ih fun x hx => hb x (.tail _ hx)

/-! ## Timers that expire -/

theorem step_timerKeepalive_established (hs : p.state = .established)
    (h : p.step .timerKeepalive = ok (q, actions)) :
    q.phase = p.phase ∧ ∃ ms, actions = [.setTimer .keepalive ms] := by
  unfold step at h
  rw [hs] at h
  obtain ⟨p', henq, h⟩ := bind_eq_ok.mp h
  cases h
  have hsame := congrArg phase (still_enqueue henq)
  exact ⟨hsame, _, rfl⟩

theorem step_timerHoldExpired_established (hs : p.state = .established)
    (h : p.step .timerHoldExpired = ok (q, actions)) : q.state = .idle ∧ actions = [.close] := by
  unfold step at h
  rw [hs] at h
  obtain ⟨p', henq, h⟩ := bind_eq_ok.mp h
  cases h
  exact ⟨rfl, rfl⟩

theorem step_watch_ignored (hev : ev = .timerKeepalive ∨ ev = .timerHoldExpired)
    (hs : p.state ≠ .established) (h : p.step ev = ok (q, actions)) : q = p ∧ actions = [] := by
  obtain ⟨cfg, codec, state, rest⟩ := p
  obtain rfl | rfl := hev
  all_goals
    cases state with
    | established => exact absurd rfl hs
    | _ =>
      cases h
      exact ⟨rfl, rfl⟩

/-- The other timers neither end a session nor send on it, and do not touch one that is
up. -/
theorem step_other_timer (hev : ev = .timerConnectRetry ∨ ev = .timerIdleHold)
    (h : p.step ev = ok (q, actions)) :
    actions = [] ∧ q.outBuf = p.outBuf ∧
      (q = p ∨ (¬ p.phase.Timed ∧ p.state ≠ .idle) ∧ ¬ q.phase.Timed) := by
  cases step_transition h with
  | ignored => exact ⟨rfl, rfl, .inl rfl⟩
  | retried hs =>
    have hp : ¬ p.phase.Timed := not_timed_of_state (by simp [hs])
    exact ⟨rfl, rfl, .inr ⟨⟨hp, by simp [hs]⟩, not_timed_of_state (by simp)⟩⟩
  | started | opened | refused | accepted | confirmed | heard | refreshed | updated | kept =>
    obtain hev | hev := hev <;> cases hev
  | down _ _ _ hends =>
    obtain rfl | rfl := hev
    · exact hends.elim
    · exact hends.elim

end BgpPeer

end LibRouting.Bgp
