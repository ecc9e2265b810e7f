/-
  Bgp/Stream.lean --- how a session reads its byte stream (`feed_bytes`).

  `observe` is the run of one `feed_bytes` call turn by turn: what was decoded,
  what the state machine asked for, the state it went to and its output.  It instantiates the
  framed-stream library, whose chunking theorem needs two facts about the code: a
  decoded frame is final (`stable_look`), and a frame that does not decode closes
  the session (`look_halt_closes`).
-/
import LibRouting.Foundation.FramedStream
import LibRouting.Bgp.Codec.Grammar
import LibRouting.Bgp.Fsm

set_option autoImplicit false

namespace LibRouting.Bgp

open List

open Foundation Core Outcome FramedStream

/-! ## Frames -/

/-- The decoder reads a complete frame and nothing behind it. -/
theorem tryDecodeFrame_append {b : Bytes} {addPath : Bool} (h : tryDecodeFrame b addPath ≠ ok none)
    (c : Bytes) : tryDecodeFrame (b ++ c) addPath = tryDecodeFrame b addPath := by
  have hlen : headerLen ≤ b.length := by
    by_contra hshort
    exact h (by rw [tryDecodeFrame, if_pos (by omega)])
  have hlen' : ¬ (b ++ c).length < headerLen := by simp only [length_append]; omega
  have h19 : 19 ≤ b.length := hlen
  unfold tryDecodeFrame at h ⊢
  rw [if_neg hlen', if_neg (by omega), slice_append_left (by omega),
    readBe16_append_left (by omega),
    index_append_left (by omega)]
  rw [if_neg (by omega)] at h
  cases hslice : (slice b 0 16 : Outcome BgpError Bytes) with
  | err e => rfl
  | abort => rfl
  | ok head =>
    rw [hslice, ok_bind] at h
    simp only [ok_bind]
    by_cases hmark : head ≠ marker
    · rw [if_pos hmark, if_pos hmark]
    rw [if_neg hmark] at h ⊢
    rw [if_neg hmark]
    cases hread : (readBe16 b 16 : Outcome BgpError UInt16) with
    | err e => rfl
    | abort => rfl
    | ok len =>
      rw [hread, ok_bind] at h
      simp only [ok_bind]
      by_cases hbad : len.toNat < 19 ∨ 4096 < len.toNat
      · rw [if_pos hbad, if_pos hbad]
      rw [if_neg hbad] at h ⊢
      rw [if_neg hbad]
      have hfull : ¬ b.length < len.toNat := fun hlt => h (by rw [if_pos hlt])
      have hfull' : ¬ (b ++ c).length < len.toNat := by
        simp only [length_append]; omega
      have hbody : headerLen + (len.toNat - headerLen) ≤ b.length := by
        simp only [headerLen]; omega
      rw [if_neg hfull, if_neg hfull', slice_append_left hbody]

theorem tryDecodeFrame_length {b : Bytes} {addPath : Bool} {n : Nat} {msg : BgpMessage}
    (h : tryDecodeFrame b addPath = ok (some (n, msg))) : 19 ≤ n ∧ n ≤ b.length := by
  unfold tryDecodeFrame at h
  split at h
  · cases h
  obtain ⟨head, -, h⟩ := bind_eq_ok.mp h
  split at h
  · cases h
  obtain ⟨len, -, h⟩ := bind_eq_ok.mp h
  split at h
  · cases h
  rename_i hlen
  split at h
  · cases h
  rename_i hfull
  obtain ⟨kind, -, h⟩ := bind_eq_ok.mp h
  obtain ⟨body, -, h⟩ := bind_eq_ok.mp h
  obtain ⟨msg', -, h⟩ := bind_eq_ok.mp h
  obtain ⟨rfl, -⟩ := Prod.mk.inj (Option.some.inj (Outcome.ok.inj h))
  omega

namespace BgpPeer
variable (p : BgpPeer)

/-! ## The carry-over is only read by the decoder -/

/-- Apply a function to the session a transition returns. -/
def onPeer {α : Type} (f : BgpPeer → BgpPeer) (r : Outcome Empty (BgpPeer × α)) :
    Outcome Empty (BgpPeer × α) :=
  (fun x => (f x.1, x.2)) <$> r

theorem enqueue_holding (b : Bytes) (msg : BgpMessage) :
    (p.holding b).enqueue msg = (·.holding b) <$> p.enqueue msg := by
  have henc : (p.holding b).codec.encodeVec msg = p.codec.encodeVec msg := rfl
  unfold enqueue sendMsg
  rw [henc]
  cases p.codec.encodeVec msg <;> rfl

theorem refuseOpen_holding (b : Bytes) (subcode : UInt8) :
    (p.holding b).refuseOpen subcode = onPeer (·.holding b) (p.refuseOpen subcode) := by
  unfold refuseOpen
  rw [enqueue_holding]
  cases p.enqueue _ <;> rfl

theorem handleOpenInOpensent_holding (b : Bytes) (o : Open) :
    (p.holding b).handleOpenInOpensent o = onPeer (·.holding b) (p.handleOpenInOpensent o) := by
  unfold handleOpenInOpensent
  simp only [apply_ite (onPeer (·.holding b))]
  refine ite_congr rfl (fun _ => refuseOpen_holding p b _) fun _ => ?_
  refine ite_congr rfl (fun _ => refuseOpen_holding (p.agreeWidth o) b _) fun _ => ?_
  refine ite_congr rfl (fun _ => refuseOpen_holding (p.agreeWidth o) b _) fun _ => ?_
  refine ite_congr rfl (fun _ => refuseOpen_holding (p.agreeWidth o) b _) fun _ => ?_
  refine ite_congr rfl (fun _ => ?_) fun _ => rfl
  have henq := enqueue_holding ((p.agreeWidth o).negotiate o (openSenderAs o)) b .keepalive
  refine (congrArg (· >>= _) henq).trans ?_
  cases ((p.agreeWidth o).negotiate o (openSenderAs o)).enqueue .keepalive <;> rfl

/-- A transition that sends a message and then goes on commutes with replacing the
carry-over when the rest does. -/
theorem enqueue_bind_holding (b : Bytes) (msg : BgpMessage) (f : BgpPeer → BgpPeer × List BgpAction)
    (hf : ∀ q : BgpPeer, f (q.holding b) = ((f q).1.holding b, (f q).2)) :
    ((p.holding b).enqueue msg >>= fun q => (ok (f q) : Outcome Empty _)) =
      onPeer (·.holding b) (p.enqueue msg >>= fun q => ok (f q)) := by
  rw [enqueue_holding]
  cases p.enqueue msg with
  | ok q => exact congrArg ok (hf q)
  | err e | abort => rfl

/-- A transition neither reads nor changes the carry-over. -/
theorem step_holding (b : Bytes) (ev : BgpEvent) :
    (p.holding b).step ev = onPeer (·.holding b) (p.step ev) := by
  have hstate : (p.holding b).state = p.state := rfl
  unfold step
  rw [hstate]
  cases ev with
  | message m =>
    cases m with
    | «open» o =>
      cases p.state with
      | openSent =>
        show ((p.holding b).handleOpenInOpensent o >>= _) =
          onPeer _ (p.handleOpenInOpensent o >>= _)
        rw [handleOpenInOpensent_holding]
        cases p.handleOpenInOpensent o <;> rfl
      | _ => rfl
    | update u =>
      cases p.state with
      | established =>
        show (p.handleUpdateInEstablished u >>= _) =
          onPeer _ (p.handleUpdateInEstablished u >>= _)
        cases p.handleUpdateInEstablished u <;> rfl
      | _ => rfl
    | _ => cases p.state <;> rfl
  | parseError n => cases p.state <;> exact enqueue_bind_holding p b _ _ fun _ => rfl
  | transportOpen =>
    cases p.state with
    | connect | active => exact enqueue_bind_holding p b _ _ fun _ => rfl
    | _ => rfl
  | timerKeepalive | timerHoldExpired =>
    cases p.state with
    | established => exact enqueue_bind_holding p b _ _ fun _ => rfl
    | _ => rfl
  | _ => cases p.state <;> rfl

/-! ## Turns -/

/-- One turn of the receive loop: what was decoded, the actions of the state
machine, the state it went to and the output that waits to be sent. -/
structure Turn where
  received : Except BgpError BgpMessage
  actions : List BgpAction
  state : BgpState
  output : Bytes

/-- One look at the buffered bytes. -/
def look (p : BgpPeer) (buf : Bytes) : Look BgpPeer Turn :=
  match tryDecodeFrame buf (p.codec.rxAddPath .ipv4Unicast) with
  | .abort => .crash
  | .ok none => .wait
  | .ok (some (n, msg)) =>
    match { p with received := p.received.count msg }.step (.message msg) with
    | .ok (q, actions) => .take n q ⟨.ok msg, actions, q.state, q.outBuf⟩
    | _ => .crash
  | .err e =>
    match (p.countError e).step (decodeErrorEvent e) with
    | .ok (q, actions) => .halt q ⟨.error e, actions, q.state, q.outBuf⟩
    | _ => .crash

/-- The run of one `feed_bytes` call. -/
def observe (p : BgpPeer) (bytes : Bytes) : Run BgpPeer Turn :=
  feed look p (p.codec.carryover ++ bytes)

/-- The runs of consecutive calls. -/
def observeAll (p : BgpPeer) (chunks : List Bytes) : Run BgpPeer Turn :=
  feedAll look p p.codec.carryover chunks

/-- What a run returns to the caller of `feed_bytes`. -/
def returned (r : Run BgpPeer Turn) : Outcome Empty (BgpPeer × List BgpAction) :=
  match r.rest with
  | none => abort
  | some (p, buf) => ok (p.holding buf, r.turns.flatMap Turn.actions)

theorem returned_after (ts : List Turn) (r : Run BgpPeer Turn) :
    returned (r.after ts) = (fun x => (x.1, ts.flatMap Turn.actions ++ x.2)) <$> returned r := by
  obtain ⟨turns, rest⟩ := r
  cases rest <;> simp [Run.after, returned]

theorem feedLoop_holding (b buf : Bytes) : (p.holding b).feedLoop buf = p.feedLoop buf := by
  rw [feedLoop, feedLoop]
  rfl

/-- `feed_bytes` returns what its run shows. -/
theorem feedLoop_eq (buf : Bytes) : p.feedLoop buf = returned (feed look p buf) := by
  fun_induction feedLoop p buf with
  | case1 p buf hdec | case2 p buf hdec =>
    rw [feed, look, hdec]
    rfl
  | case3 p buf n msg hdec hpos ih =>
    have hstep : { p.holding (buf.drop n) with
        received := p.received.count msg }.step (.message msg) =
        onPeer (·.holding (buf.drop n))
          ({ p with received := p.received.count msg }.step (.message msg)) :=
      step_holding { p with received := p.received.count msg } (buf.drop n) _
    rw [feed, look, hdec]
    simp only [hstep]
    cases { p with received := p.received.count msg }.step (.message msg) with
    | err x => exact x.elim
    | abort => rfl
    | ok r =>
      simp only [onPeer, map_ok, ok_bind, dif_pos hpos, returned_after, feedLoop_holding,
        ih r.1, flatMap_cons, flatMap_nil, append_nil]
      cases returned (feed look r.1 (buf.drop n)) <;> rfl
  | case4 p buf n msg hdec hnot =>
    obtain ⟨hn, hle⟩ := tryDecodeFrame_length hdec
    exact absurd ⟨by omega, hle⟩ hnot
  | case5 p buf e hdec =>
    have hcount : (p.holding buf).countError e = (p.countError e).holding buf := by
      cases e <;> rfl
    rw [feed, look, hdec, hcount, step_holding]
    dsimp only
    cases (p.countError e).step (decodeErrorEvent e) with
    | ok r => simp [onPeer, returned]
    | err x => exact x.elim
    | abort => rfl

theorem feedBytes_eq (bytes : Bytes) :
    p.feedBytes bytes = returned (p.observe bytes) := p.feedLoop_eq _

/-- Consecutive calls of `feed_bytes`. -/
def feedCalls (p : BgpPeer) : List Bytes → Outcome Empty (BgpPeer × List BgpAction)
  | [] => ok (p, [])
  | c :: cs => do
      let (p, actions) ← p.feedBytes c
      let (p, more) ← p.feedCalls cs
      pure (p, actions ++ more)

theorem feedCalls_holding (buf : Bytes) (chunks : List Bytes) :
    (p.holding buf).feedCalls chunks = returned (feedAll look p buf chunks) := by
  induction chunks generalizing p buf with
  | nil => rfl
  | cons c cs ih =>
    have hfirst : (p.holding buf).feedBytes c = returned (feed look p (buf ++ c)) :=
      (feedLoop_holding p buf (buf ++ c)).trans (feedLoop_eq p (buf ++ c))
    simp only [feedCalls, feedAll, hfirst]
    obtain ⟨turns, rest⟩ := feed look p (buf ++ c)
    cases rest with
    | none => rfl
    | some r =>
      obtain ⟨q, buf'⟩ := r
      have hturns : returned ⟨turns, some (q, buf')⟩ =
          ok (q.holding buf', turns.flatMap Turn.actions) := rfl
      simp only [hturns, ok_bind, ih, returned_after]
      cases returned (feedAll look q buf' cs) <;> rfl

theorem feedCalls_eq (chunks : List Bytes) : p.feedCalls chunks = returned (p.observeAll chunks) :=
  feedCalls_holding p p.codec.carryover chunks

/-! ## What a received frame does -/

/-- The events `feed_bytes` raises. -/
def Received (ev : BgpEvent) : Prop := (∃ m, ev = .message m) ∨ ∃ n, ev = .parseError n

theorem decodeErrorEvent_eq (e : BgpError) : ∃ n, decodeErrorEvent e = .parseError n := by
  cases e <;> exact ⟨_, rfl⟩

@[simp] theorem countError_state (e : BgpError) : (p.countError e).state = p.state := by
  cases e <;> rfl

section Look

variable {p q : BgpPeer} {b : Bytes} {t : Turn}

theorem look_take {n : Nat} (h : look p b = .take n q t) :
    ∃ msg, tryDecodeFrame b (p.codec.rxAddPath .ipv4Unicast) = ok (some (n, msg)) ∧
      { p with received := p.received.count msg }.step (.message msg) = ok (q, t.actions) ∧
      t.state = q.state := by
  revert h
  fun_cases look p b with
  | case1 | case2 | case4 | case5 | case6 => exact nofun
  | case3 n msg hdec q actions hstep =>
    rintro ⟨⟩
    exact ⟨msg, hdec, hstep, rfl⟩

theorem look_halt (h : look p b = .halt q t) :
    ∃ e, tryDecodeFrame b (p.codec.rxAddPath .ipv4Unicast) = err e ∧
      (p.countError e).step (decodeErrorEvent e) = ok (q, t.actions) ∧ t.state = q.state := by
  revert h
  fun_cases look p b with
  | case1 | case2 | case3 | case4 | case6 => exact nofun
  | case5 e hdec q actions hstep =>
    rintro ⟨⟩
    exact ⟨e, hdec, hstep, rfl⟩

/-- A look that does not wait is one transition, which the received counters do not
influence. -/
theorem look_observes (h : Observes look p b q t) :
    ∃ (p' : BgpPeer) (ev : BgpEvent), p'.state = p.state ∧ Received ev ∧
      p'.step ev = ok (q, t.actions) ∧
      t.state = q.state := by
  obtain ⟨n, h⟩ | h := h
  · obtain ⟨msg, -, hstep⟩ := look_take h
    exact ⟨{ p with received := p.received.count msg }, _, rfl, .inl ⟨msg, rfl⟩, hstep⟩
  · obtain ⟨e, -, hstep⟩ := look_halt h
    exact ⟨_, _, countError_state p e, .inr (decodeErrorEvent_eq e), hstep⟩

end Look

/-- An action of a session that is going down. -/
def DownAction (a : BgpAction) : Prop := a = .close ∨ ∃ e, a = .emit e

/-- A frame that does not decode brings the session down in every state. -/
theorem step_parseError (n : BgpNotification) :
    p.step (.parseError n) = p.enqueue (.notification n) >>= fun q => ok (q.closed []) := by
  unfold step
  cases p.state <;> rfl

theorem step_notification (n : BgpNotification) :
    p.step (.message (.notification n)) = ok (p.notificationReceived n) := by
  unfold step
  cases p.state <;> rfl

/-- What a received frame does: the session goes down to Idle, or it does not close
and moves only when it was not Idle. -/
theorem step_received {p q : BgpPeer} {ev : BgpEvent} {actions : List BgpAction}
    (hev : Received ev) (h : p.step ev = ok (q, actions)) :
    (q.state = .idle ∧ ∀ a ∈ actions, DownAction a) ∨
      (.close ∉ actions ∧ (p.state = .idle → q = p ∧ actions = [])) := by
  cases step_transition h with
  | ignored => simp
  | started | opened | retried | kept => obtain ⟨m, hm⟩ | ⟨n, hn⟩ := hev <;> contradiction
  | refused => simp [DownAction]
  | accepted o hs _ hq =>
    obtain ⟨-, -, rfl⟩ | ⟨-, -, rfl⟩ := hq <;> simp [hs]
  | confirmed hs => simp [hs]
  | heard hs => simp [hs, rearmHold]
  | refreshed r hs =>
    refine .inr ⟨?_, by simp [hs]⟩
    unfold routeRefreshActions
    repeat' split
    all_goals simp
  | updated u hs hu =>
    have := handleUpdateInEstablished_not_close hu
    exact .inr ⟨by simp [this, rearmHold], by simp [hs]⟩
  | down _ _ _ _ hemits =>
    exact .inl ⟨rfl, forall_mem_append.mpr ⟨fun a ha => .inr (hemits a ha), by simp [DownAction]⟩⟩

theorem stable_look : Stable look where
  append := by
    intro p b h c
    have hdec : tryDecodeFrame b (p.codec.rxAddPath .ipv4Unicast) ≠ ok none := fun hnone =>
      h (by rw [look, hnone])
    rw [look, look, tryDecodeFrame_append hdec]
  take_le := by
    intro p b n q t h
    obtain ⟨msg, hdec, -⟩ := look_take h
    obtain ⟨hn, hle⟩ := tryDecodeFrame_length hdec
    exact ⟨by omega, hle⟩

theorem look_halt_close {p q : BgpPeer} {b : Bytes} {t : Turn} (h : look p b = .halt q t) :
    .close ∈ t.actions := by
  obtain ⟨e, -, hstep, -⟩ := look_halt h
  obtain ⟨n, hn⟩ := decodeErrorEvent_eq e
  rw [hn, step_parseError] at hstep
  obtain ⟨p', -, hstep⟩ := bind_eq_ok.mp hstep
  obtain ⟨-, hactions⟩ := Prod.mk.inj (Outcome.ok.inj hstep)
  simp [← hactions]

/-! ## Chunking -/

/-- The turn closes the session. -/
def Turn.closes (t : Turn) : Bool := decide (.close ∈ t.actions)

/-- The turn leaves the session in Idle and asks for nothing but closing and
logging. -/
def Turn.Quiet (t : Turn) : Prop := t.state = .idle ∧ ∀ a ∈ t.actions, DownAction a

theorem observes_closes {p q : BgpPeer} {b : Bytes} {t : Turn} (h : Observes look p b q t)
    (hcloses : t.closes = true) : q.state = .idle := by
  obtain ⟨p', ev, -, hev, hstep, -⟩ := look_observes h
  obtain ⟨hidle, -⟩ | ⟨hnot, -⟩ := step_received hev hstep
  · exact hidle
  · exact absurd (of_decide_eq_true hcloses) hnot

theorem observes_idle {p q : BgpPeer} {b : Bytes} {t : Turn} (hidle : p.state = .idle)
    (h : Observes look p b q t) : q.state = .idle ∧ t.Quiet := by
  obtain ⟨p', ev, hstate, hev, hstep, ht⟩ := look_observes h
  obtain ⟨hq, hdown⟩ | ⟨-, hstay⟩ := step_received hev hstep
  · exact ⟨hq, ht.trans hq, hdown⟩
  · obtain ⟨rfl, hnil⟩ := hstay (hstate.trans hidle)
    have hq := hstate.trans hidle
    exact ⟨hq, ht.trans hq, by simp [hnil]⟩

/-- The chunks and the whole stream are fed by the same loop, whose runs the
observations are.  Cutting the stream does not show through the first turn that
closes the session, and not at all when none does; behind that turn the session
stays in Idle and no chunk leads to a route action. -/
theorem chunking_invariant (p : BgpPeer) (c : Bytes) (cs : List Bytes) :
    p.feedCalls (c :: cs) = returned (p.observeAll (c :: cs)) ∧
      p.feedBytes (c :: cs).flatten = returned (p.observe (c :: cs).flatten) ∧
      through Turn.closes (p.observeAll (c :: cs)).turns =
        through Turn.closes (p.observe (c :: cs).flatten).turns ∧
      ((p.observe (c :: cs).flatten).turns.any Turn.closes = false →
        p.observeAll (c :: cs) = p.observe (c :: cs).flatten) ∧
      QuietAfter Turn.closes Turn.Quiet (p.observeAll (c :: cs)).turns := by
  have hhalt : ∀ {p : BgpPeer} {b : Bytes} {q : BgpPeer} {t : Turn},
      look p b = .halt q t → t.closes = true := fun h => decide_eq_true (look_halt_close h)
  obtain ⟨hthrough, hsame⟩ := through_feedAll stable_look hhalt p p.codec.carryover c cs
  refine ⟨p.feedCalls_eq _, p.feedBytes_eq _, hthrough, hsame, ?_⟩
  exact (feedAll_quietAfter observes_closes observes_idle (c :: cs) p
    p.codec.carryover).1

/-- A session that a NOTIFICATION has closed still decodes the KEEPALIVE of the next
chunk. -/
theorem closed_session_decodes :
    let neighbour : PeerConfig := { localAs := 65002, peerAs := 65001, localBgpId := 2 }
    (do
      let (p, _) ← (BgpPeer.new { localAs := 65001, peerAs := 65002, localBgpId := 1 }).step
        .manualStart
      let (p, _) ← p.step .transportOpen
      pure ((p.observeAll [frameWire false (.open neighbour.openMessage),
        frameWire false .keepalive,
        frameWire false (.notification ⟨6, 2, []⟩), frameWire false .keepalive]).turns.map
          fun t => (t.closes, t.state, t.received.toOption.isSome))) =
      (ok [(false, .openConfirm, true), (false, .established, true), (true, .idle, true),
        (false, .idle, true)] : Outcome Empty _) := by
  decide +kernel

end BgpPeer

end LibRouting.Bgp
