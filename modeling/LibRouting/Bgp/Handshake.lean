/-
  Bgp/Handshake.lean --- two sessions joined by a transport connection.

  Each side writes into a FIFO byte channel and reads the other one in chunks of
  any size.  The OPEN exchange is a short script: an OPEN, then the KEEPALIVE that
  confirms the OPEN of the other side, then anything.  `Outstanding` says, for the
  two states, what part of that script a side still has in front of it; every
  event keeps it (`Facing`).
-/
import Mathlib.Logic.Function.Basic
import LibRouting.Foundation.Run
import LibRouting.Bgp.Advertise
import LibRouting.Bgp.Negotiation

set_option autoImplicit false

namespace LibRouting.Bgp

open Foundation Core FramedStream Outcome BgpPeer List

/-! ## The connection -/

/-- The two ends of a connection. -/
inductive Side where
  | left
  | right
  deriving DecidableEq, Repr

/-- The other side. -/
def Side.other : Side → Side
  | left => right
  | right => left

@[simp] theorem Side.other_other (s : Side) : s.other.other = s := by cases s <;> rfl

@[simp] theorem Side.other_ne (s : Side) : s.other ≠ s := by cases s <;> simp [Side.other]

theorem Side.eq_or_other (s t : Side) : t = s ∨ t = s.other := by
  cases s <;> cases t <;> simp [Side.other]

/-- The event a timer raises. -/
def TimerId.event : TimerId → BgpEvent
  | connectRetry => .timerConnectRetry
  | hold => .timerHoldExpired
  | keepalive => .timerKeepalive
  | idleHold => .timerIdleHold

/-- The timers that run after the embedder has carried out one action. -/
def BgpAction.rearm (armed : List TimerId) : BgpAction → List TimerId
  | .setTimer id _ => if id ∈ armed then armed else id :: armed
  | .cancelTimer id => armed.erase id
  | _ => armed

/-- The timers that run after a list of actions. -/
def rearmAll (armed : List TimerId) (actions : List BgpAction) : List TimerId :=
  actions.foldl BgpAction.rearm armed

theorem rearmAll_append (armed : List TimerId) (as bs : List BgpAction) :
    rearmAll armed (as ++ bs) = rearmAll (rearmAll armed as) bs := foldl_append

/-- The transport is up on this side and bytes can be read. -/
def BgpState.reading : BgpState → Bool
  | .openSent | .openConfirm | .established => true
  | .idle | .connect | .active => false

/-- What an established session is asked to send: routes or a refresh request. -/
def BgpMessage.isRouting : BgpMessage → Bool
  | .update _ | .routeRefresh _ => true
  | .open _ | .notification _ | .keepalive => false

/-- Two sessions, the bytes on their way to each of them, and the timers that
run. -/
structure Connection where
  peer : Side → BgpPeer
  inbound : Side → Bytes
  armed : Side → List TimerId

/-- What may happen on the connection. -/
inductive ConnectionEvent where
  /-- The transport comes up on this side. -/
  | opened (s : Side)
  /-- The embedder drains the output buffer into the transport. -/
  | flush (s : Side)
  /-- The next `n` bytes arrive. -/
  | deliver (s : Side) (n : Nat)
  /-- A timer fires. -/
  | timer (s : Side) (id : TimerId)
  /-- An established session sends an UPDATE or a ROUTE-REFRESH. -/
  | send (s : Side) (msg : BgpMessage)
  deriving DecidableEq

namespace Connection

open Function (update)

/-- A side takes the result of a transition; a panic ends the run. -/
def take (c : Connection) (s : Side) : Outcome Empty (BgpPeer × List BgpAction) → Option Connection
  | .ok (p, actions) => some { c with
      peer := update c.peer s p
      armed := update c.armed s (rearmAll (c.armed s) actions) }
  | _ => none

/-- One event.  A timer may fire at any moment, whether or not it was armed. -/
def step (c : Connection) : ConnectionEvent → Option Connection
  | .opened s => c.take s ((c.peer s).step .transportOpen)
  | .flush s => some { c with
      peer := update c.peer s { c.peer s with outBuf := [] }
      inbound := update c.inbound s.other (c.inbound s.other ++ (c.peer s).outBuf) }
  | .deliver s n =>
    if (c.peer s).state.reading then
      { c with inbound := update c.inbound s ((c.inbound s).drop n) }.take s
        ((c.peer s).feedBytes ((c.inbound s).take n))
    else none
  | .timer s id =>
    { c with armed := update c.armed s ((c.armed s).erase id) }.take s ((c.peer s).step id.event)
  | .send s msg =>
    if (c.peer s).established && msg.isRouting then
      c.take s ((fun p => (p, [])) <$> (c.peer s).enqueue msg)
    else none

/-- A new connection of two sessions: each was reset and told to start. -/
def start (p : Side → BgpPeer) : Connection where
  peer s := { (p s).reset with state := .connect }
  inbound _ := []
  armed _ := [.connectRetry]

/-- The bytes a side has not consumed: what it buffers, what is in the transport
and what the other side has not drained. -/
def pending (c : Connection) (s : Side) : Bytes :=
  (c.peer s).codec.carryover ++ c.inbound s ++ (c.peer s.other).outBuf

/-- Nothing is left to deliver: a side that still reads has no bytes in front of
it. -/
def Drained (c : Connection) : Prop := ∀ s, (c.peer s).state = .idle ∨ c.pending s = []

end Connection
variable {b : Bytes} {msg : BgpMessage} {frame : Bytes} {addPath : Bool} {cfg : PeerConfig}
  {hold : UInt16}

/-! ## The frames of the exchange -/

/-- The frame decodes to the message whatever framing is negotiated. -/
def Reads (frame : Bytes) (msg : BgpMessage) : Prop :=
  ∀ addPath, tryDecodeFrame frame addPath = ok (some (frame.length, msg))

/-- A buffer that is the beginning of a stream decodes nothing yet, or the first
frame of the stream. -/
theorem Reads.first {r rest : Bytes} (h : Reads frame msg) (hb : b ++ r = frame ++ rest)
    (hdec : tryDecodeFrame b addPath ≠ ok none) :
    tryDecodeFrame b addPath = ok (some (frame.length, msg)) ∧ b.drop frame.length ++ r = rest := by
  have hframe : tryDecodeFrame frame addPath ≠ ok none := by rw [h addPath]; simp
  have hread : tryDecodeFrame b addPath = ok (some (frame.length, msg)) := by
    rw [← tryDecodeFrame_append hdec r, hb, tryDecodeFrame_append hframe rest, h addPath]
  refine ⟨hread, ?_⟩
  have hle := (tryDecodeFrame_length hread).2
  rw [← drop_append_of_le_length hle, hb, drop_left]

theorem Reads.ne_nil (h : Reads frame msg) : frame ≠ [] := by
  have := (tryDecodeFrame_length (h false)).1
  rintro rfl
  simp at this

theorem append_ne_nil_of_decodes (r : Bytes) (h : tryDecodeFrame b addPath ≠ ok none) :
    b ++ r ≠ [] := by
  intro hnil
  rw [(append_eq_nil_iff.mp hnil).1, tryDecodeFrame, if_pos (by decide)] at h
  exact h rfl

/-- Framing only matters to a message that has NLRI. -/
theorem frame_same (hnot : ∀ u, msg ≠ .update u) (addPath : Bool) :
    frameWire false msg = frameWire addPath msg ∧
      frameLength false msg = frameLength addPath msg ∧
      msg.received false = msg.received addPath ∧ msg.PlainIpv4 ∧ msg.Canonical := by
  cases msg with
  | update u => exact absurd rfl (hnot u)
  | «open» _ | notification _ | keepalive | routeRefresh _ =>
    exact ⟨rfl, rfl, rfl, trivial, trivial⟩

theorem reads_frameWire (hnot : ∀ u, msg ≠ .update u) (hparams : msg.ParamsFit)
    (hsize : frameLength false msg ≤ 4096) : Reads (frameWire false msg) (msg.received false) := by
  intro addPath
  obtain ⟨hwire, hlen, hrec, hplain, hcanon⟩ := frame_same hnot addPath
  rw [frameWire_length, hwire, hlen, hrec]
  exact tryDecodeFrame_frameWire addPath hplain hcanon hparams (hlen ▸ hsize)

/-- The OPEN of a session. -/
def PeerConfig.openFrame (cfg : PeerConfig) : Bytes := frameWire false (.open cfg.openMessage)

theorem PeerConfig.openFrame_size (h : cfg.OpenFits) :
    frameLength false (.open cfg.openMessage) ≤ 4096 := by
  simp only [OpenFits, BgpMessage.ParamsFit] at h
  simp only [frameLength, bodyWire, openWire, length_append, length_cons, length_nil,
    toBe16_length, toBe32_length, headerLen]
  omega

theorem PeerConfig.reads_openFrame (h : cfg.OpenFits) :
    Reads cfg.openFrame (.open cfg.openReceived) :=
  reads_frameWire (by simp) h (openFrame_size h)

/-- The octets of a KEEPALIVE. -/
def keepaliveFrame : Bytes := frameWire false .keepalive

theorem reads_keepaliveFrame : Reads keepaliveFrame .keepalive :=
  reads_frameWire (by simp) trivial (by decide)

/-- A NOTIFICATION without data. -/
def noticeFrame (code subcode : UInt8) : Bytes :=
  frameWire false (.notification ⟨code, subcode, []⟩)

theorem reads_noticeFrame (code subcode : UInt8) :
    Reads (noticeFrame code subcode) (.notification ⟨code, subcode, []⟩) :=
  reads_frameWire (by simp) trivial (by show 21 ≤ 4096; decide)

/-- The KEEPALIVE that confirms an OPEN.  With a hold time of zero none is sent. -/
def confirmation (hold : UInt16) : Bytes := if 0 < hold then keepaliveFrame else []

/-! ## What is outstanding -/

/-- The stream goes on with a NOTIFICATION. -/
def Notified (b : Bytes) : Prop := ∃ frame rest n, b = frame ++ rest ∧ Reads frame (.notification n)

/-- The stream goes on with the confirming KEEPALIVE. -/
def Confirmed (hold : UInt16) (b : Bytes) : Prop := 0 < hold ∧ ∃ rest, b = keepaliveFrame ++ rest

/-- What the receiver still has in front of it, by the states of the two sides.
`cfg` is the configuration of the sender and `hold` the hold time both settle on.
A receiver that is established, or down, may have anything in front of it. -/
def Outstanding (cfg : PeerConfig) (hold : UInt16) : (sender receiver : BgpState) → Bytes → Prop
  | _, .idle, _ | .idle, .established, _ | .openConfirm, .established, _
  | .established, .established, _ => True
  | .openConfirm, .openConfirm, b => b = confirmation hold
  | .established, .openConfirm, b => Confirmed hold b
  | .idle, .openConfirm, b => Confirmed hold b ∨ Notified b
  | .openConfirm, .openSent, b => b = cfg.openFrame ++ confirmation hold
  | .idle, .openSent, b => ∃ rest, b = cfg.openFrame ++ rest ∧ Notified rest
  | .openSent, .openSent, b | .openSent, .connect, b | .openSent, .active, b => b = cfg.openFrame
  | .openSent, .openConfirm, b | .connect, .openSent, b | .connect, .connect, b
  | .connect, .active, b | .active, .openSent, b | .active, .connect, b
  | .active, .active, b => b = []
  | _, _, _ => False

theorem Notified.append (h : Notified b) (more : Bytes) : Notified (b ++ more) := by
  obtain ⟨frame, rest, n, rfl, hreads⟩ := h
  exact ⟨frame, rest ++ more, n, by simp, hreads⟩

theorem Notified.ne_nil (h : Notified b) : b ≠ [] := by
  obtain ⟨frame, rest, n, rfl, hreads⟩ := h
  simp [hreads.ne_nil]

theorem Confirmed.append (h : Confirmed hold b) (more : Bytes) : Confirmed hold (b ++ more) := by
  obtain ⟨hpos, rest, rfl⟩ := h
  exact ⟨hpos, rest ++ more, by simp⟩

theorem Confirmed.ne_nil (h : Confirmed hold b) : b ≠ [] := by
  obtain ⟨-, rest, rfl⟩ := h
  simp [reads_keepaliveFrame.ne_nil]

namespace Outstanding

variable {cfg other : PeerConfig} {hold : UInt16} {far : BgpState} {b out : Bytes}
  {s r : BgpState}

/-- A receiver in OpenSent that has bytes in front of it reads the OPEN of the other
side; what follows is what OpenConfirm expects, and it may confirm or refuse. -/
theorem reads_open (h : Outstanding other hold far .openSent b) (hne : b ≠ [])
    (hout : Outstanding cfg hold .openSent far out) :
    (∃ rest, b = other.openFrame ++ rest ∧ Outstanding other hold far .openConfirm rest) ∧
      Outstanding cfg hold .openConfirm far (out ++ confirmation hold) ∧
      ∀ more, Notified more → Outstanding cfg hold .idle far (out ++ more) := by
  cases far with
  | connect | active => exact absurd h hne
  | established => exact h.elim
  | openSent =>
    obtain rfl : out = cfg.openFrame := hout
    exact ⟨⟨[], by simpa [Outstanding] using h, rfl⟩, rfl, fun more hmore => ⟨more, rfl, hmore⟩⟩
  | openConfirm =>
    obtain rfl : out = [] := hout
    exact ⟨⟨_, h, rfl⟩, rfl, fun _ hmore => .inr hmore⟩
  | idle =>
    obtain ⟨rest, rfl, hn⟩ := h
    exact ⟨⟨rest, rfl, .inr hn⟩, trivial, fun _ _ => trivial⟩

/-- A receiver in OpenConfirm that has bytes in front of it reads the confirming
KEEPALIVE and is established, or a NOTIFICATION of a side that is down. -/
theorem reads_confirmation (h : Outstanding other hold far .openConfirm b) (hne : b ≠ [])
    (hout : Outstanding cfg hold .openConfirm far out) :
    Confirmed hold b ∧ Outstanding cfg hold .established far out ∧
        (∀ b', Outstanding other hold far .established b') ∨
      far = .idle ∧ Notified b := by
  cases far with
  | connect | active => exact h.elim
  | openSent => exact absurd h hne
  | established => exact .inl ⟨h, trivial, fun _ => trivial⟩
  | idle => exact h.imp (⟨·, trivial, fun _ => trivial⟩) (⟨rfl, ·⟩)
  | openConfirm =>
    obtain rfl : b = confirmation hold := h
    obtain rfl : out = confirmation hold := hout
    by_cases hpos : 0 < hold
    · have hconf : Confirmed hold (confirmation hold) := ⟨hpos, [], by simp [confirmation, hpos]⟩
      exact .inl ⟨hconf, hconf, fun _ => trivial⟩
    · exact absurd (if_neg hpos) hne

theorem emit (h : Outstanding cfg hold .established far b) (hs : s = .established ∨ s = .idle)
    (more : Bytes) : Outstanding cfg hold s far (b ++ more) := by
  obtain rfl | rfl := hs <;> cases far
  case inl.openConfirm => exact Confirmed.append h more
  case inr.openConfirm => exact .inl (Confirmed.append h more)
  all_goals trivial

theorem emit_idle (h : Outstanding cfg hold .idle far b) (more : Bytes) :
    Outstanding cfg hold .idle far (b ++ more) := by
  cases far with
  | idle | established => trivial
  | connect | active => exact h.elim
  | openConfirm => exact h.imp (·.append more) (·.append more)
  | openSent =>
    obtain ⟨rest, rfl, hn⟩ := h
    exact ⟨rest ++ more, by simp, hn.append more⟩

theorem open_sender (h : Outstanding cfg hold s far b) (hs : s = .connect ∨ s = .active) :
    Outstanding cfg hold .openSent far (b ++ cfg.openFrame) := by
  obtain rfl | rfl := hs <;> cases far
  case inl.idle | inr.idle => trivial
  case inl.openConfirm | inl.established | inr.openConfirm | inr.established => exact h.elim
  all_goals
    obtain rfl : b = [] := h
    rfl

/-- A receiver that has not read anything may move on to OpenSent. -/
theorem open_receiver (h : Outstanding cfg hold far r b) (hr : r = .connect ∨ r = .active) :
    Outstanding cfg hold far .openSent b := by
  obtain rfl | rfl := hr <;> cases far <;> first | exact h | exact h.elim

theorem retry_sender (h : Outstanding cfg hold .connect far b) :
    Outstanding cfg hold .active far b := by
  cases far <;> exact h

theorem retry_receiver (h : Outstanding cfg hold far .connect b) :
    Outstanding cfg hold far .active b := by
  cases far <;> exact h

theorem of_established (h : Outstanding cfg hold far .established b)
    (hr : r = .established ∨ r = .idle) (b' : Bytes) : Outstanding cfg hold far r b' := by
  obtain rfl | rfl := hr <;> cases far <;> trivial

end Outstanding

/-! ## What a transition changes -/

namespace BgpPeer
variable {p q : BgpPeer} {msg : BgpMessage} {ev : BgpEvent} {actions : List BgpAction}
  {state : BgpState} {o : Open} {t : Turn}

/-- What was negotiated stays, and the output only grows. -/
structure Keeps (p q : BgpPeer) : Prop where
  cfg : q.cfg = p.cfg
  hold : q.negotiatedHoldTime = p.negotiatedHoldTime
  tx : q.addPathTx = p.addPathTx
  rx : q.addPathRx = p.addPathRx
  out : ∃ more, q.outBuf = p.outBuf ++ more

theorem Keeps.refl (p : BgpPeer) : p.Keeps p := ⟨rfl, rfl, rfl, rfl, [], by simp⟩

theorem Keeps.settled {other : PeerConfig} (h : p.Keeps q) (hp : p.Settled other) :
    q.Settled other := by
  refine ⟨by rw [h.hold, h.cfg, hp.hold], fun f => ?_, fun f => ?_⟩
  · rw [h.tx, h.cfg, hp.tx]
  · rw [h.rx, h.cfg, hp.rx]

theorem enqueue_eq (p : BgpPeer) (hnot : ∀ u, msg ≠ .update u)
    (hsize : frameLength false msg ≤ 4096) :
    p.enqueue msg =
      ok { p with outBuf := p.outBuf ++ frameWire false msg, sent := p.sent.count msg } := by
  have henc : p.codec.encodeVec msg = ok (frameWire false msg) := by
    obtain ⟨hwire, hlen, -, hplain, -⟩ := frame_same hnot _
    rw [encodeVec_eq _ hplain, ← hwire, ← hlen, if_pos hsize]
  simp only [enqueue, sendMsg, henc]
  rfl

theorem Keeps.enqueue (h : p.enqueue msg = ok q) : p.Keeps q := by
  obtain ⟨bytes, -, rfl⟩ | ⟨-, rfl⟩ := enqueue_ok h
  · exact ⟨rfl, rfl, rfl, rfl, bytes, rfl⟩
  · exact .refl q

/-- Only an OPEN in OpenSent negotiates anything. -/
theorem Transition.keeps (h : Transition p ev q actions)
    (hev : p.state = .openSent → ∀ o, ev ≠ .message (.open o)) : p.Keeps q := by
  cases h with
  | ignored | refreshed | updated => exact .refl p
  | started | retried | confirmed | heard => exact { Keeps.refl p with }
  | opened _ hq => exact { Keeps.enqueue hq with }
  | kept _ hq => exact .enqueue hq
  | refused o hs | accepted o hs => exact absurd rfl (hev hs o)
  | down _ _ _ _ _ hq =>
    obtain rfl | ⟨n, hq⟩ := hq
    · exact { Keeps.refl p with }
    · exact { Keeps.enqueue hq with }

theorem Transition.of_established (h : Transition p ev q actions) (hp : p.state = .established) :
    q.state = .established ∨ q.state = .idle := by
  cases h with
  | ignored | heard | refreshed | updated => exact .inl hp
  | started hs | retried hs | refused _ hs | accepted _ hs => cases hp.symm.trans hs
  | opened hs => obtain hs | hs := hs <;> cases hp.symm.trans hs
  | confirmed => exact .inl rfl
  | kept _ hq =>
    have hstate := congrArg BgpPeer.state (still_enqueue hq)
    exact .inl (hstate.trans hp)
  | down => exact .inr rfl

/-- The codec frames as negotiated, and the flag embedders read is only set in
Established. -/
structure Sane (p : BgpPeer) : Prop extends Framed p where
  flag : p.established = true → p.state = .established

theorem Sane.enqueue (h : p.Sane) (henq : p.enqueue msg = ok q) :
    q.Sane ∧ q.state = p.state := by
  have hflag := congrArg BgpPeer.established (still_enqueue henq)
  have hstate := congrArg BgpPeer.state (still_enqueue henq)
  exact ⟨⟨h.toFramed.enqueue henq, fun hest => hstate.trans (h.flag (hflag ▸ hest))⟩, hstate⟩

theorem Sane.step (h : p.Sane) (hstep : p.step ev = ok (q, actions)) : q.Sane := by
  refine ⟨h.toFramed.step hstep, ?_⟩
  -- before Established the flag is down, and nothing but the confirmation raises it
  have hdown {r : BgpPeer} (hs : p.state ≠ .established) (hr : r.still.established = p.established)
      (hest : r.established = true) : False := hs (h.flag (hr ▸ hest))
  cases step_transition hstep with
  | ignored | refreshed | updated | heard => exact h.flag
  | started hs | retried hs => exact fun hest => (hdown (by simp [hs]) rfl hest).elim
  | opened hs hq =>
    have hsame := congrArg BgpPeer.established (still_enqueue hq)
    exact fun hest => (hdown (by obtain hs | hs := hs <;> simp [hs]) hsame hest).elim
  | refused o hs hp₀ hq =>
    have hsame := congrArg BgpPeer.established (still_enqueue hq)
    obtain rfl | rfl := hp₀ <;> exact fun hest => (hdown (by simp [hs]) hsame hest).elim
  | accepted o hs hp₁ hq =>
    subst hp₁
    obtain ⟨-, hq, -⟩ | ⟨-, rfl, -⟩ := hq
    · have hsame := congrArg BgpPeer.established (still_enqueue hq)
      exact fun hest => (hdown (by simp [hs]) hsame hest).elim
    · exact fun hest => (hdown (by simp [hs]) rfl hest).elim
  | confirmed => exact fun _ => rfl
  | kept _ hq => exact (h.enqueue hq).1.flag
  | down => exact nofun

/-- An OPEN is refused with a NOTIFICATION. -/
structure Refuses (p q : BgpPeer) (actions : List BgpAction) : Prop where
  keeps : p.Keeps q
  state : q.state = .idle
  out : ∃ code subcode, q.outBuf = p.outBuf ++ noticeFrame code subcode
  actions : actions = [.close]

/-- An OPEN is accepted: its contents are negotiated, and confirmed unless the hold
time is zero. -/
structure Accepts (p : BgpPeer) (o : Open) (q : BgpPeer) (actions : List BgpAction) : Prop where
  negotiated : ((p.agreeWidth o).negotiate o (openSenderAs o)).Keeps q
  state : q.state = .openConfirm
  out : q.outBuf = p.outBuf ++ confirmation q.negotiatedHoldTime
  timers : q.negotiatedHoldTime = 0 → actions = []

/-- What an OPEN does in OpenSent. -/
theorem step_open (hp : p.state = .openSent) (h : p.step (.message (.open o)) = ok (q, actions)) :
    p.Refuses q actions ∨ p.Accepts o q actions := by
  cases step_transition h with
  | ignored _ hev => exact absurd rfl (hev hp o)
  | down _ _ _ hends => exact hends.elim
  | @refused p₀ q subcode _ _ hp₀ hq =>
    have hsize : frameLength false (.notification ⟨BgpErrorCode.open, subcode, []⟩) ≤ 4096 := by
      show 21 ≤ 4096
      decide
    rw [enqueue_eq p₀ (by simp) hsize] at hq
    cases hq
    obtain rfl | rfl := hp₀ <;> exact .inl ⟨⟨rfl, rfl, rfl, rfl, _, rfl⟩, rfl, ⟨_, _, rfl⟩, rfl⟩
  | @accepted p₁ q _ _ _ hp₁ hq =>
    have hout : p₁.outBuf = p.outBuf := hp₁ ▸ rfl
    obtain ⟨hpos, hq, rfl⟩ | ⟨hpos, rfl, rfl⟩ := hq
    · rw [enqueue_eq _ (by simp) (by decide)] at hq
      cases hq
      refine .inr ⟨hp₁ ▸ ⟨rfl, rfl, rfl, rfl, _, rfl⟩, rfl, ?_, fun h0 => ?_⟩
      · rw [confirmation, if_pos hpos, ← hout]
        rfl
      · have h0' : p₁.negotiatedHoldTime = 0 := h0
        rw [h0'] at hpos
        exact absurd hpos (by decide)
    · refine .inr ⟨hp₁ ▸ ⟨rfl, rfl, rfl, rfl, [], by simp⟩, rfl, ?_, fun _ => rfl⟩
      rw [confirmation, if_neg hpos, append_nil, ← hout]

theorem step_carryover (h : p.step ev = ok (q, actions)) :
    q.codec.carryover = p.codec.carryover := by
  have hsame := step_holding p p.codec.carryover ev
  have hp : p.holding p.codec.carryover = p := rfl
  rw [hp, h] at hsame
  have hq : q = q.holding p.codec.carryover := congrArg Prod.fst (Outcome.ok.inj hsame)
  rw [hq]
  rfl

theorem enqueue_carryover (h : p.enqueue msg = ok q) : q.codec.carryover = p.codec.carryover := by
  obtain ⟨bytes, -, rfl⟩ | ⟨-, rfl⟩ := enqueue_ok h <;> rfl

/-- The transport came up: the session reads, or is down. -/
def Opened (p : BgpPeer) : Prop := p.state ≠ .connect ∧ p.state ≠ .active

theorem opened_of_reading (h : p.state.reading = true) : p.Opened := by
  constructor <;> intro hs <;> rw [hs] at h <;> cases h

/-- What is read never makes a session wait for a connection again. -/
theorem Opened.received (h : p.Opened) (hev : Received ev) (hstep : p.step ev = ok (q, actions)) :
    q.Opened := by
  cases step_transition hstep with
  | ignored | heard | refreshed | updated => exact h
  | started | opened | retried | kept => obtain ⟨m, hm⟩ | ⟨n, hn⟩ := hev <;> contradiction
  | refused | accepted | confirmed | down => simp [Opened]

end BgpPeer

/-! ## AS number width -/

/-- `advertise` writes AS numbers with four octets. -/
def BgpPeer.writesWide (p : BgpPeer) : Bool := p.cfg.asn4

/-- `handle_update_in_established` reads AS numbers with four octets. -/
def BgpPeer.readsWide (p : BgpPeer) : Bool := p.cfg.asn4

theorem BgpPeer.egressAsPath_value (p : BgpPeer) (attrs : PathAttributes) :
    ((egressAsPath p.cfg attrs).get .asPath).map (·.value) =
      some ((outgoingPath p.cfg attrs).encodeAt p.writesWide) := by
  simp [egressAsPath, asPathAttr, writesWide]

theorem BgpPeer.canonicalPath_eq (p : BgpPeer) (attrs : PathAttributes) :
    canonicalPath p.cfg attrs =
      match attrs.asPathWire p.readsWide with
      | some wire => AsPath.reconcileAs4 wire attrs.as4Path
      | none => attrs.as4Path.getD .new := rfl

/-! ## One side of a connection -/

/-- What one side keeps while the other is in state `far`: `inward` is in front of
it, and its own output goes behind `ahead`. -/
structure Facing (cfg other : PeerConfig) (hold : UInt16) (far : BgpState)
    (armed : List TimerId) (p : BgpPeer) (inward ahead : Bytes) : Prop where
  config : p.cfg = cfg
  sane : p.Sane
  agreed : hold = min other.holdTime cfg.holdTime
  fresh : p.state = .connect ∨ p.state = .active ∨ p.state = .openSent → p.negotiatedHoldTime = 0
  settled : p.state = .openConfirm ∨ p.state = .established → p.Settled other
  live : p.state = .established → 0 < hold
  timers : p.negotiatedHoldTime = 0 → .hold ∉ armed ∧ .keepalive ∉ armed
  reads : Outstanding other hold far p.state inward
  writes : Outstanding cfg hold p.state far (ahead ++ p.outBuf)

theorem rearmAll_of_down {armed : List TimerId} {actions : List BgpAction}
    (h : ∀ a ∈ actions, DownAction a) : rearmAll armed actions = armed := by
  induction actions with
  | nil => rfl
  | cons a as ih =>
    have hhead : a.rearm armed = armed := by
      obtain rfl | ⟨e, rfl⟩ := h a (by simp) <;> rfl
    rw [rearmAll, foldl_cons, hhead]
    exact ih fun a ha => h a (by simp [ha])

namespace Facing

variable {cfg other : PeerConfig} {hold : UInt16} {far : BgpState} {armed : List TimerId}
  {p q : BgpPeer} {b r inward ahead : Bytes} {actions : List BgpAction} {armed' : List TimerId}
  {addPath : Bool} {inward' : Bytes} {n : BgpNotification} {turns : List BgpPeer.Turn}
  {t : BgpPeer.Turn}

section

variable (h : Facing cfg other hold far armed p inward ahead)
include h

theorem reads_at {state : BgpState} (hp : p.state = state) :
    Outstanding other hold far state inward := hp ▸ h.reads

theorem writes_at {state : BgpState} (hp : p.state = state) :
    Outstanding cfg hold state far (ahead ++ p.outBuf) := hp ▸ h.writes

theorem holdTime (hp : p.state = .openConfirm ∨ p.state = .established) :
    p.negotiatedHoldTime = hold := by
  rw [(h.settled hp).hold, h.config, h.agreed]

/-- A session that goes down has nothing left to read. -/
theorem down (hkeeps : p.Keeps q) (hsane : q.Sane) (hq : q.state = .idle) (harmed : armed' = armed)
    (hwrites : Outstanding cfg hold .idle far (ahead ++ q.outBuf))
    (inward' : Bytes) :
    Facing cfg other hold far armed' q inward' ahead :=
  ⟨hkeeps.cfg.trans h.config, hsane, h.agreed, by simp [hq], by simp [hq], by simp [hq],
    harmed ▸ hkeeps.hold ▸ h.timers, hq ▸ trivial, hq ▸ hwrites⟩

/-- A session that is established, or down, goes on or goes down, whatever it
reads. -/
theorem carry (hkeeps : p.Keeps q) (hsane : q.Sane)
    (hstate : p.state = .established ∧
      (q.state = .established ∨ q.state = .idle) ∨ p.state = .idle ∧ q.state = .idle ∧
      armed' = armed)
    (inward' : Bytes) :
    Facing cfg other hold far armed' q inward' ahead := by
  obtain ⟨more, hout⟩ := hkeeps.out
  obtain ⟨hp, hq⟩ | ⟨hp, hq, rfl⟩ := hstate
  · have hpos := h.live hp
    refine ⟨hkeeps.cfg.trans h.config, hsane, h.agreed, ?_,
      fun _ => hkeeps.settled (h.settled (.inr hp)), fun _ => hpos, fun h0 => ?_, ?_, ?_⟩
    · obtain hq | hq := hq <;> simp [hq]
    · rw [hkeeps.hold, h.holdTime (.inr hp)] at h0
      rw [h0] at hpos
      exact absurd hpos (by decide)
    · exact (h.reads_at hp).of_established hq inward'
    · rw [hout, ← append_assoc]
      exact (h.writes_at hp).emit hq more
  · refine h.down hkeeps hsane hq rfl ?_ inward'
    rw [hout, ← append_assoc]
    exact (h.writes_at hp).emit_idle more

/-- A received frame, or a decoding error, on a session that is established or
down. -/
theorem carry_received (hp : p.state = .established ∨ p.state = .idle) {ev : BgpEvent}
    (hev : Received ev) (hstep : p.step ev = ok (q, actions)) (inward' : Bytes) :
    Facing cfg other hold far (rearmAll armed actions) q inward' ahead := by
  have htrans := step_transition hstep
  have hkeeps : p.Keeps q :=
    htrans.keeps fun hs => by obtain hp | hp := hp <;> rw [hp] at hs <;> cases hs
  refine h.carry hkeeps (h.sane.step hstep) ?_ inward'
  obtain hp | hp := hp
  · exact .inl ⟨hp, htrans.of_established hp⟩
  obtain ⟨hq, hdown⟩ | ⟨-, hstay⟩ := step_received hev hstep
  · exact .inr ⟨hp, hq, rearmAll_of_down hdown⟩
  · obtain ⟨rfl, rfl⟩ := hstay hp
    exact .inr ⟨hp, hp, rfl⟩

end

/-- The first frame that is decoded in OpenSent is the OPEN of the other side. -/
theorem decodes_open (h : Facing cfg other hold far armed p (b ++ r) ahead) (hfits : other.OpenFits)
    (hp : p.state = .openSent) (hdec : tryDecodeFrame b addPath ≠ ok none) :
    tryDecodeFrame b addPath = ok (some (other.openFrame.length, .open other.openReceived)) ∧
      ∀ {q actions}, p.step (.message (.open other.openReceived)) = ok (q, actions) →
        Facing cfg other hold far (rearmAll armed actions) q
          (b.drop other.openFrame.length ++ r) ahead := by
  obtain ⟨⟨rest, hb, hrest⟩, hconfirm, hrefuse⟩ :=
    (h.reads_at hp).reads_open (append_ne_nil_of_decodes r hdec) (h.writes_at hp)
  obtain ⟨hread, rfl⟩ := (PeerConfig.reads_openFrame hfits).first hb hdec
  refine ⟨hread, fun {q actions} hstep => ?_⟩
  obtain hq | hq := step_open hp hstep
  · obtain ⟨code, subcode, hout⟩ := hq.out
    have hsame : rearmAll armed actions = armed := by
      rw [hq.actions]
      rfl
    refine h.down hq.keeps (h.sane.step hstep) hq.state hsame ?_ _
    rw [hout, ← append_assoc]
    exact hrefuse _ ⟨_, [], _, by simp, reads_noticeFrame code subcode⟩
  · have hsettled : q.Settled other := hq.negotiated.settled (negotiate_settled hfits _ _)
    have hcfg : q.cfg = cfg := hq.negotiated.cfg.trans h.config
    have hhold : q.negotiatedHoldTime = hold := by rw [hsettled.hold, hcfg, h.agreed]
    refine ⟨hcfg, h.sane.step hstep, h.agreed, by simp [hq.state], fun _ => hsettled,
      by simp [hq.state], fun h0 => ?_, ?_, ?_⟩
    · rw [hq.timers h0]
      exact h.timers (h.fresh (.inr (.inr hp)))
    · rw [hq.state]
      exact hrest
    · rw [hq.state, hq.out, hhold, ← append_assoc]
      exact hconfirm

/-- The first frame that is decoded in OpenConfirm is the confirming KEEPALIVE, or
the NOTIFICATION of a side that is down. -/
theorem decodes_confirmation (h : Facing cfg other hold far armed p (b ++ r) ahead)
    (hp : p.state = .openConfirm) (hdec : tryDecodeFrame b addPath ≠ ok none) :
    (∃ n, tryDecodeFrame b addPath = ok (some (n, .keepalive)) ∧
      ∀ {q actions inward'}, p.step (.message .keepalive) = ok (q, actions) →
        Facing cfg other hold far (rearmAll armed actions) q inward' ahead) ∨
    ∃ n m, tryDecodeFrame b addPath = ok (some (n, .notification m)) ∧ far = .idle := by
  obtain ⟨⟨hpos, rest, hb⟩, hwrites, hreads⟩ | ⟨hfar, frame, rest, m, hb, hframe⟩ :=
    (h.reads_at hp).reads_confirmation (append_ne_nil_of_decodes r hdec) (h.writes_at hp)
  · refine .inl ⟨_, (reads_keepaliveFrame.first hb hdec).1, fun hstep => ?_⟩
    have hsane := h.sane.step hstep
    have hsettled := h.settled (.inl hp)
    unfold BgpPeer.step at hstep
    simp only [hp] at hstep
    cases hstep
    exact ⟨h.config, hsane, h.agreed, by simp, fun _ => { hsettled with }, fun _ => hpos,
      h.timers, hreads _, hwrites⟩
  · exact .inr ⟨_, m, (hframe.first hb hdec).1, hfar⟩

/-- A NOTIFICATION takes the session down; the other side is down already. -/
theorem read_notification (h : Facing cfg other hold far armed p inward ahead) (hfar : far = .idle)
    (hstep : p.step (.message (.notification n)) = ok (q, actions)) (inward' : Bytes) :
    Facing cfg other hold far (rearmAll armed actions) q inward' ahead := by
  have hkeeps : p.Keeps q := (step_transition hstep).keeps (by simp)
  have heq : p.notificationReceived n = (q, actions) := by
    rw [step_notification] at hstep
    exact Outcome.ok.inj hstep
  have hq : q.state = .idle := congrArg (fun x => x.1.state) heq.symm
  have hdown : ∀ a ∈ actions, DownAction a := by
    rw [show actions = (p.notificationReceived n).2 from congrArg Prod.snd heq.symm]
    simp [notificationReceived, closed, DownAction]
  subst hfar
  exact h.down hkeeps (h.sane.step hstep) hq (rearmAll_of_down hdown) trivial inward'

theorem read_message (h : Facing cfg other hold far armed p (b ++ r) ahead) (hfits : other.OpenFits)
    (hopened : p.Opened) {n : Nat} {msg : BgpMessage}
    (hdec : tryDecodeFrame b addPath = ok (some (n, msg)))
    (hstep : p.step (.message msg) = ok (q, actions)) :
    Facing cfg other hold far (rearmAll armed actions) q (b.drop n ++ r) ahead := by
  have hsome : tryDecodeFrame b addPath ≠ ok none := by rw [hdec]; simp
  cases hp : p.state with
  | connect => exact absurd hp hopened.1
  | active => exact absurd hp hopened.2
  | openSent =>
    obtain ⟨hread, hnext⟩ := h.decodes_open hfits hp hsome
    obtain ⟨rfl, rfl⟩ : n = _ ∧ msg = _ := by simpa [hdec] using hread
    exact hnext hstep
  | openConfirm =>
    obtain ⟨k, hread, hnext⟩ | ⟨k, m, hread, hfar⟩ := h.decodes_confirmation hp hsome
    · obtain ⟨rfl, rfl⟩ : n = _ ∧ msg = _ := by simpa [hdec] using hread
      exact hnext hstep
    · obtain ⟨rfl, rfl⟩ : n = _ ∧ msg = _ := by simpa [hdec] using hread
      exact h.read_notification hfar hstep _
  | established => exact h.carry_received (.inl hp) (.inl ⟨msg, rfl⟩) hstep _
  | idle => exact h.carry_received (.inr hp) (.inl ⟨msg, rfl⟩) hstep _

/-- A frame that does not decode: only what follows the exchange can contain one. -/
theorem read_error (h : Facing cfg other hold far armed p (b ++ r) ahead) (hfits : other.OpenFits)
    (hopened : p.Opened) {e : BgpError} (hdec : tryDecodeFrame b addPath = err e)
    (hstep : p.step (.parseError n) = ok (q, actions)) :
    Facing cfg other hold far (rearmAll armed actions) q (b ++ r) ahead := by
  have hsome : tryDecodeFrame b addPath ≠ ok none := by rw [hdec]; simp
  cases hp : p.state with
  | connect => exact absurd hp hopened.1
  | active => exact absurd hp hopened.2
  | openSent =>
    have hread := (h.decodes_open hfits hp hsome).1
    rw [hdec] at hread
    cases hread
  | openConfirm =>
    obtain ⟨k, hread, -⟩ | ⟨k, m, hread, -⟩ := h.decodes_confirmation hp hsome <;>
      · rw [hdec] at hread
        cases hread
  | established => exact h.carry_received (.inl hp) (.inr ⟨n, rfl⟩) hstep _
  | idle => exact h.carry_received (.inr hp) (.inr ⟨n, rfl⟩) hstep _

/-- The counters and the input buffer do not matter. -/
theorem congr_input (h : Facing cfg other hold far armed p inward ahead) (counts : MessageCounts)
    (buf : Bytes) :
    Facing cfg other hold far armed { p.holding buf with received := counts } inward ahead :=
  { h with sane := { h.sane with }, settled := fun hp => { h.settled hp with } }

theorem congr_countError (h : Facing cfg other hold far armed p inward ahead) (e : BgpError) :
    Facing cfg other hold far armed (p.countError e) inward ahead := by
  cases e with
  | notification n => exact h.congr_input _ p.codec.carryover
  | codec text => exact h

/-- The loop of `feed_bytes` between two turns: `b` is buffered and `r` has not
arrived. -/
def Reading (cfg other : PeerConfig) (hold : UInt16) (far : BgpState) (armed : List TimerId)
    (r ahead : Bytes) (p : BgpPeer) (b : Bytes) (turns : List BgpPeer.Turn) : Prop :=
  Facing cfg other hold far (rearmAll armed (turns.flatMap BgpPeer.Turn.actions)) p (b ++ r) ahead ∧
    p.Opened

theorem Reading.take {n : Nat} (hfits : other.OpenFits)
    (h : Reading cfg other hold far armed r ahead p b turns) (hlook : p.look b = .take n q t) :
    Reading cfg other hold far armed r ahead q (b.drop n) (turns ++ [t]) := by
  obtain ⟨hfacing, hopened⟩ := h
  obtain ⟨msg, hdec, hstep, -⟩ := look_take hlook
  have hcounted : Opened { p with received := p.received.count msg } := hopened
  refine ⟨?_, hcounted.received (.inl ⟨msg, rfl⟩) hstep⟩
  rw [flatMap_append, rearmAll_append, flatMap_singleton]
  exact (hfacing.congr_input _ p.codec.carryover).read_message hfits hcounted hdec hstep

theorem Reading.halt (hfits : other.OpenFits)
    (h : Reading cfg other hold far armed r ahead p b turns) (hlook : p.look b = .halt q t) :
    Reading cfg other hold far armed r ahead q b (turns ++ [t]) := by
  obtain ⟨hfacing, hopened⟩ := h
  obtain ⟨e, hdec, hstep, -⟩ := look_halt hlook
  obtain ⟨n, hn⟩ := decodeErrorEvent_eq e
  rw [hn] at hstep
  have hcounted : (p.countError e).Opened := by
    rw [Opened, countError_state]
    exact hopened
  refine ⟨?_, hcounted.received (.inr ⟨n, rfl⟩) hstep⟩
  rw [flatMap_append, rearmAll_append, flatMap_singleton]
  exact (hfacing.congr_countError e).read_error hfits hcounted hdec hstep

theorem feed {bytes : Bytes}
    (h : Facing cfg other hold far armed p (p.codec.carryover ++ bytes ++ r) ahead)
    (hfits : other.OpenFits) (hopened : p.Opened) (hfeed : p.feedBytes bytes = ok (q, actions)) :
    Facing cfg other hold far (rearmAll armed actions) q (q.codec.carryover ++ r) ahead := by
  have hstart : Reading cfg other hold far armed r ahead p (p.codec.carryover ++ bytes) [] :=
    ⟨h, hopened⟩
  rw [feedBytes_eq, returned, observe] at hfeed
  cases hrest : (FramedStream.feed BgpPeer.look p (p.codec.carryover ++ bytes)).rest with
  | none =>
    rw [hrest] at hfeed
    cases hfeed
  | some rest =>
    obtain ⟨p', buf⟩ := rest
    rw [hrest] at hfeed
    cases hfeed
    have hrun := feed_invariant (fun h hlook => Reading.take hfits h hlook)
      (fun h hlook => Reading.halt hfits h hlook) hstart hrest
    exact hrun.1.congr_input p'.received buf

section

variable (h : Facing cfg other hold far armed p inward ahead)
include h

theorem transportOpen (hfits : cfg.OpenFits) (hstep : p.step .transportOpen = ok (q, actions)) :
    Facing cfg other hold far (rearmAll armed actions) q inward ahead := by
  have hcfg := h.config
  subst hcfg
  have hsane := h.sane.step hstep
  cases step_transition hstep with
  | ignored => exact h
  | down _ _ _ hends => exact hends.elim
  | opened hs hq =>
    rw [p.enqueue_eq (by simp) (PeerConfig.openFrame_size hfits)] at hq
    cases hq
    have hfresh := h.fresh (by obtain hs | hs := hs <;> simp [hs])
    refine ⟨rfl, hsane, h.agreed, fun _ => hfresh, by simp, by simp, h.timers,
      h.reads.open_receiver hs, ?_⟩
    show Outstanding p.cfg hold .openSent far (ahead ++ (p.outBuf ++ p.cfg.openFrame))
    rw [← append_assoc]
    exact h.writes.open_sender hs

theorem expire (id : TimerId) :
    Facing cfg other hold far (armed.erase id) p inward ahead :=
  { h with timers := fun h0 => ⟨fun hm => (h.timers h0).1 (mem_of_mem_erase hm),
      fun hm => (h.timers h0).2 (mem_of_mem_erase hm)⟩ }

theorem timer {id : TimerId} (hstep : p.step id.event = ok (q, actions)) :
    Facing cfg other hold far (rearmAll armed actions) q inward ahead := by
  have hsane := h.sane.step hstep
  have htrans := step_transition hstep
  by_cases hp : p.state = .established
  · exact h.carry (htrans.keeps (by simp [hp])) hsane (.inl ⟨hp, htrans.of_established hp⟩) inward
  generalize hev : id.event = ev at htrans
  cases htrans with
  | ignored => exact h
  | retried hs =>
    have hfresh := h.fresh (.inl hs)
    exact ⟨h.config, hsane, h.agreed, fun _ => hfresh, by simp, by simp, h.timers,
      (h.reads_at hs).retry_receiver, (h.writes_at hs).retry_sender⟩
  | kept hs => exact absurd hs hp
  | down _ _ _ hends =>
    cases id with
    | hold => cases hev; exact absurd hends hp
    | _ => cases hev; exact hends.elim
  | _ => cases id <;> cases hev

theorem send (hp : p.established = true) {msg : BgpMessage} (hsend : p.enqueue msg = ok q) :
    Facing cfg other hold far armed q inward ahead := by
  have hstate := h.sane.flag hp
  obtain ⟨hsane, hq⟩ := h.sane.enqueue hsend
  exact h.carry (.enqueue hsend) hsane (.inl ⟨hstate, .inl (hq.trans hstate)⟩) inward

end

theorem opposite {before : BgpState} {behind' behind : Bytes}
    (h : Facing other cfg hold before armed' q inward' behind')
    (hp : Facing cfg other hold q.state armed p (behind ++ q.outBuf) ahead) :
    Facing other cfg hold p.state armed' q (ahead ++ p.outBuf) behind :=
  { h with reads := hp.writes, writes := hp.reads }

end Facing

/-! ## The whole connection -/

namespace Connection

open Function (update update_self update_of_ne)

/-- Each side faces the other. -/
def Joined (cfg : Side → PeerConfig) (hold : UInt16) (c : Connection) : Prop :=
  ∀ s, Facing (cfg s) (cfg s.other) hold (c.peer s.other).state (c.armed s) (c.peer s) (c.pending s)
    ((c.peer s.other).codec.carryover ++ c.inbound s.other)

section Step

variable {cfg : Side → PeerConfig} {hold : UInt16} {c c' : Connection} {s : Side}

/-- An event that only changes one side. -/
theorem Joined.one_side (h : c.Joined cfg hold) (hpeer : c'.peer s.other = c.peer s.other)
    (harmed : c'.armed s.other = c.armed s.other)
    (hinbound : c'.inbound s.other = c.inbound s.other)
    (hs : Facing (cfg s) (cfg s.other) hold (c.peer s.other).state (c'.armed s) (c'.peer s)
      (c'.pending s) ((c.peer s.other).codec.carryover ++ c.inbound s.other)) :
    c'.Joined cfg hold := by
  have hother := h s.other
  rw [Side.other_other] at hother
  have hpending : c'.pending s = (c'.peer s).codec.carryover ++ c'.inbound s ++
      (c.peer s.other).outBuf := by
    rw [pending, hpeer]
  intro t
  obtain rfl | rfl := s.eq_or_other t
  · rw [hpeer, hinbound]
    exact hs
  · rw [hpending] at hs
    rw [Side.other_other, hpeer, harmed, pending, Side.other_other, hpeer, hinbound]
    exact hother.opposite hs

theorem take_eq_some {r : Outcome Empty (BgpPeer × List BgpAction)} (h : c.take s r = some c') :
    ∃ p actions, r = ok (p, actions) ∧ c' = { c with
      peer := update c.peer s p
      armed := update c.armed s (rearmAll (c.armed s) actions) } := by
  match r, h with
  | .ok (p, actions), h => exact ⟨p, actions, rfl, (Option.some.inj h).symm⟩

/-- A side takes the result of a transition.  In `c₁` its timers and what it has not read
may have changed already. -/
theorem Joined.take (h : c.Joined cfg hold) {c₁ : Connection}
    {r : Outcome Empty (BgpPeer × List BgpAction)} (hc : c₁.take s r = some c')
    (hpeer : c₁.peer = c.peer) (harmed : c₁.armed s.other = c.armed s.other)
    (hinbound : c₁.inbound s.other = c.inbound s.other)
    (hr : ∀ p actions, r = ok (p, actions) →
      Facing (cfg s) (cfg s.other) hold (c.peer s.other).state (rearmAll (c₁.armed s) actions) p
      (p.codec.carryover ++ c₁.inbound s ++ (c.peer s.other).outBuf)
      ((c.peer s.other).codec.carryover ++ c.inbound s.other)) :
    c'.Joined cfg hold := by
  obtain ⟨p, actions, hok, rfl⟩ := take_eq_some hc
  refine h.one_side (s := s) ?_ ?_ hinbound ?_
  · simp [hpeer]
  · simp [harmed]
  · simpa [pending, hpeer] using hr p actions hok

theorem Joined.flush (h : c.Joined cfg hold) (s : Side) (hc : c.step (.flush s) = some c') :
    c'.Joined cfg hold := by
  cases hc
  intro t
  have ht := h t
  obtain rfl | rfl := s.eq_or_other t
  · have hin : t ≠ t.other := fun h => t.other_ne h.symm
    simp only [pending, update_self, ne_eq, Side.other_ne, not_false_eq_true, update_of_ne, hin,
      ← append_assoc] at ht ⊢
    exact { ht with
      sane := { ht.sane with }
      settled := fun hp => { ht.settled hp with }
      writes := by simpa using ht.writes }
  · have hin : s ≠ s.other := fun h => s.other_ne h.symm
    simp only [pending, Side.other_other, update_self, ne_eq, Side.other_ne, not_false_eq_true,
      update_of_ne, hin, append_nil, ← append_assoc] at ht ⊢
    exact ht

/-- Every event keeps the two sides facing each other. -/
theorem Joined.step (hfits : ∀ s, (cfg s).OpenFits) {e : ConnectionEvent} (h : c.Joined cfg hold)
    (hc : c.step e = some c') : c'.Joined cfg hold := by
  cases e with
  | flush s => exact h.flush s hc
  | opened s =>
    refine h.take hc rfl rfl rfl fun p actions hstep => ?_
    rw [step_carryover hstep]
    exact (h s).transportOpen (hfits s) hstep
  | timer s id =>
    refine h.take hc rfl (update_of_ne s.other_ne _ _) rfl fun p actions hstep => ?_
    simp only [step_carryover hstep, update_self]
    exact ((h s).expire id).timer hstep
  | deliver s n =>
    obtain ⟨hreading, hc⟩ := Option.ite_none_right_eq_some.mp hc
    refine h.take hc rfl rfl (update_of_ne s.other_ne _ _) fun p actions hstep => ?_
    simp only [append_assoc, update_self]
    refine Facing.feed ?_ (hfits s.other) (opened_of_reading hreading) hstep
    have hsplit : (c.peer s).codec.carryover ++ (c.inbound s).take n ++
        ((c.inbound s).drop n ++ (c.peer s.other).outBuf) = c.pending s := by
      rw [pending, append_assoc, ← append_assoc (List.take n _), take_append_drop, append_assoc]
    rw [hsplit]
    exact h s
  | send s msg =>
    obtain ⟨hguard, hc⟩ := Option.ite_none_right_eq_some.mp hc
    refine h.take hc rfl rfl rfl fun p actions hstep => ?_
    obtain ⟨p', hsend, ⟨⟩⟩ := map_eq_ok.mp hstep
    rw [enqueue_carryover hsend]
    exact (h s).send (Bool.and_eq_true_iff.mp hguard).1 hsend

theorem joined_start (p : Side → BgpPeer)
    (hhold : ∀ s, hold = min (p s.other).cfg.holdTime (p s).cfg.holdTime) :
    (start p).Joined (fun s => (p s).cfg) hold := by
  intro s
  have hsane : ((start p).peer s).Sane := ⟨⟨rfl, rfl⟩, fun h => by cases h⟩
  exact ⟨rfl, hsane, hhold s, fun _ => rfl, by simp [start], by simp [start],
    fun _ => by simp [start], rfl, rfl⟩

end Step

/-! ## What holds in every run -/

section Run

variable {p : Side → BgpPeer} {es : List ConnectionEvent} {c : Connection}

/-- The hold time two sessions settle on. -/
def agreedHold (p : Side → BgpPeer) : UInt16 :=
  min (p .left).cfg.holdTime (p .right).cfg.holdTime

theorem agreedHold_eq (p : Side → BgpPeer) (s : Side) :
    agreedHold p = min (p s.other).cfg.holdTime (p s).cfg.holdTime := by
  cases s with
  | left => exact Std.Commutative.comm _ _
  | right => rfl

theorem agreedHold_pos (h : ∀ s, (p s).cfg.holdTime ≠ 0) : 0 < agreedHold p := by
  have hmin : agreedHold p = (p .left).cfg.holdTime ∨ agreedHold p = (p .right).cfg.holdTime :=
    Std.MinEqOr.min_eq_or _ _
  obtain hl | hr := hmin
  · rw [hl]
    exact UInt16.pos_iff_ne_zero.mpr (h .left)
  · rw [hr]
    exact UInt16.pos_iff_ne_zero.mpr (h .right)

theorem joined_of_run (hfits : ∀ s, (p s).cfg.OpenFits)
    (hrun : exec Connection.step (start p) es = some c) :
    c.Joined (fun s => (p s).cfg) (agreedHold p) :=
  exec_invariant' (fun _ _ _ h hstep => h.step hfits hstep)
    (joined_start p (agreedHold_eq p)) hrun

/-- Both sides of a connection run with the smaller of the two offered hold times,
and each sends path identifiers exactly where the other parses them. -/
structure Agrees (p : Side → BgpPeer) (c : Connection) (s : Side) : Prop where
  hold : (c.peer s).negotiatedHoldTime = agreedHold p
  session : ∀ f, (c.peer s).addPathTxFor f = (c.peer s.other).addPathRxFor f
  codec : ∀ f, (c.peer s).codec.txAddPath f = (c.peer s.other).codec.rxAddPath f

theorem Joined.agrees (h : c.Joined (fun s => (p s).cfg) (agreedHold p))
    (hest : ∀ s, (c.peer s).state = .established) (s : Side) : Agrees p c s := by
  have hs := h s
  have ho := h s.other
  have hcfg : (c.peer s.other).cfg = (p s.other).cfg := ho.config
  have htx := (hs.settled (.inr (hest s))).tx
  have hrx := (ho.settled (.inr (hest s.other))).rx
  have hsame : ∀ f, (c.peer s).addPathTxFor f = (c.peer s.other).addPathRxFor f := by
    intro f
    rw [addPathTxFor, addPathRxFor, Bool.eq_iff_iff, contains_iff_mem,
      contains_iff_mem, htx, hrx, hs.config, hcfg, Side.other_other, and_comm]
  refine ⟨hs.holdTime (.inr (hest s)), hsame, fun f => ?_⟩
  rw [BgpCodec.txAddPath, BgpCodec.rxAddPath, hs.sane.tx, ho.sane.rx]
  exact hsame f

/-- With nothing left to deliver no side waits for a confirmation. -/
theorem Joined.not_waiting (h : c.Joined (fun s => (p s).cfg) (agreedHold p))
    (hpos : 0 < agreedHold p) (hdrained : c.Drained) (s : Side) :
    (c.peer s).state ≠ .openConfirm := by
  intro hs
  have hreads := (h s).reads_at hs
  have hwrites := (h s).writes_at hs
  have hempty : c.pending s = [] := (hdrained s).resolve_left (by simp [hs])
  have hconf : confirmation (agreedHold p) ≠ [] := by
    rw [confirmation, if_pos hpos]
    exact reads_keepaliveFrame.ne_nil
  have hother := hdrained s.other
  rw [pending, Side.other_other] at hother
  rw [hempty] at hreads
  generalize (c.peer s.other).state = far at hreads hwrites hother
  cases far with
  | connect | active => exact hreads
  | openSent =>
    -- the other side has our OPEN and its confirmation in front of it
    rw [hother.resolve_left nofun] at hwrites
    exact hconf (append_eq_nil_iff.mp hwrites.symm).2
  | openConfirm => exact hconf (Eq.symm hreads)
  | established => exact Confirmed.ne_nil hreads rfl
  | idle =>
    obtain hc | hn := hreads
    · exact hc.ne_nil rfl
    · exact hn.ne_nil rfl

/-- In every run of a connection whose OPENs fit: established sides agree on the hold
time and on path identifiers, and on the width of AS numbers exactly when both are
configured alike; no side without a hold time runs a hold or keepalive timer; and
when both offer a hold time, a side waits for a confirmation only while bytes are
left to deliver. -/
theorem open_negotiation_agrees (p : Side → BgpPeer) (hfits : ∀ s, (p s).cfg.OpenFits)
    {es : List ConnectionEvent} {c : Connection}
    (hrun : exec Connection.step (start p) es = some c) :
    ((∀ s, (c.peer s).state = .established) →
      (∀ s, Agrees p c s) ∧
        ((∀ s, (c.peer s).writesWide = (c.peer s.other).readsWide) ↔
          (p .left).cfg.asn4 = (p .right).cfg.asn4)) ∧
    (∀ s, (c.peer s).negotiatedHoldTime = 0 → .hold ∉ c.armed s ∧ .keepalive ∉ c.armed s) ∧
    ((∀ s, (p s).cfg.holdTime ≠ 0) → c.Drained →
      (∀ s, (c.peer s).state ≠ .openConfirm) ∧
        ((∀ s, (c.peer s).state = .openConfirm ∨ (c.peer s).state = .established) →
          ∀ s, (c.peer s).state = .established)) := by
  have hjoined := joined_of_run hfits hrun
  have hcfg : ∀ s, (c.peer s).cfg = (p s).cfg := fun s => (hjoined s).config
  refine ⟨fun hest => ⟨fun s => hjoined.agrees hest s, ?_⟩, fun s => (hjoined s).timers, ?_⟩
  · simp only [writesWide, readsWide, hcfg]
    constructor
    · intro h
      exact h .left
    · intro h s
      cases s with
      | left => exact h
      | right => exact h.symm
  · intro hoffers hdrained
    have hnot := hjoined.not_waiting (agreedHold_pos hoffers) hdrained
    exact ⟨hnot, fun hstate s => (hstate s).resolve_left (hnot s)⟩

end Run

/-- Two external speakers of AS 65001 and AS 65002. -/
def speakers (holdTime : UInt16) (asn4 : Side → Bool) : Side → BgpPeer
  | .left => .new
      { localAs := 65001, peerAs := 65002, localBgpId := 1, holdTime, asn4 := asn4 .left,
        addPath := true }
  | .right => .new
      { localAs := 65002, peerAs := 65001, localBgpId := 2, holdTime, asn4 := asn4 .right,
        addPath := true }

/-- Both sides come up and everything is delivered. -/
def exchange : List ConnectionEvent :=
  [.opened .left, .opened .right, .flush .left, .flush .right, .deliver .left 4096,
    .deliver .right 4096, .flush .left, .flush .right, .deliver .left 4096, .deliver .right 4096]

theorem open_negotiation_agrees_ninety :
    ∃ c, exec Connection.step (start (speakers 90 fun _ => true)) exchange = some c ∧
      (∀ s, (c.peer s).state = .established) ∧
      (∀ s, Agrees (speakers 90 fun _ => true) c s) ∧
      ∀ s, (c.peer s).writesWide = (c.peer s.other).readsWide := by
  have hstates : (exec Connection.step (start (speakers 90 fun _ => true)) exchange).map
      (fun c => ((c.peer .left).state, (c.peer .right).state)) =
        some (.established, .established) := by decide +kernel
  obtain ⟨c, hc, hs⟩ := Option.map_eq_some_iff.mp hstates
  have hest : ∀ s, (c.peer s).state = .established := by
    intro s
    cases s with
    | left => exact congrArg Prod.fst hs
    | right => exact congrArg Prod.snd hs
  have hagree := (open_negotiation_agrees (speakers 90 fun _ => true)
    (fun s => by cases s <;> decide +kernel) hc).1 hest
  exact ⟨c, hc, hest, hagree.1, hagree.2.mpr rfl⟩

/-- With a hold time of zero neither side confirms the other's OPEN: both wait in
OpenConfirm and nothing is left to deliver.  With different settings of `asn4` both
sides are established and one writes a width the other does not read. -/
theorem zero_hold_time_waits :
    (exec Connection.step (start (speakers 0 fun _ => true)) exchange).map
      (fun c =>
        (((c.peer .left).state, (c.peer .right).state), c.pending .left, c.pending .right)) =
        some ((.openConfirm, .openConfirm), [], []) ∧
    (exec Connection.step (start (speakers 90 fun s => s = .left)) exchange).map
      (fun c => (((c.peer .left).state, (c.peer .right).state),
        (c.peer .left).writesWide, (c.peer .right).readsWide)) =
        some ((.established, .established), true, false) := by
  decide +kernel

end Connection

end LibRouting.Bgp
