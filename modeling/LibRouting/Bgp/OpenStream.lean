/-
  Bgp/OpenStream.lean --- whose OPEN a session reads.

  What a session writes is a sequence of whole frames, and every OPEN among them
  carries its own BGP Identifier.  So the Identifier a session stores is that of the
  session at the other end of the connection, however the bytes are cut on the way.
-/
import LibRouting.Bgp.Handshake

set_option autoImplicit false

namespace LibRouting.Bgp

open Foundation Core Outcome List

variable {id : RouterId} {msg : BgpMessage}

/-! ## Frames -/

/-- A complete frame.  If it is an OPEN, it carries the identifier. -/
def FrameOf (id : RouterId) (f : Bytes) : Prop :=
  ∀ addPath, tryDecodeFrame f addPath ≠ ok none ∧
    ∀ n msg, tryDecodeFrame f addPath = ok (some (n, msg)) →
      n = f.length ∧ ∀ o, msg = .open o → o.bgpId = id

/-- The identifier stands in front of the parameters, which may or may not be
readable. -/
theorem decodeOpen_openWire_bgpId {o o' : Open} (h : decodeOpen (openWire o) = ok o') :
    o'.bgpId = o.bgpId := by
  have hid : (readBe32 (openWire o) 5 : Outcome BgpError UInt32) = ok o.bgpId := by
    rw [← fromBe32_toBe32 o.bgpId]
    rfl
  unfold decodeOpen at h
  split at h
  · cases h
  obtain ⟨version, -, h⟩ := bind_eq_ok.mp h
  obtain ⟨myAs, -, h⟩ := bind_eq_ok.mp h
  obtain ⟨holdTime, -, h⟩ := bind_eq_ok.mp h
  obtain ⟨bgpId, hread, h⟩ := bind_eq_ok.mp h
  obtain ⟨paramsLen, -, h⟩ := bind_eq_ok.mp h
  split at h
  · cases h
  obtain ⟨region, -, h⟩ := bind_eq_ok.mp h
  obtain ⟨params, -, h⟩ := bind_eq_ok.mp h
  cases h
  rw [hid] at hread
  exact (Outcome.ok.inj hread).symm

theorem frameOf_frameWire (tx : Bool) (hsize : frameLength tx msg ≤ 4096)
    (hopen : ∀ o, msg = .open o → o.bgpId = id) : FrameOf id (frameWire tx msg) := by
  intro addPath
  rw [tryDecodeFrame_frameWire_eq tx addPath msg hsize, frameWire_length]
  cases hbody : decodeBody msg.kind (bodyWire tx msg) addPath with
  | err e => exact ⟨by simp [map_err], by simp [map_err]⟩
  | abort => exact ⟨by simp [map_abort], by simp [map_abort]⟩
  | ok m =>
    refine ⟨by simp [map_ok], ?_⟩
    intro n msg' h
    rw [map_ok] at h
    cases h
    refine ⟨rfl, ?_⟩
    rintro o rfl
    cases msg with
    | «open» o' =>
      obtain ⟨o'', hdec, heq⟩ := map_eq_ok.mp hbody
      cases heq
      rw [decodeOpen_openWire_bgpId hdec]
      exact hopen o' rfl
    | update u =>
      obtain ⟨u', -, heq⟩ := map_eq_ok.mp hbody
      cases heq
    | notification n | keepalive => cases hbody
    | routeRefresh r =>
      obtain ⟨r', -, heq⟩ := map_eq_ok.mp hbody
      cases heq

/-- The bytes are whole frames of a session with this identifier. -/
def Frames (id : RouterId) (b : Bytes) : Prop :=
  ∃ frames : List Bytes, b = frames.flatten ∧ ∀ f ∈ frames, FrameOf id f

theorem Frames.nil (id : RouterId) : Frames id [] := ⟨[], rfl, by simp⟩

theorem Frames.append {b c : Bytes} (hb : Frames id b) (hc : Frames id c) : Frames id (b ++ c) := by
  obtain ⟨fs, rfl, hfs⟩ := hb
  obtain ⟨gs, rfl, hgs⟩ := hc
  exact ⟨fs ++ gs, by simp, forall_mem_append.mpr ⟨hfs, hgs⟩⟩

theorem FrameOf.frames {f : Bytes} (h : FrameOf id f) : Frames id f :=
  ⟨[f], by simp, by simpa using h⟩

/-- The decoder takes the first frame of such a stream whole, however much of what
follows it has in front of it. -/
theorem Frames.decode {buf r : Bytes} (h : Frames id (buf ++ r)) {addPath : Bool} {n : Nat}
    (hdec : tryDecodeFrame buf addPath = ok (some (n, msg))) :
    (∀ o, msg = .open o → o.bgpId = id) ∧ Frames id (buf.drop n ++ r) := by
  have hn := tryDecodeFrame_length hdec
  have hall : tryDecodeFrame (buf ++ r) addPath = ok (some (n, msg)) := by
    rw [tryDecodeFrame_append (by rw [hdec]; simp), hdec]
  obtain ⟨frames, hflat, hframes⟩ := h
  cases frames with
  | nil =>
    have hlen := congrArg length hflat
    simp only [length_append, flatten_nil, length_nil] at hlen
    omega
  | cons f fs =>
    obtain ⟨hnone, hf⟩ := hframes f mem_cons_self addPath
    rw [flatten_cons] at hflat
    rw [hflat, tryDecodeFrame_append hnone] at hall
    obtain ⟨hlen, hopen⟩ := hf n msg hall
    refine ⟨hopen, fs, ?_, fun g hg => hframes g (mem_cons_of_mem f hg)⟩
    rw [← drop_append_of_le_length hn.2, hflat, hlen, drop_left]

/-! ## Sessions -/

namespace BgpPeer

/-- The session writes as `own`, and the identifier it stores is `remote`. -/
structure Speaks (own remote : RouterId) (p : BgpPeer) : Prop where
  localId : p.cfg.localBgpId = own
  remoteId : ∀ id, p.peerBgpId = some id → id = remote
  output : Frames own p.outBuf

namespace Speaks

variable {own remote : RouterId} {p q : BgpPeer} {state : BgpState} {actions : List BgpAction}

section

variable (h : p.Speaks own remote)
include h

theorem enqueue {msg : BgpMessage} (hopen : ∀ o, msg = .open o → o.bgpId = own)
    (henq : p.enqueue msg = ok q) :
    q.Speaks own remote := by
  obtain ⟨bytes, henc, rfl⟩ | ⟨-, rfl⟩ := enqueue_ok henq
  · obtain ⟨-, hsize, rfl⟩ := encodeVec_ok_iff.mp henc
    exact ⟨h.localId, h.remoteId, h.output.append (frameOf_frameWire _ hsize hopen).frames⟩
  · exact h

/-- Nothing but the configuration, the stored identifier and the output matters. -/
theorem congr (hcfg : q.cfg = p.cfg) (hid : q.peerBgpId = p.peerBgpId)
    (hout : q.outBuf = p.outBuf) :
    q.Speaks own remote :=
  ⟨hcfg ▸ h.localId, hid ▸ h.remoteId, hout ▸ h.output⟩

/-- Every transition keeps it, as long as an OPEN that is read carries `remote`. -/
theorem step {ev : BgpEvent} (hev : ∀ o, ev = .message (.open o) → o.bgpId = remote)
    (hstep : p.step ev = ok (q, actions)) :
    q.Speaks own remote := by
  refine (step_transition hstep).preserves h (fun h => ⟨h.localId, h.remoteId, h.output⟩)
    (fun h hmsg henq => h.enqueue (fun o ho => ?_) henq)
    fun o ho => ⟨⟨h.localId, h.remoteId, h.output⟩, h.localId, ?_, h.output⟩
  · rw [hmsg o ho]
    exact h.localId
  · intro id hid
    exact (Option.some.inj hid).symm.trans (hev o ho)

end

end Speaks

variable {own remote : RouterId} {p q : BgpPeer} {r : Bytes} {actions : List BgpAction}

/-- Reading a stream of the other end, in pieces of any size. -/
theorem Speaks.feedLoop {buf : Bytes} (h : p.Speaks own remote) (hbuf : Frames remote (buf ++ r))
    (hloop : p.feedLoop buf = ok (q, actions)) :
    q.Speaks own remote ∧ Frames remote (q.codec.carryover ++ r) := by
  fun_induction p.feedLoop buf generalizing actions with
  | case1 | case4 => cases hloop
  | case2 =>
    cases hloop
    exact ⟨h.congr rfl rfl rfl, hbuf⟩
  | case3 p buf k msg hdec hk ih =>
    obtain ⟨hopen, hrest⟩ := hbuf.decode hdec
    obtain ⟨⟨p₁, as⟩, hstep, hloop⟩ := bind_eq_ok.mp hloop
    obtain ⟨⟨p₂, more⟩, hmore, hloop⟩ := bind_eq_ok.mp hloop
    cases hloop
    have hheld : Speaks own remote
        { p.holding (buf.drop k) with received := p.received.count msg } :=
      h.congr rfl rfl rfl
    exact ih p₁ (hheld.step (fun o ho => hopen o (by cases ho; rfl)) hstep) hrest hmore
  | case5 p buf e hdec =>
    have hheld : Speaks own remote ((p.holding buf).countError e) := by
      cases e <;> exact h.congr rfl rfl rfl
    have hevent : ∀ o, decodeErrorEvent e = .message (.open o) → o.bgpId = remote := by
      intro o ho
      cases e <;> cases ho
    refine ⟨hheld.step hevent hloop, ?_⟩
    rw [step_carryover hloop]
    cases e <;> exact hbuf

theorem Speaks.feedBytes {bytes : Bytes} (h : p.Speaks own remote)
    (hbuf : Frames remote (p.codec.carryover ++ (bytes ++ r)))
    (hfeed : p.feedBytes bytes = ok (q, actions)) :
    q.Speaks own remote ∧ Frames remote (q.codec.carryover ++ r) :=
  h.feedLoop (by rwa [append_assoc]) hfeed

end BgpPeer

end LibRouting.Bgp
