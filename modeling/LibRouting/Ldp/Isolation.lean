/-
  Ldp/Isolation.lean --- what bytes on one connection do to the other peers.

  `Frame p conn` is the effect an operation on behalf of peer `p` may have on everyone
  else.  Without transit allocation there is none.  With it, the engine answers `p`'s
  bindings by advertising, withdrawing and releasing transit labels to other peers;
  nothing but that reaches them.
-/
import LibRouting.Ldp.Engine

set_option autoImplicit false

namespace LibRouting.Ldp

open Foundation Core List Option
open Std (ExtTreeMap)

/-! ## The frame -/

/-- The peer an event is about. -/
def EngineEvent.peer? : EngineEvent → Option LdpId
  | loopDetected p _ _ | sessionUp p _ _ | sessionDown p _ _ | mappingLearned p _ _
  | mappingWithdrawn p _ | mappingReleased p _ | addressReceived p _ | notificationReceived p _
  | unknownMessage p _ | addressWithdrawn p _ | labelAbortReceived p _ _ _ => some p
  | closeConnection _ | transitSwapChanged _ _ _ _ | transitSwapRemoved _ _
  | transitLabelExhausted _ => none

/-- The connection an event closes. -/
def EngineEvent.closes? : EngineEvent → Option UInt64
  | closeConnection c => some c
  | _ => none

/-- The event is about `p` or about no peer, and closes no connection but `conn`. -/
def EngineEvent.Concerns (p : LdpId) (conn : UInt64) (ev : EngineEvent) : Prop :=
  (∀ q, ev.peer? = some q → q = p) ∧ ∀ c, ev.closes? = some c → c = conn

/-- The messages transit allocation sends: unsolicited mappings, withdrawals, and
releases that report no error. -/
def LdpMessage.isTransit : LdpMessage → Bool
  | labelMapping m => m.requestMessageId.isNone
  | labelWithdraw _ => true
  | labelRelease m => m.status.isNone
  | _ => false

/-- The session with its queue on the wire. -/
def LdpSessionState.flushed (st : LdpSessionState) : LdpSessionState :=
  { st with session := st.session.drained }

namespace LdpEngine

/-- The bytes waiting for a connection. -/
def output (e : LdpEngine) (c : UInt64) : Bytes := e.outBufs.getD c []

/-- The connection of `p`'s session is `conn`. -/
def Owned (p : LdpId) (conn : UInt64) (e : LdpEngine) : Prop :=
  ∀ st, e.sessions[p]? = some st → st.conn = conn

/-- Connection `c` got transit messages, and what its peers had queued before. -/
def TransitOutput (p : LdpId) (e e' : LdpEngine) (c : UInt64) : Prop :=
  ∃ batches : List (UInt16 × List LdpMessage),
    e'.output c = e.output c ++ batches.flatMap (fun b => encodePdus e.cfg.localId b.1 b.2) ∧
    ∀ b ∈ batches, ∀ m ∈ b.2, m.isTransit = true ∨
      ∃ q st, q ≠ p ∧ e.sessions[q]? = some st ∧ st.conn = c ∧ m ∈ st.session.outgoing

/-- From `e` to `e'` only `p` and its connection change directly.  `torn` are the FECs
whose transit LSP is undone on the way, `new` the events surfaced. -/
structure Frame (p : LdpId) (conn : UInt64) (torn : Prefix → Prop) (new : List EngineEvent)
    (e e' : LdpEngine) : Prop where
  cfg : e'.cfg = e.cfg
  adjacencies : e'.adjacencies = e.adjacencies
  awaitingInit : ∀ c : UInt64, e'.awaitingInit[c]? = e.awaitingInit[c]?
  owned : Owned p conn e'
  session : ∀ q : LdpId, q ≠ p → e'.sessions[q]? = e.sessions[q]? ∨
    e.cfg.transitAllocation = true ∧ e'.sessions[q]? = e.sessions[q]?.map LdpSessionState.flushed
  bindings : ∀ q : LdpId, q ≠ p → e'.lib.received[q]? = e.lib.received[q]? ∨
    e.cfg.transitAllocation = true ∧ ∀ key, e'.lib.labelFrom q key = e.lib.labelFrom q key ∨
      torn key ∧ e'.lib.labelFrom q key = none
  restart : ∀ q : LdpId, q ≠ p →
    e'.grStale[q]? = e.grStale[q]? ∧ e'.grRecovering[q]? = e.grRecovering[q]?
  input : ∀ c : UInt64, c ≠ conn → e'.inBufs[c]? = e.inBufs[c]?
  output : ∀ c : UInt64, c ≠ conn → e'.outBufs[c]? = e.outBufs[c]? ∨
    e.cfg.transitAllocation = true ∧ TransitOutput p e e' c
  events : e'.events = e.events ++ new
  concerns : ∀ ev ∈ new, ev.Concerns p conn

/-- The FECs whose transit LSP the events report as undone. -/
def tornBy (new : List EngineEvent) (key : Prefix) : Prop :=
  ∃ label, EngineEvent.transitSwapRemoved key label ∈ new

/-- No session but `p`'s, no binding attributed to another peer and no other connection
is touched, other than by transit labels. -/
def Isolated (p : LdpId) (conn : UInt64) (e e' : LdpEngine) : Prop :=
  ∃ new, Frame p conn (tornBy new) new e e'

variable {p : LdpId} {conn : UInt64} {torn : Prefix → Prop} {e e₁ e₂ : LdpEngine}

theorem output_of_eq {c : UInt64} (h : e₁.outBufs[c]? = e.outBufs[c]?) :
    e₁.output c = e.output c := by
  simp only [output, ExtTreeMap.getD_eq_getD_getElem?, h]

theorem labelFrom_of_eq {q : LdpId} (h : e₁.lib.received[q]? = e.lib.received[q]?)
    (key : Prefix) : e₁.lib.labelFrom q key = e.lib.labelFrom q key := by
  simp only [LabelMappingStore.labelFrom, h]

namespace Frame

variable {new new₁ new₂ : List EngineEvent}

theorem weaken {torn' : Prefix → Prop} (h : Frame p conn torn new e e₁)
    (hsub : ∀ key, torn key → torn' key) : Frame p conn torn' new e e₁ :=
  { h with
    bindings := fun q hq => (h.bindings q hq).imp_right fun ⟨hon, hkeys⟩ =>
      ⟨hon, fun key => (hkeys key).imp_right fun ⟨ht, hnone⟩ => ⟨hsub key ht, hnone⟩⟩ }

theorem queue (h : Frame p conn torn new e e₁) {q : LdpId} (hq : q ≠ p) {st : LdpSessionState}
    (hst : e₁.sessions[q]? = some st) {m : LdpMessage} (hm : m ∈ st.session.outgoing) :
    e.sessions[q]? = some st := by
  rcases h.session q hq with heq | ⟨-, heq⟩
  · rwa [heq] at hst
  · rw [heq] at hst
    obtain ⟨st', -, rfl⟩ := map_eq_some_iff.mp hst
    cases hm

theorem transitOutput_trans (h₁ : Frame p conn torn new₁ e e₁) {c : UInt64}
    (ho₁ : TransitOutput p e e₁ c) (ho₂ : TransitOutput p e₁ e₂ c) : TransitOutput p e e₂ c := by
  obtain ⟨b₁, hout₁, hb₁⟩ := ho₁
  obtain ⟨b₂, hout₂, hb₂⟩ := ho₂
  refine ⟨b₁ ++ b₂, ?_, fun b hb m hm => ?_⟩
  · rw [hout₂, hout₁, h₁.cfg, flatMap_append, append_assoc]
  · rcases mem_append.mp hb with hb | hb
    · exact hb₁ b hb m hm
    · refine (hb₂ b hb m hm).imp_right ?_
      rintro ⟨q, st, hq, hst, hc, hmem⟩
      exact ⟨q, st, hq, h₁.queue hq hst hmem, hc, hmem⟩

theorem trans (h₁ : Frame p conn torn new₁ e e₁) (h₂ : Frame p conn torn new₂ e₁ e₂) :
    Frame p conn torn (new₁ ++ new₂) e e₂ where
  cfg := h₂.cfg.trans h₁.cfg
  adjacencies := h₂.adjacencies.trans h₁.adjacencies
  awaitingInit c := (h₂.awaitingInit c).trans (h₁.awaitingInit c)
  owned := h₂.owned
  session q hq := by
    rcases h₁.session q hq with heq₁ | ⟨hon, heq₁⟩ <;>
      rcases h₂.session q hq with heq₂ | ⟨hon₂, heq₂⟩
    · exact .inl (heq₂.trans heq₁)
    · exact .inr ⟨by rw [← h₁.cfg]; exact hon₂, by rw [heq₂, heq₁]⟩
    · exact .inr ⟨hon, by rw [heq₂, heq₁]⟩
    · refine .inr ⟨hon, ?_⟩
      rw [heq₂, heq₁, Option.map_map]
      rfl
  bindings q hq := by
    rcases h₁.bindings q hq with heq₁ | ⟨hon, hkeys₁⟩ <;>
      rcases h₂.bindings q hq with heq₂ | ⟨hon₂, hkeys₂⟩
    · exact .inl (heq₂.trans heq₁)
    · refine .inr ⟨by rw [← h₁.cfg]; exact hon₂, fun key => ?_⟩
      rw [← labelFrom_of_eq heq₁]
      exact hkeys₂ key
    · refine .inr ⟨hon, fun key => ?_⟩
      rw [labelFrom_of_eq heq₂]
      exact hkeys₁ key
    · refine .inr ⟨hon, fun key => ?_⟩
      rcases hkeys₂ key with hsame | hlost
      · rw [hsame]
        exact hkeys₁ key
      · exact .inr hlost
  restart q hq := ⟨(h₂.restart q hq).1.trans (h₁.restart q hq).1,
    (h₂.restart q hq).2.trans (h₁.restart q hq).2⟩
  input c hc := (h₂.input c hc).trans (h₁.input c hc)
  output c hc := by
    have hnone {e e' : LdpEngine} (h : e'.outBufs[c]? = e.outBufs[c]?) : TransitOutput p e e' c :=
      ⟨[], by simp [output_of_eq h], by simp⟩
    rcases h₁.output c hc with heq₁ | ⟨hon, ho₁⟩ <;>
      rcases h₂.output c hc with heq₂ | ⟨hon₂, ho₂⟩
    · exact .inl (heq₂.trans heq₁)
    · exact .inr ⟨by rw [← h₁.cfg]; exact hon₂, h₁.transitOutput_trans (hnone heq₁) ho₂⟩
    · exact .inr ⟨hon, h₁.transitOutput_trans ho₁ (hnone heq₂)⟩
    · exact .inr ⟨hon, h₁.transitOutput_trans ho₁ ho₂⟩
  events := by rw [h₂.events, h₁.events, append_assoc]
  concerns := forall_mem_append.mpr ⟨h₁.concerns, h₂.concerns⟩

end Frame

namespace Isolated

theorem trans (h₁ : Isolated p conn e e₁) (h₂ : Isolated p conn e₁ e₂) : Isolated p conn e e₂ := by
  obtain ⟨new₁, h₁⟩ := h₁
  obtain ⟨new₂, h₂⟩ := h₂
  exact ⟨new₁ ++ new₂,
    (h₁.weaken fun _ ⟨label, hmem⟩ => ⟨label, mem_append_left _ hmem⟩).trans
      (h₂.weaken fun _ ⟨label, hmem⟩ => ⟨label, mem_append_right _ hmem⟩)⟩

theorem owned (h : Isolated p conn e e₁) : Owned p conn e₁ :=
  have ⟨_, hframe⟩ := h
  hframe.owned

end Isolated

/-! ## Operations on behalf of `p` -/

/-- The operation touches `p` and `conn` only. -/
structure Own (p : LdpId) (conn : UInt64) (new : List EngineEvent) (e e' : LdpEngine) : Prop where
  cfg : e'.cfg = e.cfg
  adjacencies : e'.adjacencies = e.adjacencies
  awaitingInit : ∀ c : UInt64, e'.awaitingInit[c]? = e.awaitingInit[c]?
  owned : Owned p conn e → Owned p conn e'
  sessions : ∀ q : LdpId, q ≠ p → e'.sessions[q]? = e.sessions[q]?
  bindings : ∀ q : LdpId, q ≠ p → e'.lib.received[q]? = e.lib.received[q]?
  stale : ∀ q : LdpId, q ≠ p → e'.grStale[q]? = e.grStale[q]?
  recovering : ∀ q : LdpId, q ≠ p → e'.grRecovering[q]? = e.grRecovering[q]?
  input : ∀ c : UInt64, c ≠ conn → e'.inBufs[c]? = e.inBufs[c]?
  output : ∀ c : UInt64, c ≠ conn → e'.outBufs[c]? = e.outBufs[c]?
  events : e'.events = e.events ++ new
  concerns : ∀ ev ∈ new, ev.Concerns p conn

theorem Own.refl (p : LdpId) (conn : UInt64) (e : LdpEngine) : Own p conn [] e e :=
  ⟨rfl, rfl, fun _ => rfl, id, fun _ _ => rfl, fun _ _ => rfl, fun _ _ => rfl, fun _ _ => rfl,
    fun _ _ => rfl, fun _ _ => rfl, (append_nil _).symm, by simp⟩

theorem Own.frame {new : List EngineEvent} (h : Own p conn new e e₁) (howned : Owned p conn e) :
    Frame p conn torn new e e₁ :=
  { h with
    owned := h.owned howned
    session := fun q hq => .inl (h.sessions q hq)
    bindings := fun q hq => .inl (h.bindings q hq)
    restart := fun q hq => ⟨h.stale q hq, h.recovering q hq⟩
    output := fun c hc => .inl (h.output c hc) }

theorem Isolated.refl (howned : Owned p conn e) : Isolated p conn e e :=
  ⟨[], (Own.refl p conn e).frame howned⟩

theorem own_pushEvent {ev : EngineEvent} (h : ev.Concerns p conn) :
    Own p conn [ev] e (e.pushEvent ev) :=
  { Own.refl p conn e with
    events := rfl
    concerns := forall_mem_singleton.mpr h }

theorem own_setSession (st : LdpSessionState) (h : st.conn = conn) :
    Own p conn [] e { e with sessions := e.sessions.insert p st } :=
  { Own.refl p conn e with
    owned := by
      intro _ st' hst'
      simp only [ExtTreeMap.getElem?_insert_self, some.injEq] at hst'
      rw [← hst', h]
    sessions := by
      intro q hq
      simp [lookup_insert, hq.symm] }

/-! ### One operation more -/

namespace Isolated

variable (h : Isolated p conn e e₁) {ev : EngineEvent}

include h

theorem own (hown : Own p conn [] e₁ e₂) : Isolated p conn e e₂ :=
  h.trans ⟨[], hown.frame h.owned⟩

theorem push (hev : ev.Concerns p conn) : Isolated p conn e (e₁.pushEvent ev) :=
  h.trans ⟨[ev], (own_pushEvent hev).frame h.owned⟩

theorem pushPeer (hpeer : ev.peer? = some p) (hcloses : ev.closes? = none) :
    Isolated p conn e (e₁.pushEvent ev) :=
  h.push (by simp [EngineEvent.Concerns, hpeer, hcloses])

theorem pushNobody (hpeer : ev.peer? = none) (hcloses : ev.closes? = none) :
    Isolated p conn e (e₁.pushEvent ev) :=
  h.push (by simp [EngineEvent.Concerns, hpeer, hcloses])

theorem pushClose : Isolated p conn e (e₁.pushEvent (.closeConnection conn)) :=
  h.push (by simp [EngineEvent.Concerns, EngineEvent.peer?, EngineEvent.closes?])

theorem modifySession (f : LdpSession → LdpSession) : Isolated p conn e (e₁.modifySession p f) := by
  unfold LdpEngine.modifySession
  cases hst : e₁.sessions[p]? with
  | none => exact h
  | some st => exact h.own (own_setSession _ (h.owned st hst))

theorem removeSession : Isolated p conn e (e₁.removeSession p) :=
  h.own { Own.refl p conn e₁ with
    owned := by
      intro _ st hst
      simp [LdpEngine.removeSession] at hst
    sessions := by
      intro q hq
      simp [LdpEngine.removeSession, lookup_erase, hq.symm] }

theorem encodeOutgoing (outgoing : List LdpMessage) (maxPduLen : UInt16) :
    Isolated p conn e (e₁.encodeOutgoing conn outgoing maxPduLen) := by
  unfold LdpEngine.encodeOutgoing
  split
  · exact h
  exact h.own { Own.refl p conn e₁ with
    output := by
      intro c hc
      simp [appendOut, lookup_insert, hc.symm] }

/-- A library that differs in `p`'s bindings only. -/
theorem library {lib : LabelMappingStore}
    (hlib : ∀ q : LdpId, q ≠ p → lib.received[q]? = e₁.lib.received[q]?) :
    Isolated p conn e { e₁ with lib := lib } :=
  h.own { Own.refl p conn e₁ with bindings := hlib }

theorem numbered : Isolated p conn e { e₁ with nextMessageId := e₁.nextMessageId + 1 } :=
  h.own { Own.refl p conn e₁ with }

theorem sendNumbered (message : UInt32 → LdpMessage) :
    Isolated p conn e (e₁.sendNumbered p message) :=
  h.numbered.modifySession _

theorem flushSession : Isolated p conn e (e₁.flushSession p conn) := by
  unfold LdpEngine.flushSession
  split
  · exact h
  · exact (h.modifySession _).encodeOutgoing _ _

theorem dropSession : Isolated p conn e (e₁.dropSession p conn) := by
  unfold LdpEngine.dropSession
  split
  · exact h
  · exact h.removeSession.encodeOutgoing _ _

end Isolated

end LdpEngine

/-! ### Bindings -/

namespace LabelMappingStore

variable {lib : LabelMappingStore} {p q : LdpId}

section

variable (hq : q ≠ p)
include hq

theorem received_setBindings (b : Bindings) :
    (lib.setBindings p b).received[q]? = lib.received[q]? := by
  simp [setBindings, lookup_insert, hq.symm]

theorem received_learn (key : Prefix) (label : GenericLabel) :
    (lib.learn p key label).1.received[q]? = lib.received[q]? := by
  unfold learn
  split
  · rfl
  · exact received_setBindings hq _

theorem received_unlearn (key : Prefix) :
    (lib.unlearn p key).1.received[q]? = lib.received[q]? := by
  unfold unlearn
  split
  · rfl
  · exact received_setBindings hq _

theorem received_unlearnPeer : (lib.unlearnPeer p).received[q]? = lib.received[q]? := by
  simp [unlearnPeer, lookup_erase, hq.symm]

theorem received_unlearnByLabel (label : GenericLabel) :
    (lib.unlearnByLabel p label).1.received[q]? = lib.received[q]? := by
  unfold unlearnByLabel
  split
  · rfl
  · exact received_setBindings hq _

theorem received_unlearnAllFrom : (lib.unlearnAllFrom p).1.received[q]? = lib.received[q]? := by
  unfold unlearnAllFrom
  split
  · rfl
  · exact received_setBindings hq _

end

/-- Forgetting a binding forgets nothing else. -/
theorem labelFrom_unlearn (id : LdpId) (key key' : Prefix) (q : LdpId) :
    (lib.unlearn id key).1.labelFrom q key' = lib.labelFrom q key' ∨
      key' = key ∧ (lib.unlearn id key).1.labelFrom q key' = none := by
  by_cases hq : q = id
  · subst hq
    unfold unlearn
    cases hb : lib.received[q]? with
    | none => exact .inl rfl
    | some b =>
      by_cases hkey : key' = key
      · subst hkey
        exact .inr ⟨rfl, by simp [labelFrom, setBindings]⟩
      · left
        have hne : key ≠ key' := fun h => hkey h.symm
        simp [labelFrom, setBindings, hb, lookup_erase, hne]
  · left
    simp only [labelFrom, received_unlearn hq]

end LabelMappingStore

namespace LdpEngine

variable {p : LdpId} {conn : UInt64} {torn : Prefix → Prop} {e e₁ e₂ : LdpEngine}
  {message : UInt32 → LdpMessage} {b : Bytes} {now : Instant} {handled : List LdpId} {q : LdpId}
  {pdu : LdpPdu} {n : Nat}

/-! ## Transit labels -/

theorem sendAndFlush_some {st : LdpSessionState} (hst : e.sessions[q]? = some st) :
    sendAndFlush message e q = { e with
      nextMessageId := e.nextMessageId + 1
      sessions := (e.sessions.insert q
        { st with session := st.session.send (message e.nextMessageId) }).insert q st.flushed
      outBufs := e.outBufs.insert st.conn (e.output st.conn ++ encodePdus e.cfg.localId
        (effectiveMaxPdu st.session) (st.session.outgoing ++ [message e.nextMessageId])) } := by
  have hne : (st.session.outgoing ++ [message e.nextMessageId]).isEmpty = false := by simp
  simp only [sendAndFlush, sendNumbered, modifySession, hst, peerConnOf, flushSession,
    ExtTreeMap.getElem?_insert_self, encodeOutgoing, LdpSession.send, hne,
    Bool.false_eq_true, if_false, appendOut]
  rfl

theorem sendAndFlush_none (hst : e.sessions[q]? = none) :
    sendAndFlush message e q = { e with nextMessageId := e.nextMessageId + 1 } := by
  simp only [sendAndFlush, sendNumbered, modifySession, hst, flushSession]

/-- A transit message to any peer. -/
theorem sendAndFlush_frame (hmsg : ∀ id, (message id).isTransit = true)
    (hon : e.cfg.transitAllocation = true) (howned : Owned p conn e) (q : LdpId) :
    Frame p conn torn [] e (sendAndFlush message e q) := by
  cases hst : e.sessions[q]? with
  | none =>
    rw [sendAndFlush_none hst]
    have hid : Own p conn [] e { e with nextMessageId := e.nextMessageId + 1 } :=
      { Own.refl p conn e with }
    exact hid.frame howned
  | some st =>
    rw [sendAndFlush_some hst]
    by_cases hq : q = p
    · subst hq
      have hconn := howned st hst
      refine Own.frame { Own.refl q conn e with
        owned := fun _ st' hst' => ?_
        sessions := fun q' hq' => ?_
        output := fun c hc => ?_ } howned
      · simp only [ExtTreeMap.getElem?_insert_self, some.injEq] at hst'
        rw [← hst']
        exact hconn
      · simp [lookup_insert, hq'.symm]
      · simp [lookup_insert, hconn, hc.symm]
    · refine { (Own.refl p conn e).frame howned with
        owned := fun st' hst' => howned st' ?_
        session := fun q' _ => ?_
        output := fun c _ => ?_ }
      · simpa [lookup_insert, hq] using hst'
      · by_cases hqq : q = q'
        · subst hqq
          exact .inr ⟨hon, by simp [hst]⟩
        · exact .inl (by simp [lookup_insert, hqq])
      · by_cases hc : st.conn = c
        · subst hc
          refine .inr ⟨hon, [(effectiveMaxPdu st.session,
            st.session.outgoing ++ [message e.nextMessageId])], ?_, ?_⟩
          · simp [output]
          · intro b hb m hm
            rw [mem_singleton.mp hb] at hm
            rcases mem_append.mp hm with hm | hm
            · exact .inr ⟨q, st, hq, hst, rfl, hm⟩
            · exact .inl (by rw [mem_singleton.mp hm]; exact hmsg _)
        · exact .inl (by simp [lookup_insert, hc])

namespace Frame

variable {new : List EngineEvent} (h : Frame p conn torn new e e₁)

include h

theorem next (h' : Frame p conn torn [] e₁ e₂) : Frame p conn torn new e e₂ := by
  simpa using h.trans h'

theorem sendAndFlush (hmsg : ∀ id, (message id).isTransit = true)
    (hon : e.cfg.transitAllocation = true) (q : LdpId) :
    Frame p conn torn new e (LdpEngine.sendAndFlush message e₁ q) :=
  h.next (sendAndFlush_frame hmsg (by rw [h.cfg, hon]) h.owned q)

theorem sendWithdrawAll (hon : e.cfg.transitAllocation = true) (pfx : Prefix) :
    Frame p conn torn new e (e₁.sendWithdrawAll pfx) :=
  foldlRecOn _ _ h fun _ h q _ => h.sendAndFlush (fun _ => rfl) hon q

/-- One binding that only reflected a transit LSP. -/
theorem releaseReflected (hon : e.cfg.transitAllocation = true) {pfx : Prefix} (htorn : torn pfx)
    (id : LdpId) (b : PeerBinding) :
    Frame p conn torn new e
      (let (lib, had) := e₁.lib.unlearn id pfx
      let e := { e₁ with lib := lib }
      if had then
        LdpEngine.sendAndFlush (fun messageId => .labelRelease {
          messageId, fec := .ofPrefix pfx, label := some b.label, status := none }) e id
      else e) := by
  have hsame : Frame p conn torn [] e₁ e₁ := (Own.refl p conn e₁).frame h.owned
  have hlib : Frame p conn torn new e { e₁ with lib := (e₁.lib.unlearn id pfx).1 } :=
    h.next { hsame with
      bindings := fun q _ => .inr ⟨by rw [h.cfg, hon], fun key => by
        rcases e₁.lib.labelFrom_unlearn id pfx key q with hsame | ⟨rfl, hnone⟩
        · exact .inl hsame
        · exact .inr ⟨htorn, hnone⟩⟩ }
  dsimp only
  split
  · exact hlib.sendAndFlush (fun _ => rfl) hon id
  · exact hlib

end Frame

namespace Isolated

variable (h : Isolated p conn e e₁)

include h

theorem advertiseTransit (hon : e₁.cfg.transitAllocation = true) (pfx : Prefix)
    (label : GenericLabel) (nh : PeerBinding) :
    Isolated p conn e (e₁.advertiseTransit pfx label nh) := by
  unfold LdpEngine.advertiseTransit
  split
  · exact h
  · refine h.trans ⟨[], ?_⟩
    exact foldlRecOn _ _ ((Own.refl p conn e₁).frame h.owned)
      fun _ hframe q _ => hframe.sendAndFlush (fun _ => rfl) hon q

theorem surfaceSwap (pfx : Prefix) (label : GenericLabel) (nh : LdpId) (b : PeerBinding) :
    Isolated p conn e (e₁.surfaceSwap pfx label nh b) := by
  unfold LdpEngine.surfaceSwap
  split
  · exact h
  · exact h.pushNobody rfl rfl

/-- The FEC is advertised upstream and shown to the dataplane, each if it has to be. -/
theorem propagate (hon : e₁.cfg.transitAllocation = true) (advertise surface : Bool) (pfx : Prefix)
    (label : GenericLabel) (nh : LdpId) (b : PeerBinding) :
    Isolated p conn e
      (if surface then
        (if advertise then e₁.advertiseTransit pfx label b else e₁).surfaceSwap pfx label nh b
      else if advertise then e₁.advertiseTransit pfx label b else e₁) := by
  have hadv : Isolated p conn e (if advertise then e₁.advertiseTransit pfx label b else e₁) := by
    split
    · exact h.advertiseTransit hon pfx label b
    · exact h
  split
  · exact hadv.surfaceSwap pfx label nh b
  · exact hadv

theorem transitOnLearn (q : LdpId) (pfx : Prefix) (label : GenericLabel)
    (hopCount : Option UInt8) (pathVector : List UInt32) :
    Isolated p conn e (e₁.transitOnLearn q pfx label hopCount pathVector) := by
  unfold LdpEngine.transitOnLearn
  split
  · exact h
  rename_i htransit
  have hon : e₁.cfg.transitAllocation = true := by simpa using htransit
  split
  · exact h
  dsimp only
  split
  · exact h.own { Own.refl p conn e₁ with }
  split
  · refine Isolated.pushNobody ?_ rfl rfl
    exact h.own { Own.refl p conn e₁ with }
  · refine Isolated.propagate ?_ ?_ _ _ pfx _ _ _
    · exact h.own { Own.refl p conn e₁ with }
    · exact hon

theorem transitTeardown (hon : e₁.cfg.transitAllocation = true) (pfx : Prefix)
    (reflected : List (LdpId × PeerBinding)) :
    Isolated p conn e (e₁.transitTeardown pfx reflected) := by
  unfold LdpEngine.transitTeardown
  dsimp only
  split
  · exact h.own { Own.refl p conn e₁ with }
  rename_i inLabel _
  -- the event that reports the teardown accounts for the bindings it releases
  refine h.trans ⟨[.transitSwapRemoved pfx inLabel], ?_⟩
  have htorn : tornBy [.transitSwapRemoved pfx inLabel] pfx := ⟨inLabel, mem_singleton_self _⟩
  have hstart : Frame p conn (tornBy [.transitSwapRemoved pfx inLabel]) [] e₁ { e₁ with
      transit := e₁.transit.erase pfx
      transitAllocator := (e₁.transitAllocator.release pfx).1 } :=
    Own.frame { Own.refl p conn e₁ with } h.owned
  have hrelease := foldlRecOn reflected _
    (hstart.sendWithdrawAll hon ⟨pfx.network, pfx.prefixLen⟩)
    fun _ h r _ => h.releaseReflected hon htorn r.1 r.2
  have hremoved : (EngineEvent.transitSwapRemoved pfx inLabel).Concerns p conn := by
    simp [EngineEvent.Concerns, EngineEvent.peer?, EngineEvent.closes?]
  exact hrelease.trans ((own_pushEvent hremoved).frame hrelease.owned)

theorem transitOnUnlearn (q : LdpId) (pfx : Prefix) :
    Isolated p conn e (e₁.transitOnUnlearn q pfx) := by
  unfold LdpEngine.transitOnUnlearn
  split
  · exact h
  rename_i htransit
  have hon : e₁.cfg.transitAllocation = true := by simpa using htransit
  split
  · exact h
  split
  · exact h
  dsimp only
  split
  · refine Isolated.transitTeardown ?_ ?_ pfx _
    · exact h.own { Own.refl p conn e₁ with }
    · exact hon
  split
  · split
    · refine Isolated.propagate ?_ ?_ true true pfx _ _ _
      · exact h.own { Own.refl p conn e₁ with }
      · exact hon
    · exact h.own { Own.refl p conn e₁ with }
  · exact h.own { Own.refl p conn e₁ with }

theorem foldl_transitOnUnlearn (prefixes : List Prefix) :
    Isolated p conn e (prefixes.foldl (·.transitOnUnlearn p ·) e₁) :=
  foldlRecOn _ _ h fun _ h pfx _ => h.transitOnUnlearn p pfx

end Isolated
variable {m : ExtTreeMap LdpId GrState compare}

/-! ## Session events -/

theorem getElem?_erase_ne (hq : q ≠ p) : (m.erase p)[q]? = m[q]? := by
  simp [lookup_erase, hq.symm]

theorem getElem?_insert_ne (hq : q ≠ p) (g : GrState) : (m.insert p g)[q]? = m[q]? := by
  simp [lookup_insert, hq.symm]

namespace Isolated

variable (h : Isolated p conn e e₁)

include h

theorem unlearn (pfx : Prefix) : Isolated p conn e { e₁ with lib := (e₁.lib.unlearn p pfx).1 } :=
  h.library fun _ hq => LabelMappingStore.received_unlearn hq pfx

theorem unlearnEach (fecs : List Prefix) : Isolated p conn e (e₁.unlearnEach p fecs).1 :=
  foldlRecOn (motive := fun acc : LdpEngine × List Prefix => Isolated p conn e acc.1) _ _ h
    fun _ hacc pfx _ => hacc.unlearn pfx

theorem surfaceWithdrawn (prefixes : List Prefix) :
    Isolated p conn e (e₁.surfaceWithdrawn p prefixes) := by
  unfold LdpEngine.surfaceWithdrawn
  split
  · exact h
  · exact h.pushPeer rfl rfl

/-- Restart state that differs in `p`'s only. -/
theorem grState {stale recovering : ExtTreeMap LdpId GrState compare}
    (hstale : ∀ q : LdpId, q ≠ p → stale[q]? = e₁.grStale[q]?)
    (hrecovering : ∀ q : LdpId, q ≠ p → recovering[q]? = e₁.grRecovering[q]?) :
    Isolated p conn e { e₁ with grStale := stale, grRecovering := recovering } :=
  h.own { Own.refl p conn e₁ with stale := hstale, recovering := hrecovering }

section

variable (now : Instant)

theorem grOnSessionUp (peerGr : Option FtSessionParams) :
    Isolated p conn e (e₁.grOnSessionUp now p peerGr) := by
  unfold LdpEngine.grOnSessionUp
  split
  · exact h.grState (fun _ _ => rfl) fun _ hq => getElem?_erase_ne hq
  rename_i stale _
  have hstale : Isolated p conn e { e₁ with grStale := e₁.grStale.erase p } :=
    h.grState (fun _ hq => getElem?_erase_ne hq) fun _ _ => rfl
  dsimp only
  split
  · have hpurge := (hstale.unlearnEach stale.fecs).foldl_transitOnUnlearn
    exact ((hpurge _).surfaceWithdrawn _).grState (fun _ _ => rfl)
      fun _ hq => getElem?_erase_ne hq
  · exact hstale.grState (fun _ _ => rfl) fun _ hq => getElem?_insert_ne hq _

theorem grOnMappingReceived (pfx : Prefix) : Isolated p conn e (e₁.grOnMappingReceived p pfx) := by
  unfold LdpEngine.grOnMappingReceived
  split
  · exact h
  · exact h.grState (fun _ _ => rfl) fun _ hq => getElem?_insert_ne hq _

theorem offerTransit (entry : Prefix × PeerBinding) :
    Isolated p conn e (LdpEngine.offerTransit p e₁ entry) := by
  unfold LdpEngine.offerTransit
  split
  · exact h
  split
  · exact h
  split
  · exact h.sendNumbered _
  · exact h

theorem onSessionUp (params : NegotiatedParams) :
    Isolated p conn e (e₁.onSessionUp now p conn params) := by
  have hgr : Isolated p conn e ((e₁.pushEvent (.sessionUp p conn params)).grOnSessionUp now p
      params.peerGracefulRestart) :=
    (h.pushPeer rfl rfl).grOnSessionUp now _
  unfold LdpEngine.onSessionUp
  dsimp only
  generalize (e₁.pushEvent (.sessionUp p conn params)).grOnSessionUp now p
    params.peerGracefulRestart = e' at hgr ⊢
  have haddr : Isolated p conn e (if (e'.advertisedAddresses p).isEmpty then e'
      else e'.modifySession p (·.sendAddressMessage ⟨e'.advertisedAddresses p⟩)) := by
    split
    · exact hgr
    · exact hgr.modifySession _
  generalize (if (e'.advertisedAddresses p).isEmpty then e'
    else e'.modifySession p (·.sendAddressMessage ⟨e'.advertisedAddresses p⟩)) = e'' at haddr ⊢
  split
  · exact foldlRecOn _ _ haddr fun _ h entry _ => h.offerTransit entry
  · exact haddr

theorem forgetPeer : Isolated p conn e (e₁.forgetPeer p) :=
  h.own { Own.refl p conn e₁ with
    stale := fun _ hq => getElem?_erase_ne hq
    recovering := fun _ hq => getElem?_erase_ne hq
    bindings := fun _ hq => LabelMappingStore.received_unlearnPeer hq }

theorem onSessionDown (reason : SessionDownReason) :
    Isolated p conn e (e₁.onSessionDown now p conn reason) := by
  unfold LdpEngine.onSessionDown
  dsimp only
  split
  · refine Isolated.pushPeer ?_ rfl rfl
    exact h.pushClose.grState (fun _ hq => getElem?_insert_ne hq _) fun _ hq => getElem?_erase_ne hq
  · refine foldl_transitOnUnlearn (forgetPeer ?_) _
    exact h.pushClose.pushPeer rfl rfl

theorem rejectMapping (m : LabelMappingMsg) (reason : String) (pfx : Prefix) :
    Isolated p conn e (LdpEngine.rejectMapping p m reason e₁ pfx) := by
  have hlib := h.unlearn pfx
  unfold LdpEngine.rejectMapping
  dsimp only
  refine Isolated.pushPeer (Isolated.sendNumbered ?_ _) rfl rfl
  split
  · exact hlib.transitOnUnlearn p pfx
  · exact hlib

theorem acceptMapping (m : LabelMappingMsg) (pfx : Prefix) :
    Isolated p conn e (LdpEngine.acceptMapping p m e₁ pfx) := by
  have hlib : Isolated p conn e { e₁ with lib := (e₁.lib.learn p pfx m.label).1 } :=
    h.library fun _ hq => LabelMappingStore.received_learn hq pfx m.label
  unfold LdpEngine.acceptMapping
  dsimp only
  refine Isolated.grOnMappingReceived ?_ pfx
  split
  · exact (hlib.pushPeer rfl rfl).transitOnLearn p pfx m.label _ _
  · exact hlib

theorem answerRequest (m : LabelRequestMsg) (pfx : Prefix) :
    Isolated p conn e (LdpEngine.answerRequest p m e₁ pfx) := by
  unfold LdpEngine.answerRequest
  dsimp only
  split <;> exact h.numbered.modifySession _

theorem onLabelWithdraw (m : LabelWithdrawMsg) : Isolated p conn e (e₁.onLabelWithdraw p m) := by
  unfold LdpEngine.onLabelWithdraw
  split
  rename_i e' prefixes heq
  refine foldl_transitOnUnlearn (Isolated.surfaceWithdrawn (Isolated.sendNumbered ?_ _) _) _
  split at heq
  · obtain ⟨rfl, -⟩ := Prod.mk.inj heq
    split
    · exact h.library fun _ hq => LabelMappingStore.received_unlearnByLabel hq _
    · exact h.library fun _ hq => LabelMappingStore.received_unlearnAllFrom hq
  · have := h.unlearnEach m.fec.prefixes
    rwa [heq] at this

theorem absorbEvent (ev : SessionEvent) :
    Isolated p conn e (LdpEngine.absorbEvent now p conn e₁ ev) := by
  cases ev with
  | sessionUp params => exact h.onSessionUp now params
  | sessionDown reason => exact h.onSessionDown now reason
  | notificationReceived | addressReceived | addressWithdrawReceived | labelAbortReceived
  | unknownMessage => exact h.pushPeer rfl rfl
  | labelMappingReceived m =>
    simp only [LdpEngine.absorbEvent]
    split
    · exact foldlRecOn _ _ h fun _ h pfx _ => h.rejectMapping m _ pfx
    · exact foldlRecOn _ _ h fun _ h pfx _ => h.acceptMapping m pfx
  | labelRequestReceived m =>
    simp only [LdpEngine.absorbEvent]
    split
    · exact foldlRecOn _ _ (h.modifySession _) fun _ h _ _ => h.pushPeer rfl rfl
    · exact foldlRecOn _ _ h fun _ h pfx _ => h.answerRequest m pfx
  | labelWithdrawReceived m => exact h.onLabelWithdraw m
  | labelReleaseReceived m =>
    exact foldlRecOn m.fec.prefixes _ h fun _ h _ _ => h.pushPeer rfl rfl

theorem absorbEvents (events : List SessionEvent) :
    Isolated p conn e (events.foldl (LdpEngine.absorbEvent now p conn) e₁) :=
  foldlRecOn _ _ h fun _ h ev _ => h.absorbEvent now ev

theorem absorbSessionEvents (events : List SessionEvent) :
    Isolated p conn e (e₁.absorbSessionEvents now p conn events) := by
  unfold LdpEngine.absorbSessionEvents
  dsimp only
  split
  · exact (h.absorbEvents now events).dropSession
  · exact (h.absorbEvents now events).flushSession

end

end Isolated

/-! ## One connection -/

/-- The connection is `p`'s: no other session rides on it and no accepted connection
waits under its number. -/
structure Bound (p : LdpId) (conn : UInt64) (e : LdpEngine) : Prop where
  owned : Owned p conn e
  alone : ∀ q st, e.sessions[q]? = some st → st.conn = conn → q = p
  known : e.awaitingInit[conn]? = none

/-- Another peer's session is there after an operation if it was before. -/
theorem Isolated.session_none_iff (h : Isolated p conn e e₁) (hq : q ≠ p) :
    e₁.sessions[q]? = none ↔ e.sessions[q]? = none := by
  obtain ⟨new, h⟩ := h
  rcases h.session q hq with heq | ⟨-, heq⟩
  · rw [heq]
  · rw [heq, map_eq_none_iff]

theorem Bound.keep (h : Bound p conn e) (hiso : Isolated p conn e e₁) : Bound p conn e₁ where
  owned := hiso.owned
  alone q st hst hconn := by
    by_cases hq : q = p
    · exact hq
    obtain ⟨new, hframe⟩ := hiso
    rcases hframe.session q hq with heq | ⟨-, heq⟩
    · exact h.alone q st (heq ▸ hst) hconn
    · rw [heq] at hst
      obtain ⟨st', hst', rfl⟩ := map_eq_some_iff.mp hst
      exact h.alone q st' hst' hconn
  known := by
    obtain ⟨new, hframe⟩ := hiso
    rw [hframe.awaitingInit, h.known]

theorem Bound.peerOn (h : Bound p conn e) (hq : e.peerOn conn = some q) : q = p := by
  obtain ⟨⟨q', st⟩, hfind, rfl⟩ := map_eq_some_iff.mp hq
  have hconn : st.conn = conn := by simpa using find?_some hfind
  have hst := ExtTreeMap.mem_toList_iff_getElem?_eq_some.mp (mem_of_find?_eq_some hfind)
  exact h.alone q' st hst hconn

theorem Isolated.dropBuffers (h : Isolated p conn e e₁) : Isolated p conn e (e₁.dropBuffers conn) :=
  h.own { Own.refl p conn e₁ with
    input := fun c hc => by simp [LdpEngine.dropBuffers, lookup_erase, hc.symm]
    output := fun c hc => by simp [LdpEngine.dropBuffers, lookup_erase, hc.symm] }

theorem onClosed_isolated (h : Bound p conn e) (now : Instant) :
    Isolated p conn e (e.onClosed now conn) := by
  have hbufs := (Isolated.refl h.owned).dropBuffers
  have hbound := h.keep hbufs
  unfold onClosed
  dsimp only
  generalize e.dropBuffers conn = e' at hbufs hbound ⊢
  split
  · refine hbufs.own { Own.refl p conn e' with awaitingInit := fun c => ?_ }
    by_cases hc : conn = c
    · subst hc
      simp [hbound.known]
    · simp [lookup_erase, hc]
  · rename_i q hpeer
    obtain rfl := hbound.peerOn hpeer
    split
    · exact hbufs
    rename_i st hst
    have habsorb := (hbufs.modifySession fun _ =>
      (st.session.transitionDown .transportClosed).1).absorbEvents now
        (st.session.transitionDown .transportClosed).2
    split
    · exact habsorb
    · exact habsorb.dropSession

/-- A PDU that names `p`, or nobody with a session, stays with `p`. -/
theorem deliverPdu_isolated (h : Bound p conn e) (now : Instant) (pdu : LdpPdu) (pduLen : Nat)
    (hsender : pdu.sender = p ∨ e.sessions[pdu.sender]? = none) :
    Isolated p conn e (e.deliverPdu now conn pdu pduLen).1 := by
  have hsame := Isolated.refl h.owned
  cases hst : e.sessions[pdu.sender]? with
  | none =>
    simp only [deliverPdu, hst]
    exact hsame
  | some st =>
    obtain rfl : pdu.sender = p := hsender.resolve_right (by simp [hst])
    simp only [deliverPdu, hst]
    split
    · refine Isolated.forgetPeer (Isolated.pushPeer (Isolated.pushClose ?_) rfl rfl)
      exact (hsame.encodeOutgoing _ _).removeSession
    · rw [h.owned st hst]
      exact (hsame.modifySession _).absorbSessionEvents now _

theorem deliverPdu_handled (now : Instant) (pdu : LdpPdu) (pduLen : Nat) :
    (e.deliverPdu now conn pdu pduLen).2 =
      if e.sessions[pdu.sender]? = none then none else some pdu.sender := by
  cases hst : e.sessions[pdu.sender]? with
  | none => simp [deliverPdu, hst]
  | some st =>
    simp only [deliverPdu, hst]
    split
    · simp
    · simp

/-- The PDUs on a stream, up to the first that does not parse. -/
def pdus (b : Bytes) : List LdpPdu :=
  match _h : decode b with
  | .ok (some (pdu, n)) => pdu :: pdus (b.drop n)
  | _ => []
termination_by b.length
decreasing_by
  have := decode_consumed _h
  simp only [length_drop]
  omega

theorem pdus_ok (h : decode b = .ok (some (pdu, n))) :
    pdus b = pdu :: pdus (b.drop n) := by
  rw [pdus]
  split
  · rename_i pdu' n' h'
    rw [h] at h'
    cases h'
    rfl
  · rename_i h'
    exact absurd h (h' pdu n)

theorem pdus_stop (h : ∀ pdu n, decode b ≠ .ok (some (pdu, n))) : pdus b = [] := by
  rw [pdus]
  split
  · rename_i pdu n h'
    exact absurd h' (h pdu n)
  · rfl

theorem pump_handled (conn : UInt64) (e : LdpEngine) (now : Instant) (b : Bytes)
    (handled : List LdpId) : ∃ more, (pump now conn e b handled).2 = handled ++ more := by
  fun_induction pump now conn e b handled with
  | case1 e b handled pdu n hdec e' answer hanswer ih =>
    obtain ⟨more, hmore⟩ := ih
    exact ⟨_, by rw [hmore, append_assoc]⟩
  | case2 | case3 => exact ⟨[], by simp⟩

/-- No PDU on the stream names another peer that has a session. -/
def OwnSenders (p : LdpId) (e : LdpEngine) (b : Bytes) : Prop :=
  ∀ pdu ∈ pdus b, pdu.sender = p ∨ e.sessions[pdu.sender]? = none
  deriving Decidable

theorem ownSenders_congr (h : Isolated p conn e e₁) (b : Bytes) :
    OwnSenders p e₁ b ↔ OwnSenders p e b := by
  refine forall₂_congr fun pdu _ => ?_
  by_cases hp : pdu.sender = p
  · simp [hp]
  · simp [hp, h.session_none_iff hp]

/-- Along the PDUs of the stream: the sessions that handle them are `p`'s exactly when no
PDU names another, and then nobody else is touched. -/
theorem pump_spec (h : Bound p conn e) (now : Instant) (b : Bytes) (handled : List LdpId) :
    ∃ more, (pump now conn e b handled).2 = handled ++ more ∧
      ((∀ q ∈ more, q = p) ↔ OwnSenders p e b) ∧
      (OwnSenders p e b → Isolated p conn e (pump now conn e b handled).1) := by
  fun_induction pump now conn e b handled with
  | case1 e b handled pdu n hdec e' answer hanswer ih =>
    have hpdus : OwnSenders p e b ↔
        (pdu.sender = p ∨ e.sessions[pdu.sender]? = none) ∧ OwnSenders p e (b.drop n) := by
      simp only [OwnSenders, pdus_ok hdec, forall_mem_cons]
    simp only [handleSessionPdu, h.known] at hanswer
    obtain ⟨rfl, rfl⟩ : (e.deliverPdu now conn pdu (n - 4)).1 = e' ∧
        (e.deliverPdu now conn pdu (n - 4)).2 = answer := Prod.mk.inj hanswer
    rw [deliverPdu_handled] at ih ⊢
    by_cases hsender : pdu.sender = p ∨ e.sessions[pdu.sender]? = none
    · have hiso := deliverPdu_isolated h now pdu (n - 4) hsender
      obtain ⟨more, hmore, hown, hrest⟩ := ih (h.keep hiso)
      refine ⟨_, hmore.trans (append_assoc _ _ _), ?_, fun hall => ?_⟩
      · rw [hpdus, ← ownSenders_congr hiso, ← hown, forall_mem_append]
        refine and_congr_left fun _ => ?_
        split
        · simp [*]
        · simp [*]
      · exact hiso.trans (hrest ((ownSenders_congr hiso _).mpr (hpdus.mp hall).2))
    · -- the PDU reaches a session that is not `p`'s
      obtain ⟨more, hmore⟩ := pump_handled conn (e.deliverPdu now conn pdu (n - 4)).1 now
        (b.drop n) (handled ++ [pdu.sender])
      rw [not_or] at hsender
      rw [if_neg hsender.2]
      refine ⟨pdu.sender :: more, by simpa using hmore, ?_, fun hall => ?_⟩
      · refine iff_of_false (fun hall => ?_) (fun hall => ?_)
        · exact hsender.1 (hall _ mem_cons_self)
        · exact not_or.mpr hsender (hpdus.mp hall).1
      · exact absurd (hpdus.mp hall).1 (not_or.mpr hsender)
  | case2 e b handled hdec =>
    have hnone : pdus b = [] := pdus_stop (by simp [hdec])
    refine ⟨[], by simp, by simp [OwnSenders, hnone], fun _ => (Isolated.refl h.owned).own
      { Own.refl p conn e with input := fun c hc => ?_ }⟩
    simp [lookup_insert, hc.symm]
  | case3 e b handled err hdec =>
    have hpush := (Isolated.refl h.owned).pushClose
    have hnone : pdus b = [] := pdus_stop (by simp [hdec])
    exact ⟨[], by simp, by simp [OwnSenders, hnone],
      fun _ => hpush.trans (onClosed_isolated (h.keep hpush) now)⟩

/-- Bytes on `p`'s connection reach no session but `p`'s and change nothing that belongs
to another peer. -/
structure Isolates (p : LdpId) (conn : UInt64) (e : LdpEngine)
    (result : LdpEngine × List LdpId) : Prop where
  reached : ∀ q ∈ result.2, q = p
  isolated : Isolated p conn e result.1

/-- Connections are isolated exactly as far as the PDUs on them name their own peer. -/
theorem feedTcp_isolates_iff (h : Bound p conn e) (now : Instant) (bytes : Bytes) :
    Isolates p conn e (e.feedTcp now conn bytes) ↔
      OwnSenders p e (e.inBufs.getD conn [] ++ bytes) := by
  have htake : Isolated p conn e { e with inBufs := e.inBufs.erase conn } :=
    (Isolated.refl h.owned).own { Own.refl p conn e with
      input := fun c hc => by simp [lookup_erase, hc.symm] }
  obtain ⟨more, hmore, hown, hiso⟩ := pump_spec (h.keep htake) now
    (e.inBufs.getD conn [] ++ bytes) []
  rw [← ownSenders_congr htake, ← hown]
  constructor
  · intro hall q hq
    refine hall.reached q ?_
    rw [feedTcp, hmore]
    exact hq
  · intro hall
    refine ⟨fun q hq => hall q ?_, htake.trans (hiso (hown.mp hall))⟩
    rw [feedTcp, hmore] at hq
    exact hq

/-! ### Two peers -/

/-- The identifier n.n.n.n:0. -/
def routerId (n : UInt8) : LdpId := ⟨⟨[n, n, n, n], rfl⟩, 0⟩

/-- The address 10.0.0.n. -/
def addrOf (n : UInt8) : IpAddr := .v4 ⟨[10, 0, 0, n], rfl⟩

/-- Router 1, which hears routers 2 and 3. -/
def twoNeighbours : LdpEngine where
  cfg := {
    localId := routerId 1, keepaliveTime := 15, maxPduLen := 4096
    advertisement := .downstreamUnsolicited, interfaceAddresses := []
    loopDetection := false, hopCountLimit := 32, pathVectorLimit := 32
    transitAllocation := false, gracefulRestart := false
    grReconnectMs := 15000, grRecoveryMs := 0, grNeighborLivenessMs := 15000
    grMaxRecoveryMs := 120000 }
  adjacencies := [2, 3].map fun n =>
    { peerId := routerId n, kind := .link, source := addrOf n, transportAddr := addrOf n
      dualStack := none }
  transitAllocator := { labelMin := 16, labelMax := 1048575, next := 16 }

/-- Router `n` connects and brings its session up. -/
def withSession (n : UInt8) (conn : UInt64) (e : LdpEngine) : LdpEngine :=
  ((e.onAccepted conn (addrOf 1)).feedTcp 0 conn (encodePdus (routerId n) 4096
    [.initialization {
      messageId := 1
      params := {
        protocolVersion := 1, keepaliveTime := 15, advertisement := .downstreamUnsolicited
        loopDetection := false, pathVectorLimit := 0, maxPduLen := 4096, receiver := routerId 1 }
      ftSession := none },
    .keepAlive 2])).1

/-- Router 3 advertises a label over its own connection. -/
def withBinding (e : LdpEngine) : LdpEngine :=
  (e.feedTcp 0 3 (encodePdus (routerId 3) 4096
    [.labelMapping {
      messageId := 3, fec := .ofPrefix ⟨addrOf 0, 24⟩, label := ⟨100⟩, hopCount := none
      pathVector := none, requestMessageId := none }])).1

/-- Both sessions, each on its own connection. -/
def established : LdpEngine :=
  let session (conn : UInt64) : LdpSessionState :=
    { session := { cfg := twoNeighbours.sessionConfig .passive none, state := .operational }
      conn := conn, afV6 := false, peerDualStack := false }
  { twoNeighbours with
    sessions := (twoNeighbours.sessions.insert (routerId 2) (session 2)).insert (routerId 3)
      (session 3) }

theorem established_bound : Bound (routerId 2) 2 established where
  owned st hst := by
    have hne : routerId 3 ≠ routerId 2 := by decide
    simp only [established, lookup_insert,
      hne, if_false, if_true, some.injEq] at hst
    rw [← hst]
  alone q st hst hconn := by
    simp only [established, twoNeighbours, lookup_insert] at hst
    split at hst
    · cases hst
      cases hconn
    split at hst
    · rename_i hq
      exact hq.symm
    · simp at hst
  known := by simp [established, twoNeighbours]

theorem feedTcp_isolates_established :
    Isolates (routerId 2) 2 established
      (established.feedTcp 0 2 (encodePdus (routerId 2) 4096 [.keepAlive 5])) :=
  (feedTcp_isolates_iff established_bound 0 _).mpr (by decide +kernel)

/-- A PDU that names router 3 as its sender. -/
def forgedShutdown : Bytes :=
  encodePdus (routerId 3) 4096 [.notification { messageId := 4, status := ⟨.shutdown, 0, 0⟩ }]

/-- Router 2 takes router 3's session down from its own connection. -/
theorem forgedSender_reaches :
    let before := withBinding (withSession 3 3 (withSession 2 2 twoNeighbours))
    let after := before.feedTcp 1 2 forgedShutdown
    before.sessions[routerId 2]?.map (·.conn) = some 2 ∧
    before.sessions[routerId 3]?.map (·.conn) = some 3 ∧
    before.lib.labelFrom (routerId 3) ⟨addrOf 0, 24⟩ = some ⟨100⟩ ∧
    after.2 = [routerId 3] ∧
    (after.1.sessions.contains (routerId 3) = false ∧
      after.1.lib.labelFrom (routerId 3) ⟨addrOf 0, 24⟩ = none ∧
      EngineEvent.closeConnection 3 ∈ after.1.events) := by
  decide +kernel

end LdpEngine

end LibRouting.Ldp
