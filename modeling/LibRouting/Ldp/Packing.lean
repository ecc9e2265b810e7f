/-
  Ldp/Packing.lean --- how queued messages are packed into PDUs (`lr-ldp`: `encode_outgoing`).
-/
import LibRouting.Ldp.Isolation

set_option autoImplicit false

namespace LibRouting.Ldp

open Foundation List

/-- The wire form of a message that fits a PDU of its own. -/
def wireWithin (maxPduLen : UInt16) (m : LdpMessage) : Option Bytes :=
  (encodeMessage m).toOption.filter (6 + ·.length ≤ maxPduLen.toNat)

/-- A PDU with this body. -/
def pduOf (sender : LdpId) (body : Bytes) : Bytes := pduHeader sender body.length ++ body

/-- What the queue turned into: PDUs within the negotiated maximum whose bodies are the
wire forms in order, and a report for every message that cannot be sent. -/
structure Packs (conn : UInt64) (outgoing : List LdpMessage) (maxPduLen : UInt16)
    (e e' : LdpEngine) : Prop where
  packed : ∃ bodies : List Bytes,
    e'.output conn = e.output conn ++ bodies.flatMap (pduOf e.cfg.localId) ∧
    bodies.flatten = (outgoing.filterMap (wireWithin maxPduLen)).flatten ∧
    ∀ body ∈ bodies, 6 + body.length ≤ maxPduLen.toNat ∧
      (UInt16.ofNat (6 + body.length)).toNat = 6 + body.length
  reported : ∀ m ∈ outgoing, wireWithin maxPduLen m = none → e'.events ≠ e.events

theorem packBodies_flatten (maxBody : Nat) (wires : List Bytes) (cur : Bytes) :
    (packBodies maxBody cur wires).flatten = cur ++ wires.flatten := by
  induction wires generalizing cur with
  | nil => cases cur <;> simp [packBodies]
  | cons w wires ih =>
    rw [packBodies]
    split
    · rw [flatten_cons, ih, flatten_cons]
    · rw [ih, flatten_cons, append_assoc]

theorem packBodies_length {maxBody : Nat} {wires : List Bytes} {cur : Bytes}
    (hwires : ∀ w ∈ wires, w.length ≤ maxBody) (hcur : cur.length ≤ maxBody) :
    ∀ body ∈ packBodies maxBody cur wires, body.length ≤ maxBody := by
  induction wires generalizing cur with
  | nil =>
    intro body hbody
    rw [packBodies] at hbody
    split at hbody
    · cases hbody
    · rw [mem_singleton.mp hbody]
      exact hcur
  | cons w wires ih =>
    obtain ⟨hw, hwires⟩ := forall_mem_cons.mp hwires
    rw [packBodies]
    split
    · exact forall_mem_cons.mpr ⟨hcur, ih hwires hw⟩
    rename_i hroom
    refine ih hwires ?_
    -- a message that does not fit is first in its PDU
    cases cur with
    | nil => simpa using hw
    | cons c cur =>
      rw [length_append]
      simp only [isEmpty_cons] at hroom
      grind

namespace LdpEngine

variable {e : LdpEngine} {conn : UInt64} {outgoing : List LdpMessage} {maxPduLen : UInt16}

theorem encodeOutgoing_events : (e.encodeOutgoing conn outgoing maxPduLen).events = e.events := by
  unfold encodeOutgoing
  split <;> rfl

theorem encodeOutgoing_output : (e.encodeOutgoing conn outgoing maxPduLen).output conn =
    e.output conn ++ encodePdus e.cfg.localId maxPduLen outgoing := by
  unfold encodeOutgoing
  split
  · rename_i hempty
    rw [isEmpty_iff.mp hempty]
    simp [encodePdus, packBodies]
  · simp [appendOut, output]

/-- The queue is packed as promised exactly when every message in it has a wire form that
fits a PDU of the negotiated length. -/
theorem encodeOutgoing_packs_iff :
    Packs conn outgoing maxPduLen e (e.encodeOutgoing conn outgoing maxPduLen) ↔
      ∀ m ∈ outgoing, (wireWithin maxPduLen m).isSome := by
  constructor
  · intro h m hm
    rw [← Option.ne_none_iff_isSome]
    exact fun hnone => h.reported m hm hnone encodeOutgoing_events
  · intro hall
    have hfit : ∀ m ∈ outgoing, (encodeMessage m).toOption = wireWithin maxPduLen m := by
      intro m hm
      have hsome := hall m hm
      unfold wireWithin at hsome ⊢
      cases hw : (encodeMessage m).toOption with
      | none => rfl
      | some w =>
        rw [hw] at hsome
        rw [Option.filter_some, if_pos (by simpa using hsome)]
    have hwires : ∀ w ∈ outgoing.filterMap (wireWithin maxPduLen),
        6 + w.length ≤ maxPduLen.toNat := by
      intro w hw
      obtain ⟨m, -, hm⟩ := mem_filterMap.mp hw
      simpa using (Option.filter_eq_some_iff.mp hm).2
    refine ⟨⟨packBodies (maxPduLen.toNat - 6) [] (outgoing.filterMap (wireWithin maxPduLen)),
      ?_, packBodies_flatten _ _ [], fun body hbody => ?_⟩, fun m hm hnone => ?_⟩
    · rw [encodeOutgoing_output, encodePdus, filterMap_congr hfit]
      rfl
    · have hmax := maxPduLen.toNat_lt
      have hroom : 6 ≤ maxPduLen.toNat := by
        cases hcase : outgoing.filterMap (wireWithin maxPduLen) with
        | nil => simp [hcase, packBodies] at hbody
        | cons w wires => exact Nat.le_of_add_right_le (hwires w (by simp [hcase]))
      have hle := packBodies_length (fun w hw => Nat.le_sub_of_add_le' (hwires w hw))
        (Nat.zero_le _) body hbody
      rw [UInt16.toNat_ofNat']
      omega
    · have hsome := hall m hm
      rw [hnone] at hsome
      cases hsome

/-- A mapping whose label does not fit 20 bits is dropped without a word, and a message longer
than the negotiated maximum goes out in a PDU longer than it. -/
theorem encodeOutgoing_drops_and_exceeds :
    let mapping : LdpMessage := .labelMapping {
      messageId := 1, fec := .ofPrefix ⟨addrOf 0, 24⟩, label := ⟨0x100000⟩, hopCount := none
      pathVector := none, requestMessageId := none }
    let request : LdpMessage := .labelRequest {
      messageId := 2, fec := .ofPrefix ⟨addrOf 0, 24⟩, hopCount := none
      pathVector := some (replicate 64 7) }
    (twoNeighbours.encodeOutgoing 2 [mapping] 256).output 2 = [] ∧
      (twoNeighbours.encodeOutgoing 2 [request] 256).output 2 =
        [0, 1, 1, 29] ++ ((twoNeighbours.encodeOutgoing 2 [request] 256).output 2).drop 4 ∧
      ¬ Packs 2 [mapping] 256 twoNeighbours (twoNeighbours.encodeOutgoing 2 [mapping] 256) ∧
      ¬ Packs 2 [request] 256 twoNeighbours (twoNeighbours.encodeOutgoing 2 [request] 256) := by
  intro mapping request
  refine ⟨by decide +kernel, by decide +kernel, fun h => ?_, fun h => ?_⟩
  · exact h.reported mapping mem_cons_self (by decide) rfl
  · exact h.reported request mem_cons_self (by decide +kernel) rfl

end LdpEngine

end LibRouting.Ldp
