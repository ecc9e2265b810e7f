/-
  Ospf/Checksum.lean --- packet checksums (`lr-ospf/src/origination.rs`, RFC 2328 §A.1,
  RFC 5340 §A.3.1).

  A checksum is the complement of a one's-complement sum.  Sums are natural numbers: a packet
  of at most 2 ^ 16 octets has at most 2 ^ 15 words, so with the pseudo-header the sum stays
  below 2 ^ 32 and the `u32` of the code does not overflow.
-/
import LibRouting.Foundation.Bytes

set_option autoImplicit false

namespace LibRouting.Ospf

open Foundation List

/-! ## The sum -/

/-- `fold`: the 16-bit words are added up, an odd last octet is padded with zero. -/
def fold : Bytes → Nat → Nat
  | [], sum => sum
  | [a], sum => sum + a.toNat * 256
  | a :: b :: rest, sum => fold rest (sum + (fromBe16 a b).toNat)

/-- The loop of `finish`: carries are added back in until none is left. -/
def carried (sum : Nat) : Nat :=
  if sum / 65536 ≠ 0 then carried (sum % 65536 + sum / 65536) else sum

/-- `finish`. -/
def finish (sum : Nat) : UInt16 := ~~~UInt16.ofNat (carried sum)

/-! ## Packets -/

/-- The checksum goes to octets 12 and 13. -/
def patchChecksum (bytes : Bytes) (sum : UInt16) : Bytes :=
  bytes.take 12 ++ toBe16 sum ++ bytes.drop 14

/-- A packet of at least a header gets its checksum. -/
def finalizePacket (header : Nat) (checksum : Bytes → UInt16) (bytes : Bytes) : Bytes × Bool :=
  if bytes.length < header then (bytes, false) else (patchChecksum bytes (checksum bytes), true)

/-- `v2_packet_checksum`. -/
def v2PacketChecksum (bytes : Bytes) : UInt16 :=
  finish (fold (bytes.drop 24) (fold (bytes.take 16) 0))

/-- `finalize_v2_packet`. -/
def finalizeV2Packet : Bytes → Bytes × Bool := finalizePacket 24 v2PacketChecksum

/-- `v2_packet_checksum_ok`. -/
def v2PacketChecksumOk (bytes : Bytes) : Bool :=
  if bytes.length < 24 then false
  else finish (fold (bytes.drop 24) (fold (bytes.take 16) 0)) == 0

section V3

variable (src dst : Octets 16) (bytes : Bytes)

/-- The sum of the IPv6 pseudo-header. -/
def pseudoHeader : Nat :=
  fold [0, 0, 0, 89] (fold (toBe32 (UInt32.ofNat bytes.length)) (fold dst.bytes (fold src.bytes 0)))

/-- `v3_packet_checksum`. -/
def v3PacketChecksum : UInt16 :=
  finish (fold (bytes.drop 14) (fold (bytes.take 12) (pseudoHeader src dst bytes)))

/-- `finalize_v3_packet`. -/
def finalizeV3Packet : Bytes → Bytes × Bool := finalizePacket 16 (v3PacketChecksum src dst)

/-- `v3_packet_checksum_ok`. -/
def v3PacketChecksumOk : Bool :=
  if bytes.length < 16 then false else finish (fold bytes (pseudoHeader src dst bytes)) == 0

end V3

/-- The length field. -/
def lengthField : Bytes → Nat
  | _ :: _ :: l₁ :: l₂ :: _ => (fromBe16 l₁ l₂).toNat
  | _ => 0

/-- The loop of `finalize_v2_stream` and `finalize_v3_stream`, with the number of packets. -/
def finalizeStream (header : Nat) (hheader : 0 < header) (finalize : Bytes → Bytes × Bool)
    (bytes : Bytes) : Bytes × Nat :=
  if _h : bytes.length < header ∨ lengthField bytes < header ∨
      bytes.length < lengthField bytes then (bytes, 0)
  else
    let (rest, count) :=
      finalizeStream header hheader finalize (bytes.drop (lengthField bytes))
    ((finalize (bytes.take (lengthField bytes))).1 ++ rest, count + 1)
termination_by bytes.length
decreasing_by
  rw [length_drop]
  omega

/-- `finalize_v2_stream`. -/
def finalizeV2Stream : Bytes → Bytes × Nat := finalizeStream 24 (by decide) finalizeV2Packet

/-- `finalize_v3_stream`. -/
def finalizeV3Stream (src dst : Octets 16) : Bytes → Bytes × Nat :=
  finalizeStream 16 (by decide) (finalizeV3Packet src dst)

/-! ## One's-complement arithmetic -/

theorem fold_add (b : Bytes) (s t : Nat) : fold b (s + t) = s + fold b t := by
  fun_induction fold b t with
  | case1 t => rfl
  | case2 t a => rw [fold, Nat.add_assoc]
  | case3 a b rest t ih => rw [fold, Nat.add_assoc, ih]

theorem fold_eq (b : Bytes) (sum : Nat) : fold b sum = fold b 0 + sum :=
  (fold_add b sum 0).trans (Nat.add_comm _ _)

theorem fold_split {k : Nat} (b : Bytes) (hk : k % 2 = 0) (h : k ≤ b.length) (sum : Nat) :
    fold b sum = fold (b.drop k) (fold (b.take k) sum) := by
  fun_induction fold b sum generalizing k with
  | case1 sum => simp [fold]
  | case2 sum a =>
    obtain rfl : k = 0 := by simp only [length_singleton] at h; omega
    rfl
  | case3 a b rest sum ih =>
    match k with
    | 0 => rfl
    | 1 => cases hk
    | k + 2 => exact ih (by omega) (by simpa using h)

/-- A sum is carried to the residue modulo 65535, and to zero only from zero. -/
theorem carried_cases (n : Nat) : n = 0 ∧ carried n = 0 ∨
    0 < n ∧ 0 < carried n ∧ carried n ≤ 65535 ∧ carried n % 65535 = n % 65535 := by
  fun_induction carried n with
  | case1 n h ih => omega
  | case2 n h => omega

theorem finish_toNat (sum : Nat) : (finish sum).toNat = 65535 - carried sum := by
  have hcarried := carried_cases sum
  rw [finish, UInt16.toNat_not, UInt16.toNat_ofNat']
  simp only [UInt16.size]
  omega

theorem finish_eq_zero {sum : Nat} : finish sum = 0 ↔ 0 < sum ∧ sum % 65535 = 0 := by
  have hcarried := carried_cases sum
  rw [← UInt16.toNat_inj, finish_toNat]
  change 65535 - carried sum = 0 ↔ _
  omega

/-! ## The checksum field -/

/-- The number in octets 12 and 13. -/
def checksumField (p : Bytes) : Nat := fold ((p.drop 12).take 2) 0

/-- What an OSPFv2 packet has under its checksum besides the field itself. -/
def v2Rest (p : Bytes) : Nat :=
  fold (p.drop 24) (fold ((p.drop 14).take 2) (fold (p.take 12) 0))

/-- The same of an OSPFv3 packet with its pseudo-header. -/
def v3Rest (src dst : Octets 16) (p : Bytes) : Nat :=
  fold (p.drop 14) (fold (p.take 12) (pseudoHeader src dst p))

section Field

variable {p : Bytes} (h : 14 ≤ p.length) {s : UInt16}
include h

theorem fold_field (sum : Nat) :
    fold p sum = fold (p.drop 14) (fold (p.take 12) sum) + checksumField p := by
  rw [fold_split p (k := 12) rfl (by omega),
    fold_split (p.drop 12) (k := 2) rfl (by rw [length_drop]; omega), drop_drop,
    fold_eq ((p.drop 12).take 2), fold_add, Nat.add_comm]
  rfl

theorem patchChecksum_take : (patchChecksum p s).take 12 = p.take 12 := by
  rw [patchChecksum, append_assoc, take_left' (length_take_of_le (by omega))]

theorem patchChecksum_drop {k : Nat} (hk : 14 ≤ k) : (patchChecksum p s).drop k = p.drop k := by
  have hlen : (p.take 12 ++ toBe16 s).length = 14 := by
    rw [length_append, length_take_of_le (by omega), toBe16_length]
  obtain ⟨j, rfl⟩ := Nat.exists_eq_add_of_le hk
  rw [patchChecksum, ← drop_drop, ← drop_drop, drop_left' hlen]

theorem patchChecksum_length : (patchChecksum p s).length = p.length := by
  simp only [patchChecksum, length_append, length_take_of_le (show 12 ≤ p.length by omega),
    toBe16_length, length_drop]
  omega

theorem checksumField_patchChecksum : checksumField (patchChecksum p s) = s.toNat := by
  rw [checksumField, patchChecksum, append_assoc,
    drop_left' (length_take_of_le (by omega)), take_left' (toBe16_length s)]
  exact (Nat.zero_add _).trans (congrArg UInt16.toNat (fromBe16_toBe16 s))

theorem patchChecksum_patchChecksum {s' : UInt16} :
    patchChecksum (patchChecksum p s) s' = patchChecksum p s' := by
  rw [patchChecksum, patchChecksum_take h, patchChecksum_drop h le_rfl, patchChecksum]

end Field

/-! ## Finalized packets and streams -/

/-- A packet whose length field tells its length. -/
def WellFormed (header : Nat) (p : Bytes) : Prop :=
  header ≤ p.length ∧ lengthField p = p.length

/-- What finalizing `packets` is for: each verifies, stays as it is when finalized again, is
reached in a stream of them, and keeps every octet outside its checksum field. -/
structure Finalizes (header : Nat) (finalize : Bytes → Bytes × Bool)
    (stream : Bytes → Bytes × Nat) (ok : Bytes → Bool) (packets : List Bytes) : Prop where
  settled : ∀ p ∈ packets, (finalize p).2 = true →
    ok (finalize p).1 = true ∧ (finalize (finalize p).1).1 = (finalize p).1
  streamed : (∀ p ∈ packets, WellFormed header p) →
    stream packets.flatten = ((packets.map fun p => (finalize p).1).flatten, packets.length)
  untouched : ∀ p ∈ packets, (finalize p).1.length = p.length ∧
    (finalize p).1.take 12 = p.take 12 ∧ (finalize p).1.drop 14 = p.drop 14

theorem lengthField_append {p : Bytes} (q : Bytes) (h : 0 < lengthField p) :
    lengthField (p ++ q) = lengthField p := by
  match p with
  | _ :: _ :: _ :: _ :: _ => rfl
  | [] | [_] | [_, _] | [_, _, _] => exact absurd h (lt_irrefl 0)

theorem finalizeStream_flatten {header : Nat} (hheader : 0 < header)
    (finalize : Bytes → Bytes × Bool) {packets : List Bytes}
    (h : ∀ p ∈ packets, WellFormed header p) :
    finalizeStream header hheader finalize packets.flatten =
      ((packets.map fun p => (finalize p).1).flatten, packets.length) := by
  induction packets with
  | nil => rw [flatten_nil, finalizeStream, dif_pos (.inl (by exact hheader))]; rfl
  | cons p rest ih =>
    obtain ⟨hlen, hfield⟩ := h p mem_cons_self
    have happ := lengthField_append rest.flatten (p := p) (by omega)
    rw [hfield] at happ
    rw [flatten_cons, finalizeStream, dif_neg (by rw [happ, length_append]; omega), happ,
      drop_left, take_left, ih fun q hq => h q (mem_cons_of_mem p hq)]
    rfl

section Finalize

variable {header : Nat} {checksum : Bytes → UInt16} {ok : Bytes → Bool} {p : Bytes}
  {packets : List Bytes}

theorem finalizePacket_of_le (h : header ≤ p.length) :
    finalizePacket header checksum p = (patchChecksum p (checksum p), true) :=
  if_neg (by omega)

/-- Everything but the checksums themselves is as it should be. -/
theorem finalizes_iff_settled (hheader : 14 ≤ header) :
    Finalizes header (finalizePacket header checksum)
        (finalizeStream header (by omega) (finalizePacket header checksum)) ok packets ↔
      ∀ p ∈ packets, header ≤ p.length →
        ok (patchChecksum p (checksum p)) = true ∧
          checksum (patchChecksum p (checksum p)) = checksum p := by
  have hagain {p : Bytes} (h : header ≤ p.length) :
      (finalizePacket header checksum (patchChecksum p (checksum p))).1 =
          patchChecksum p (checksum p) ↔
        checksum (patchChecksum p (checksum p)) = checksum p := by
    have hlong : 14 ≤ p.length := by omega
    rw [finalizePacket_of_le (by rwa [patchChecksum_length hlong]),
      patchChecksum_patchChecksum hlong]
    refine ⟨fun heq => ?_, fun heq => by rw [heq]⟩
    have := congrArg checksumField heq
    rwa [checksumField_patchChecksum hlong, checksumField_patchChecksum hlong,
      UInt16.toNat_inj] at this
  refine ⟨fun hfin p hp h => ?_, fun hall => ⟨fun p hp hdone => ?_, finalizeStream_flatten _ _,
    fun p _ => ?_⟩⟩
  · have hsettled := hfin.settled p hp
    rw [finalizePacket_of_le h] at hsettled
    exact (hsettled rfl).imp_right (hagain h).mp
  · rcases Nat.lt_or_ge p.length header with hshort | h
    · rw [finalizePacket, if_pos hshort] at hdone
      cases hdone
    · rw [finalizePacket_of_le h]
      exact (hall p hp h).imp_right (hagain h).mpr
  · rw [finalizePacket]
    split_ifs with hshort
    · exact ⟨rfl, rfl, rfl⟩
    · exact ⟨patchChecksum_length (by omega), patchChecksum_take (by omega),
        patchChecksum_drop (by omega) le_rfl⟩

end Finalize

theorem v2_sum {p : Bytes} (h : 24 ≤ p.length) :
    fold (p.drop 24) (fold (p.take 16) 0) = checksumField p + v2Rest p := by
  have hfield : checksumField (p.take 16) = checksumField p := by
    simp [checksumField, drop_take, take_take]
  rw [fold_field (p := p.take 16) (by rw [length_take_of_le] <;> omega), hfield, Nat.add_comm,
    fold_add, take_take, drop_take]
  rfl

theorem v2_settled_iff {p : Bytes} (h : 24 ≤ p.length) :
    (v2PacketChecksumOk (patchChecksum p (v2PacketChecksum p)) = true ∧
        v2PacketChecksum (patchChecksum p (v2PacketChecksum p)) = v2PacketChecksum p) ↔
      0 < v2Rest p ∧ v2Rest p % 65535 = 0 ∧ checksumField p % 65535 = 0 := by
  have hlong : 14 ≤ p.length := by omega
  have hlen := patchChecksum_length (s := v2PacketChecksum p) hlong
  have hrest : v2Rest (patchChecksum p (v2PacketChecksum p)) = v2Rest p := by
    rw [v2Rest, patchChecksum_take hlong, patchChecksum_drop hlong le_rfl,
      patchChecksum_drop hlong (by decide), v2Rest]
  have hsum := v2_sum (p := patchChecksum p (v2PacketChecksum p)) (by omega)
  rw [hrest, checksumField_patchChecksum hlong] at hsum
  have hfirst : (v2PacketChecksum p).toNat = 65535 - carried (checksumField p + v2Rest p) := by
    rw [v2PacketChecksum, finish_toNat, v2_sum h]
  rw [v2PacketChecksumOk, if_neg (by omega), beq_iff_eq, finish_eq_zero, ← UInt16.toNat_inj,
    show (v2PacketChecksum (patchChecksum p _)).toNat = _ from finish_toNat _, hsum, hfirst]
  -- The second checksum is zero, so the first one has to be.
  have hcarried := carried_cases (checksumField p + v2Rest p)
  have hagain := carried_cases (65535 - carried (checksumField p + v2Rest p) + v2Rest p)
  omega

theorem v3_settled (src dst : Octets 16) {p : Bytes} (h : 16 ≤ p.length) :
    v3PacketChecksumOk src dst (patchChecksum p (v3PacketChecksum src dst p)) = true ∧
      v3PacketChecksum src dst (patchChecksum p (v3PacketChecksum src dst p)) =
        v3PacketChecksum src dst p := by
  have hlong : 14 ≤ p.length := by omega
  have hlen := patchChecksum_length (s := v3PacketChecksum src dst p) hlong
  have hrest : v3Rest src dst (patchChecksum p (v3PacketChecksum src dst p)) =
      v3Rest src dst p := by
    rw [v3Rest, pseudoHeader, hlen, patchChecksum_take hlong, patchChecksum_drop hlong le_rfl]
    rfl
  refine ⟨?_, congrArg finish hrest⟩
  have hpos : 0 < v3Rest src dst p := by
    rw [v3Rest, fold_eq, fold_eq (p.take 12), pseudoHeader, fold_eq [0, 0, 0, 89]]
    exact Nat.add_pos_right _ (Nat.add_pos_right _ (Nat.add_pos_left (by decide) _))
  have hfirst : (v3PacketChecksum src dst p).toNat = 65535 - carried (v3Rest src dst p) :=
    finish_toNat _
  rw [v3PacketChecksumOk, if_neg (by omega), beq_iff_eq, finish_eq_zero, fold_field (by omega),
    ← v3Rest, hrest, checksumField_patchChecksum hlong, hfirst]
  have hcarried := carried_cases (v3Rest src dst p)
  omega

/-- OSPFv3 packets are finalized as they should be.  OSPFv2 packets are if and only if the
words besides the checksum already add up to zero and the field held a zero: the old value of
the field goes into the sum. -/
theorem finalizes_iff (src dst : Octets 16) (packets : List Bytes) :
    (Finalizes 24 finalizeV2Packet finalizeV2Stream v2PacketChecksumOk packets ↔
        ∀ p ∈ packets, 24 ≤ p.length →
          0 < v2Rest p ∧ v2Rest p % 65535 = 0 ∧ checksumField p % 65535 = 0) ∧
      Finalizes 16 (finalizeV3Packet src dst) (finalizeV3Stream src dst)
        (v3PacketChecksumOk src dst) packets :=
  ⟨(finalizes_iff_settled (by decide)).trans
      (forall₃_congr fun _ _ h => v2_settled_iff h),
    (finalizes_iff_settled (by decide)).mpr fun _ _ h => v3_settled src dst h⟩

/-- An OSPFv2 header with `old` in its checksum field. -/
def v2Header (old : UInt16) : Bytes :=
  [2, 1, 0, 24] ++ replicate 8 0 ++ toBe16 old ++ replicate 10 0

/-- A header whose field is zero gets 0xfde6 and, finalized again, zero; one whose field is
one does not verify. -/
theorem finalizeV2Packet_unsettled :
    WellFormed 24 (v2Header 0) ∧ WellFormed 24 (v2Header 1) ∧
      finalizeV2Packet (v2Header 0) = (v2Header 0xfde6, true) ∧
      finalizeV2Packet (v2Header 0xfde6) = (v2Header 0, true) ∧
      finalizeV2Packet (v2Header 1) = (v2Header 0xfde5, true) ∧
      v2PacketChecksumOk (v2Header 0xfde5) = false := by
  have hsmall {n : Nat} (h : n < 65536) : finish n = ~~~UInt16.ofNat n := by
    rw [finish, carried, if_neg (by omega)]
  have hfinal {old : UInt16}
      (h : fold ((v2Header old).drop 24) (fold ((v2Header old).take 16) 0) < 65536) :
      finalizeV2Packet (v2Header old) = (patchChecksum (v2Header old) (~~~UInt16.ofNat
        (fold ((v2Header old).drop 24) (fold ((v2Header old).take 16) 0))), true) := by
    rw [finalizeV2Packet, finalizePacket_of_le (by exact le_rfl), v2PacketChecksum, hsmall h]
  refine ⟨⟨by decide, by decide⟩, ⟨by decide, by decide⟩, ?_, ?_, ?_, ?_⟩
  · exact (hfinal (by decide)).trans (by decide)
  · exact (hfinal (by decide)).trans (by decide)
  · exact (hfinal (by decide)).trans (by decide)
  · rw [v2PacketChecksumOk, if_neg (by decide), hsmall (by decide)]
    decide

end LibRouting.Ospf
