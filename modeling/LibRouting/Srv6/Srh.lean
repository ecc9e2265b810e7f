/-
  Srv6/Srh.lean --- locators and the segment identifiers under them, and the Segment
  Routing Header on the wire (`lr-srv6`).

  A locator may have any length up to 128 bits, but the membership test compares whole
  octets and refuses every length that is not a multiple of eight.
-/
import LibRouting.Core.PrefixBits

set_option autoImplicit false

namespace LibRouting.Srv6

open Core Foundation List

/-- A segment identifier: the sixteen octets of an IPv6 address. -/
abbrev Sid : Type := Octets 16

/-- `is_inside_locator`. -/
def isInsideLocator (sid : Sid) (locator : Bytes) (locatorBlockBits : Nat) : Bool :=
  if 128 < locatorBlockBits ∨ locatorBlockBits % 8 ≠ 0 then false
  else if locator.length ≠ locatorBlockBits / 8 then false
  else sid.bytes.take (locatorBlockBits / 8) == locator

/-- A locator: the first `blockBits` bits of an address. -/
structure Locator where
  addr : Octets 16
  blockBits : Nat
  blockBits_le : blockBits ≤ 128

namespace Locator

/-- `Locator::new`: the host bits are cleared. -/
def new (addr : Octets 16) (blockBits : Nat) : Option Locator :=
  if h : blockBits ≤ 128 then
    some ⟨⟨Prefix.keepBits blockBits addr.bytes, by simp⟩, blockBits, h⟩
  else none

/-- `block_bytes`: the length in octets, rounded up. -/
def blockBytes (loc : Locator) : Nat := (loc.blockBits + 7) / 8

theorem blockBytes_le (loc : Locator) : loc.blockBytes ≤ 16 := by
  have := loc.blockBits_le
  unfold blockBytes
  omega

/-- `sid_with_tail`: the locator's octets over the front of the tail. -/
def sidWithTail (loc : Locator) (tail : Octets 16) : Sid where
  bytes := loc.addr.bytes.take loc.blockBytes ++ tail.bytes.drop loc.blockBytes
  length_eq := by simp [loc.blockBytes_le]

/-- `contains_sid`. -/
def containsSid (loc : Locator) (sid : Sid) : Bool :=
  isInsideLocator sid (loc.addr.bytes.take loc.blockBytes) loc.blockBits

/-- `sid_with_index`: the index in the four octets behind the locator. -/
def sidWithIndex (loc : Locator) (functionIndex : UInt32) : Option Sid :=
  if h : 12 < loc.blockBytes then none
  else some (loc.sidWithTail
    ⟨replicate loc.blockBytes 0 ++ toBe32 functionIndex ++ replicate (12 - loc.blockBytes) 0,
      by simp; omega⟩)

/-- What membership in a locator promises. -/
structure Membership (loc : Locator) : Prop where
  tail : ∀ tail, loc.containsSid (loc.sidWithTail tail) = true
  exact : ∀ sid, loc.containsSid sid = true ↔
    (bits sid.bytes).take loc.blockBits = (bits loc.addr.bytes).take loc.blockBits
  injective : ∀ i j sid, loc.sidWithIndex i = some sid → loc.sidWithIndex j = some sid → i = j
  index : ∀ i sid, loc.sidWithIndex i = some sid → loc.containsSid sid = true

variable {loc : Locator}

theorem bits_take (k : Nat) (b : Bytes) : bits (b.take k) = (bits b).take (8 * k) := by
  induction b generalizing k with
  | nil => simp [bits]
  | cons x b ih =>
    cases k with
    | zero => rfl
    | succ k => simp [bits_cons, ih, take_append, Nat.mul_succ, take_of_length_le]

theorem containsSid_iff (h : loc.blockBits % 8 = 0) (sid : Sid) : loc.containsSid sid = true ↔
    sid.bytes.take loc.blockBytes = loc.addr.bytes.take loc.blockBytes := by
  have hbytes : loc.blockBits / 8 = loc.blockBytes := by
    unfold blockBytes
    omega
  simp [containsSid, isInsideLocator, h, hbytes, loc.blockBytes_le, loc.blockBits_le]

/-- The SID of an index carries it behind the locator. -/
theorem sidWithIndex_eq {i : UInt32} {sid : Sid} (h : loc.sidWithIndex i = some sid) :
    ∃ tail, sid = loc.sidWithTail tail ∧ (sid.bytes.drop loc.blockBytes).take 4 = toBe32 i := by
  unfold sidWithIndex at h
  split at h
  · cases h
  · cases h
    refine ⟨_, rfl, ?_⟩
    simp [sidWithTail, loc.blockBytes_le, toBe32]

/-- A locator keeps its promises exactly when its length is a whole number of octets. -/
theorem membership_iff (loc : Locator) : loc.Membership ↔ loc.blockBits % 8 = 0 := by
  constructor
  · intro h
    have htail := h.tail (.zero 16)
    rw [containsSid, isInsideLocator] at htail
    grind
  intro h
  have hbits : loc.blockBits = 8 * loc.blockBytes := by
    unfold blockBytes
    omega
  have htail : ∀ tail, loc.containsSid (loc.sidWithTail tail) = true := by
    intro tail
    rw [containsSid_iff h]
    simp [sidWithTail, loc.blockBytes_le]
  refine ⟨htail, fun sid => ?_, fun i j sid hi hj => ?_, fun i sid hi => ?_⟩
  · rw [containsSid_iff h, hbits, ← bits_take, ← bits_take]
    exact ⟨congrArg bits, bits_inj⟩
  · obtain ⟨-, -, hi⟩ := sidWithIndex_eq hi
    obtain ⟨-, -, hj⟩ := sidWithIndex_eq hj
    obtain ⟨h₁, h₂, h₃, h₄, -⟩ : _ ∧ _ ∧ _ ∧ _ ∧ _ := by
      simpa only [toBe32, cons.injEq] using hi.symm.trans hj
    rw [← fromBe32_toBe32 i, h₁, h₂, h₃, h₄, fromBe32_toBe32]
  · obtain ⟨tail, rfl, -⟩ := sidWithIndex_eq hi
    exact htail tail

/-- Under a 33-bit locator not even the SIDs built from it are members. -/
theorem containsSid_sidWithTail_33 :
    let loc : Locator := ⟨.zero 16, 33, by decide⟩
    loc.containsSid (loc.sidWithTail (.zero 16)) = false := by
  decide

end Locator

/-- A segment routing header. -/
structure Srh where
  nextHeader : UInt8
  segmentsLeft : UInt8
  lastEntry : UInt8
  flags : UInt8
  tag : UInt16
  segments : List Sid
  tlvs : Bytes
  deriving DecidableEq

/-- Why a header is refused. -/
inductive SrhError where
  | tooShort
  | lengthMismatch
  | emptySegmentList
  | tooManySegments
  | lastEntryOutOfRange
  | segmentsLeftOutOfRange
  | wrongRoutingType (t : UInt8)
  | reservedFlagBits (flags : UInt8)
  deriving DecidableEq

namespace Srh

/-- The octets before padding. -/
def unpaddedOctets (h : Srh) : Nat := 8 + h.segments.length * 16 + h.tlvs.length

/-- The octets missing to a multiple of eight. -/
def pad (h : Srh) : Nat := (8 - h.unpaddedOctets % 8) % 8

/-- The padding TLV: Pad1 for one octet, PadN for more. -/
def padding : Nat → Bytes
  | 0 => []
  | 1 => [0]
  | d + 2 => 1 :: UInt8.ofNat d :: replicate d 0

/-- `hdr_ext_len`. -/
def hdrExtLen (h : Srh) : UInt8 := UInt8.ofNat (h.unpaddedOctets / 8 - 1)

/-- The octets `encode_vec` writes. -/
def wire (h : Srh) : Bytes :=
  [h.nextHeader, UInt8.ofNat ((h.unpaddedOctets + h.pad) / 8 - 1), 4, h.segmentsLeft,
    h.lastEntry, h.flags] ++ toBe16 h.tag ++ (h.segments.flatMap (·.bytes) ++
      (h.tlvs ++ padding h.pad))

/-- `encode_vec`. -/
def encodeVec (h : Srh) : Except SrhError Bytes :=
  if h.segments.isEmpty then .error .emptySegmentList
  else if 127 < h.segments.length then .error .tooManySegments
  else if h.flags &&& ~~~(0x20 ||| 0x08 ||| 0x10 ||| 0x40) ≠ 0 then
    .error (.reservedFlagBits h.flags)
  else if h.lastEntry ≠ UInt8.ofNat h.segments.length - 1 then .error .lastEntryOutOfRange
  else if h.lastEntry < h.segmentsLeft then .error .segmentsLeftOutOfRange
  else if 2048 < h.unpaddedOctets + h.pad then .error .tooManySegments
  else .ok h.wire

/-- The segment list, sixteen octets each. -/
def readSegments : Nat → Bytes → List Sid
  | 0, _ => []
  | n + 1, b => .padded 16 (b.take 16) :: readSegments n (b.drop 16)

/-- `decode`. -/
def decode : Bytes → Except SrhError Srh
  | bytes@(nextHeader :: hdrExtLen :: routingType :: segmentsLeft :: lastEntry :: flags ::
      t₀ :: t₁ :: rest) =>
    let totalLen := (hdrExtLen.toNat + 1) * 8
    let segBytes := (lastEntry.toNat + 1) * 16
    if routingType ≠ 4 then .error (.wrongRoutingType routingType)
    else if bytes.length < totalLen then .error .lengthMismatch
    else if totalLen < 8 + segBytes then .error .lastEntryOutOfRange
    else if lastEntry < segmentsLeft then .error .segmentsLeftOutOfRange
    else
      .ok { nextHeader, segmentsLeft, lastEntry, flags, tag := fromBe16 t₀ t₁
            segments := readSegments (lastEntry.toNat + 1) rest
            tlvs := (rest.take (totalLen - 8)).drop segBytes }
  | _ => .error .tooShort

/-! ## Round trip -/

variable {h : Srh} {out : Bytes}

@[simp] theorem padding_length (d : Nat) : (padding d).length = d := by
  fun_cases padding d <;> simp

theorem readSegments_flatMap (segments : List Sid) (b : Bytes) :
    readSegments segments.length (segments.flatMap (·.bytes) ++ b) = segments := by
  induction segments with
  | nil => rfl
  | cons s segments ih =>
    simp [readSegments, ih, Octets.padded]

/-- What the encoder has checked when it has an answer. -/
theorem encodeVec_eq_ok (henc : h.encodeVec = .ok out) :
    h.lastEntry.toNat + 1 = h.segments.length ∧ ¬ h.lastEntry < h.segmentsLeft ∧
      h.unpaddedOctets + h.pad ≤ 2048 ∧ out = h.wire := by
  revert henc
  fun_cases encodeVec h with
  | case7 hne hmax _ hlast hleft htotal =>
    rintro ⟨⟩
    refine ⟨?_, hleft, Nat.le_of_not_lt htotal, rfl⟩
    have hpos := length_pos_of_ne_nil (by simpa using hne)
    rw [not_not.mp hlast]
    simp only [UInt8.toNat_sub, UInt8.toNat_ofNat', UInt8.reduceToNat]
    omega
  | _ => nofun

theorem padded_octets : (h.unpaddedOctets + h.pad) % 8 = 0 := by
  unfold pad
  omega

theorem wire_length : h.wire.length = h.unpaddedOctets + h.pad := by
  simp [wire, unpaddedOctets, length_flatMap]
  omega

/-- The header with its padding counted as TLV octets. -/
def padded (h : Srh) : Srh := { h with tlvs := h.tlvs ++ padding h.pad }

theorem encodeVec_padded : h.padded.encodeVec = h.encodeVec := by
  have hoctets : h.padded.unpaddedOctets = h.unpaddedOctets + h.pad := by
    simp [padded, unpaddedOctets, Nat.add_assoc]
  have hpad : h.padded.pad = 0 := by
    rw [pad, hoctets, padded_octets]
  have hwire : h.padded.wire = h.wire := by
    simp [wire, hoctets, hpad]
    simp [padded, padding]
  unfold encodeVec
  rw [hoctets, hpad, hwire]
  rfl

/-- The length field of a header that is not too long. -/
theorem lengthField_toNat (h : Srh) (htotal : h.unpaddedOctets + h.pad ≤ 2048) :
    ((UInt8.ofNat ((h.unpaddedOctets + h.pad) / 8 - 1)).toNat + 1) * 8 =
      h.unpaddedOctets + h.pad := by
  have hmod := h.padded_octets
  have hpos : 8 ≤ h.unpaddedOctets := by
    unfold unpaddedOctets
    omega
  rw [UInt8.toNat_ofNat']
  omega

theorem decode_wire (hlast : h.lastEntry.toNat + 1 = h.segments.length)
    (hleft : ¬ h.lastEntry < h.segmentsLeft) (htotal : h.unpaddedOctets + h.pad ≤ 2048) :
    decode h.wire = .ok h.padded := by
  have hlen := h.wire_length
  have hsegs : (h.segments.flatMap (·.bytes)).length = h.segments.length * 16 := by
    simp [length_flatMap]
  simp only [wire, toBe16, cons_append, nil_append] at hlen ⊢
  rw [decode]
  simp only [lengthField_toNat h htotal, hlast, readSegments_flatMap, hleft, hlen, fromBe16_toBe16]
  rw [if_neg (by simp), if_neg (by simp), if_neg (by rw [unpaddedOctets]; omega), if_neg id,
    take_of_length_le (by simp at hlen ⊢; omega), ← hsegs, drop_left]
  rfl

/-- An accepted header is written in a whole number of eight-octet units, says so in its length
field, is read back with its padding and written again the same; `hdr_ext_len` agrees with
the length field exactly when nothing had to be padded. -/
theorem encodeVec_round_trip (h : Srh) (out : Bytes) (henc : h.encodeVec = .ok out) :
    (out.length % 8 = 0 ∧ out.length ≤ 2048 ∧
      (∃ b, out[1]? = some b ∧ b.toNat = out.length / 8 - 1) ∧
      decode out = .ok h.padded ∧ h.padded.encodeVec = .ok out) ∧
    (out[1]? = some h.hdrExtLen ↔ h.tlvs.length % 8 = 0) := by
  obtain ⟨hlast, hleft, htotal, rfl⟩ := encodeVec_eq_ok henc
  have hmod := h.padded_octets
  have hlen := h.wire_length
  have hfield := h.lengthField_toNat htotal
  refine ⟨⟨by omega, by omega, ⟨_, rfl, by omega⟩, decode_wire hlast hleft htotal,
    encodeVec_padded.trans henc⟩, ?_⟩
  simp only [wire, hdrExtLen, cons_append, getElem?_cons_succ, getElem?_cons_zero,
    Option.some.injEq, ← UInt8.toNat_inj, UInt8.toNat_ofNat', pad, unpaddedOctets] at *
  omega

/-- A header with one TLV octet is padded, and `hdr_ext_len` misses the unit this adds. -/
theorem hdrExtLen_ignores_padding :
    let h : Srh := ⟨0, 0, 0, 0, 0, [.zero 16], [0]⟩
    h.encodeVec.toOption.map (·[1]?) = some (some 3) ∧ h.hdrExtLen = 2 := by
  decide

theorem encodeVec_round_trip_one :
    let h : Srh := ⟨0, 0, 0, 0, 0, [.zero 16], [0]⟩
    h.encodeVec = .ok h.wire ∧ decode h.wire = .ok h.padded :=
  have henc : encodeVec ⟨0, 0, 0, 0, 0, [.zero 16], [0]⟩ = .ok _ := by decide
  ⟨henc, (encodeVec_round_trip _ _ henc).1.2.2.2.1⟩

end Srh

end LibRouting.Srv6
