/-
  Bgp/Codec/MpRoundTrip.lean --- what a receiver reads from encoded MP attributes,
  plain and labelled.

  The MP encoders clear host bits and write the prefix at the width of its
  address, whatever the family says; `NetworkPrefix` are the prefixes that come
  back.
-/
import LibRouting.Bgp.Codec.RoundTrip
import LibRouting.Bgp.MpNlri
import Mathlib.Data.List.ModifyLast

set_option autoImplicit false

namespace LibRouting.Bgp

open Foundation Core Outcome LabeledNlri Prefix List

variable {family : NlriFamily} {p : Prefix} (addPath : Bool) (stack : LabelStack)

/-! ## Prefixes -/

/-- A prefix of the family with its length in range and no host bit set. -/
def NetworkPrefix (family : NlriFamily) (p : Prefix) : Prop :=
  match mpAddress family with
  | none => False
  | some (width, address) =>
    octetCount p.prefixLen ≤ width ∧ address (maskedOctets p) p.prefixLen = p

instance (family : NlriFamily) (p : Prefix) : Decidable (NetworkPrefix family p) :=
  match h : mpAddress family with
  | none => isFalse (by simp [NetworkPrefix, h])
  | some (width, address) =>
    decidable_of_iff
      (octetCount p.prefixLen ≤ width ∧ address (maskedOctets p) p.prefixLen = p)
      (by simp [NetworkPrefix, h])

theorem modifyLast_length {α : Type} (f : α → α) (l : List α) :
    (l.modifyLast f).length = l.length := by
  rcases eq_nil_or_concat l with rfl | ⟨xs, x, rfl⟩
  · rfl
  · simp [modifyLast_concat]

theorem maskedOctets_length (p : Prefix) :
    (maskedOctets p).length = min (octetCount p.prefixLen) p.addr.octets.length := by
  unfold maskedOctets
  dsimp only
  split
  · simp
  · rw [modifyLast_length, length_take]

theorem NetworkPrefix.cases (h : NetworkPrefix family p) :
    (family.afi = 1 ∧ ∃ a, p.addr = .v4 a ∧ octetCount p.prefixLen ≤ 4 ∧
      Octets.padded 4 (maskedOctets p) = a) ∨
    (family.afi = 2 ∧ ∃ a, p.addr = .v6 a ∧ octetCount p.prefixLen ≤ 16 ∧
      Octets.padded 16 (maskedOctets p) = a) := by
  obtain ⟨addr, pl⟩ := p
  unfold NetworkPrefix mpAddress at h
  by_cases h1 : family.afi = 1
  · simp only [h1, if_true] at h
    obtain ⟨hle, heq⟩ := h
    exact .inl ⟨h1, _, (congrArg Prefix.addr heq).symm, hle, rfl⟩
  by_cases h2 : family.afi = 2
  · simp only [h2] at h
    obtain ⟨hle, heq⟩ := h
    exact .inr ⟨h2, _, (congrArg Prefix.addr heq).symm, hle, rfl⟩
  · simp [h1, h2] at h

theorem NetworkPrefix.maskedOctets_length (h : NetworkPrefix family p) :
    (maskedOctets p).length = octetCount p.prefixLen := by
  rw [Bgp.maskedOctets_length]
  rcases h.cases with ⟨-, a, ha, hle, -⟩ | ⟨-, a, ha, hle, -⟩ <;> simp [ha, IpAddr.octets, hle]

/-! ## Plain MP attributes -/

theorem nlriEntry_mpNlriWire {n : Nlri} (h : NetworkPrefix family n.pfx) :
    NlriEntry (mpAddress family) addPath (mpNlriWire addPath n) (receivedNlri addPath n) := by
  have hlen := h.maskedOctets_length
  unfold NetworkPrefix at h
  cases hform : mpAddress family with
  | none => simp [hform] at h
  | some form =>
    obtain ⟨width, address⟩ := form
    simp only [hform] at h
    obtain ⟨hle, heq⟩ := h
    have hentry := NlriEntry.intro (.wire addPath n.pathId) hform hlen hle
    rwa [heq, hform] at hentry

theorem scan_mpNlriWire (xs : List Nlri) (h : ∀ n ∈ xs, NetworkPrefix family n.pfx) (i : Nat) :
    scan (decodeMpNlriTurn family addPath) [] i (xs.flatMap (mpNlriWire addPath)) =
      ok (xs.map (receivedNlri addPath)) :=
  ((isNlriTurn_decodeMpNlriTurn family addPath).scan_ok_iff i _ _).mpr
    (nlriTurns_flatMap xs (fun n hn => nlriEntry_mpNlriWire addPath (h n hn)) [])

theorem MpUnreach.decodeEx_encodeEx (m : MpUnreach) (addPath : Bool)
    (h : ∀ n ∈ m.nlri, NetworkPrefix m.family n.pfx) :
    MpUnreach.decodeEx (m.encodeEx addPath) addPath =
      ok ⟨m.family, m.nlri.map (receivedNlri addPath)⟩ := by
  rw [MpUnreach.encodeEx, MpUnreach.decodeEx_section, scan_mpNlriWire addPath m.nlri h, ok_bind]

/-- `MpReach::decode_ex` behind the family octets: the next hop, one octet that is
skipped, the NLRI. -/
theorem MpReach.decodeEx_section (family : NlriFamily) (octets : Bytes) (reserved : UInt8)
    (section_ : Bytes) (addPath : Bool) (hoctLen : octets.length ≤ 255) :
    MpReach.decodeEx (toBe16 family.afi ++ [family.safi] ++ [UInt8.ofNat octets.length] ++
        octets ++ [reserved] ++ section_) addPath =
      (MpNextHop.decode octets family >>= fun nextHop =>
        scan (decodeMpNlriTurn family addPath) [] (4 + octets.length + 1) section_ >>=
          fun nlri => ok ⟨family, nextHop, nlri⟩) := by
  have hlen : (UInt8.ofNat octets.length).toNat = octets.length := toNat_ofNat_of_le8 hoctLen
  simpa using MpReach.decodeEx_tail family hlen.symm (reserved :: section_) addPath

/-- The next hop comes back in some form when its length fits the family. -/
theorem MpReach.decodeEx_encodeEx (m : MpReach) (addPath : Bool)
    (h : ∀ n ∈ m.nlri, NetworkPrefix m.family n.pfx) (hnh : NextHopFits m.family m.nextHop.encode) :
    ∃ nextHop, MpReach.decodeEx (m.encodeEx addPath) addPath =
      ok ⟨m.family, nextHop, m.nlri.map (receivedNlri addPath)⟩ := by
  obtain ⟨nextHop, hdec⟩ := (MpNextHop.decode_ok_iff _ _).mpr hnh
  have hoctLen : m.nextHop.encode.length ≤ 255 := by
    rcases hnh with ⟨-, h | h⟩ | ⟨-, h | h⟩ <;> omega
  refine ⟨nextHop, ?_⟩
  rw [MpReach.encodeEx, MpReach.decodeEx_section _ _ _ _ _ hoctLen, hdec, ok_bind,
    scan_mpNlriWire addPath m.nlri h, ok_bind]

/-! ## Labelled MP attributes -/

/-- The octets of a label field: groups of three, the bottom-of-stack bit on the
last group only. -/
inductive LabelOctets : Bytes → Prop where
  | bottom {a b c : UInt8} : c &&& 0x01 ≠ 0 → LabelOctets [a, b, c]
  | above {a b c : UInt8} {rest : Bytes} :
      c &&& 0x01 = 0 → LabelOctets rest → LabelOctets (a :: b :: c :: rest)

/-- The labels `LabeledNlri::decode` makes of a label field. -/
def labelsOf : Bytes → LabelStack
  | a :: b :: c :: rest =>
    ⟨(a.toUInt32 <<< 12) ||| (b.toUInt32 <<< 4) ||| (c.toUInt32 >>> 4), (c >>> 1) &&& 0x07, 0⟩ ::
      labelsOf rest
  | _ => []

theorem readLabels_labelOctets {octets : Bytes} (h : LabelOctets octets) (budget used : Nat)
    (hbudget : used + octets.length ≤ budget) (rest : Bytes) :
    readLabels budget used (octets ++ rest) =
      some (labelsOf octets, used + octets.length) := by
  induction h generalizing used with
  | @bottom a b c hc =>
    have hused : ¬ budget ≤ used := by
      simp only [length_cons] at hbudget; omega
    simp only [cons_append, nil_append, readLabels, hused, if_false]
    rw [if_pos hc]
    rfl
  | @above a b c tail hc _ ih =>
    simp only [length_cons] at hbudget
    have hused : ¬ budget ≤ used := by omega
    simp only [cons_append, readLabels, hused, if_false]
    rw [if_neg (fun hne => hne hc), ih (used + 3) (by omega)]
    simp only [Option.map_some, labelsOf, length_cons, Option.some.injEq, Prod.mk.injEq,
      true_and]
    omega

theorem labelValue_toNat (a b c : UInt8) :
    ((a.toUInt32 <<< 12) ||| (b.toUInt32 <<< 4) ||| (c.toUInt32 >>> 4)).toNat =
      2 ^ 12 * a.toNat + 2 ^ 4 * b.toNat + c.toNat / 2 ^ 4 := by
  have ha := a.toNat_lt
  have hb := b.toNat_lt
  have hc := c.toNat_lt
  have h12 : (12 : UInt32).toNat % 32 = 12 := rfl
  have h4 : (4 : UInt32).toNat % 32 = 4 := rfl
  have hhigh : a.toNat * 2 ^ 12 % 2 ^ 32 = 2 ^ 12 * a.toNat := by omega
  have hmid : b.toNat * 2 ^ 4 % 2 ^ 32 = 2 ^ 4 * b.toNat := by omega
  simp only [UInt32.toNat_or, UInt32.toNat_shiftLeft, UInt32.toNat_shiftRight, UInt8.toNat_toUInt32]
  have hlow : 2 ^ 4 * b.toNat ||| c.toNat / 2 ^ 4 = 2 ^ 4 * b.toNat + c.toNat / 2 ^ 4 :=
    (Nat.two_pow_add_eq_or_of_lt (by omega) _).symm
  rw [h12, h4, Nat.shiftRight_eq_div_pow, Nat.shiftLeft_eq, Nat.shiftLeft_eq, hhigh, hmid,
    Nat.or_assoc, hlow, ← Nat.two_pow_add_eq_or_of_lt (by omega)]
  omega

/-- The last octet of a label in an NLRI: the low nibble of the value, three bits
left zero and the bottom-of-stack bit. -/
theorem lastOctet_toNat (value : UInt32) (bottom : Bool) :
    (((value &&& 0x0f) <<< 4) ||| Label.bottomBit bottom).toUInt8.toNat =
      2 ^ 4 * (value.toNat % 16) + (Label.bottomBit bottom).toNat := by
  have hnib : value.toNat &&& 15 = value.toNat % 16 :=
    Nat.and_two_pow_sub_one_eq_mod value.toNat 4
  have hbit : (Label.bottomBit bottom).toNat < 2 ^ 4 := by cases bottom <;> decide
  have h15 : (15 : UInt32).toNat = 15 := rfl
  have h4 : (4 : UInt32).toNat % 32 = 4 := rfl
  have hshift : value.toNat % 16 * 2 ^ 4 % 2 ^ 32 = 2 ^ 4 * (value.toNat % 16) := by omega
  simp only [UInt32.toNat_toUInt8, UInt32.toNat_or, UInt32.toNat_shiftLeft, UInt32.toNat_and]
  rw [h15, h4, hnib, Nat.shiftLeft_eq, hshift, ← Nat.two_pow_add_eq_or_of_lt hbit]
  omega

/-- A label as it is read back: 20 bits of the value, class and TTL zero. -/
def Label.received (l : Label) : Label := .newValue (l.value % 0x100000)

theorem labelsOf_encode3octet_append (l : Label) (bottom : Bool) (rest : Bytes) :
    labelsOf (l.encode3octet bottom ++ rest) = l.received :: labelsOf rest := by
  have hlast := lastOctet_toNat l.value bottom
  have hbit : (Label.bottomBit bottom).toNat < 2 := by cases bottom <;> decide
  set last := (((l.value &&& 0x0f) <<< 4) ||| Label.bottomBit bottom).toUInt8 with hdef
  have hvalue : ((l.value >>> 12).toUInt8.toUInt32 <<< 12) |||
      ((l.value >>> 4).toUInt8.toUInt32 <<< 4) ||| (last.toUInt32 >>> 4) =
        l.value % 0x100000 := by
    apply UInt32.toNat_inj.mp
    have h12 : (12 : UInt32).toNat % 32 = 12 := rfl
    have h4 : (4 : UInt32).toNat % 32 = 4 := rfl
    have h20 : (0x100000 : UInt32).toNat = 0x100000 := rfl
    rw [labelValue_toNat, hlast]
    simp only [UInt32.toNat_toUInt8, UInt32.toNat_shiftRight, UInt32.toNat_mod, h12, h4, h20,
      Nat.shiftRight_eq_div_pow]
    omega
  have htc : (last >>> 1) &&& 0x07 = 0 := by
    apply UInt8.toNat_inj.mp
    have h1 : (1 : UInt8).toNat % 8 = 1 := rfl
    have h7 : (7 : UInt8).toNat = 7 := rfl
    simp only [UInt8.toNat_and, UInt8.toNat_shiftRight, h1, h7, hlast,
      Nat.shiftRight_eq_div_pow]
    rw [Nat.and_two_pow_sub_one_eq_mod _ 3]
    show _ = 0
    omega
  simp only [Label.encode3octet, ← hdef, cons_append, nil_append, labelsOf, hvalue, htc]
  rfl

theorem bottomBit_encode3octet (value : UInt32) (bottom : Bool) :
    ((((value &&& 0x0f) <<< 4) ||| Label.bottomBit bottom).toUInt8 &&& 0x01 ≠ 0) ↔
      bottom = true := by
  rw [Ne, ← UInt8.toNat_inj, UInt8.toNat_and, lastOctet_toNat]
  have h1 : (1 : UInt8).toNat = 1 := rfl
  rw [h1, Nat.and_one_is_mod]
  cases bottom with
  | false => simp [Label.bottomBit]; omega
  | true => simp [Label.bottomBit]; omega

theorem encode3octet_length : stack.encode3octet.length = 3 * stack.length := by
  unfold LabelStack.encode3octet
  fun_induction LabelStack.encodeWith with
  | case1 => rfl
  | case2 l => rfl
  | case3 l rest hne ih =>
    simp only [length_append, length_cons, ih, Label.encode3octet, length_nil]
    omega

theorem labelOctets_encode3octet (hne : stack ≠ []) : LabelOctets stack.encode3octet := by
  induction stack with
  | nil => exact absurd rfl hne
  | cons l stack ih =>
    cases stack with
    | nil => exact .bottom ((bottomBit_encode3octet l.value true).mpr rfl)
    | cons l' stack =>
      refine .above (Classical.not_not.mp ?_) (ih (by simp))
      exact (bottomBit_encode3octet l.value false).not.mpr (by simp)

theorem labelsOf_encode3octet : labelsOf stack.encode3octet = stack.map Label.received := by
  induction stack with
  | nil => rfl
  | cons l stack ih =>
    cases stack with
    | nil => exact labelsOf_encode3octet_append l true []
    | cons l' stack =>
      exact (labelsOf_encode3octet_append l false _).trans (congrArg (l.received :: ·) ih)

/-- The family is known and the prefix length in its range. -/
def Carried (family : NlriFamily) (pl : UInt8) : Prop :=
  (family.afi = 1 ∧ pl.toNat ≤ 32) ∨ (family.afi = 2 ∧ pl.toNat ≤ 128)
  deriving Decidable

/-- The prefix the decoders of a family build from its octets. -/
def prefixOf (family : NlriFamily) (body : Bytes) (pl : UInt8) : Prefix :=
  if family.afi = 1 then .newV4 (.padded 4 body) pl else .newV6 (.padded 16 body) pl

theorem readPrefix_body (family : NlriFamily) {pl : UInt8} {body : Bytes}
    (hbody : body.length = octetCount pl) (rest : Bytes) :
    readPrefix family pl.toNat (body ++ rest) =
      if Carried family pl then some (prefixOf family body pl) else none := by
  have htake : (body ++ rest).take ((pl.toNat + 7) / 8) = body := by
    rw [show (pl.toNat + 7) / 8 = body.length from hbody.symm, take_left]
  have hlong : ¬ (body ++ rest).length < (pl.toNat + 7) / 8 := by
    simp only [length_append, hbody, octetCount]; omega
  have hpl : UInt8.ofNat pl.toNat = pl := UInt8.ofNat_toNat
  unfold readPrefix Carried prefixOf NlriFamily.isIpv4 NlriFamily.isIpv6
  simp only [htake, hlong, if_false, hpl]
  by_cases h1 : family.afi = 1
  · have h21 : ¬ (1 : UInt16) = 2 := by decide
    by_cases hle : pl.toNat ≤ 32
    · simp [h1, h21, hle, Nat.not_lt.mpr hle]
    · simp [h1, h21, hle, Nat.not_le.mp hle]
  by_cases h2 : family.afi = 2
  · by_cases hle : pl.toNat ≤ 128
    · simp [h2, hle, Nat.not_lt.mpr hle]
    · simp [h2, hle, Nat.not_le.mp hle]
  · simp [h1, h2]

theorem readPrefix_maskedOctets (h : NetworkPrefix family p) (rest : Bytes) :
    readPrefix family p.prefixLen.toNat (maskedOctets p ++ rest) = some p := by
  obtain ⟨hcarried, hpfx⟩ : Carried family p.prefixLen ∧
      prefixOf family (maskedOctets p) p.prefixLen = p := by
    obtain ⟨addr, pl⟩ := p
    rcases h.cases with ⟨hafi, a, rfl, hle, hmask⟩ | ⟨hafi, a, rfl, hle, hmask⟩
    · exact ⟨.inl ⟨hafi, by simp only [octetCount] at *; omega⟩,
        by simp [prefixOf, hafi, hmask, newV4]⟩
    · exact ⟨.inr ⟨hafi, by simp only [octetCount] at *; omega⟩,
        by simp [prefixOf, hafi, hmask, newV6]⟩
  rw [readPrefix_body family h.maskedOctets_length, if_pos hcarried, hpfx]

/-- An entry whose labels and prefix fit the length octet. -/
def LabeledNlri.Fits (e : LabeledNlri) : Prop :=
  e.labelStack ≠ [] ∧ 24 * e.labelStack.length + e.pfx.prefixLen.toNat ≤ 255
  deriving Decidable

/-- One entry behind its path identifier: what the decoder makes of it rests with
the prefix octets. -/
theorem LabeledNlri.decode_octets {octets body : Bytes} {pl : UInt8} (hoct : LabelOctets octets)
    (hbody : body.length = octetCount pl) (hbits : octets.length * 8 + pl.toNat ≤ 255)
    (family : NlriFamily) (id : UInt32) (addPath : Bool) (rest : Bytes) :
    decode family ((if addPath then toBe32 id else []) ++
        UInt8.ofNat (octets.length * 8 + pl.toNat) :: (octets ++ body) ++ rest) addPath =
      (readPrefix family pl.toNat (body ++ rest)).map fun p =>
        (⟨if addPath then id else 0, labelsOf octets, p⟩, rest) := by
  set total := octets.length * 8 + pl.toNat with htotal
  have htotalOctets : (total + 7) / 8 = octets.length + octetCount pl := by
    simp only [octetCount]; omega
  have hread : (UInt8.ofNat total).toNat = total := toNat_ofNat_of_le8 hbits
  have hreadId : readId addPath ((if addPath then toBe32 id else []) ++
      UInt8.ofNat total :: (octets ++ body) ++ rest) =
      some (if addPath then id else 0, UInt8.ofNat total :: (octets ++ (body ++ rest))) := by
    cases addPath with
    | false => simp [readId]
    | true =>
      simp only [if_true, toBe32, cons_append, nil_append, readId,
        fromBe32_toBe32, append_assoc]
  have hlabels := readLabels_labelOctets hoct ((total + 7) / 8) 0 (by omega) (body ++ rest)
  rw [Nat.zero_add] at hlabels
  have hregion : ¬ (octets ++ (body ++ rest)).length < (total + 7) / 8 := by
    simp only [length_append]; omega
  have hbudget : ¬ total < octets.length * 8 := by omega
  have hip : total - octets.length * 8 = pl.toNat := by omega
  have hdrop : (octets ++ (body ++ rest)).drop (octets.length + (pl.toNat + 7) / 8) = rest := by
    have hlen : octets.length + (pl.toNat + 7) / 8 = (octets ++ body).length := by
      simp only [length_append, hbody, octetCount]
    rw [← append_assoc, hlen, drop_left]
  simp only [decode, hreadId, Option.bind_eq_bind, Option.bind_some, hread, hregion,
    if_false, hlabels, hbudget, hip, drop_left, hdrop]
  cases readPrefix family pl.toNat (body ++ rest) <;> rfl

/-- An entry as it is read back. -/
def LabeledNlri.received (addPath : Bool) (e : LabeledNlri) : LabeledNlri :=
  ⟨if addPath then e.pathId else 0, e.labelStack.map Label.received, e.pfx⟩

theorem LabeledNlri.decode_encode {e : LabeledNlri} (hpfx : NetworkPrefix family e.pfx)
    (hfits : e.Fits) (addPath : Bool) :
    ∃ bytes, e.encode addPath = some bytes ∧ bytes ≠ [] ∧ ∀ rest,
      decode family (bytes ++ rest) addPath = some (e.received addPath, rest) := by
  obtain ⟨pathId, labels, pfx⟩ := e
  obtain ⟨hne, hbits⟩ := hfits
  dsimp only at hne hbits hpfx
  have hlabels := encode3octet_length labels
  refine ⟨(if addPath then toBe32 pathId else []) ++ UInt8.ofNat
    (labels.encode3octet.length * 8 + pfx.prefixLen.toNat) ::
      (labels.encode3octet ++ maskedOctets pfx), ?_, by simp, fun rest => ?_⟩
  · have hle : ¬ 255 < labels.encode3octet.length * 8 + pfx.prefixLen.toNat := by omega
    simp only [encode, hne, if_false, hle]
  · rw [decode_octets (labelOctets_encode3octet labels hne) hpfx.maskedOctets_length
      (by omega), readPrefix_maskedOctets hpfx, Option.map_some, labelsOf_encode3octet]
    rfl

theorem LabeledNlri.decodeList_encodeList (entries : List LabeledNlri)
    (h : ∀ e ∈ entries, NetworkPrefix family e.pfx ∧ e.Fits) :
    decodeList family (encodeList entries addPath) addPath =
      some (entries.map (received addPath)) := by
  induction entries with
  | nil => simp [encodeList, decodeList]
  | cons e entries ih =>
    have hout := ih fun x hx => h x (by simp [hx])
    obtain ⟨hpfx, hfits⟩ := h e (by simp)
    obtain ⟨bytes, henc, hne, hdec⟩ := decode_encode hpfx hfits addPath
    have hwire : encodeList (e :: entries) addPath =
        bytes ++ encodeList entries addPath := by
      simp [encodeList, henc]
    have hpos : 0 < bytes.length := length_pos_iff.mpr hne
    rw [hwire, decodeList, if_neg (by simp [hne]), hdec]
    simp only [length_append]
    rw [if_pos (by omega), hout]
    rfl

theorem LabeledNlri.decodeMpUnreach_encodeMpUnreach (entries : List LabeledNlri)
    (hlabeled : family.isLabeledUnicast = true)
    (h : ∀ e ∈ entries, NetworkPrefix family e.pfx ∧ e.Fits) :
    decodeMpUnreach (encodeMpUnreach family entries addPath) addPath =
      some (family, entries.map (received addPath)) := by
  have hout := decodeList_encodeList addPath entries h
  obtain ⟨afi, safi⟩ := family
  simp only [encodeMpUnreach, toBe16, cons_append, nil_append,
    decodeMpUnreach, fromBe16_toBe16, hlabeled, Bool.not_true, Bool.false_eq_true,
    if_false, Option.bind_eq_bind, hout, Option.bind_some]

theorem LabeledNlri.decodeMpReach_encodeMpReach (nextHop : MpNextHop) (entries : List LabeledNlri)
    (hlabeled : family.isLabeledUnicast = true) (hnh : NextHopFits family nextHop.encode)
    (h : ∀ e ∈ entries, NetworkPrefix family e.pfx ∧ e.Fits) :
    ∃ nh, decodeMpReach (encodeMpReach family nextHop entries addPath) addPath =
      some (family, nh, entries.map (received addPath)) := by
  have hout := decodeList_encodeList addPath entries h
  obtain ⟨nh, hdec⟩ := (MpNextHop.decode_ok_iff _ _).mpr hnh
  have hlen : (UInt8.ofNat nextHop.encode.length).toNat = nextHop.encode.length := by
    apply toNat_ofNat_of_le8
    rcases hnh with ⟨-, h | h⟩ | ⟨-, h | h⟩ <;> omega
  obtain ⟨afi, safi⟩ := family
  refine ⟨nh, ?_⟩
  have hlong : ¬ (nextHop.encode ++ 0 :: encodeList entries addPath).length <
      nextHop.encode.length := by simp
  simp only [encodeMpReach, toBe16, cons_append, nil_append,
    append_assoc, decodeMpReach, fromBe16_toBe16, hlabeled, Bool.not_true,
    Bool.false_eq_true, if_false, hlen, hlong, take_left, drop_left,
    decodeNextHop, hdec, Option.bind_eq_bind, Option.bind_some, hout]

end LibRouting.Bgp
