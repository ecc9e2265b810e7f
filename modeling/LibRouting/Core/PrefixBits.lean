/-
  Core/PrefixBits.lean --- addresses and prefixes as strings of bits.

  `network`, `contains` and `contains_prefix` work on octets under a mask.  Here they
  are read as statements about the first bits of an address, which is what a trie over
  prefixes is about.
-/
import LibRouting.Core.Addr

set_option autoImplicit false

namespace LibRouting.Core

open Foundation List

/-! ## The bits of octets -/

/-- The bits of an octet, most significant first. -/
def octetBits (b : UInt8) : List Bool := (List.range 8).map b.toBitVec.getMsbD

@[simp] theorem octetBits_length (b : UInt8) : (octetBits b).length = 8 := by
  simp [octetBits]

theorem octetBits_inj {a b : UInt8} (h : octetBits a = octetBits b) : a = b := by
  apply UInt8.eq_of_toBitVec_eq
  apply BitVec.eq_of_getMsbD_eq
  intro i hi
  exact map_inj_left.mp h i (mem_range.mpr hi)

/-- The bits of a string of octets. -/
def bits (bs : Bytes) : List Bool := bs.flatMap octetBits

theorem bits_cons (b : UInt8) (bs : Bytes) : bits (b :: bs) = octetBits b ++ bits bs := rfl

@[simp] theorem bits_length (bs : Bytes) : (bits bs).length = 8 * bs.length := by
  induction bs with
  | nil => rfl
  | cons b bs ih =>
    rw [bits_cons, length_append, octetBits_length, ih, length_cons]
    omega

theorem bits_inj {a b : Bytes} (h : bits a = bits b) : a = b := by
  induction a generalizing b with
  | nil =>
    have hlen := congrArg length h
    simp only [bits_length, length_nil] at hlen
    exact (length_eq_zero_iff.mp (by omega)).symm
  | cons x a ih =>
    cases b with
    | nil =>
      have hlen := congrArg length h
      simp at hlen
    | cons y b =>
      rw [bits_cons, bits_cons] at h
      obtain ⟨hx, hrest⟩ := append_inj h (by simp)
      rw [octetBits_inj hx, ih hrest]

/-! ## Clearing host bits -/

theorem getMsbD_mask : ∀ n < 8, 0 < n → ∀ i < 8,
    ((0xff : UInt8) <<< UInt8.ofNat (8 - n)).toBitVec.getMsbD i = decide (i < n) := by
  decide +kernel

theorem octetBits_masked (n : Nat) (b : UInt8) :
    octetBits (if 8 ≤ n then b else if n = 0 then 0 else b &&& (0xff <<< UInt8.ofNat (8 - n))) =
      (octetBits b).take n ++ replicate (8 - n) false := by
  by_cases hn : 8 ≤ n
  · rw [if_pos hn, take_of_length_le (by simpa using hn), Nat.sub_eq_zero_of_le hn]
    simp
  rw [if_neg hn]
  by_cases hz : n = 0
  · subst hz
    rw [if_pos rfl, take_zero, nil_append]
    decide
  rw [if_neg hz]
  refine ext_getElem (by simp; omega) fun i hi _ => ?_
  rw [octetBits_length] at hi
  have hmask := getMsbD_mask n (by omega) (by omega) i hi
  simp only [octetBits, getElem_map, getElem_range, UInt8.toBitVec_and,
    BitVec.getMsbD_and, hmask, getElem_append, getElem_take, getElem_replicate,
    length_take, length_map, length_range]
  by_cases hin : i < n
  · rw [dif_pos (by omega)]
    simp [hin]
  · rw [dif_neg (by omega)]
    simp [hin]

theorem bits_keepBits (n : Nat) (bs : Bytes) :
    bits (Prefix.keepBits n bs) = (bits bs).take n ++ replicate (8 * bs.length - n) false := by
  induction bs generalizing n with
  | nil => simp [Prefix.keepBits, bits]
  | cons b bs ih =>
    rw [Prefix.keepBits, bits_cons, octetBits_masked, ih, bits_cons, take_append,
      octetBits_length]
    by_cases hn : 8 ≤ n
    · rw [Nat.sub_eq_zero_of_le hn, length_cons,
        show 8 * (bs.length + 1) - n = 8 * bs.length - (n - 8) by omega]
      simp
    rw [show n - 8 = 0 by omega, length_cons,
      show 8 * (bs.length + 1) - n = (8 - n) + 8 * bs.length by omega,
      ← replicate_append_replicate]
    simp

/-- Two addresses agree under a mask when their first bits are the same. -/
theorem keepBits_eq_iff {n : Nat} {a b : Bytes} (hlen : a.length = b.length) :
    Prefix.keepBits n a = Prefix.keepBits n b ↔ (bits a).take n = (bits b).take n := by
  constructor
  · intro h
    have hbits := congrArg bits h
    rw [bits_keepBits, bits_keepBits] at hbits
    exact (append_inj hbits (by simp [hlen])).1
  · intro h
    apply bits_inj
    rw [bits_keepBits, bits_keepBits, h, hlen]

theorem take_bits_keepBits {m n : Nat} (h : m ≤ n) (bs : Bytes) (hm : m ≤ 8 * bs.length) :
    (bits (Prefix.keepBits n bs)).take m = (bits bs).take m := by
  rw [bits_keepBits, take_append_of_le_length, take_take, Nat.min_eq_left h]
  simp only [length_take, bits_length]
  omega

/-! ## Prefixes -/

namespace IpAddr

/-- The number of bits of the address: 32 or 128. -/
def width (a : IpAddr) : Nat := 8 * a.octets.length

theorem width_eq (a : IpAddr) : a.width = if a.isIpv4 then 32 else 128 := by
  cases a with
  | v4 o => simp [width, octets, isIpv4, o.length_eq]
  | v6 o => simp [width, octets, isIpv4, o.length_eq]

theorem length_octets_eq {a b : IpAddr} (h : a.isIpv4 = b.isIpv4) :
    a.octets.length = b.octets.length := by
  have hw : a.width = b.width := by rw [width_eq, width_eq, h]
  unfold width at hw
  omega

end IpAddr

namespace Prefix

/-- The bits a prefix fixes. -/
def fixedBits (p : Prefix) : List Bool := (bits p.addr.octets).take p.prefixLen.toNat

/-- The length is one the family has. -/
def Fits (p : Prefix) : Prop := p.prefixLen.toNat ≤ p.addr.width
  deriving Decidable

theorem length_fixedBits {p : Prefix} (h : p.Fits) : p.fixedBits.length = p.prefixLen.toNat := by
  rw [fixedBits, length_take, bits_length]
  exact Nat.min_eq_left h

theorem contains_iff (p : Prefix) (a : IpAddr) :
    p.contains a = true ↔ p.addr.isIpv4 = a.isIpv4 ∧
      (bits p.addr.octets).take p.prefixLen.toNat = (bits a.octets).take p.prefixLen.toNat := by
  rw [contains, Bool.and_eq_true, beq_iff_eq, beq_iff_eq]
  constructor
  · rintro ⟨hfam, h⟩
    exact ⟨hfam, (keepBits_eq_iff (IpAddr.length_octets_eq hfam)).mp h⟩
  · rintro ⟨hfam, h⟩
    exact ⟨hfam, (keepBits_eq_iff (IpAddr.length_octets_eq hfam)).mpr h⟩

theorem containsPrefix_iff (p q : Prefix) :
    p.containsPrefix q = true ↔ p.addr.isIpv4 = q.addr.isIpv4 ∧
      p.prefixLen.toNat ≤ q.prefixLen.toNat ∧
      (bits p.addr.octets).take p.prefixLen.toNat =
        (bits q.addr.octets).take p.prefixLen.toNat := by
  rw [containsPrefix, Bool.and_eq_true, Bool.and_eq_true, contains_iff, beq_iff_eq]
  simp only [Bool.not_eq_true', decide_eq_false_iff_not, UInt8.lt_iff_toNat_lt, Nat.not_lt]
  tauto

/-- A prefix covers another when it fixes an initial segment of its bits. -/
theorem containsPrefix_iff_isPrefix {p q : Prefix} (hp : p.Fits) (hq : q.Fits) :
    p.containsPrefix q = true ↔ p.addr.isIpv4 = q.addr.isIpv4 ∧ p.fixedBits <+: q.fixedBits := by
  rw [containsPrefix_iff]
  constructor
  · rintro ⟨hfam, hle, htake⟩
    refine ⟨hfam, ?_⟩
    rw [fixedBits, htake, ← Nat.min_eq_left hle, ← take_take]
    exact take_prefix _ _
  · rintro ⟨hfam, hpre⟩
    have hle := hpre.length_le
    rw [length_fixedBits hp, length_fixedBits hq] at hle
    refine ⟨hfam, hle, ?_⟩
    have htake := prefix_iff_eq_take.mp hpre
    rwa [length_fixedBits hp, fixedBits, fixedBits, take_take, Nat.min_eq_left hle] at htake

end Prefix

end LibRouting.Core
