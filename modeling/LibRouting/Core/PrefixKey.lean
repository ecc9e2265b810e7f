/-
  Core/PrefixKey.lean --- prefixes as keys of a Patricia trie (`encode_prefix` of
  `lr-bgp/src/roa_trie.rs` and of `lr-policy/src/filter/bytecode.rs`, which have the same
  text).

  Both crates keep their prefixes in an arena of nodes with one root for each address
  family, and differ in what they store under a prefix.  `Represents` says what an arena
  stores in terms of prefixes; `Represents.insert` and `Represents.walk` are what either
  index is verified with.
-/
import LibRouting.Foundation.PatriciaArena
import LibRouting.Core.PrefixBits
import Mathlib.Data.List.Induction

set_option autoImplicit false

namespace LibRouting.Core

open Foundation Foundation.Patricia List Option

/-! ## The keys of prefixes -/

/-- `from_be_bytes`, widened to 128 bits. -/
def fromBeBytes (bs : Bytes) : Key :=
  bs.foldl (fun acc b => (acc <<< 8) ||| b.toBitVec.setWidth 128) 0

/-- `encode_prefix`: the key, its length clamped to the family width, and the family. -/
def encodePrefix (p : Prefix) : Key × Nat × Fin 2 :=
  match p.network with
  | .v4 b => (fromBeBytes b.bytes <<< 96, min p.prefixLen.toNat 32, 0)
  | .v6 b => (fromBeBytes b.bytes, min p.prefixLen.toNat 128, 1)

/-- The number `encode_prefix` gives to the family of an address. -/
def familyOf (a : IpAddr) : Fin 2 := if a.isIpv4 then 0 else 1

theorem getLsbD_fromBeBytes (bs : Bytes) (hlen : bs.length ≤ 16) {i : Nat}
    (hi : i < 8 * bs.length) :
    (bits bs)[i]? = some ((fromBeBytes bs).getLsbD (8 * bs.length - 1 - i)) := by
  induction bs using reverseRecOn with
  | nil => simp at hi
  | append_singleton bs b ih =>
    have hbits : bits (bs ++ [b]) = bits bs ++ octetBits b := by simp [bits]
    have hkey : fromBeBytes (bs ++ [b]) =
        (fromBeBytes bs <<< 8) ||| b.toBitVec.setWidth 128 := by
      simp [fromBeBytes]
    rw [length_append, length_singleton] at hlen hi ⊢
    rw [hbits, hkey, BitVec.getLsbD_or, BitVec.getLsbD_shiftLeft, BitVec.getLsbD_setWidth]
    by_cases hold : i < 8 * bs.length
    · -- an earlier octet, moved up by eight
      have hidx : 8 * (bs.length + 1) - 1 - i - 8 = 8 * bs.length - 1 - i := by omega
      have hhigh : b.toBitVec.getLsbD (8 * (bs.length + 1) - 1 - i) = false :=
        BitVec.getLsbD_of_ge _ _ (by omega)
      rw [getElem?_append_left (by simpa using hold), ih (by omega) hold, hidx, hhigh]
      simp only [Bool.and_false, Bool.or_false, some.injEq]
      simp
      omega
    · -- the last octet
      rw [getElem?_append_right (by simpa using hold), bits_length]
      have hidx : 8 * (bs.length + 1) - 1 - i = 8 - 1 - (i - 8 * bs.length) := by omega
      have hsmall : 7 - (i - 8 * bs.length) < 8 := by omega
      have hlow : i - 8 * bs.length < 8 := by omega
      simp only [octetBits, getElem?_map, getElem?_range hlow, map_some,
        some.injEq, BitVec.getMsbD_eq_getLsbD, hidx]
      simp [hlow, hsmall, Nat.lt_of_lt_of_le hsmall (by decide : 8 ≤ 128)]

/-- Shifted to the top, the key begins with the address bits. -/
theorem topBits_fromBeBytes (bs : Bytes) (hlen : bs.length ≤ 16) {m : Nat}
    (hm : m ≤ 8 * bs.length) :
    topBits (fromBeBytes bs <<< (128 - 8 * bs.length)) m = (bits bs).take m := by
  apply ext_getElem?
  intro i
  by_cases hi : i < m
  · rw [getElem?_take_of_lt hi, getLsbD_fromBeBytes bs hlen (by omega), topBits,
      getElem?_map, getElem?_range hi, map_some, BitVec.getMsbD_shiftLeft,
      BitVec.getMsbD_eq_getLsbD]
    have hidx : 128 - 1 - (i + (128 - 8 * bs.length)) = 8 * bs.length - 1 - i := by omega
    rw [hidx]
    simp
    omega
  · rw [getElem?_eq_none (by simp; omega), getElem?_eq_none (by simp; omega)]

theorem topBits_network (len : Nat) (bs : Bytes) (hlen : bs.length ≤ 16) :
    topBits (fromBeBytes (Prefix.keepBits len bs) <<< (128 - 8 * bs.length))
      (min len (8 * bs.length)) = (bits bs).take len := by
  have htop := topBits_fromBeBytes (Prefix.keepBits len bs) (by simpa using hlen)
    (m := min len (8 * bs.length)) (by simp)
  rw [Prefix.keepBits_length] at htop
  rw [htop, take_bits_keepBits (Nat.min_le_left _ _) _ (Nat.min_le_right _ _), ← take_take]
  exact congrArg _ (take_of_length_le (by simp))

theorem familyOf_eq_iff {a b : IpAddr} : familyOf a = familyOf b ↔ a.isIpv4 = b.isIpv4 := by
  unfold familyOf
  cases a.isIpv4 <;> cases b.isIpv4 <;> simp

/-- The encoded key spells the bits that the prefix fixes. -/
theorem encodePrefix_spec (p : Prefix) :
    ∃ key, encodePrefix p = (key, min p.prefixLen.toNat p.addr.width, familyOf p.addr) ∧
      topBits key (min p.prefixLen.toNat p.addr.width) = p.fixedBits := by
  obtain ⟨a, len⟩ := p
  cases a with
  | v4 o =>
    have hwidth : (IpAddr.v4 o).width = 32 := IpAddr.width_eq _
    have htop := topBits_network len.toNat o.bytes (by simp)
    rw [o.length_eq] at htop
    exact ⟨_, by rw [hwidth]; rfl, by rw [hwidth]; exact htop⟩
  | v6 o =>
    have hwidth : (IpAddr.v6 o).width = 128 := IpAddr.width_eq _
    have htop := topBits_network len.toNat o.bytes (by simp)
    rw [o.length_eq, Nat.sub_self, BitVec.shiftLeft_zero] at htop
    exact ⟨_, by rw [hwidth]; rfl, by rw [hwidth]; exact htop⟩

/-! ## What an arena stores -/

variable {α : Type} {t : Trie (Fin 2) α} {stored : Prefix → α → Prop}

/-- The arena stores exactly the given items, each under the bits that its prefix fixes. -/
def Represents (t : Trie (Fin 2) α) (stored : Prefix → α → Prop) : Prop :=
  ∃ tries, Indexes t tries ∧ ∀ f key a, (tries f).Mem key a ↔
    ∃ p, stored p a ∧ familyOf p.addr = f ∧ p.fixedBits = key

theorem represents_new : Represents (α := α) .new fun _ _ => False :=
  ⟨_, Indexes.new, fun f key a => by simp⟩

theorem Represents.insert (h : Represents t stored) (p : Prefix) (a : α) :
    ∃ t', t.insert (encodePrefix p).1 (encodePrefix p).2.1 (encodePrefix p).2.2 a = some t' ∧
      Represents t' fun q b => stored q b ∨ q = p ∧ b = a := by
  obtain ⟨tries, hidx, hmem⟩ := h
  obtain ⟨key, henc, hbits⟩ := encodePrefix_spec p
  have hlen : min p.prefixLen.toNat p.addr.width ≤ 128 := by
    have hw := IpAddr.width_eq p.addr
    split at hw <;> omega
  obtain ⟨t', ht', hidx'⟩ := hidx.insert key hlen (familyOf p.addr) a
  rw [hbits] at hidx'
  refine ⟨t', by rw [henc]; exact ht', _, hidx', fun f k b => ?_⟩
  by_cases hf : f = familyOf p.addr
  · subst hf
    rw [Function.update_self, RadixTrie.mem_insert, hmem]
    constructor
    · rintro (⟨hk, hb⟩ | ⟨q, hq, hfam, hk⟩)
      · exact ⟨p, .inr ⟨rfl, hb⟩, rfl, hk.symm⟩
      · exact ⟨q, .inl hq, hfam, hk⟩
    · rintro ⟨q, hq | ⟨rfl, hb⟩, hfam, hk⟩
      · exact .inr ⟨q, hq, hfam, hk⟩
      · exact .inl ⟨hk.symm, hb⟩
  · rw [Function.update_of_ne hf, hmem]
    constructor
    · rintro ⟨q, hq, hfam, hk⟩
      exact ⟨q, .inl hq, hfam, hk⟩
    · rintro ⟨q, hq | ⟨rfl, -⟩, hfam, hk⟩
      · exact ⟨q, hq, hfam, hk⟩
      · exact (hf hfam.symm).elim

/-- The walk for a prefix meets the items stored under the prefixes that fix an initial
part of its bits. -/
theorem Represents.walk (h : Represents t stored) (p : Prefix) (test : Nat → α → Option Bool)
    (g : Nat → α → Bool)
    (htest : ∀ q a, stored q a → test q.fixedBits.length a = some (g q.fixedBits.length a)) :
    ∃ covered accepted,
      t.walk (encodePrefix p).1 (encodePrefix p).2.1 (encodePrefix p).2.2 test =
        some (covered, accepted) ∧
      (covered = true ↔ ∃ q a, stored q a ∧ q.addr.isIpv4 = p.addr.isIpv4 ∧
        q.fixedBits <+: p.fixedBits) ∧
      (accepted = true ↔ ∃ q a, stored q a ∧ q.addr.isIpv4 = p.addr.isIpv4 ∧
        q.fixedBits <+: p.fixedBits ∧ g q.fixedBits.length a = true) := by
  obtain ⟨tries, hidx, hmem⟩ := h
  obtain ⟨key, henc, hbits⟩ := encodePrefix_spec p
  have hlen : min p.prefixLen.toNat p.addr.width ≤ 128 := by
    have hw := IpAddr.width_eq p.addr
    split at hw <;> omega
  have hwalk := hidx.walk key hlen (familyOf p.addr) test g fun path x hm => by
    obtain ⟨q, hq, -, rfl⟩ := (hmem _ _ _).mp hm
    exact htest q x hq
  rw [hbits] at hwalk
  -- a walk with any test, in terms of the stored prefixes
  have hcovers : ∀ test : Nat → α → Bool, (tries (familyOf p.addr)).covers test 0 p.fixedBits =
      true ↔ ∃ q a, stored q a ∧ q.addr.isIpv4 = p.addr.isIpv4 ∧ q.fixedBits <+: p.fixedBits ∧
        test q.fixedBits.length a = true := by
    intro test
    rw [RadixTrie.covers_iff _ (hidx.wellRooted _)]
    constructor
    · rintro ⟨path, a, hpre, hm, ht⟩
      obtain ⟨q, hq, hfam, rfl⟩ := (hmem _ _ _).mp hm
      rw [Nat.zero_add] at ht
      exact ⟨q, a, hq, familyOf_eq_iff.mp hfam, hpre, ht⟩
    · rintro ⟨q, a, hq, hfam, hpre, ht⟩
      refine ⟨q.fixedBits, a, hpre, (hmem _ _ _).mpr ⟨q, hq, familyOf_eq_iff.mpr hfam, rfl⟩, ?_⟩
      rwa [Nat.zero_add]
  refine ⟨_, _, by rw [henc]; exact hwalk, ?_, hcovers g⟩
  rw [hcovers]
  simp only [and_true]

end LibRouting.Core
