/-
  Core/Addr.lean --- addresses, prefixes and address families (`lr-core`).

  The ordered containers of the router are keyed by these types, so each one
  carries the lexicographic order its source type derives.
-/
import LibRouting.Foundation.Bytes
import LibRouting.Foundation.TreeMap

set_option autoImplicit false

namespace LibRouting.Core

open Foundation
open Std (LawfulEqOrd TransCmp TransOrd)

/-- An autonomous system number.  Internally always four octets. -/
abbrev Asn : Type := UInt32

/-- `Asn::as_u16`: the number when it fits the two-octet space. -/
def asU16 (a : Asn) : Option UInt16 :=
  if a ≤ 0xffff then some a.toUInt16 else none

/-- A 32-bit router identifier. -/
abbrev RouterId : Type := UInt32

/-- An IPv4 or IPv6 address. -/
inductive IpAddr where
  | v4 (octets : Octets 4)
  | v6 (octets : Octets 16)
  deriving DecidableEq, Repr

namespace IpAddr

/-- The address is of the IPv4 family. -/
def isIpv4 : IpAddr → Bool
  | v4 _ => true
  | v6 _ => false

/-- The address bytes in network order. -/
def octets : IpAddr → Bytes
  | v4 a => a.bytes
  | v6 a => a.bytes

/-- The family rank and the bytes together determine the address. -/
theorem eq_of_octets_eq {a b : IpAddr} (hfam : a.isIpv4 = b.isIpv4)
    (hoct : a.octets = b.octets) : a = b := by
  cases a <;> cases b <;> simp_all [isIpv4, octets, Octets.ext_iff]

instance : Ord IpAddr :=
  ⟨compareLex (compareOn fun a => if a.isIpv4 then 0 else 1) (compareOn octets)⟩

instance : TransOrd IpAddr := inferInstanceAs (TransCmp (compareLex _ _))

instance : LawfulEqOrd IpAddr where
  eq_of_compare := by
    intro a b h
    obtain ⟨hfam, hoct⟩ := eq_of_compareLex h
    refine eq_of_octets_eq ?_ hoct
    cases ha : a.isIpv4 <;> cases hb : b.isIpv4 <;> simp_all

end IpAddr

/-- A network prefix.  The host bits may or may not be zero. -/
@[ext] structure Prefix where
  addr : IpAddr
  prefixLen : UInt8
  deriving DecidableEq, Repr

namespace Prefix

/-- `Prefix::new_v4`, which keeps host bits as they are. -/
def newV4 (addr : Octets 4) (prefixLen : UInt8) : Prefix := ⟨.v4 addr, prefixLen⟩

/-- `Prefix::new_v6`. -/
def newV6 (addr : Octets 16) (prefixLen : UInt8) : Prefix := ⟨.v6 addr, prefixLen⟩

/-- The prefix is of the IPv4 family. -/
def isIpv4 (p : Prefix) : Bool := p.addr.isIpv4

/-- `(prefix_len as usize).div_ceil(8)`: the octets a prefix occupies on the
wire. -/
def octetCount (prefixLen : UInt8) : Nat := (prefixLen.toNat + 7) / 8

/-- The first `n` bits of `b`, the others cleared. -/
def keepBits : Nat → Bytes → Bytes
  | _, [] => []
  | n, b :: bs =>
    (if 8 ≤ n then b else if n = 0 then 0 else b &&& (0xff <<< UInt8.ofNat (8 - n))) ::
      keepBits (n - 8) bs

@[simp] theorem keepBits_length (n : Nat) (b : Bytes) : (keepBits n b).length = b.length := by
  induction b generalizing n with
  | nil => rfl
  | cons _ _ ih => simp [keepBits, ih]

/-- `network`: the address without its host bits. -/
def network (p : Prefix) : IpAddr :=
  match p.addr with
  | .v4 a => .v4 ⟨keepBits p.prefixLen.toNat a.bytes, by simp⟩
  | .v6 a => .v6 ⟨keepBits p.prefixLen.toNat a.bytes, by simp⟩

/-- `contains`: the address agrees with the prefix in its first `prefixLen` bits. -/
def contains (p : Prefix) (a : IpAddr) : Bool :=
  p.addr.isIpv4 == a.isIpv4 &&
    keepBits p.prefixLen.toNat p.addr.octets == keepBits p.prefixLen.toNat a.octets

/-- `contains_prefix`: the other prefix is this one or inside it. -/
def containsPrefix (p q : Prefix) : Bool :=
  p.addr.isIpv4 == q.addr.isIpv4 && !decide (q.prefixLen < p.prefixLen) && p.contains q.addr

instance : Ord Prefix := ⟨compareLex (compareOn addr) (compareOn prefixLen)⟩

instance : TransOrd Prefix := inferInstanceAs (TransCmp (compareLex _ _))

instance : LawfulEqOrd Prefix where
  eq_of_compare h := Prefix.ext_iff.mpr (eq_of_compareLex h)

end Prefix

/-- AFI and SAFI (RFC 4760). -/
@[ext] structure NlriFamily where
  afi : UInt16
  safi : UInt8
  deriving DecidableEq, Repr

namespace NlriFamily

/-- The families the speaker negotiates, as (AFI, SAFI). -/
def ipv4Unicast : NlriFamily := ⟨1, 1⟩
def ipv6Unicast : NlriFamily := ⟨2, 1⟩
def ipv4LabeledUnicast : NlriFamily := ⟨1, 4⟩
def ipv6LabeledUnicast : NlriFamily := ⟨2, 4⟩

/-- AFI 1. -/
def isIpv4 (f : NlriFamily) : Bool := f.afi == 1

/-- AFI 2. -/
def isIpv6 (f : NlriFamily) : Bool := f.afi == 2

/-- RFC 8277 labelled-unicast families: NLRI carries a label stack. -/
def isLabeledUnicast (f : NlriFamily) : Bool := f.safi == 4 && (f.afi == 1 || f.afi == 2)

/-- `NlriFamily::from_addr`. -/
def fromAddr (a : IpAddr) : NlriFamily := if a.isIpv4 then ipv4Unicast else ipv6Unicast

instance : Ord NlriFamily := ⟨compareLex (compareOn afi) (compareOn safi)⟩

instance : TransOrd NlriFamily := inferInstanceAs (TransCmp (compareLex _ _))

instance : LawfulEqOrd NlriFamily where
  eq_of_compare h := NlriFamily.ext_iff.mpr (eq_of_compareLex h)

end NlriFamily

end LibRouting.Core
