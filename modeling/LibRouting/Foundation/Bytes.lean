/-
  Foundation/Bytes.lean --- byte strings, fixed-width octet arrays and
  big-endian fields.

  A wire codec is stated over `List UInt8`.  Integer fields keep their machine
  width (`UInt16`, `UInt32`); the two directions of each big-endian field are
  mutually inverse, which is all a round-trip proof above needs to know.
-/
import Mathlib.Algebra.Order.Ring.Nat
import Mathlib.Data.List.Basic
import Mathlib.Data.Nat.Basic

set_option autoImplicit false

namespace LibRouting.Foundation

open List

/-- A byte string. -/
abbrev Bytes : Type := List UInt8

/-! ## Fixed-width arrays -/

/-- An array of exactly `n` octets. -/
@[ext] structure Octets (n : Nat) where
  bytes : Bytes
  length_eq : bytes.length = n
  deriving DecidableEq, Repr

namespace Octets

attribute [simp] length_eq

/-- The first `n` bytes of `b`, padded with zero bytes on the right: a zeroed
array with a slice of at most `n` bytes copied to its front. -/
def padded (n : Nat) (b : Bytes) : Octets n where
  bytes := (b ++ replicate n 0).take n
  length_eq := by simp

/-- The all-zero array. -/
def zero (n : Nat) : Octets n := padded n []

instance (n : Nat) : Inhabited (Octets n) := ⟨zero n⟩

theorem padded_bytes_of_le {n : Nat} {b : Bytes} (h : b.length ≤ n) :
    (padded n b).bytes = b ++ replicate (n - b.length) 0 := by
  simp [padded, take_append, take_of_length_le h, take_replicate]

/-- The copied slice is read back from the front of the array. -/
theorem take_padded {n : Nat} {b : Bytes} (h : b.length ≤ n) :
    (padded n b).bytes.take b.length = b := by
  rw [padded_bytes_of_le h, take_left]

/-- An array whose bytes from `k` on are zero is the padding of its first `k`
bytes. -/
theorem padded_take {n k : Nat} (a : Octets n) (hzero : a.bytes.drop k = replicate (n - k) 0)
    (hk : k ≤ n) : padded n (a.bytes.take k) = a := by
  have hlen : (a.bytes.take k).length = k := by simp [hk]
  apply Octets.ext
  rw [padded_bytes_of_le (by omega), hlen, ← hzero, take_append_drop]

end Octets

/-! ## Big-endian fields -/

/-- `u16::to_be_bytes`. -/
def toBe16 (v : UInt16) : Bytes :=
  [UInt8.ofNat (v.toNat / 2 ^ 8), UInt8.ofNat v.toNat]

/-- `u16::from_be_bytes`. -/
def fromBe16 (a b : UInt8) : UInt16 :=
  UInt16.ofNat (a.toNat * 2 ^ 8 + b.toNat)

/-- `u32::to_be_bytes`. -/
def toBe32 (v : UInt32) : Bytes :=
  [UInt8.ofNat (v.toNat / 2 ^ 24), UInt8.ofNat (v.toNat / 2 ^ 16),
    UInt8.ofNat (v.toNat / 2 ^ 8), UInt8.ofNat v.toNat]

/-- `u32::from_be_bytes`. -/
def fromBe32 (a b c d : UInt8) : UInt32 :=
  UInt32.ofNat (a.toNat * 2 ^ 24 + b.toNat * 2 ^ 16 + c.toNat * 2 ^ 8 + d.toNat)

@[simp] theorem toBe16_length (v : UInt16) : (toBe16 v).length = 2 := rfl

@[simp] theorem toBe32_length (v : UInt32) : (toBe32 v).length = 4 := rfl

@[simp] theorem fromBe16_toNat (a b : UInt8) :
    (fromBe16 a b).toNat = a.toNat * 2 ^ 8 + b.toNat := by
  have ha := a.toNat_lt
  have hb := b.toNat_lt
  simp only [fromBe16, UInt16.toNat_ofNat']
  omega

@[simp] theorem fromBe32_toNat (a b c d : UInt8) :
    (fromBe32 a b c d).toNat = a.toNat * 2 ^ 24 + b.toNat * 2 ^ 16 + c.toNat * 2 ^ 8 + d.toNat := by
  have ha := a.toNat_lt
  have hb := b.toNat_lt
  have hc := c.toNat_lt
  have hd := d.toNat_lt
  simp only [fromBe32, UInt32.toNat_ofNat']
  omega

theorem toBe16_fromBe16 (a b : UInt8) : toBe16 (fromBe16 a b) = [a, b] := by
  have ha := a.toNat_lt
  have hb := b.toNat_lt
  simp only [toBe16, fromBe16_toNat, cons.injEq, ← UInt8.toNat_inj,
    UInt8.toNat_ofNat', and_true]
  omega

theorem fromBe16_toBe16 (v : UInt16) :
    fromBe16 (UInt8.ofNat (v.toNat / 2 ^ 8)) (UInt8.ofNat v.toNat) = v := by
  have hv := v.toNat_lt
  simp only [← UInt16.toNat_inj, fromBe16_toNat, UInt8.toNat_ofNat']
  omega

theorem fromBe32_toBe32 (v : UInt32) :
    fromBe32 (UInt8.ofNat (v.toNat / 2 ^ 24)) (UInt8.ofNat (v.toNat / 2 ^ 16))
      (UInt8.ofNat (v.toNat / 2 ^ 8)) (UInt8.ofNat v.toNat) = v := by
  have hv := v.toNat_lt
  simp only [← UInt32.toNat_inj, fromBe32_toNat, UInt8.toNat_ofNat']
  omega

/-! ## Records compared field by field -/

section Fields

universe u v
variable {α : Type u} {β γ δ : Type v} [Ord β] [Ord γ] [Ord δ] [Std.LawfulEqOrd β]
  [Std.LawfulEqOrd γ] [Std.LawfulEqOrd δ] {f : α → β} {g : α → γ} {k : α → δ} {a b : α}

theorem eq_of_compareLex (h : compareLex (compareOn f) (compareOn g) a b = .eq) :
    f a = f b ∧ g a = g b := by
  obtain ⟨h₁, h₂⟩ := Ordering.then_eq_eq.mp h
  exact ⟨Std.LawfulEqOrd.eq_of_compare h₁, Std.LawfulEqOrd.eq_of_compare h₂⟩

theorem eq_of_compareLex₃
    (h : compareLex (compareOn f) (compareLex (compareOn g) (compareOn k)) a b = .eq) :
    f a = f b ∧ g a = g b ∧ k a = k b := by
  obtain ⟨h₁, h₂⟩ := Ordering.then_eq_eq.mp h
  exact ⟨Std.LawfulEqOrd.eq_of_compare h₁, eq_of_compareLex h₂⟩

end Fields

end LibRouting.Foundation
