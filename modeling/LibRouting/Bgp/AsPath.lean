/-
  Bgp/AsPath.lean --- the AS_PATH attribute (`path/as_path.rs`).

  The attribute has two wire forms, with two- and four-octet AS numbers.  The
  segment header is the same in both, so encoding and decoding are stated once
  over the width.  The last section says exactly when a path survives each form:
  what the decoder returns is always as long, byte for byte, as what it read, so
  the two widths can only agree on paths without any AS number.
-/
import LibRouting.Core.Addr
import Mathlib.Algebra.BigOperators.Group.List.Basic

set_option autoImplicit false

namespace LibRouting.Bgp

open Foundation Core List Option

/-- AS_PATH segment kinds. -/
inductive AsPathType where
  | set
  | sequence
  | confedSequence
  | confedSet
  deriving DecidableEq, Repr

namespace AsPathType

/-- The octet on the wire. -/
def toU8 : AsPathType → UInt8
  | set => 1
  | sequence => 2
  | confedSequence => 3
  | confedSet => 4

/-- The segment type of an octet. -/
def fromU8 (v : UInt8) : Option AsPathType :=
  if v = 1 then some set
  else if v = 2 then some sequence
  else if v = 3 then some confedSequence
  else if v = 4 then some confedSet
  else none

@[simp] theorem fromU8_toU8 (k : AsPathType) : fromU8 k.toU8 = some k := by
  cases k <;> rfl

/-- A confederation segment. -/
def isConfed : AsPathType → Bool
  | confedSequence | confedSet => true
  | _ => false

end AsPathType

/-- A segment of an AS_PATH. -/
structure AsPathSegment where
  kind : AsPathType
  ases : List Asn
  deriving DecidableEq, Repr

/-- An AS_PATH. -/
structure AsPath where
  segments : List AsPathSegment
  deriving DecidableEq, Repr

namespace AsPath
variable {segs : List AsPathSegment}

/-- The empty path. -/
def new : AsPath := ⟨[]⟩

/-- How many hops a segment counts for: an AS_SET is one hop, confederation
segments none (RFC 4271 §9.1.2.2, RFC 5065 §5.3). -/
def segmentLength (s : AsPathSegment) : Nat :=
  match s.kind with
  | .sequence => s.ases.length
  | .set => 1
  | .confedSequence | .confedSet => 0

/-- `AsPath::length`. -/
def length (p : AsPath) : Nat := (p.segments.map segmentLength).sum

/-- `AsPath::length_with_confed`. -/
def lengthWithConfed (p : AsPath) : Nat :=
  (p.segments.map fun s =>
    match s.kind with
    | .sequence | .confedSequence => s.ases.length
    | .set | .confedSet => 1).sum

/-- Insert `a` at the head of the first segment of kind `k`, wherever it stands;
`none` when there is no such segment. -/
def prependInto (k : AsPathType) (a : Asn) : List AsPathSegment → Option (List AsPathSegment)
  | [] => none
  | s :: rest =>
    if s.kind = k then some (⟨s.kind, a :: s.ases⟩ :: rest)
    else (prependInto k a rest).map (s :: ·)

/-- Prepend to the first segment of kind `k`, opening one at the front when the
path has none. -/
def prependKind (k : AsPathType) (p : AsPath) (a : Asn) : AsPath :=
  ⟨(prependInto k a p.segments).getD (⟨k, [a]⟩ :: p.segments)⟩

/-- `AsPath::prepend`. -/
def prepend : AsPath → Asn → AsPath := prependKind .sequence

/-- `AsPath::prepend_confed`. -/
def prependConfed : AsPath → Asn → AsPath := prependKind .confedSequence

/-- `AsPath::strip_confed` (the path afterwards). -/
def stripConfed (p : AsPath) : AsPath := ⟨p.segments.filter fun s => !s.kind.isConfed⟩

/-- `AsPath::has_confed`. -/
def hasConfed (p : AsPath) : Bool := p.segments.any fun s => s.kind.isConfed

/-! ## Wire forms -/

/-- The octets of one AS number. -/
def asWidth (wide : Bool) : Nat := if wide then 4 else 2

/-- The AS number at the front of the input.  The decoder checks the length of
the whole segment first, so the last case is not reached. -/
def readAsn (wide : Bool) (b : Bytes) : Asn :=
  match wide, b with
  | true, a :: b :: c :: d :: _ => fromBe32 a b c d
  | false, a :: b :: _ => (fromBe16 a b).toUInt32
  | _, _ => 0

/-- `for _ in 0..count { .. }`. -/
def readAses (wide : Bool) : Nat → Bytes → List Asn
  | 0, _ => []
  | n + 1, b => readAsn wide b :: readAses wide n (b.drop (asWidth wide))

/-- The segment loop of `AsPath::decode_inner`. -/
def decodeSegments (wide : Bool) (b : Bytes) : Option (List AsPathSegment) :=
  match b with
  | [] => some []
  | [_] => none
  | k :: c :: rest =>
    match AsPathType.fromU8 k with
    | none => none
    | some kind =>
      if rest.length < c.toNat * asWidth wide then none
      else
        (decodeSegments wide (rest.drop (c.toNat * asWidth wide))).map
          (⟨kind, readAses wide c.toNat rest⟩ :: ·)
termination_by b.length
decreasing_by
  simp only [length_cons, length_drop]
  omega

/-- `AsPath::decode_inner`. -/
def decodeInner (b : Bytes) (wide : Bool) : Option AsPath :=
  (decodeSegments wide b).map AsPath.mk

/-- `AsPath::decode`: the two-octet form. -/
def decode (b : Bytes) : Option AsPath := decodeInner b false

/-- `AsPath::decode_4`: the four-octet form. -/
def decode4 (b : Bytes) : Option AsPath := decodeInner b true

/-- One segment: kind, member count truncated to an octet, members. -/
def segmentWire (asn : Asn → Bytes) (s : AsPathSegment) : Bytes :=
  s.kind.toU8 :: UInt8.ofNat s.ases.length :: s.ases.flatMap asn

/-- The attribute value with AS numbers written by `asn`. -/
def encodeWith (asn : Asn → Bytes) (p : AsPath) : Bytes := p.segments.flatMap (segmentWire asn)

/-- `a.0.min(0xffff)`: what the two-octet encoder writes for `a`. -/
def clamp (a : Asn) : Asn := min a 0xffff

/-- `AsPath::encode_2`. -/
def encode2 : AsPath → Bytes := encodeWith fun a => toBe16 (clamp a).toUInt16

/-- `AsPath::encode_4`. -/
def encode4 : AsPath → Bytes := encodeWith toBe32

/-- Apply `f` to every AS number of the path. -/
def mapAsns (f : Asn → Asn) (p : AsPath) : AsPath :=
  ⟨p.segments.map fun s => ⟨s.kind, s.ases.map f⟩⟩

/-- Every AS number of the path, in order. -/
def asns (p : AsPath) : List Asn := p.segments.flatMap AsPathSegment.ases

/-! ## AS4_PATH reconciliation (RFC 6793 §4.2.3) -/

/-- `as_path_count`. -/
def asPathCount (p : AsPath) : Nat := (p.segments.map segmentLength).sum

/-- Take whole leading segments while they fit `need` AS numbers; returns what
was taken and how many AS numbers it holds.  A confederation segment counts here
like its plain form. -/
def takeSegments (need : Nat) : List AsPathSegment → Nat → List AsPathSegment × Nat
  | [], count => ([], count)
  | s :: rest, count =>
    let segCount := match s.kind with
      | .sequence | .confedSequence => s.ases.length
      | .set | .confedSet => 1
    if count ≥ need then ([], count)
    else if count + segCount > need then ([], count)
    else
      let (taken, total) := takeSegments need rest (count + segCount)
      (s :: taken, total)

/-- The truncated leading sequence that covers a remaining deficit. -/
def deficitSegment (deficit : Nat) (wire : List AsPathSegment) : List AsPathSegment :=
  match wire.find? fun s => s.kind = .sequence ∧ 0 < min s.ases.length deficit with
  | some s => [⟨.sequence, s.ases.take (min s.ases.length deficit)⟩]
  | none => []

/-- `reconcile_as4`. -/
def reconcileAs4 (wire : AsPath) (as4 : Option AsPath) : AsPath :=
  match as4 with
  | none => wire
  | some a =>
    if a.segments = [] then wire
    else if asPathCount wire < asPathCount a then wire
    else if asPathCount wire = asPathCount a then a
    else
      let need := asPathCount wire - asPathCount a
      let (taken, takenCount) := takeSegments need wire.segments 0
      let extra :=
        if takenCount < need then deficitSegment (need - takenCount) wire.segments else []
      ⟨taken ++ extra ++ a.segments⟩

/-! ## What survives each wire form -/

/-- The wire length of a segment list at a given AS-number width. -/
def wireLength (width : Nat) (segs : List AsPathSegment) : Nat :=
  (segs.map fun s => 2 + width * s.ases.length).sum

@[simp] theorem wireLength_nil (width : Nat) : wireLength width [] = 0 := rfl

@[simp] theorem wireLength_cons (width : Nat) (s : AsPathSegment) (segs : List AsPathSegment) :
    wireLength width (s :: segs) = 2 + width * s.ases.length + wireLength width segs := by
  simp [wireLength]

theorem ases_eq_nil_of_wireLength_eq (h : wireLength 2 segs = wireLength 4 segs) :
    ∀ s ∈ segs, s.ases = [] := by
  have hle : ∀ segs : List AsPathSegment, wireLength 2 segs ≤ wireLength 4 segs := by
    intro segs
    induction segs with
    | nil => simp
    | cons s segs ih => simp only [wireLength_cons]; omega
  induction segs with
  | nil => simp
  | cons s segs ih =>
    simp only [wireLength_cons] at h
    have := hle segs
    exact forall_mem_cons.mpr ⟨length_eq_zero_iff.mp (by omega), ih (by omega)⟩

@[simp] theorem readAses_length (wide : Bool) (n : Nat) (b : Bytes) :
    (readAses wide n b).length = n := by
  induction n generalizing b with
  | zero => rfl
  | succ n ih => simp [readAses, ih]

/-- The decoder accounts for every byte it read, and no segment it returns has
more than 255 members. -/
theorem decodeSegments_length (wide : Bool) (b : Bytes) (h : decodeSegments wide b = some segs) :
    b.length = wireLength (asWidth wide) segs ∧ ∀ s ∈ segs, s.ases.length ≤ 255 := by
  fun_induction decodeSegments wide b generalizing segs with
  | case1 =>
    cases h
    simp
  | case2 | case3 | case4 => cases h
  | case5 k c rest kind _ hlong ih =>
    obtain ⟨segs', hsegs', rfl⟩ := map_eq_some_iff.mp h
    have hc := c.toNat_lt
    obtain ⟨hl, hmax⟩ := ih hsegs'
    rw [length_drop] at hl
    have hmul : asWidth wide * c.toNat = c.toNat * asWidth wide := Nat.mul_comm _ _
    refine ⟨?_, forall_mem_cons.mpr ⟨?_, hmax⟩⟩
    · simp only [wireLength_cons, readAses_length, length_cons]; omega
    · simp only [readAses_length]; omega

theorem clamp_toNat_le (a : Asn) : (clamp a).toNat ≤ 65535 := by
  show (if a ≤ 0xffff then a else 0xffff).toNat ≤ 65535
  split
  · rename_i h
    exact UInt32.le_iff_toNat_le.mp h
  · simp

/-- `asn` writes AS numbers at the width of `wide`, and `seen` is what a reader
of that width makes of them. -/
structure AsnForm (wide : Bool) (asn : Asn → Bytes) (seen : Asn → Asn) : Prop where
  length_eq : ∀ a, (asn a).length = asWidth wide
  read : ∀ a r, readAsn wide (asn a ++ r) = seen a

theorem asnForm_wide : AsnForm true toBe32 id where
  length_eq _ := rfl
  read a _ := fromBe32_toBe32 a

theorem asnForm_narrow : AsnForm false (fun a => toBe16 (clamp a).toUInt16) clamp where
  length_eq _ := rfl
  read a _ := by
    have hle := clamp_toNat_le a
    show (fromBe16 _ _).toUInt32 = clamp a
    rw [fromBe16_toBe16]
    apply UInt32.toNat_inj.mp
    simp only [UInt16.toNat_toUInt32, UInt32.toNat_toUInt16]
    omega

section Form

variable {wide : Bool} {asn : Asn → Bytes} {seen : Asn → Asn}

section

variable (hf : AsnForm wide asn seen)
include hf

theorem AsnForm.flatMap_length (as : List Asn) :
    (as.flatMap asn).length = as.length * asWidth wide := by
  induction as with
  | nil => simp
  | cons a as ih =>
    simp only [flatMap_cons, length_append, hf.length_eq, ih, length_cons]
    rw [Nat.succ_mul, Nat.add_comm]

theorem AsnForm.readAses_flatMap (as : List Asn) (r : Bytes) :
    readAses wide as.length (as.flatMap asn ++ r) = as.map seen := by
  induction as with
  | nil => rfl
  | cons a as ih =>
    simp only [length_cons, readAses, flatMap_cons, append_assoc, hf.read,
      map_cons]
    rw [← hf.length_eq a, drop_left, ih]

/-- One encoded segment with at most 255 members is read back, whatever follows
it. -/
theorem AsnForm.decodeSegments_append (s : AsPathSegment) (hs : s.ases.length ≤ 255) (r : Bytes) :
    decodeSegments wide (segmentWire asn s ++ r) =
      (decodeSegments wide r).map (⟨s.kind, s.ases.map seen⟩ :: ·) := by
  have hcount : (UInt8.ofNat s.ases.length).toNat = s.ases.length := by
    simp only [UInt8.toNat_ofNat']; omega
  have hlen := hf.flatMap_length s.ases
  rw [segmentWire, cons_append, cons_append, decodeSegments]
  simp only [AsPathType.fromU8_toU8, hcount, length_append, hlen]
  rw [if_neg (by omega), ← hlen, drop_left, hf.readAses_flatMap]

theorem AsnForm.decodeInner_encodeWith (p : AsPath) (hp : ∀ s ∈ p.segments, s.ases.length ≤ 255) :
    decodeInner (encodeWith asn p) wide = some (mapAsns seen p) := by
  obtain ⟨segs⟩ := p
  simp only [decodeInner, encodeWith, mapAsns]
  induction segs with
  | nil => simp [decodeSegments]
  | cons s segs ih =>
    rw [flatMap_cons, hf.decodeSegments_append s (hp s (by simp))]
    have := ih fun t ht => hp t (by simp_all)
    simp only [map_eq_some_iff, mk.injEq, exists_eq_right] at this
    simp [this]

theorem AsnForm.encodeWith_length (p : AsPath) :
    (encodeWith asn p).length = wireLength (asWidth wide) p.segments := by
  obtain ⟨segs⟩ := p
  simp only [encodeWith]
  induction segs with
  | nil => rfl
  | cons s segs ih =>
    simp only [flatMap_cons, length_append, ih, wireLength_cons, segmentWire,
      length_cons, hf.flatMap_length]
    rw [Nat.mul_comm (asWidth wide)]
    omega

end

end Form
variable {f : Asn → Asn} {p : AsPath}

/-- The four-octet form carries a path exactly when every segment fits its
count octet. -/
theorem decode4_encode4_iff (p : AsPath) :
    decode4 (encode4 p) = some p ↔ ∀ s ∈ p.segments, s.ases.length ≤ 255 := by
  constructor
  · intro h
    obtain ⟨segs, hsegs, rfl⟩ := map_eq_some_iff.mp h
    exact (decodeSegments_length true _ hsegs).2
  · intro h
    have := asnForm_wide.decodeInner_encodeWith p h
    simpa [mapAsns, decode4, encode4] using this

/-! ## Across widths -/

/-- The attribute value at a width. -/
def encodeAt (wide : Bool) (p : AsPath) : Bytes := if wide then p.encode4 else p.encode2

theorem encodeAt_length (wide : Bool) (p : AsPath) :
    (encodeAt wide p).length = wireLength (asWidth wide) p.segments := by
  cases wide with
  | false => exact asnForm_narrow.encodeWith_length p
  | true => exact asnForm_wide.encodeWith_length p

@[simp] theorem wireLength_mapAsns (width : Nat) (f : Asn → Asn) (p : AsPath) :
    wireLength width (p.mapAsns f).segments = wireLength width p.segments := by
  simp [wireLength, mapAsns, Function.comp_def]

theorem asns_eq_nil_iff (p : AsPath) : p.asns = [] ↔ ∀ s ∈ p.segments, s.ases = [] := by
  simp [asns, flatMap_eq_nil_iff]

theorem mapAsns_eq_self (h : ∀ a ∈ p.asns, f a = a) : p.mapAsns f = p := by
  obtain ⟨segs⟩ := p
  have hsegs : segs.map (fun s => (⟨s.kind, s.ases.map f⟩ : AsPathSegment)) = segs := by
    refine (map_congr_left fun s hs => ?_).trans (map_id segs)
    have hs' : s.ases.map f = s.ases :=
      (map_congr_left fun a ha => h a (mem_flatMap.mpr ⟨s, hs, ha⟩)).trans
        (map_id _)
    simp [hs']
  simp [mapAsns, hsegs]

theorem decodeInner_length {wide : Bool} {b : Bytes} (h : decodeInner b wide = some p) :
    b.length = wireLength (asWidth wide) p.segments ∧ ∀ s ∈ p.segments, s.ases.length ≤ 255 := by
  obtain ⟨segs, hsegs, rfl⟩ := map_eq_some_iff.mp h
  exact decodeSegments_length wide b hsegs

theorem asns_eq_nil_of_decode_other {wide : Bool}
    (h : decodeInner (encodeAt wide p) (!wide) = some (p.mapAsns f)) : p.asns = [] := by
  have hlen := (decodeInner_length h).1
  rw [encodeAt_length, wireLength_mapAsns] at hlen
  rw [asns_eq_nil_iff]
  cases wide with
  | false => exact ases_eq_nil_of_wireLength_eq hlen
  | true => exact ases_eq_nil_of_wireLength_eq hlen.symm

theorem encodeAt_eq_of_asns_nil (h : p.asns = []) (wide wide' : Bool) :
    encodeAt wide p = encodeAt wide' p := by
  have hforms : p.encode4 = p.encode2 := by
    rw [asns_eq_nil_iff] at h
    refine flatMap_congr fun s hs => ?_
    simp [segmentWire, h s hs]
  cases wide <;> cases wide' <;> simp [encodeAt, hforms]

theorem decode_encodeAt (hp : ∀ s ∈ p.segments, s.ases.length ≤ 255) (wide : Bool) :
    decodeInner (encodeAt wide p) wide = some (p.mapAsns (if wide then id else clamp)) := by
  cases wide with
  | false => exact asnForm_narrow.decodeInner_encodeWith p hp
  | true => exact asnForm_wide.decodeInner_encodeWith p hp

end AsPath

end LibRouting.Bgp
