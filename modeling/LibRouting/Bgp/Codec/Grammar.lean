/-
  Bgp/Codec/Grammar.lean --- what the section decoders accept.

  Each loop of the UPDATE decoders reads a section entry by entry.  This file
  gives the entries a grammar that mentions no decoder (`NlriEntry`,
  `AttrEntry`) and proves that one turn of each loop accepts exactly one entry.
  Results about whole sections then follow from the rules of `scan`: safety and
  round trip use these and never unfold a loop again.
-/
import LibRouting.Bgp.MpNlri

set_option autoImplicit false

namespace LibRouting.Bgp

open Foundation Core Outcome Prefix BgpUpdateErrorSubcode List

/-! ## NLRI entries -/

/-- How a section's prefixes are read: the octets of an address and the prefix
built from them; `none` when the section's family is unknown. -/
abbrev AddressForm : Type := Option (Nat × (Bytes → UInt8 → Prefix))

/-- The address form of the plain IPv4 sections. -/
def ipv4Form : AddressForm := some (4, fun a pl => .newV4 (.padded 4 a) pl)

/-- What stands in front of a prefix length: with Add-Path framing, a path identifier. -/
inductive PathIdOctets : Bool → Bytes → UInt32 → Prop where
  | absent : PathIdOctets false [] 0
  | present (a b c d : UInt8) : PathIdOctets true [a, b, c, d] (fromBe32 a b c d)

theorem PathIdOctets.wire (addPath : Bool) (id : UInt32) :
    PathIdOctets addPath (if addPath then toBe32 id else []) (if addPath then id else 0) := by
  cases addPath with
  | false => exact .absent
  | true =>
    have hid : PathIdOctets true (toBe32 id) (fromBe32 _ _ _ _) := .present _ _ _ _
    rwa [fromBe32_toBe32] at hid

/-- `NlriEntry form addPath b n`: the bytes `b` are one NLRI entry and read as
`n`. -/
inductive NlriEntry (form : AddressForm) (addPath : Bool) : Bytes → Nlri → Prop where
  | intro {front body : Bytes} {id : UInt32} {pl : UInt8} {width : Nat}
      {address : Bytes → UInt8 → Prefix} :
      PathIdOctets addPath front id → form = some (width, address) →
      body.length = octetCount pl → octetCount pl ≤ width →
      NlriEntry form addPath (front ++ pl :: body) ⟨id, address body pl⟩

/-- One turn of an NLRI loop: an entry is read and pushed. -/
def NlriPush (form : AddressForm) (addPath : Bool) (out : List Nlri) (b : Bytes)
    (out' : List Nlri) : Prop :=
  ∃ n, NlriEntry form addPath b n ∧ out' = out ++ [n]

theorem NlriPush.ne_nil {form : AddressForm} {addPath : Bool} {out out' : List Nlri}
    {b : Bytes} (h : NlriPush form addPath out b out') : b ≠ [] := by
  obtain ⟨n, ⟨⟩, -⟩ := h
  simp

/-- A complete entry: the prefix length is in range for the family and its octets
are all there. -/
def EntryFits (form : AddressForm) (pl : UInt8) (tail : Bytes) : Prop :=
  (∃ width address, form = some (width, address) ∧ octetCount pl ≤ width) ∧
    octetCount pl ≤ tail.length

/-- What every NLRI loop of the source does with the bytes at its cursor. -/
structure IsNlriTurn {ε : Type} (form : AddressForm) (addPath : Bool)
    (turn : List Nlri → Nat → Bytes → Outcome ε (List Nlri × Nat)) : Prop where
  front_ok : ∀ {front id}, PathIdOctets addPath front id → ∀ {width address},
    form = some (width, address) → ∀ out i pl tail, octetCount pl ≤ width →
    octetCount pl ≤ tail.length → turn out i (front ++ pl :: tail) =
      ok (out ++ [⟨id, address (tail.take (octetCount pl)) pl⟩], front.length + 1 + octetCount pl)
  front_err : ∀ {front id}, PathIdOctets addPath front id → ∀ out i pl tail,
    ¬ EntryFits form pl tail → ∃ e, turn out i (front ++ pl :: tail) = err e
  short : addPath = true → ∀ out i rest, rest.length < 4 → ∃ e, turn out i rest = err e
  dangling : addPath = true → ∀ out i a b c d, turn out i [a, b, c, d] = abort

/-- A section that is not empty is too short for a path identifier, ends with one, or goes on
with a prefix length. -/
theorem nlri_shape (addPath : Bool) {rest : Bytes} (hrest : rest ≠ []) :
    (addPath = true ∧ rest.length < 4) ∨ (addPath = true ∧ ∃ a b c d, rest = [a, b, c, d]) ∨
      ∃ front id pl tail, PathIdOctets addPath front id ∧ rest = front ++ pl :: tail := by
  cases addPath with
  | false =>
    obtain ⟨pl, tail, rfl⟩ := exists_cons_of_ne_nil hrest
    exact .inr (.inr ⟨[], 0, pl, tail, .absent, rfl⟩)
  | true =>
    match rest with
    | [] | [_] | [_, _] | [_, _, _] => left; simp
    | [a, b, c, d] => exact .inr (.inl ⟨rfl, a, b, c, d, rfl⟩)
    | a :: b :: c :: d :: pl :: tail =>
      exact .inr (.inr ⟨_, _, pl, tail, .present a b c d, rfl⟩)

section NlriTurn

variable {ε : Type} {form : AddressForm} {addPath : Bool}
  {turn : List Nlri → Nat → Bytes → Outcome ε (List Nlri × Nat)}

theorem IsNlriTurn.sound (h : IsNlriTurn form addPath turn) {out out' : List Nlri} {i n : Nat}
    {rest : Bytes} (hrest : rest ≠ []) (hok : turn out i rest = ok (out', n)) :
    ∃ b r, rest = b ++ r ∧ b.length = n ∧ 0 < n ∧ NlriPush form addPath out b out' := by
  obtain ⟨rfl, hshort⟩ | ⟨rfl, a, b, c, d, rfl⟩ | ⟨front, id, pl, tail, hfront, rfl⟩ :=
    nlri_shape addPath hrest
  · obtain ⟨e, he⟩ := h.short rfl out i rest hshort
    simp [he] at hok
  · simp [h.dangling rfl] at hok
  by_cases hfit : EntryFits form pl tail
  · obtain ⟨⟨width, address, hform, hw⟩, hlen⟩ := hfit
    rw [h.front_ok hfront hform _ _ _ _ hw hlen] at hok
    obtain ⟨rfl, rfl⟩ := Prod.mk.inj (Outcome.ok.inj hok)
    have htake : (tail.take (octetCount pl)).length = octetCount pl := length_take_of_le hlen
    refine ⟨front ++ pl :: tail.take (octetCount pl), tail.drop (octetCount pl), by simp, ?_,
      by omega, _, .intro hfront hform htake hw, rfl⟩
    rw [length_append, length_cons, htake]
    omega
  · obtain ⟨e, he⟩ := h.front_err hfront out i pl tail hfit
    simp [he] at hok

/-- One turn accepts exactly the entries of the section. -/
theorem IsNlriTurn.accepts (h : IsNlriTurn form addPath turn) :
    Accepts turn (NlriPush form addPath) := by
  intro out i rest out' n hrest
  refine ⟨h.sound hrest, ?_⟩
  rintro ⟨b, r, rfl, rfl, -, e, @⟨front, body, id, pl, width, address, hfront, hform, hbody, hw⟩,
    rfl⟩
  rw [append_assoc, cons_append, h.front_ok hfront hform out i pl (body ++ r) hw (by simp [hbody]),
    ← hbody, take_left, length_append, length_cons, Nat.add_right_comm, Nat.add_assoc]

/-- A turn panics exactly on a path identifier with nothing behind it. -/
theorem IsNlriTurn.abort_iff (h : IsNlriTurn form addPath turn) (out : List Nlri) (i : Nat)
    (rest : Bytes) (hrest : rest ≠ []) :
    turn out i rest = abort ↔ addPath = true ∧ rest.length = 4 := by
  obtain ⟨rfl, hshort⟩ | ⟨rfl, a, b, c, d, rfl⟩ | ⟨front, id, pl, tail, hfront, rfl⟩ :=
    nlri_shape addPath hrest
  · obtain ⟨e, he⟩ := h.short rfl out i rest hshort
    simp [he]
    omega
  · simp [h.dangling rfl]
  have hlong : ¬ (addPath = true ∧ (front ++ pl :: tail).length = 4) := by cases hfront <;> simp
  refine iff_of_false ?_ hlong
  by_cases hfit : EntryFits form pl tail
  · obtain ⟨⟨width, address, hform, hw⟩, hlen⟩ := hfit
    simp [h.front_ok hfront hform _ _ _ _ hw hlen]
  · obtain ⟨e, he⟩ := h.front_err hfront out i pl tail hfit
    simp [he]

end NlriTurn

/-! ### The loops of the source -/

theorem octetCount_le_four_iff (pl : UInt8) : octetCount pl ≤ 4 ↔ ¬ 32 < pl := by
  rw [UInt8.lt_iff_toNat_lt]
  simp only [octetCount]
  show _ ↔ ¬ 32 < pl.toNat
  omega

section

variable {ε : Type} {addPath : Bool} {front tail : Bytes} {id : UInt32} {pl : UInt8} {n : Nat}

theorem readPathId_front (h : PathIdOctets addPath front id) (e : ε) (rest : Bytes) :
    readPathId addPath e (front ++ rest) = ok (id, front.length) := by
  cases h <;> simp [readPathId, readBe32]

theorem readPathId_short (e : ε) {rest : Bytes} (h : rest.length < 4) :
    readPathId true e rest = err e := by
  simp [readPathId, h]

theorem index_behind (front : Bytes) (pl : UInt8) (tail : Bytes) :
    (index (front ++ pl :: tail) front.length : Outcome ε UInt8) = ok pl := by
  simp [index]

theorem slice_behind (front : Bytes) (h : n ≤ tail.length) :
    (slice (front ++ tail) front.length (front.length + n) : Outcome ε Bytes) =
      ok (tail.take n) := by
  rw [slice_of_le (by omega) (by rw [length_append]; omega), drop_left, Nat.add_sub_cancel_left]

theorem slice_prefix (front : Bytes) (h : octetCount pl ≤ tail.length) :
    (slice (front ++ pl :: tail) (front.length + 1) (front.length + 1 + octetCount pl) :
      Outcome ε Bytes) = ok (tail.take (octetCount pl)) := by
  rw [append_cons, show front.length + 1 = (front ++ [pl]).length by simp]
  exact slice_behind _ h

end

theorem isNlriTurn_decodeNlriTurn (addPath : Bool) :
    IsNlriTurn ipv4Form addPath (decodeNlriTurn addPath) := by
  refine ⟨?_, ?_, ?_, ?_⟩
  · rintro front id hfront width address ⟨⟩ out i pl tail hw hlen
    have h32 := (octetCount_le_four_iff pl).mp hw
    have hshort : ¬ (front ++ pl :: tail).length < front.length + 1 + octetCount pl := by
      simp only [length_append, length_cons]
      omega
    simp only [decodeNlriTurn, readPathId_front hfront, ok_bind, index_behind, h32, hshort,
      if_false,
      slice_prefix front hlen, pure_eq_ok]
  · intro front id hfront out i pl tail hfit
    simp only [decodeNlriTurn, readPathId_front hfront, ok_bind, index_behind]
    split
    · exact ⟨_, rfl⟩
    rename_i h32
    split
    · exact ⟨_, rfl⟩
    rename_i hlen
    refine absurd ⟨⟨4, _, rfl, (octetCount_le_four_iff pl).mpr h32⟩, ?_⟩ hfit
    simp only [length_append, length_cons] at hlen
    omega
  · rintro rfl out i rest hshort
    exact ⟨_, by simp [decodeNlriTurn, readPathId_short _ hshort]; rfl⟩
  · rintro rfl out i a b c d
    simp [decodeNlriTurn, readPathId, readBe32]

theorem isNlriTurn_decodeMpNlriTurn (family : NlriFamily) (addPath : Bool) :
    IsNlriTurn (mpAddress family) addPath (decodeMpNlriTurn family addPath) := by
  refine ⟨?_, ?_, ?_, ?_⟩
  · intro front id hfront width address hform out i pl tail hw hlen
    have hshort : ¬ (front ++ pl :: tail).length < front.length + 1 + octetCount pl := by
      simp only [length_append, length_cons]
      omega
    simp only [decodeMpNlriTurn, readPathId_front hfront, ok_bind, index_behind, hshort, if_false,
      hform, if_neg (Nat.not_lt.mpr hw), slice_prefix front hlen, pure_eq_ok]
  · intro front id hfront out i pl tail hfit
    simp only [decodeMpNlriTurn, readPathId_front hfront, ok_bind, index_behind]
    split
    · exact ⟨_, rfl⟩
    rename_i hlen
    split
    · exact ⟨_, rfl⟩
    rename_i width address hform
    split
    · exact ⟨_, rfl⟩
    rename_i hw
    refine absurd ⟨⟨width, address, hform, by omega⟩, ?_⟩ hfit
    simp only [length_append, length_cons] at hlen
    omega
  · rintro rfl out i rest hshort
    exact ⟨(), by simp [decodeMpNlriTurn, readPathId_short _ hshort]⟩
  · rintro rfl out i a b c d
    simp [decodeMpNlriTurn, readPathId, readBe32]

/-! ## Attribute entries -/

/-- What stands in front of an attribute's value, with the length it announces.  The
flags octet decides the width of the length field. -/
inductive AttrHeader (flags ty : UInt8) : Bytes → Nat → Prop where
  | short {len : UInt8} : (PathAttrFlags.mk flags).extendedLength = false →
      AttrHeader flags ty [flags, ty, len] len.toNat
  | extended {hi lo : UInt8} : (PathAttrFlags.mk flags).extendedLength = true →
      AttrHeader flags ty [flags, ty, hi, lo] (fromBe16 hi lo).toNat

/-- `AttrEntry b a`: the bytes `b` are one path attribute and read as `a`. -/
inductive AttrEntry : Bytes → PathAttribute → Prop where
  | intro {flags ty : UInt8} {front value : Bytes} {n : Nat} :
      AttrHeader flags ty front n → value.length = n →
      AttrEntry (front ++ value) ⟨⟨flags⟩, AttrType.fromU8 ty, value⟩

section

variable (out : PathAttributes) (i : Nat)

/-- One turn of the attribute loop: an attribute of a type not seen before is
read and pushed. -/
def AttrPush (b : Bytes) (out' : PathAttributes) : Prop :=
  ∃ a, AttrEntry b a ∧ out.get a.attrType = none ∧ out' = out.insert a

theorem AttrEntry.ne_nil {b : Bytes} {a : PathAttribute} (h : AttrEntry b a) : b ≠ [] := by
  obtain ⟨hfront, -⟩ := h
  cases hfront <;> simp

theorem AttrPush.ne_nil {out out' : PathAttributes} {b : Bytes} (h : AttrPush out b out') :
    b ≠ [] := by
  obtain ⟨a, ha, -⟩ := h
  exact ha.ne_nil

theorem decodeAttrTurn_header {flags ty : UInt8} {front : Bytes} {n : Nat}
    (h : AttrHeader flags ty front n) (tail : Bytes) :
    decodeAttrTurn out i (front ++ tail) =
      if tail.length < n then updateError attributeLengthError []
      else if (out.get (AttrType.fromU8 ty)).isSome then updateError malformedAttributeList [ty]
      else ok (out.insert ⟨⟨flags⟩, AttrType.fromU8 ty, tail.take n⟩, front.length + n) := by
  have hcond : (front ++ tail).length < front.length + n ↔ tail.length < n := by
    rw [length_append, Nat.add_lt_add_iff_left]
  have hslice (hn : ¬ tail.length < n) : (slice (front ++ tail) front.length (front.length + n) :
      Outcome BgpError Bytes) = ok (tail.take n) := slice_behind front (by omega)
  cases h with
  | @short len hext =>
    simp only [decodeAttrTurn, cons_append, nil_append, index_cons_zero, index_cons_succ, map_ok,
      ok_bind, hext, Bool.false_eq_true, if_false, length_cons, length_nil, Nat.reduceAdd]
      at hcond hslice ⊢
    rw [if_neg (by omega), if_congr hcond rfl rfl]
    split
    · rfl
    · rename_i hn
      rw [hslice hn]
      rfl
  | @extended hi lo hext =>
    have hread : (readBe16 (flags :: ty :: hi :: lo :: tail) 2 : Outcome BgpError UInt16) =
        ok (fromBe16 hi lo) := by simp [readBe16]
    simp only [decodeAttrTurn, cons_append, nil_append, index_cons_zero, index_cons_succ, map_ok,
      ok_bind, hext, if_true, hread, length_cons, length_nil, Nat.reduceAdd] at hcond hslice ⊢
    rw [if_neg (by omega), if_neg (by omega), if_congr hcond rfl rfl]
    split
    · rfl
    · rename_i hn
      rw [hslice hn]
      rfl

/-- A section too short for an attribute header is refused. -/
theorem attr_shape (rest : Bytes) :
    (∃ e, decodeAttrTurn out i rest = err e) ∨
      ∃ front flags ty n tail, AttrHeader flags ty front n ∧ rest = front ++ tail := by
  match rest with
  | [] | [_] | [_, _] => exact .inl ⟨_, rfl⟩
  | flags :: ty :: len :: tail =>
    cases hext : (PathAttrFlags.mk flags).extendedLength with
    | false => exact .inr ⟨_, _, _, _, tail, .short hext, rfl⟩
    | true =>
      match tail with
      | [] =>
        refine .inl ⟨.notification ⟨BgpErrorCode.update, attributeLengthError, []⟩, ?_⟩
        simp only [decodeAttrTurn, length_cons, length_nil, index_cons_zero,
          index_cons_succ, map_ok, ok_bind, hext, if_true]
        rfl
      | lo :: tail => exact .inr ⟨_, _, _, _, tail, .extended hext, rfl⟩

/-- The attribute that stands complete at the front of `rest`, if one does. -/
theorem attrEntry_or_err (rest : Bytes) :
    (∃ b r a, rest = b ++ r ∧ AttrEntry b a ∧
      decodeAttrTurn out i rest =
        if (out.get a.attrType).isSome then
          updateError malformedAttributeList [a.attrType.toU8]
        else ok (out.insert a, b.length)) ∨
    ∃ e, decodeAttrTurn out i rest = err e := by
  obtain herr | ⟨front, flags, ty, n, tail, hfront, rfl⟩ := attr_shape out i rest
  · exact .inr herr
  rw [decodeAttrTurn_header out i hfront]
  by_cases hlen : tail.length < n
  · exact .inr ⟨_, if_pos hlen⟩
  have htake : (tail.take n).length = n := length_take_of_le (by omega)
  refine .inl ⟨front ++ tail.take n, tail.drop n, _, by simp, ⟨hfront, htake⟩, ?_⟩
  rw [if_neg hlen, length_append, htake, AttrType.toU8_fromU8]

theorem decodeAttrTurn_ne_abort (rest : Bytes) : decodeAttrTurn out i rest ≠ abort := by
  rcases attrEntry_or_err out i rest with ⟨b, r, a, -, -, h⟩ | ⟨e, h⟩
  · rw [h]
    split <;> simp [updateError]
  · simp [h]

end

/-- One turn accepts exactly one attribute of a new type. -/
theorem decodeAttrTurn_accepts : Accepts decodeAttrTurn AttrPush := by
  intro out i rest out' n hrest
  constructor
  · intro hok
    rcases attrEntry_or_err out i rest with ⟨b, r, a, rfl, hentry, h⟩ | ⟨e, h⟩
    · rw [h] at hok
      split at hok
      · cases hok
      rename_i hnew
      obtain ⟨rfl, rfl⟩ := Prod.mk.inj (Outcome.ok.inj hok)
      exact ⟨b, r, rfl, rfl, length_pos_iff.mpr hentry.ne_nil, a, hentry, by simpa using hnew, rfl⟩
    · simp [h] at hok
  · rintro ⟨b, r, rfl, rfl, -, a, ⟨hfront, rfl⟩, hnew, rfl⟩
    rw [append_assoc, decodeAttrTurn_header out i hfront, if_neg (by simp), if_neg (by simp [hnew]),
      take_left, length_append]

end LibRouting.Bgp
