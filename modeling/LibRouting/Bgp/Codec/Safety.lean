/-
  Bgp/Codec/Safety.lean --- when the UPDATE decoders panic.

  Every access of the decoders is guarded but one: with Add-Path framing the NLRI
  loops read the prefix-length octet right after the path identifier without
  checking that it is there.  A section that ends with a bare path identifier
  behind complete entries (`DanglingPathId`) therefore panics the decoder, and
  nothing else does.
-/
import LibRouting.Bgp.Codec.Grammar

set_option autoImplicit false

namespace LibRouting.Bgp

open Foundation Core Outcome List

/-- The section is a sequence of complete entries that read as `xs`. -/
def NlriSection (form : AddressForm) (addPath : Bool) (b : Bytes) (xs : List Nlri) : Prop :=
  Turns (NlriPush form addPath) [] b xs

/-- The section is a sequence of complete attributes of distinct types. -/
def AttrSection (b : Bytes) (attrs : PathAttributes) : Prop := Turns AttrPush .new b attrs

/-- The section ends with a path identifier that no prefix follows. -/
def DanglingPathId (form : AddressForm) (addPath : Bool) (b : Bytes) : Prop :=
  addPath = true ∧ ∃ entries id xs, b = entries ++ id ∧ id.length = 4 ∧
    NlriSection form addPath entries xs

section Sections

variable {ε : Type} {form : AddressForm} {addPath : Bool}
  {turn : List Nlri → Nat → Bytes → Outcome ε (List Nlri × Nat)}

theorem IsNlriTurn.scan_ok_iff (h : IsNlriTurn form addPath turn) (i : Nat) (b : Bytes)
    (xs : List Nlri) : scan turn [] i b = ok xs ↔ NlriSection form addPath b xs :=
  Foundation.scan_ok_iff h.accepts (fun _ _ _ => NlriPush.ne_nil) [] i b xs

theorem IsNlriTurn.scan_abort_iff (h : IsNlriTurn form addPath turn) (i : Nat) (b : Bytes) :
    scan turn [] i b = abort ↔ DanglingPathId form addPath b := by
  rw [Foundation.scan_abort_iff h.accepts (fun _ _ _ => NlriPush.ne_nil)
    (fun s i rest hrest => h.abort_iff s i rest hrest)]
  constructor
  · rintro ⟨entries, tail, xs, rfl, -, hturns, hap, hlen⟩
    exact ⟨hap, entries, tail, xs, rfl, hlen, hturns⟩
  · rintro ⟨hap, entries, id, xs, rfl, hlen, hturns⟩
    exact ⟨entries, id, xs, rfl, by rintro rfl; simp at hlen, hturns, hap, hlen⟩

end Sections
variable {i : Nat} {b content rest : Bytes}

theorem decodeNlriSet_ok_iff (b : Bytes) (addPath : Bool) (xs : List Nlri) :
    decodeNlriSet b addPath = ok xs ↔ NlriSection ipv4Form addPath b xs :=
  (isNlriTurn_decodeNlriTurn addPath).scan_ok_iff 0 b xs

theorem decodeNlriSet_abort_iff (b : Bytes) (addPath : Bool) :
    decodeNlriSet b addPath = abort ↔ DanglingPathId ipv4Form addPath b :=
  (isNlriTurn_decodeNlriTurn addPath).scan_abort_iff 0 b

theorem decodePathAttributes_ok_iff (b : Bytes) (attrs : PathAttributes) :
    decodePathAttributes b = ok attrs ↔ AttrSection b attrs :=
  scan_ok_iff decodeAttrTurn_accepts (fun _ _ _ => AttrPush.ne_nil) .new 0 b attrs

/-- The bytes are these path attributes, one after the other. -/
inductive AttrBytes : Bytes → List PathAttribute → Prop where
  | nil : AttrBytes [] []
  | cons {b rest : Bytes} {a : PathAttribute} {as : List PathAttribute} :
      AttrEntry b a → AttrBytes rest as → AttrBytes (b ++ rest) (a :: as)

theorem insert_attrs_of_get_none {p : PathAttributes} {a : PathAttribute}
    (h : p.get a.attrType = none) :
    (p.insert a).attrs = p.attrs ++ [a] := by
  obtain ⟨attrs, hnd⟩ := p
  have hnew : ∀ x ∈ attrs, x.attrType ≠ a.attrType := by
    intro x hx heq
    simpa [heq] using find?_eq_none.mp h x hx
  show PathAttributes.insertList a attrs = attrs ++ [a]
  clear h hnd
  induction attrs with
  | nil => rfl
  | cons x attrs ih =>
    simp only [PathAttributes.insertList, hnew x (by simp), if_false, cons_append]
    rw [ih fun y hy => hnew y (by simp [hy])]

/-- Where one attribute ends is decided by its own bytes. -/
theorem attrEntry_append_inj {b₁ b₂ r₁ r₂ : Bytes} {a₁ a₂ : PathAttribute} (h₁ : AttrEntry b₁ a₁)
    (h₂ : AttrEntry b₂ a₂) (h : b₁ ++ r₁ = b₂ ++ r₂) : b₁ = b₂ ∧ a₁ = a₂ ∧ r₁ = r₂ := by
  have hturn {b r : Bytes} {a : PathAttribute} (h : AttrEntry b a) :
      decodeAttrTurn .new 0 (b ++ r) = ok (PathAttributes.new.insert a, b.length) := by
    refine (decodeAttrTurn_accepts _ _ _ _ _ (by simp [h.ne_nil])).mpr ?_
    exact ⟨b, r, rfl, rfl, length_pos_iff.mpr h.ne_nil, a, h, rfl, rfl⟩
  obtain ⟨hins, hlen⟩ := Prod.mk.inj (ok.inj ((hturn h₁).symm.trans (h ▸ hturn h₂)))
  obtain ⟨rfl, rfl⟩ := append_inj h hlen
  exact ⟨rfl, (cons.inj (congrArg PathAttributes.attrs hins)).1, rfl⟩

theorem AttrBytes.canonical {as : List PathAttribute} (h : AttrBytes b as) :
    ∀ a ∈ as, a.attrType.Canonical := by
  induction h with
  | nil => simp
  | cons hentry _ ih =>
    refine forall_mem_cons.mpr ⟨?_, ih⟩
    cases hentry
    exact AttrType.canonical_fromU8 _

/-- The attribute loop collects the attributes in order, as long as no type
repeats. -/
theorem turns_attrBytes {as : List PathAttribute} (h : AttrBytes b as) (out out' : PathAttributes) :
    Turns AttrPush out b out' ↔ out'.attrs = out.attrs ++ as := by
  induction h generalizing out with
  | nil =>
    constructor
    · intro h
      rcases h.first with ⟨-, rfl⟩ | ⟨c, cs, m, hnil, ⟨a, ha, -⟩, -⟩
      · simp
      · exact absurd (append_eq_nil_iff.mp hnil.symm).1 (AttrEntry.ne_nil ha)
    · intro h
      obtain ⟨attrs, hnd⟩ := out
      obtain ⟨attrs', hnd'⟩ := out'
      obtain rfl : attrs' = attrs := by simpa using h
      exact .nil _
  | @cons b rest a as hentry hrest ih =>
    constructor
    · intro h
      rcases h.first with ⟨hnil, -⟩ | ⟨c, cs, m, heq, ⟨a', ha', hnew, rfl⟩, hturns⟩
      · exact absurd (append_eq_nil_iff.mp hnil).1 (AttrEntry.ne_nil hentry)
      · obtain ⟨rfl, rfl, rfl⟩ := attrEntry_append_inj hentry ha' heq
        rw [(ih _).mp hturns, insert_attrs_of_get_none hnew]
        simp
    · intro h
      have hnew : out.get a.attrType = none := by
        have hnd := out'.nodup
        rw [h, map_append, map_cons, nodup_append] at hnd
        refine find?_eq_none.mpr fun x hx heq => ?_
        exact hnd.2.2 x.attrType (mem_map_of_mem hx) a.attrType (by simp)
          (of_decide_eq_true heq)
      refine .cons ⟨a, hentry, hnew, rfl⟩ ((ih _).mpr ?_)
      rw [insert_attrs_of_get_none hnew, h]
      simp

theorem decodePathAttributes_attrBytes {as : List PathAttribute} (h : AttrBytes b as)
    (p : PathAttributes) : decodePathAttributes b = ok p ↔ p.attrs = as :=
  (decodePathAttributes_ok_iff b p).trans (turns_attrBytes h .new p)

theorem decodePathAttributes_ne_abort (b : Bytes) : decodePathAttributes b ≠ abort := by
  have hnever : ∀ s i rest, rest ≠ [] →
      (decodeAttrTurn s i rest = abort ↔ (fun _ : Bytes => False) rest) :=
    fun s i rest _ => iff_false_intro (decodeAttrTurn_ne_abort s i rest)
  intro h
  obtain ⟨_, _, _, -, -, -, hstuck⟩ := (scan_abort_iff decodeAttrTurn_accepts
    (fun _ _ _ => AttrPush.ne_nil) hnever .new 0 b).mp h
  exact hstuck

/-! ## The UPDATE body -/

/-- A byte string starts with a big-endian length and that many bytes. -/
def LengthPrefixed (b content rest : Bytes) : Prop :=
  ∃ len : UInt16, b = toBe16 len ++ content ++ rest ∧ content.length = len.toNat

theorem LengthPrefixed.length_eq (h : LengthPrefixed b content rest) :
    b.length = 2 + content.length + rest.length := by
  obtain ⟨len, rfl, -⟩ := h
  simp only [length_append, toBe16_length]

/-- The second half of `decode_update`, from the attribute length on. -/
def decodeUpdateTail (withdrawn : List Nlri) (addPath : Bool) (tail : Bytes) :
    Outcome BgpError Update :=
  match tail with
  | h :: l :: rest =>
    if rest.length < (fromBe16 h l).toNat then
      updateError BgpUpdateErrorSubcode.attributeLengthError []
    else do
      let attributes ← decodePathAttributes (rest.take (fromBe16 h l).toNat)
      let nlri ← (decodeNlriSet (rest.drop (fromBe16 h l).toNat) addPath).mapErr .codec
      pure ⟨withdrawn, attributes, nlri⟩
  | _ => updateError BgpUpdateErrorSubcode.malformedAttributeList []

theorem readBe16_append {ε : Type} (p : Bytes) (h l : UInt8) (r : Bytes) (hi : i = p.length) :
    (readBe16 (p ++ h :: l :: r) i : Outcome ε UInt16) = ok (fromBe16 h l) := by
  subst hi
  have h₁ : (index (p ++ h :: l :: r) p.length : Outcome ε UInt8) = ok h := by
    simp [index]
  have h₂ : (index (p ++ h :: l :: r) (p.length + 1) : Outcome ε UInt8) = ok l := by
    simp [index]
  simp [readBe16, h₁, h₂]

theorem slice_append {ε : Type} (p b r : Bytes) {j : Nat} (hi : i = p.length)
    (hj : j = p.length + b.length) : (slice (p ++ b ++ r) i j : Outcome ε Bytes) = ok b := by
  subst hi hj
  rw [slice_of_le (by omega) (by simp only [length_append]; omega), append_assoc,
    drop_left, Nat.add_sub_cancel_left, take_left]

theorem readBe16_toBe16 {ε : Type} (p : Bytes) (v : UInt16) (r : Bytes) (hi : i = p.length) :
    (readBe16 (p ++ (toBe16 v ++ r)) i : Outcome ε UInt16) = ok v :=
  (readBe16_append p _ _ r hi).trans (congrArg ok (fromBe16_toBe16 v))

theorem slice_end {ε : Type} (p r : Bytes) (hi : i = p.length) :
    (slice (p ++ r) i (p ++ r).length : Outcome ε Bytes) = ok r := by
  subst hi
  rw [slice_of_le (by simp) le_rfl, drop_left, length_append, Nat.add_sub_cancel_left, take_length]

/-- `decode_update` over a body split at its withdrawn section. -/
theorem decodeUpdate_split (addPath : Bool) {b wd tail : Bytes} (h : LengthPrefixed b wd tail)
    (hfour : 4 ≤ b.length) :
    decodeUpdate b addPath =
      (decodeNlriSet wd addPath).mapErr .codec >>= fun withdrawn =>
        decodeUpdateTail withdrawn addPath tail := by
  have hblen := h.length_eq
  obtain ⟨len, hb, hwd⟩ := h
  have hread : (readBe16 b 0 : Outcome BgpError UInt16) = ok len :=
    hb ▸ readBe16_toBe16 [] len _ rfl
  have hslice : (slice b 2 (2 + wd.length) : Outcome BgpError Bytes) = ok wd :=
    hb ▸ slice_append (toBe16 len) wd tail rfl rfl
  simp only [decodeUpdate, if_neg (show ¬ b.length < 4 by omega), hread, map_ok, ok_bind, ← hwd,
    if_neg (show ¬ b.length < 2 + wd.length by omega), hslice]
  congr 1
  funext withdrawn
  obtain _ | ⟨h', _ | ⟨l', rest⟩⟩ := tail
  iterate 2
    · simp only [length_cons, length_nil] at hblen
      rw [if_pos (by omega)]
      rfl
  · simp only [length_cons] at hblen
    have hread' : (readBe16 b (2 + wd.length) : Outcome BgpError UInt16) = ok (fromBe16 h' l') := by
      rw [hb]
      exact readBe16_append (toBe16 len ++ wd) h' l' rest (by simp)
    simp only [if_neg (show ¬ b.length < 2 + wd.length + 2 by omega), hread', map_ok, ok_bind,
      decodeUpdateTail]
    generalize (fromBe16 h' l').toNat = m
    rw [if_congr (show b.length < 2 + wd.length + 2 + m ↔ rest.length < m by omega) rfl rfl]
    split
    · rfl
    have hsplit : b = (toBe16 len ++ wd ++ [h', l']) ++ rest.take m ++ rest.drop m := by simp [hb]
    have hfront : (toBe16 len ++ wd ++ [h', l']).length = 2 + wd.length + 2 := by
      simp only [length_append, toBe16_length, length_cons, length_nil]
    have hattr : (slice b (2 + wd.length + 2) (2 + wd.length + 2 + m) : Outcome BgpError Bytes) =
        ok (rest.take m) := by
      rw [hsplit]
      refine slice_append _ _ _ hfront.symm ?_
      rw [hfront, length_take_of_le (by omega)]
    have hnlri : (slice b (2 + wd.length + 2 + m) b.length : Outcome BgpError Bytes) =
        ok (rest.drop m) := by
      rw [hsplit]
      refine slice_end _ _ ?_
      rw [length_append, hfront, length_take_of_le (by omega)]
    simp only [hattr, hnlri, ok_bind]

theorem lengthPrefixed_of_le {h l : UInt8} {b : Bytes} (hle : (fromBe16 h l).toNat ≤ b.length) :
    LengthPrefixed (h :: l :: b) (b.take (fromBe16 h l).toNat) (b.drop (fromBe16 h l).toNat) :=
  ⟨fromBe16 h l, by simp [toBe16_fromBe16], length_take_of_le hle⟩

/-- The tail of an UPDATE split at its attributes. -/
theorem decodeUpdateTail_split {tail attrs nlri : Bytes} (h : LengthPrefixed tail attrs nlri)
    (withdrawn : List Nlri) (addPath : Bool) :
    decodeUpdateTail withdrawn addPath tail =
      decodePathAttributes attrs >>= fun attributes =>
        (decodeNlriSet nlri addPath).mapErr .codec >>= fun nlri =>
          ok ⟨withdrawn, attributes, nlri⟩ := by
  obtain ⟨len, rfl, hlen⟩ := h
  have hread : (fromBe16 (.ofNat (len.toNat / 2 ^ 8)) (.ofNat len.toNat)).toNat = attrs.length :=
    (congrArg UInt16.toNat (fromBe16_toBe16 len)).trans hlen.symm
  simp only [toBe16, cons_append, nil_append, decodeUpdateTail, hread]
  rw [if_neg (by simp), take_left, drop_left]
  rfl

theorem DanglingPathId.length_le {form : AddressForm} {addPath : Bool}
    (h : DanglingPathId form addPath b) : 4 ≤ b.length := by
  obtain ⟨-, entries, id, xs, rfl, hlen, -⟩ := h
  simp only [length_append]
  omega

/-- The tail of an UPDATE panics the decoder exactly through its NLRI section. -/
theorem decodeUpdateTail_abort_iff (withdrawn : List Nlri) (addPath : Bool) (tail : Bytes) :
    decodeUpdateTail withdrawn addPath tail = abort ↔
      ∃ attrs nlri as, LengthPrefixed tail attrs nlri ∧ AttrSection attrs as ∧
        DanglingPathId ipv4Form addPath nlri := by
  have hsplit {attrs nlri} (hlp : LengthPrefixed tail attrs nlri) :
      decodeUpdateTail withdrawn addPath tail = abort ↔
        ∃ as, AttrSection attrs as ∧ DanglingPathId ipv4Form addPath nlri := by
    simp only [decodeUpdateTail_split hlp, bind_eq_abort, decodePathAttributes_ne_abort, false_or,
      mapErr_eq_abort, decodeNlriSet_abort_iff, decodePathAttributes_ok_iff, reduceCtorEq,
      and_false, exists_false, or_false]
  constructor
  · intro h
    obtain _ | ⟨x, _ | ⟨y, rest⟩⟩ := tail
    iterate 2 · cases h
    have hle : (fromBe16 x y).toNat ≤ rest.length := by
      by_contra hlt
      rw [decodeUpdateTail, if_pos (by omega)] at h
      cases h
    obtain ⟨as, has, hdang⟩ := (hsplit (lengthPrefixed_of_le hle)).mp h
    exact ⟨_, _, as, lengthPrefixed_of_le hle, has, hdang⟩
  · rintro ⟨attrs, nlri, as, hlp, has, hdang⟩
    exact (hsplit hlp).mpr ⟨as, has, hdang⟩

/-- An UPDATE body whose withdrawn section, or whose NLRI section behind
well-formed withdrawn and attribute sections, ends with a bare path identifier. -/
def UpdateDangles (addPath : Bool) (body : Bytes) : Prop :=
  ∃ wd tail, LengthPrefixed body wd tail ∧
    (DanglingPathId ipv4Form addPath wd ∨
      ∃ xs attrs nlri as, NlriSection ipv4Form addPath wd xs ∧ LengthPrefixed tail attrs nlri ∧
        AttrSection attrs as ∧ DanglingPathId ipv4Form addPath nlri)

/-- `decode_update` panics exactly on those bodies. -/
theorem decodeUpdate_abort_iff (body : Bytes) (addPath : Bool) :
    decodeUpdate body addPath = abort ↔ UpdateDangles addPath body := by
  have hsplit {wd tail} (hlp : LengthPrefixed body wd tail) (hfour : 4 ≤ body.length) :
      decodeUpdate body addPath = abort ↔ DanglingPathId ipv4Form addPath wd ∨
        ∃ xs, NlriSection ipv4Form addPath wd xs ∧
          ∃ attrs nlri as, LengthPrefixed tail attrs nlri ∧ AttrSection attrs as ∧
            DanglingPathId ipv4Form addPath nlri := by
    rw [decodeUpdate_split addPath hlp hfour]
    simp only [bind_eq_abort, mapErr_eq_abort, mapErr_eq_ok, decodeNlriSet_abort_iff,
      decodeNlriSet_ok_iff, decodeUpdateTail_abort_iff]
  constructor
  · intro h
    have hfour : ¬ body.length < 4 := fun hlt => by simp [decodeUpdate, hlt, updateError] at h
    obtain _ | ⟨x, _ | ⟨y, rest⟩⟩ := body
    iterate 2 · simp at hfour
    have hwd : (fromBe16 x y).toNat ≤ rest.length := by
      -- otherwise the withdrawn length runs past the body
      by_contra hlt
      have hread : (readBe16 (x :: y :: rest) 0 : Outcome BgpError UInt16) =
        ok (fromBe16 x y) := readBe16_append [] x y rest rfl
      have hshort : (x :: y :: rest).length < 2 + (fromBe16 x y).toNat := by
        simp only [length_cons]
        omega
      simp only [decodeUpdate, hfour, if_false, hread, map_ok, ok_bind, hshort, if_true] at h
      cases h
    refine ⟨_, _, lengthPrefixed_of_le hwd,
      ((hsplit (lengthPrefixed_of_le hwd) (by omega)).mp h).imp_right ?_⟩
    rintro ⟨xs, hxs, attrs, nlri, as, hlp, has, hdang⟩
    exact ⟨xs, attrs, nlri, as, hxs, hlp, has, hdang⟩
  · rintro ⟨wd, tail, hlp, hcase⟩
    have hfour : 4 ≤ body.length := by
      rw [hlp.length_eq]
      obtain hdang | ⟨xs, attrs, nlri, as, -, hlp', -⟩ := hcase
      · have := hdang.length_le
        omega
      · have := hlp'.length_eq
        omega
    refine (hsplit hlp hfour).mpr (hcase.imp_right ?_)
    rintro ⟨xs, attrs, nlri, as, hxs, hlp, has, hdang⟩
    exact ⟨xs, hxs, attrs, nlri, as, hlp, has, hdang⟩

/-! ## The MP attributes -/

/-- The next hop lengths a family admits. -/
def NextHopFits (family : NlriFamily) (nh : Bytes) : Prop :=
  (family.afi = 1 ∧ (nh.length = 4 ∨ nh.length = 16)) ∨
    (family.afi = 2 ∧ (nh.length = 16 ∨ nh.length = 32))

theorem MpNextHop.decode_ok_iff (nh : Bytes) (family : NlriFamily) :
    (∃ x, MpNextHop.decode nh family = ok x) ↔ NextHopFits family nh := by
  unfold MpNextHop.decode NextHopFits
  split_ifs <;> simp_all

theorem MpNextHop.decode_ne_abort (nh : Bytes) (family : NlriFamily) :
    MpNextHop.decode nh family ≠ abort := by
  unfold MpNextHop.decode
  split_ifs <;> simp

/-- An MP_REACH_NLRI value with a well-formed next hop whose NLRI section ends
with a bare path identifier. -/
def ReachDangles (addPath : Bool) (b : Bytes) : Prop :=
  ∃ (family : NlriFamily) (nhLen : UInt8) (nh : Bytes) (reserved : UInt8) (nlri : Bytes),
    b = toBe16 family.afi ++ [family.safi, nhLen] ++ nh ++ reserved :: nlri ∧
    nh.length = nhLen.toNat ∧ NextHopFits family nh ∧
    DanglingPathId (mpAddress family) addPath nlri

/-- An MP_UNREACH_NLRI value whose NLRI section ends with a bare path
identifier. -/
def UnreachDangles (addPath : Bool) (b : Bytes) : Prop :=
  ∃ (family : NlriFamily) (nlri : Bytes),
    b = toBe16 family.afi ++ [family.safi] ++ nlri ∧
    DanglingPathId (mpAddress family) addPath nlri

/-- `MpUnreach::decode_ex` behind the family octets. -/
theorem MpUnreach.decodeEx_section (family : NlriFamily) (section_ : Bytes) (addPath : Bool) :
    MpUnreach.decodeEx (toBe16 family.afi ++ [family.safi] ++ section_) addPath =
      (scan (decodeMpNlriTurn family addPath) [] 3 section_ >>= fun nlri => ok ⟨family, nlri⟩) := by
  obtain ⟨afi, safi⟩ := family
  generalize hb : toBe16 afi ++ [safi] ++ section_ = b
  have hshort : ¬ b.length < 3 := by
    simp only [← hb, length_append, toBe16_length, length_cons, length_nil]
    omega
  have hread : (readBe16 b 0 : Outcome Unit UInt16) = ok afi := hb ▸ readBe16_toBe16 [] afi _ rfl
  have hsafi : (index b 2 : Outcome Unit UInt8) = ok safi := hb ▸ rfl
  have hslice : (slice b 3 b.length : Outcome Unit Bytes) = ok section_ := hb ▸ slice_end _ _ rfl
  simp only [MpUnreach.decodeEx, hshort, if_false, hread, hsafi, hslice, ok_bind, pure_eq_ok]

theorem MpUnreach.decodeEx_abort_iff (b : Bytes) (addPath : Bool) :
    MpUnreach.decodeEx b addPath = abort ↔ UnreachDangles addPath b := by
  have hsection (family : NlriFamily) (nlri : Bytes) :
      MpUnreach.decodeEx (toBe16 family.afi ++ [family.safi] ++ nlri) addPath = abort ↔
        DanglingPathId (mpAddress family) addPath nlri := by
    rw [MpUnreach.decodeEx_section, bind_eq_abort,
      (isNlriTurn_decodeMpNlriTurn family addPath).scan_abort_iff]
    simp
  constructor
  · intro h
    obtain _ | ⟨x, _ | ⟨y, _ | ⟨safi, nlri⟩⟩⟩ := b
    iterate 3 · cases h
    have hb : x :: y :: safi :: nlri = toBe16 (fromBe16 x y) ++ [safi] ++ nlri := by
      rw [toBe16_fromBe16]
      rfl
    rw [hb] at h ⊢
    exact ⟨⟨fromBe16 x y, safi⟩, nlri, rfl, (hsection ⟨_, _⟩ nlri).mp h⟩
  · rintro ⟨family, nlri, rfl, hdang⟩
    exact (hsection family nlri).mpr hdang

/-- `MpReach::decode_ex` behind the next hop: one octet is skipped, then the NLRI. -/
theorem MpReach.decodeEx_tail (family : NlriFamily) {nhLen : UInt8} {nh : Bytes}
    (hlen : nh.length = nhLen.toNat) (tail : Bytes) (addPath : Bool) :
    MpReach.decodeEx (toBe16 family.afi ++ [family.safi, nhLen] ++ nh ++ tail) addPath =
      (MpNextHop.decode nh family >>= fun nextHop =>
        match tail with
        | [] => ok ⟨family, nextHop, []⟩
        | _ :: section_ =>
          scan (decodeMpNlriTurn family addPath) [] (4 + nh.length + 1) section_ >>=
            fun nlri => ok ⟨family, nextHop, nlri⟩) := by
  obtain ⟨afi, safi⟩ := family
  generalize hb : toBe16 afi ++ [safi, nhLen] ++ nh ++ tail = b
  have hblen : b.length = 4 + nh.length + tail.length := by
    simp only [← hb, length_append, toBe16_length, length_cons, length_nil]
  have hread : (readBe16 b 0 : Outcome Unit UInt16) = ok afi := hb ▸ readBe16_toBe16 [] afi _ rfl
  have hsafi : (index b 2 : Outcome Unit UInt8) = ok safi := hb ▸ rfl
  have hnhLen : (index b 3 : Outcome Unit UInt8) = ok nhLen := hb ▸ rfl
  have hnh : (slice b 4 (4 + nh.length) : Outcome Unit Bytes) = ok nh :=
    hb ▸ slice_append _ _ _ rfl rfl
  simp only [MpReach.decodeEx, if_neg (show ¬ b.length < 4 by omega), hread, hsafi, hnhLen, ok_bind,
    map_ok, ← hlen, if_neg (show ¬ b.length < 4 + nh.length by omega), hnh]
  congr 1
  funext nextHop
  cases tail with
  | nil => rw [if_pos (by simp [hblen])]
  | cons reserved section_ =>
    have hsec : (slice b (4 + nh.length + 1) b.length : Outcome Unit Bytes) = ok section_ := by
      rw [← hb, append_cons]
      refine slice_end _ _ ?_
      simp only [length_append, toBe16_length, length_cons, length_nil]
    rw [if_neg (by simp [hblen]), hsec]
    rfl

theorem MpReach.decodeEx_abort_iff (b : Bytes) (addPath : Bool) :
    MpReach.decodeEx b addPath = abort ↔ ReachDangles addPath b := by
  have hsection (family : NlriFamily) (i : Nat) (nlri : Bytes) :=
    (isNlriTurn_decodeMpNlriTurn family addPath).scan_abort_iff i nlri
  constructor
  · intro h
    obtain _ | ⟨x, _ | ⟨y, _ | ⟨safi, _ | ⟨nhLen, rest⟩⟩⟩⟩ := b
    iterate 4 · cases h
    have hrest : nhLen.toNat ≤ rest.length := by
      by_contra hlt
      have hread : (readBe16 (x :: y :: safi :: nhLen :: rest) 0 : Outcome Unit UInt16) =
        ok (fromBe16 x y) := readBe16_append [] x y _ rfl
      have hlen : (x :: y :: safi :: nhLen :: rest).length = 4 + rest.length := by
        simp only [length_cons]
        omega
      simp only [MpReach.decodeEx, hread, hlen, index_cons_succ, index_cons_zero, map_ok, ok_bind,
        if_neg (show ¬ 4 + rest.length < 4 by omega),
        if_pos (show 4 + rest.length < 4 + nhLen.toNat by omega)] at h
      cases h
    obtain ⟨nh, tail, rfl, hlen⟩ : ∃ nh tail, rest = nh ++ tail ∧ nh.length = nhLen.toNat :=
      ⟨_, _, (take_append_drop _ _).symm, length_take_of_le hrest⟩
    have hb : x :: y :: safi :: nhLen :: (nh ++ tail) =
        toBe16 (fromBe16 x y) ++ [safi, nhLen] ++ nh ++ tail := by
      rw [toBe16_fromBe16]
      simp
    rw [hb] at h ⊢
    rw [MpReach.decodeEx_tail ⟨fromBe16 x y, safi⟩ hlen] at h
    obtain habort | ⟨nextHop, hnh, h⟩ := bind_eq_abort.mp h
    · exact absurd habort (MpNextHop.decode_ne_abort _ _)
    cases tail with
    | nil => cases h
    | cons reserved nlri =>
      refine ⟨⟨fromBe16 x y, safi⟩, nhLen, nh, reserved, nlri, rfl, hlen,
        (MpNextHop.decode_ok_iff _ _).mp ⟨_, hnh⟩, ?_⟩
      simpa [bind_eq_abort, hsection] using h
  · rintro ⟨family, nhLen, nh, reserved, nlri, rfl, hlen, hfit, hdang⟩
    obtain ⟨nextHop, hnh⟩ := (MpNextHop.decode_ok_iff _ _).mpr hfit
    rw [MpReach.decodeEx_tail family hlen, hnh, ok_bind]
    exact bind_eq_abort.mpr (.inl ((hsection _ _ _).mpr hdang))

/-- For every byte string and both framings, each UPDATE decoder returns (`Ok` or
`Err`) exactly when no NLRI section it reaches ends with a bare path identifier. -/
theorem updateDecoders_return_iff (b : Bytes) (addPath : Bool) :
    (decodeUpdate b addPath ≠ abort ↔ ¬ UpdateDangles addPath b) ∧
    (MpReach.decodeEx b addPath ≠ abort ↔ ¬ ReachDangles addPath b) ∧
    (MpUnreach.decodeEx b addPath ≠ abort ↔ ¬ UnreachDangles addPath b) :=
  ⟨not_congr (decodeUpdate_abort_iff b addPath),
    not_congr (MpReach.decodeEx_abort_iff b addPath),
    not_congr (MpUnreach.decodeEx_abort_iff b addPath)⟩

/-- An UPDATE that withdraws a bare path identifier panics the decoder, and so do
MP attributes with one. -/
theorem updateDecoders_panic :
    decodeUpdate [0, 4, 0, 0, 0, 1, 0, 0] true = abort ∧
    MpReach.decodeEx [0, 1, 1, 4, 192, 0, 2, 1, 0, 0, 0, 0, 1] true = abort ∧
    MpUnreach.decodeEx [0, 1, 1, 0, 0, 0, 1] true = abort := by
  decide +kernel

end LibRouting.Bgp
