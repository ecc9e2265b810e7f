/-
  Bgp/UpdateParts.lean --- the sections of the body of an UPDATE, its private attributes, and
  the label stacks of what it announces.

  Repeated attributes are part of a body here, although the decoder refuses them.
-/
import LibRouting.Bgp.Egress

set_option autoImplicit false

namespace LibRouting.Bgp

open Foundation Core Outcome List

/-! ## UPDATE bodies by their parts -/

/-- The body of an UPDATE: its withdrawn section, its path attributes, repeated ones
included, and its NLRI section. -/
def Body (body withdrawn : Bytes) (attrs : List PathAttribute) (nlri : Bytes) : Prop :=
  ∃ tail bytes, LengthPrefixed body withdrawn tail ∧ LengthPrefixed tail bytes nlri ∧
    AttrBytes bytes attrs

/-- `decode_update` on the parts of a body. -/
theorem decodeUpdate_body {body withdrawn nlri : Bytes} {attrs : List PathAttribute}
    (h : Body body withdrawn attrs nlri) (addPath : Bool) (u : Update) :
    decodeUpdate body addPath = ok u ↔
      decodeNlriSet withdrawn addPath = ok u.withdrawn ∧ u.attributes.attrs = attrs ∧
        decodeNlriSet nlri addPath = ok u.nlri := by
  obtain ⟨tail, bytes, hbody, htail, hattrs⟩ := h
  have hfour : 4 ≤ body.length := by
    rw [hbody.length_eq, htail.length_eq]
    omega
  rw [decodeUpdate_split addPath hbody hfour]
  simp only [decodeUpdateTail_split htail]
  simp only [bind_eq_ok, mapErr_eq_ok, decodePathAttributes_attrBytes hattrs, Outcome.ok.injEq]
  constructor
  · rintro ⟨wd, hwd, as, has, ns, hns, rfl⟩
    exact ⟨hwd, has, hns⟩
  · rintro ⟨hwd, has, hns⟩
    exact ⟨_, hwd, _, has, _, hns, rfl⟩

/-! ## Private and public attributes -/

/-- The private and the other attributes of an UPDATE. -/
def privateOf (attrs : List PathAttribute) : List PathAttribute :=
  attrs.filter fun a => a.attrType.isPrivate

/-- The attributes without the private tags. -/
def publicOf (attrs : List PathAttribute) : List PathAttribute :=
  attrs.filter fun a => !a.attrType.isPrivate

/-- Types are distinct when they are among the private and among the public ones. -/
theorem nodup_types_iff (attrs : List PathAttribute) :
    (attrs.map PathAttribute.attrType).Nodup ↔
      ((privateOf attrs).map PathAttribute.attrType).Nodup ∧
        ((publicOf attrs).map PathAttribute.attrType).Nodup := by
  have hperm : (privateOf attrs ++ publicOf attrs).Perm attrs := filter_append_perm _ attrs
  rw [← (hperm.map PathAttribute.attrType).nodup_iff, map_append, nodup_append]
  refine ⟨fun h => ⟨h.1, h.2.1⟩, fun h => ⟨h.1, h.2, ?_⟩⟩
  intro t ht t' ht' heq
  obtain ⟨a, ha, rfl⟩ := mem_map.mp ht
  obtain ⟨b, hb, rfl⟩ := mem_map.mp ht'
  have hpriv : a.attrType.isPrivate = true := by simpa using (mem_filter.mp ha).2
  have hpub : b.attrType.isPrivate = false := by simpa using (mem_filter.mp hb).2
  rw [heq, hpub] at hpriv
  cases hpriv

/-! ## Label stacks -/

section Announcements

variable (p : BgpPeer) (u : Update) {xs : List BgpPeer.Announcement}

/-- A plain MP_REACH_NLRI is of the family in front of it. -/
theorem mpFamily_of_decodeEx {b : Bytes} {addPath : Bool} {mp : MpReach}
    (h : MpReach.decodeEx b addPath = ok mp) : BgpPeer.mpFamily b = some mp.family := by
  unfold MpReach.decodeEx at h
  match b with
  | [] | [_] | [_, _] | [_, _, _] => cases h
  | x :: y :: safi :: n :: rest =>
    rw [if_neg (by simp)] at h
    obtain ⟨afi, hafi, h⟩ := bind_eq_ok.mp h
    obtain ⟨safi', hsafi, h⟩ := bind_eq_ok.mp h
    obtain ⟨nhLen, -, h⟩ := bind_eq_ok.mp h
    cases hafi
    cases hsafi
    split at h
    · cases h
    obtain ⟨nh, -, h⟩ := bind_eq_ok.mp h
    obtain ⟨nextHop, -, h⟩ := bind_eq_ok.mp h
    split at h
    · cases h
      rfl
    obtain ⟨sec, -, h⟩ := bind_eq_ok.mp h
    obtain ⟨nlri, -, h⟩ := bind_eq_ok.mp h
    cases h
    rfl

/-- Exactly the labelled paths carry a label stack. -/
theorem mpAnnouncements_stack (h : p.mpAnnouncements u = ok xs) :
    ∀ x ∈ xs, x.stack.isSome = x.family.isLabeledUnicast := by
  revert h
  fun_cases BgpPeer.mpAnnouncements p u with
  | case1 | case2 | case4 => rintro ⟨⟩; simp
  | case3 attr _ family _ hlabeled =>
    rintro ⟨⟩ x hx
    obtain ⟨e, -, rfl⟩ := mem_map.mp hx
    simp [hlabeled]
  | case5 attr _ family hfam hlabeled =>
    intro h x hx
    cases hdec : MpReach.decodeEx attr.value (p.addPathRxFor family) with
    | ok mp =>
      simp only [hdec, attempt, ok_bind, pure_eq_ok, Outcome.ok.injEq] at h
      subst h
      obtain ⟨n, -, rfl⟩ := mem_map.mp hx
      obtain rfl : family = mp.family :=
        Option.some.inj (hfam.symm.trans (mpFamily_of_decodeEx hdec))
      simpa using hlabeled
    | err e =>
      simp only [hdec, attempt, ok_bind, pure_eq_ok, Outcome.ok.injEq] at h
      subst h
      cases hx
    | abort => simp [hdec, attempt] at h

theorem announcements_stack (h : p.announcements u = ok xs) :
    ∀ x ∈ xs, x.stack.isSome = x.family.isLabeledUnicast := by
  obtain ⟨ys, hmp, rfl⟩ := map_eq_ok.mp h
  intro x hx
  rcases mem_append.mp hx with hx | hx
  · unfold BgpPeer.plainAnnouncements at hx
    split at hx
    · obtain ⟨n, -, rfl⟩ := mem_map.mp hx
      rfl
    · simp at hx
  · exact mpAnnouncements_stack p u hmp x hx

end Announcements

end LibRouting.Bgp
