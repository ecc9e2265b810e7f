/-
  Bgp/PathAttr.lean --- path attributes and their typed accessors
  (`path/mod.rs`, `path/well_known.rs`, `path/communities.rs`).

  `PathAttributes` carries the invariant its only writers keep: no two entries
  have the same type.
-/
import LibRouting.Core.Rib
import LibRouting.Bgp.AsPath
import Mathlib.Data.List.Nodup

set_option autoImplicit false

namespace LibRouting.Bgp

open Foundation Core List

/-! ## Flags -/

/-- The flags octet of a path attribute. -/
structure PathAttrFlags where
  bits : UInt8
  deriving DecidableEq, Repr

namespace PathAttrFlags

/-- The flag bits. -/
def optionalBit : UInt8 := 0x80
def transitiveBit : UInt8 := 0x40
def partialBit : UInt8 := 0x20
def extendedLengthBit : UInt8 := 0x10

/-- No flag set. -/
def new : PathAttrFlags := ⟨0⟩

/-- The flag is set. -/
def has (bit : UInt8) (f : PathAttrFlags) : Bool := f.bits &&& bit != 0

/-- The flags that are read. -/
def optional : PathAttrFlags → Bool := has optionalBit
def transitive : PathAttrFlags → Bool := has transitiveBit
def extendedLength : PathAttrFlags → Bool := has extendedLengthBit

/-- `self.0 |= BIT * v as u8`. -/
def set (bit : UInt8) (f : PathAttrFlags) (v : Bool) : PathAttrFlags :=
  ⟨f.bits ||| (if v then bit else 0)⟩

/-- The flags that are written. -/
def setOptional : PathAttrFlags → Bool → PathAttrFlags := set optionalBit
def setTransitive : PathAttrFlags → Bool → PathAttrFlags := set transitiveBit
def setPartial : PathAttrFlags → Bool → PathAttrFlags := set partialBit
def setExtended : PathAttrFlags → Bool → PathAttrFlags := set extendedLengthBit

theorem has_set (bit : UInt8) (hbit : bit ≠ 0) (f : PathAttrFlags) :
    (f.set bit true).has bit = true := by
  have habs : (f.bits ||| bit) &&& bit = bit := by
    apply UInt8.toBitVec_inj.mp
    ext i hi
    simp only [UInt8.toBitVec_and, UInt8.toBitVec_or, BitVec.getElem_and, BitVec.getElem_or]
    cases f.bits.toBitVec[i] <;> simp
  simp [has, set, habs, hbit]

end PathAttrFlags

/-! ## Attribute types -/

/-- Path attribute type codes, the library's private tags included. -/
inductive AttrType where
  | origin
  | asPath
  | nextHop
  | multiExitDisc
  | localPref
  | atomicAggregate
  | aggregator
  | communities
  | originatorId
  | clusterList
  | mpReachNlri
  | mpUnreachNlri
  | extendedCommunities
  | as4Path
  | as4Aggregator
  | pmsiTunnel
  | tunnelEncap
  | trafficEngineering
  | largeCommunities
  | otc
  | aigp
  | bgpLsAttribute
  | lrMplsLabelStack
  | lrExchangePlaneRecords
  | lrOspfMetric2
  | lrOspfRouterId
  | lrBabelSeqno
  | lrBabelRouterId
  | lrIgpMetric
  | lrPeerSourceAddress
  | other (code : UInt8)
  deriving DecidableEq, Repr

namespace AttrType

/-- The type code on the wire. -/
def toU8 : AttrType → UInt8
  | origin => 1
  | asPath => 2
  | nextHop => 3
  | multiExitDisc => 4
  | localPref => 5
  | atomicAggregate => 6
  | aggregator => 7
  | communities => 8
  | originatorId => 9
  | clusterList => 10
  | mpReachNlri => 14
  | mpUnreachNlri => 15
  | extendedCommunities => 16
  | as4Path => 17
  | as4Aggregator => 18
  | pmsiTunnel => 22
  | tunnelEncap => 23
  | trafficEngineering => 24
  | bgpLsAttribute => 29
  | largeCommunities => 32
  | otc => 35
  | aigp => 26
  | lrExchangePlaneRecords => 254
  | lrOspfMetric2 => 253
  | lrOspfRouterId => 252
  | lrBabelRouterId => 250
  | lrBabelSeqno => 249
  | lrIgpMetric => 246
  | lrPeerSourceAddress => 245
  | lrMplsLabelStack => 255
  | other v => v

/-- The types `from_u8` gives a name to. -/
def named : List AttrType :=
  [origin, asPath, nextHop, multiExitDisc, localPref, atomicAggregate, aggregator,
    communities, originatorId, clusterList, mpReachNlri, mpUnreachNlri,
    extendedCommunities, as4Path, as4Aggregator, pmsiTunnel, tunnelEncap,
    trafficEngineering, bgpLsAttribute, largeCommunities, otc, aigp,
    lrExchangePlaneRecords, lrOspfMetric2, lrOspfRouterId, lrBabelRouterId,
    lrBabelSeqno, lrIgpMetric, lrPeerSourceAddress, lrMplsLabelStack]

/-- `AttrType::from_u8`: the named type with this code, `Other` when none has. -/
def fromU8 (v : UInt8) : AttrType :=
  (named.find? fun t => t.toU8 = v).getD (other v)

@[simp] theorem toU8_fromU8 (v : UInt8) : (fromU8 v).toU8 = v := by
  unfold fromU8
  cases h : named.find? fun t => t.toU8 = v with
  | none => rfl
  | some t => simpa using find?_some h

theorem fromU8_injective : Function.Injective fromU8 :=
  Function.LeftInverse.injective toU8_fromU8

/-- A type the decoder can produce: `Other` never stands for a named code. -/
def Canonical (t : AttrType) : Prop := fromU8 t.toU8 = t
  deriving Decidable

theorem canonical_fromU8 (v : UInt8) : (fromU8 v).Canonical := by
  simp [Canonical]

/-- The library-internal tags, which share the type space with the wire. -/
def isPrivate : AttrType → Bool
  | lrMplsLabelStack | lrExchangePlaneRecords | lrOspfMetric2 | lrOspfRouterId
  | lrBabelSeqno | lrBabelRouterId | lrIgpMetric | lrPeerSourceAddress => true
  | _ => false

end AttrType

/-! ## Attribute lists -/

/-- A path attribute: flags, type and value octets. -/
structure PathAttribute where
  flags : PathAttrFlags
  attrType : AttrType
  value : Bytes
  deriving DecidableEq, Repr

/-- An attribute list with at most one entry per type. -/
structure PathAttributes where
  attrs : List PathAttribute
  nodup : (attrs.map PathAttribute.attrType).Nodup
  deriving DecidableEq, Repr

namespace PathAttributes
variable {t : AttrType} {p : PathAttributes} {a : PathAttribute}

/-- No attribute. -/
def new : PathAttributes := ⟨[], nodup_nil⟩

/-- Replace the entry of the same type in place, or push at the end. -/
def insertList (attr : PathAttribute) : List PathAttribute → List PathAttribute
  | [] => [attr]
  | a :: rest =>
    if a.attrType = attr.attrType then attr :: rest else a :: insertList attr rest

theorem mem_insertList_types {attr : PathAttribute} :
    ∀ l : List PathAttribute, t ∈ (insertList attr l).map PathAttribute.attrType →
      t = attr.attrType ∨ t ∈ l.map PathAttribute.attrType
  | [], h => by simpa [insertList] using h
  | a :: rest, h => by
      simp only [insertList] at h
      split at h
      · simp only [map_cons, mem_cons] at h ⊢
        tauto
      simp only [map_cons, mem_cons] at h ⊢
      rcases h with h | h
      · tauto
      · have := mem_insertList_types rest h
        tauto

theorem nodup_insertList (attr : PathAttribute) :
    ∀ l : List PathAttribute, (l.map PathAttribute.attrType).Nodup →
      ((insertList attr l).map PathAttribute.attrType).Nodup
  | [], _ => by simp [insertList]
  | a :: rest, h => by
      simp only [map_cons, nodup_cons] at h
      simp only [insertList]
      split
      · rename_i heq
        simpa [← heq] using h
      rename_i hne
      simp only [map_cons, nodup_cons]
      refine ⟨fun hmem => ?_, nodup_insertList attr rest h.2⟩
      rcases mem_insertList_types rest hmem with heq | hmem
      · exact hne heq
      · exact h.1 hmem

section

variable (p : PathAttributes) (t : AttrType)

/-- `PathAttributes::insert`. -/
def insert (attr : PathAttribute) : PathAttributes :=
  ⟨insertList attr p.attrs, nodup_insertList attr p.attrs p.nodup⟩

/-- `PathAttributes::get`. -/
def get : Option PathAttribute :=
  p.attrs.find? fun a => a.attrType = t

/-- Keep the attributes that satisfy `keep`. -/
def retain (keep : PathAttribute → Bool) : PathAttributes where
  attrs := p.attrs.filter keep
  nodup := p.nodup.sublist (filter_sublist.map _)

/-- Rewrite the flags of every attribute. -/
def mapFlags (f : PathAttribute → PathAttrFlags) : PathAttributes where
  attrs := p.attrs.map fun a => { a with flags := f a }
  nodup := by
    rw [map_map]
    exact p.nodup

/-- `PathAttributes::remove` (the list afterwards): at most one entry has the
type. -/
def remove : PathAttributes :=
  p.retain fun a => a.attrType ≠ t

@[simp] theorem get_new : new.get t = none := rfl

end

theorem find?_insertList (attr : PathAttribute) (t : AttrType) (l : List PathAttribute) :
    (insertList attr l).find? (fun a => a.attrType = t) =
      if attr.attrType = t then some attr else l.find? fun a => a.attrType = t := by
  induction l with
  | nil => by_cases h : attr.attrType = t <;> simp [insertList, h]
  | cons a rest ih =>
    simp only [insertList]
    split
    · rename_i heq
      by_cases h : attr.attrType = t <;> simp [h, heq]
    rename_i hne
    by_cases ha : a.attrType = t
    · have : attr.attrType ≠ t := fun h => hne (ha.trans h.symm)
      simp [ha, this]
    · simp [ha, ih]

@[simp] theorem get_insert (p : PathAttributes) (attr : PathAttribute) (t : AttrType) :
    (p.insert attr).get t = if attr.attrType = t then some attr else p.get t :=
  find?_insertList attr t p.attrs

theorem attrType_of_get (h : p.get t = some a) : a.attrType = t := by
  simpa using find?_some h

theorem mem_of_get (h : p.get t = some a) : a ∈ p.attrs := mem_of_find?_eq_some h

theorem get_eq_some_iff : p.get t = some a ↔ a ∈ p.attrs ∧ a.attrType = t := by
  refine ⟨fun h => ⟨mem_of_get h, attrType_of_get h⟩, ?_⟩
  rintro ⟨hmem, rfl⟩
  cases h : p.get a.attrType with
  | none => simpa using find?_eq_none.mp h a hmem
  | some b =>
    have hb := mem_of_get h
    have heq := attrType_of_get h
    rw [inj_on_of_nodup_map p.nodup hb hmem heq]

section

variable (p : PathAttributes)

/-- At most one entry has a type, so dropping entries drops what `get` returns. -/
theorem get_retain (keep : PathAttribute → Bool) (t : AttrType) :
    (p.retain keep).get t = (p.get t).filter keep := by
  apply Option.ext
  intro a
  rw [get_eq_some_iff, Option.filter_eq_some_iff, get_eq_some_iff]
  simp only [retain, mem_filter]
  constructor
  · rintro ⟨⟨ha, hk⟩, ht⟩
    exact ⟨⟨ha, ht⟩, hk⟩
  · rintro ⟨⟨ha, ht⟩, hk⟩
    exact ⟨⟨ha, hk⟩, ht⟩

/-- A filter that looks at the type only hides exactly the types it drops. -/
theorem get_retain_type (keep : AttrType → Bool) (t : AttrType) :
    (p.retain fun a => keep a.attrType).get t = if keep t then p.get t else none := by
  rw [get_retain]
  cases h : p.get t with
  | none => simp
  | some a => simp [Option.filter, attrType_of_get h]

@[simp] theorem get_mapFlags (f : PathAttribute → PathAttrFlags) (t : AttrType) :
    (p.mapFlags f).get t = (p.get t).map fun a => { a with flags := f a } := by
  simp only [get, mapFlags, find?_map, Function.comp_def]

@[simp] theorem get_remove (t u : AttrType) :
    (p.remove t).get u = if t = u then none else p.get u := by
  rw [remove, get_retain_type p (fun x => decide (x ≠ t))]
  by_cases h : t = u
  · simp [h]
  · simp [h, Ne.symm h]

/-- Every type of the list is one the decoder can produce. -/
def Canonical : Prop := ∀ t, (p.get t).isSome → t.Canonical

end

theorem canonical_iff : p.Canonical ↔ ∀ a ∈ p.attrs, a.attrType.Canonical := by
  constructor
  · intro h a ha
    exact h _ (by simp [get_eq_some_iff.mpr ⟨ha, rfl⟩])
  · intro h t ht
    obtain ⟨a, ha⟩ := Option.isSome_iff_exists.mp ht
    exact attrType_of_get ha ▸ h a (mem_of_get ha)

theorem canonical_new : new.Canonical := fun _ h => by cases h

theorem Canonical.insert (h : p.Canonical) (ha : a.attrType.Canonical) :
    (p.insert a).Canonical := by
  intro t ht
  rw [get_insert] at ht
  split at ht
  · rename_i heq
    exact heq ▸ ha
  · exact h t ht

theorem Canonical.remove (h : p.Canonical) (u : AttrType) : (p.remove u).Canonical := by
  intro t ht
  rw [get_remove] at ht
  split at ht
  · cases ht
  · exact h t ht

end PathAttributes

end LibRouting.Bgp
