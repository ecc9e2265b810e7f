/-
  Bgp/WellKnown.lean --- typed accessors over an attribute list
  (`path/well_known.rs`, `path/communities.rs`, the accessors of `path/mod.rs`)
  and the conversions between a session's attribute list and a route's attribute
  set.
-/
import LibRouting.Bgp.PathAttr

set_option autoImplicit false

namespace LibRouting.Bgp

open Foundation Core List

/-! ## Value decoders -/

/-- A big-endian `u32` from a value of exactly four octets. -/
def decodeU32 : Bytes → Option UInt32
  | [a, b, c, d] => some (fromBe32 a b c d)
  | _ => none

/-- The complete four-octet chunks of a value, as big-endian words. -/
def decodeWords : Bytes → List UInt32
  | a :: b :: c :: d :: rest => fromBe32 a b c d :: decodeWords rest
  | _ => []

/-- The values of ORIGIN. -/
inductive OriginKind where
  | igp
  | egp
  | incomplete
  deriving DecidableEq, Repr

namespace OriginKind

/-- The octet on the wire. -/
def toU8 : OriginKind → UInt8
  | igp => 0
  | egp => 1
  | incomplete => 2

/-- `Origin::decode`. -/
def decode : Bytes → Option OriginKind
  | [v] => if v = 0 then some igp else if v = 1 then some egp
      else if v = 2 then some incomplete else none
  | _ => none

end OriginKind

/-- `NextHop::decode` followed by `to_ip`: a 16-octet value is an IPv6 next hop
for IPv4 NLRI (RFC 5549 §3). -/
def decodeNextHopAttr (b : Bytes) : Option IpAddr :=
  if b.length = 4 then some (.v4 (.padded 4 b))
  else if b.length = 16 then some (.v6 (.padded 16 b))
  else none

/-- Well-known community values. -/
def Community.gracefulShutdown : UInt32 := 0xffff0000
/-- The communities of RFC 9494. -/
def Community.llgrStale : UInt32 := 0xffff0006
def Community.noLlgr : UInt32 := 0xffff0007

/-! ## Accessors -/

namespace PathAttributes

/-- Decode the value of the attribute of type `t`. -/
def read {α : Type} (p : PathAttributes) (t : AttrType) (decode : Bytes → Option α) : Option α :=
  (p.get t).bind fun a => decode a.value

section

variable (p : PathAttributes)

/-- ORIGIN. -/
def origin : Option OriginKind := p.read .origin OriginKind.decode

/-- AS_PATH. -/
def asPath : Option AsPath := p.read .asPath AsPath.decode4

/-- `as_path_wire`: the AS_PATH at the width the session uses. -/
def asPathWire (asn4 : Bool) : Option AsPath :=
  p.read .asPath fun v => if asn4 then AsPath.decode4 v else AsPath.decode v

/-- AS4_PATH. -/
def as4Path : Option AsPath := p.read .as4Path AsPath.decode4

/-- NEXT_HOP. -/
def nextHop : Option IpAddr := p.read .nextHop decodeNextHopAttr

/-- MULTI_EXIT_DISC. -/
def med : Option UInt32 := p.read .multiExitDisc decodeU32

/-- LOCAL_PREF. -/
def localPref : Option UInt32 := p.read .localPref decodeU32

/-- OTC (RFC 9234). -/
def otc : Option UInt32 := p.read .otc decodeU32

/-- The private tag of the IGP metric. -/
def igpMetric : Option UInt32 := p.read .lrIgpMetric decodeU32

/-- The private tag of the peer address. -/
def peerSourceAddress : Option IpAddr :=
  p.read .lrPeerSourceAddress decodeNextHopAttr

/-- COMMUNITIES, empty where absent. -/
def communities : List UInt32 :=
  ((p.get .communities).map fun a => decodeWords a.value).getD []

/-- The community is carried. -/
def hasCommunity (c : UInt32) : Bool := p.communities.contains c

/-- `set_local_pref`. -/
def setLocalPref (v : UInt32) : PathAttributes :=
  p.insert ⟨PathAttrFlags.new.setTransitive true, .localPref, toBe32 v⟩

/-- `set_peer_source_address`. -/
def setPeerSourceAddress (a : IpAddr) : PathAttributes :=
  p.insert ⟨PathAttrFlags.new.setOptional true, .lrPeerSourceAddress, a.octets⟩

/-! ## Conversions -/

/-- `From<PathAttributes> for Attributes`. -/
def toAttributes : Attributes :=
  p.attrs.foldl (fun m a => m.insert a.attrType.toU8 ⟨a.flags.bits, a.value⟩) ∅

end

/-- A session attribute as it is stored. -/
def stored (a : PathAttribute) : Attribute := ⟨a.flags.bits, a.value⟩

theorem getElem?_foldl_insert (tag : UInt8) :
    ∀ (l : List PathAttribute) (m : Attributes), (l.map PathAttribute.attrType).Nodup →
      (∀ a ∈ l, a.attrType.Canonical) →
      (l.foldl (fun m a => m.insert a.attrType.toU8 ⟨a.flags.bits, a.value⟩) m)[tag]? =
        ((l.find? fun a => a.attrType = AttrType.fromU8 tag).map stored).or m[tag]?
  | [], m, _, _ => by simp
  | a :: l, m, hnd, hcan => by
      simp only [map_cons, nodup_cons] at hnd
      rw [foldl_cons,
        getElem?_foldl_insert tag l _ hnd.2 fun b hb => hcan b (by simp [hb]),
        Std.ExtTreeMap.getElem?_insert]
      by_cases ha : a.attrType = AttrType.fromU8 tag
      · -- the tag is this one's, and no later attribute has it
        have hlater : l.find? (fun b => b.attrType = AttrType.fromU8 tag) = none := by
          rw [find?_eq_none]
          intro b hb heq
          exact hnd.1 (mem_map.mpr ⟨b, hb, by simpa [ha] using heq⟩)
        have htag : a.attrType.toU8 = tag := by rw [ha, AttrType.toU8_fromU8]
        simp [ha, hlater, stored]
      · have htag : a.attrType.toU8 ≠ tag := by
          rintro rfl
          exact ha (hcan a (by simp)).symm
        simp [ha, htag]

/-- Storing an attribute list and looking a tag up reads the list. -/
theorem getElem?_toAttributes {p : PathAttributes} (h : p.Canonical) (tag : UInt8) :
    p.toAttributes[tag]? = (p.get (AttrType.fromU8 tag)).map stored := by
  rw [toAttributes, getElem?_foldl_insert tag p.attrs ∅ p.nodup (canonical_iff.mp h)]
  simp [get]

/-- One entry of an attribute set as a session attribute. -/
def ofEntry (e : UInt8 × Attribute) : PathAttribute :=
  ⟨⟨e.2.flags⟩, AttrType.fromU8 e.1, e.2.value⟩

/-- `From<Attributes> for PathAttributes`, in tag order.  The tags are distinct,
so every insertion of the source appends. -/
def ofAttributes (m : Attributes) : PathAttributes where
  attrs := m.toList.map ofEntry
  nodup := by
    rw [map_map]
    refine List.Nodup.map_on ?_ ?_
    · rintro ⟨t, a⟩ hx ⟨u, b⟩ hy hxy
      obtain rfl : t = u := AttrType.fromU8_injective hxy
      rw [Std.ExtTreeMap.mem_toList_iff_getElem?_eq_some] at hx hy
      rw [Option.some.inj (hx.symm.trans hy)]
    · refine List.Pairwise.imp ?_ (Std.ExtTreeMap.distinct_keys_toList (t := m))
      intro x y hne heq
      exact hne (by rw [heq]; exact Std.ReflCmp.compare_self)

theorem get_ofAttributes (m : Attributes) (tag : UInt8) :
    (ofAttributes m).get (AttrType.fromU8 tag) = m[tag]?.map fun a => ofEntry (tag, a) := by
  apply Option.ext
  intro a
  rw [get_eq_some_iff]
  simp only [ofAttributes, mem_map, Option.map_eq_some_iff]
  constructor
  · rintro ⟨⟨e, he, rfl⟩, htype⟩
    obtain rfl : e.1 = tag := AttrType.fromU8_injective htype
    exact ⟨e.2, Std.ExtTreeMap.mem_toList_iff_getElem?_eq_some.mp he, rfl⟩
  · rintro ⟨v, hv, rfl⟩
    exact ⟨⟨(tag, v), Std.ExtTreeMap.mem_toList_iff_getElem?_eq_some.mpr hv, rfl⟩, rfl⟩

theorem get_ofAttributes_toAttributes {p : PathAttributes} (h : p.Canonical) {t : AttrType}
    (ht : t.Canonical) : (ofAttributes p.toAttributes).get t = p.get t := by
  rw [← ht, get_ofAttributes, getElem?_toAttributes h, Option.map_map, ht]
  cases hget : p.get t with
  | none => rfl
  | some a =>
    obtain rfl := attrType_of_get hget
    obtain ⟨flags, attrType, value⟩ := a
    simp only [Option.map_some, Function.comp_apply, ofEntry, stored,
      show AttrType.fromU8 attrType.toU8 = attrType from ht]

theorem canonical_ofAttributes (m : Attributes) : (ofAttributes m).Canonical := by
  rw [canonical_iff]
  intro a ha
  obtain ⟨e, -, rfl⟩ := mem_map.mp ha
  exact AttrType.canonical_fromU8 e.1

end PathAttributes

end LibRouting.Bgp
