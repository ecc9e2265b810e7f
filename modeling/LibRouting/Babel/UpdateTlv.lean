/-
  Babel/UpdateTlv.lean --- Update TLVs: the Source Prefix sub-TLV and prefix compression
  (`lr-babel/src/message/mod.rs`).

  `Update::decode` takes a body whose sub-TLVs do not parse for one without a source
  prefix; `PrefixCache` keeps the last flagged prefix of an address encoding.
-/
import LibRouting.Babel.Runtime

set_option autoImplicit false

namespace LibRouting.Babel

open Foundation Core Prefix List

/-! ## Decoding -/

/-- An Update TLV as it stands in a packet. -/
structure UpdateTlv where
  ae : UInt8
  flags : UInt8
  prefixLen : UInt8
  omitted : UInt8
  intervalCs : UInt16
  seqno : UInt16
  metric : UInt16
  pfx : Bytes
  srcPrefixLen : UInt8
  srcPrefix : Bytes
  deriving DecidableEq, Repr

/-- The type of the source prefix sub-TLV (RFC 9079). -/
def sourcePrefixSubtlv : UInt8 := 128

/-- `parse_source_subtlv`; `src` is what the loop has found.  A corrupt area reads like one
without a source prefix. -/
def parseSourceSubtlv (src : Option (UInt8 × Bytes)) : Bytes → Option (UInt8 × Bytes)
  | [] => src
  | [kind] => if kind = 0 then src else none
  | kind :: len :: rest =>
    if kind = 0 then parseSourceSubtlv src (len :: rest)
    else if rest.length < len.toNat then none
    else if kind = sourcePrefixSubtlv then
      match rest.take len.toNat with
      | [] => none
      | plen :: octets =>
        if octets.length < octetCount plen || src.isSome then none
        else parseSourceSubtlv (some (plen, octets)) (rest.drop len.toNat)
    else parseSourceSubtlv src (rest.drop len.toNat)
termination_by tail => tail.length
decreasing_by
  all_goals
    simp only [length_cons, length_drop]
    omega

namespace UpdateTlv

/-- The fixed part and the prefix of an Update, and the octets of its sub-TLVs. -/
def decodeFixed : Bytes → Option (UpdateTlv × Bytes)
  | ae :: flags :: prefixLen :: omitted :: i₁ :: i₂ :: s₁ :: s₂ :: m₁ :: m₂ :: body =>
    let full := octetCount prefixLen
    if prefixLen > 128 || full < omitted.toNat || body.length < full - omitted.toNat then none
    else
      some (⟨ae, flags, prefixLen, omitted, fromBe16 i₁ i₂, fromBe16 s₁ s₂, fromBe16 m₁ m₂,
        body.take (full - omitted.toNat), 0, []⟩, body.drop (full - omitted.toNat))
  | _ => none

/-- `Update::decode`. -/
def decode (v : Bytes) : Option UpdateTlv :=
  (decodeFixed v).map fun (u, tail) =>
    let (srcPrefixLen, srcPrefix) := (parseSourceSubtlv none tail).getD (0, [])
    { u with srcPrefixLen, srcPrefix }

/-- The Update with its whole prefix in band. -/
def expanded (u : UpdateTlv) (octets : Bytes) : Update :=
  ⟨u.ae, u.prefixLen, u.intervalCs, u.seqno, u.metric, octets, u.srcPrefixLen, u.srcPrefix⟩

/-- The source prefix `apply_update` reads. -/
def source (u : UpdateTlv) : Option Prefix := (u.expanded []).source

end UpdateTlv

/-! ## Sub-TLVs -/

/-- A sub-TLV; one that runs past the end of its TLV has no body. -/
structure SubTlv where
  kind : UInt8
  body : Option Bytes
  deriving DecidableEq, Repr

/-- The sub-TLVs of a TLV, up to the first that runs past its end. -/
def subTlvs : Bytes → List SubTlv
  | [] => []
  | [kind] => if kind = 0 then [] else [⟨kind, none⟩]
  | kind :: len :: rest =>
    if kind = 0 then subTlvs (len :: rest)
    else if rest.length < len.toNat then [⟨kind, none⟩]
    else ⟨kind, some (rest.take len.toNat)⟩ :: subTlvs (rest.drop len.toNat)
termination_by tail => tail.length
decreasing_by
  all_goals
    simp only [length_cons, length_drop]
    omega

/-- The sub-TLVs a receiver must understand. -/
def mandatory (tail : Bytes) : List SubTlv := (subTlvs tail).filter fun s => 128 ≤ s.kind

/-- No sub-TLV is cut short. -/
def Complete (tail : Bytes) : Prop := ∀ s ∈ subTlvs tail, s.body.isSome = true

/-- A source prefix sub-TLV. -/
def IsSource (s : SubTlv) : Bool := s.kind = sourcePrefixSubtlv

/-- What the loop returns, by the sub-TLVs in front of it. -/
theorem parseSourceSubtlv_eq_some (src : Option (UInt8 × Bytes)) (tail : Bytes) (plen : UInt8)
    (octets : Bytes) :
    parseSourceSubtlv src tail = some (plen, octets) ↔ Complete tail ∧
      (src = some (plen, octets) ∧ (subTlvs tail).filter IsSource = [] ∨
        src = none ∧ octetCount plen ≤ octets.length ∧
          (subTlvs tail).filter IsSource = [⟨sourcePrefixSubtlv, some (plen :: octets)⟩]) := by
  simp only [Complete]
  induction src, tail using parseSourceSubtlv.induct with
  | case1 src | case2 src => simp [parseSourceSubtlv, subTlvs]
  | case3 src kind hkind => simp [parseSourceSubtlv, subTlvs, hkind]
  | case4 src len rest ih =>
    rw [parseSourceSubtlv, subTlvs, if_pos rfl, if_pos rfl]
    exact ih
  | case5 src kind len rest hkind hlen => simp [parseSourceSubtlv, subTlvs, hkind, hlen]
  | case6 src len rest hlen hkind htake =>
    simp [parseSourceSubtlv, subTlvs, hkind, hlen, htake, IsSource]
  | case7 src len rest hlen plen' octets' htake hbad hkind =>
    simp only [parseSourceSubtlv, subTlvs, hkind, hlen, htake, hbad, if_false, if_true]
    refine iff_of_false (by simp) ?_
    rintro ⟨-, ⟨-, hnone⟩ | ⟨rfl, hle, hone⟩⟩
    · simp [IsSource] at hnone
    · simp [IsSource] at hone hbad
      obtain ⟨⟨rfl, rfl⟩, -⟩ := hone
      omega
  | case8 src len rest hlen plen' octets' htake hok hkind ih =>
    obtain ⟨hle, rfl⟩ : octetCount plen' ≤ octets'.length ∧ src = none := by simpa using hok
    simp only [parseSourceSubtlv, subTlvs, hkind, hlen, htake, hok, if_false, if_true,
      Bool.false_eq_true]
    rw [ih]
    simp [IsSource]
    rintro - rfl rfl -
    exact hle
  | case9 src kind len rest hkind hlen hother ih =>
    simp [parseSourceSubtlv, subTlvs, hkind, hlen, hother, IsSource, ih]

/-! ## Source-specific Updates -/

/-- The octets of an address, for the encodings a destination may have. -/
def aeWidth : UInt8 → Nat
  | 1 | 4 => 4
  | 2 => 16
  | _ => 0

theorem Update.destination_eq_none {u : Update}
    (h : u.pfx = [] ∨ aeWidth u.ae < u.pfx.length) : u.destination = none := by
  rw [destination]
  simp only [aeWidth] at h
  split at h
  all_goals simp_all

namespace UpdateTlv

variable {u u₀ : UpdateTlv} {v tail : Bytes}

/-- `apply_update` acts on the Update: it retracts everything or names a destination. -/
def acts (u : UpdateTlv) : Bool :=
  if u.ae = 0 then u.metric = Update.retraction
  else 0 < u.prefixLen && octetCount u.prefixLen ≤ aeWidth u.ae

/-- The body of a Source Prefix sub-TLV: `Source Plen(1) | Source Prefix(ceil(Plen/8))`. -/
def WellFormed (ae plen : UInt8) (octets : Bytes) : Prop :=
  0 < plen ∧ plen.toNat ≤ 8 * aeWidth ae ∧ octets.length = octetCount plen

/-- The Update has the source prefix its one mandatory sub-TLV gives, and is applied with it. -/
structure SourceSpecific (u : UpdateTlv) (tail : Bytes) : Prop where
  only : mandatory tail = [⟨sourcePrefixSubtlv, some (u.srcPrefixLen :: u.srcPrefix)⟩]
  wellFormed : WellFormed u.ae u.srcPrefixLen u.srcPrefix
  applied : u.source.isSome = true

/-- A body with mandatory sub-TLVs is ignored or read as a source-specific Update. -/
def NeverDegrades (v : Bytes) : Prop :=
  ∀ u₀ tail u, decodeFixed v = some (u₀, tail) → decode v = some u → u.acts = true →
    mandatory tail ≠ [] → u.SourceSpecific tail

/-- The one mandatory sub-TLV is a well-formed Source Prefix, and no sub-TLV is cut off. -/
def Regular (v : Bytes) : Prop :=
  ∀ u₀ tail, decodeFixed v = some (u₀, tail) → u₀.acts = true → mandatory tail ≠ [] →
    Complete tail ∧ ∃ plen octets, WellFormed u₀.ae plen octets ∧
      mandatory tail = [⟨sourcePrefixSubtlv, some (plen :: octets)⟩]

theorem decode_eq (h : decodeFixed v = some (u₀, tail)) :
    decode v = some { u₀ with
      srcPrefixLen := ((parseSourceSubtlv none tail).getD (0, [])).1
      srcPrefix := ((parseSourceSubtlv none tail).getD (0, [])).2 } := by
  rw [decode, h]
  rfl

/-- Source prefixes are mandatory sub-TLVs. -/
theorem filter_isSource (tail : Bytes) :
    (subTlvs tail).filter IsSource = (mandatory tail).filter IsSource := by
  rw [mandatory, filter_filter]
  refine filter_congr fun s _ => ?_
  by_cases h : s.kind = sourcePrefixSubtlv
  · simp [IsSource, h, sourcePrefixSubtlv]
  · simp [IsSource, h]

theorem WellFormed.source_isSome (h : WellFormed u.ae u.srcPrefixLen u.srcPrefix) :
    u.source.isSome = true := by
  obtain ⟨hpos, hle, hlen⟩ := h
  have hne : u.srcPrefix.isEmpty = false := by
    rw [isEmpty_eq_false_iff_exists_mem, ← length_pos_iff_exists_mem, hlen]
    have := UInt8.lt_iff_toNat_lt.mp hpos
    simp [octetCount] at this ⊢
    omega
  have hwidth : u.srcPrefix.length ≤ aeWidth u.ae := by
    rw [hlen, octetCount]
    omega
  simp only [source, Update.source, expanded, hpos, hne, aeWidth] at hwidth ⊢
  split at hwidth
  all_goals simp_all

/-- An Update `apply_update` does not act on leaves the session as it is. -/
theorem applyUpdate_of_not_acts {octets : Bytes} (hacts : u.acts = false)
    (hlen : octets.length = octetCount u.prefixLen) (rt : BabelRuntime)
    (link : Option UInt32) (nowMs : Nat) : rt.applyUpdate (u.expanded octets) link nowMs = rt := by
  rw [acts] at hacts
  by_cases hae : u.ae = 0
  · simp_all [BabelRuntime.applyUpdate, expanded]
  have hnone : (u.expanded octets).destination = none := by
    refine Update.destination_eq_none ?_
    simp only [hae, if_false, Bool.and_eq_false_iff, decide_eq_false_iff_not, ← hlen] at hacts
    obtain hzero | hwide := hacts
    · have hlen : octets.length = 0 := by
        rw [hlen, octetCount]
        simp [UInt8.lt_iff_toNat_lt] at hzero
        omega
      exact .inl (eq_nil_of_length_eq_zero hlen)
    · exact .inr (not_le.mp hwide)
  have hae : (u.expanded octets).ae ≠ 0 := hae
  simp [BabelRuntime.applyUpdate, hnone, hae]

/-- What decoding does with the mandatory sub-TLVs of every body. -/
theorem neverDegrades_iff (v : Bytes) :
    (NeverDegrades v ↔ Regular v) ∧
      ∀ u, decode v = some u → u.acts = false →
        ∀ octets : Bytes, octets.length = octetCount u.prefixLen →
          ∀ (rt : BabelRuntime) (link : Option UInt32) (nowMs : Nat),
            rt.applyUpdate (u.expanded octets) link nowMs = rt := by
  refine ⟨⟨fun h u₀ tail hfixed hacts hman => ?_, fun h u₀ tail u hfixed hu hacts hman => ?_⟩,
    fun u _ hacts octets hlen => applyUpdate_of_not_acts hacts hlen⟩
  · obtain ⟨honly, hwell, -⟩ := h u₀ tail _ hfixed (decode_eq hfixed) hacts hman
    -- a source prefix that is not empty is one the loop has returned
    cases hparse : parseSourceSubtlv none tail with
    | none => simp [WellFormed, hparse] at hwell
    | some found =>
      rw [hparse] at hwell honly
      exact ⟨((parseSourceSubtlv_eq_some ..).mp hparse).1, _, _, hwell, honly⟩
  · rw [decode_eq hfixed] at hu
    obtain rfl := Option.some.inj hu
    obtain ⟨hcomplete, plen, octets, hwell, honly⟩ := h u₀ tail hfixed hacts hman
    have hparse : parseSourceSubtlv none tail = some (plen, octets) := by
      refine (parseSourceSubtlv_eq_some ..).mpr ⟨hcomplete, .inr ⟨rfl, hwell.2.2.ge, ?_⟩⟩
      rw [filter_isSource, honly]
      rfl
    rw [hparse]
    exact ⟨honly, hwell, WellFormed.source_isSome hwell⟩

/-- The source prefix is cut off: 10.0.0.0/8 is announced to every source. -/
theorem truncated_source_degrades :
    decode [1, 0, 8, 0, 0, 100, 0, 1, 0, 0, 10, 128, 1, 24] =
        some ⟨1, 0, 8, 0, 100, 1, 0, [10], 0, []⟩ ∧
      ¬ NeverDegrades [1, 0, 8, 0, 0, 100, 0, 1, 0, 0, 10, 128, 1, 24] := by
  refine ⟨by decide +kernel, fun h => ?_⟩
  have hsource := h ⟨1, 0, 8, 0, 100, 1, 0, [10], 0, []⟩ [128, 1, 24]
    ⟨1, 0, 8, 0, 100, 1, 0, [10], 0, []⟩ (by decide +kernel) (by decide +kernel)
    (by decide +kernel) (by decide +kernel)
  exact absurd hsource.wellFormed.1 (by decide)

end UpdateTlv

/-! ## Prefix compression -/

/-- The last flagged prefix per cache, filled up with zeros. -/
structure PrefixCache where
  v4 : Option (Octets 4)
  v4ViaV6 : Option (Octets 4)
  v6 : Option (Octets 16)

namespace PrefixCache

/-- The flag that makes the prefix the default one. -/
def flagPrefix : UInt8 := 0x80

/-- The default prefix of the encoding. -/
def saved (c : PrefixCache) : UInt8 → Option Bytes
  | 1 => c.v4.map (·.bytes)
  | 4 => c.v4ViaV6.map (·.bytes)
  | _ => c.v6.map (·.bytes)

/-- Makes the octets the default prefix of the encoding. -/
def save (c : PrefixCache) (ae : UInt8) (octets : Bytes) : PrefixCache :=
  match ae with
  | 1 => { c with v4 := some (.padded 4 octets) }
  | 4 => { c with v4ViaV6 := some (.padded 4 octets) }
  | _ => { c with v6 := some (.padded 16 octets) }

/-- `PrefixCache::expand`: fills in the octets the sender left out. -/
def expand (c : PrefixCache) (u : UpdateTlv) : PrefixCache × Option Update :=
  let full := octetCount u.prefixLen
  let omitted := u.omitted.toNat
  if u.ae = 0 then (c, some (u.expanded u.pfx))
  else if omitted > full || u.pfx.length + omitted != full then (c, none)
  -- there is no saved prefix to omit octets of
  else if ((c.saved u.ae).getD []).length < omitted then (c, none)
  else
    let octets := ((c.saved u.ae).getD []).take omitted ++ u.pfx
    (if u.flags &&& flagPrefix ≠ 0 then c.save u.ae octets else c, some (u.expanded octets))

/-- The Updates of a packet, from their bodies. -/
def expandAll (c : PrefixCache) : List Bytes → List (Option Update)
  | [] => []
  | v :: bodies =>
    match UpdateTlv.decode v with
    | none => none :: c.expandAll bodies
    | some u => (c.expand u).2 :: (c.expand u).1.expandAll bodies

end PrefixCache

/-- The last flagged prefix of every address encoding (RFC 8966, 4.6.9). -/
abbrev Flagged : Type := UInt8 → Option Bytes

namespace Flagged

/-- The octets of an address in each encoding; fe80::/64 is implied by a link-local one. -/
def width : UInt8 → Nat
  | 1 | 4 => 4
  | 2 => 16
  | 3 => 8
  | _ => 0

/-- The full prefix of an Update: the omitted octets from the last flagged prefix of its
encoding, followed by zeros, and the rest from the TLV.  Link-local prefixes are never
compressed. -/
def fullPrefix (f : Flagged) (u : UpdateTlv) : Option Bytes :=
  if 8 * width u.ae < u.prefixLen.toNat then none
  else if u.omitted.toNat + u.pfx.length ≠ octetCount u.prefixLen then none
  else if u.omitted = 0 then some u.pfx
  else if u.ae = 3 then none
  else (f u.ae).map fun p => (Octets.padded (width u.ae) p).bytes.take u.omitted.toNat ++ u.pfx

/-- The prefixes that are remembered behind an Update. -/
def flag (f : Flagged) (u : UpdateTlv) : Flagged :=
  if u.flags &&& PrefixCache.flagPrefix = 0 then f
  else
    match f.fullPrefix u with
    | none => f
    | some octets => Function.update f u.ae (some octets)

/-- What a packet of Updates says where the default is decided by `f`. -/
def expandAll (f : Flagged) : List Bytes → List (Option Update)
  | [] => []
  | v :: bodies =>
    match UpdateTlv.decode v with
    | none => none :: f.expandAll bodies
    | some u => (f.fullPrefix u).map u.expanded :: (f.flag u).expandAll bodies

end Flagged

/-- A prefix length within the width of the encoding, and an encoding that has a cache to
itself, or a link-local prefix that leaves the cache alone. -/
def UpdateTlv.Encodable (u : UpdateTlv) : Prop :=
  u.prefixLen.toNat ≤ 8 * Flagged.width u.ae ∧ (u.ae ∈ [0, 1, 2, 4] ∨
    u.ae = 3 ∧ u.omitted = 0 ∧ u.flags &&& PrefixCache.flagPrefix = 0)
  deriving Decidable

namespace PrefixCache

variable {c : PrefixCache} {f : Flagged} {u : UpdateTlv}

/-- The caches hold the last flagged prefixes. -/
def Holds (c : PrefixCache) (f : Flagged) : Prop :=
  ∀ ae ∈ [1, 2, 4], c.saved ae = (f ae).map fun p => (Octets.padded (Flagged.width ae) p).bytes

theorem Holds.save (h : c.Holds f) {ae : UInt8} (hae : ae ∈ [1, 2, 4]) (octets : Bytes) :
    (c.save ae octets).Holds (Function.update f ae (some octets)) := by
  intro ae' hae'
  obtain rfl | hne := eq_or_ne ae' ae
  · rw [Function.update_self]
    simp only [mem_cons, not_mem_nil, or_false] at hae
    rcases hae with rfl | rfl | rfl <;> rfl
  rw [Function.update_of_ne hne, ← h ae' hae']
  simp only [mem_cons, not_mem_nil, or_false] at hae hae'
  rcases hae with rfl | rfl | rfl <;> rcases hae' with rfl | rfl | rfl <;>
    first | rfl | exact absurd rfl hne

theorem decode_lengths {v : Bytes} (h : UpdateTlv.decode v = some u) :
    u.omitted.toNat + u.pfx.length = octetCount u.prefixLen := by
  obtain ⟨⟨u₀, tail⟩, hfixed, rfl⟩ := Option.map_eq_some_iff.mp h
  dsimp only
  rw [UpdateTlv.decodeFixed.eq_def] at hfixed
  split at hfixed
  · obtain ⟨hok, hu⟩ := Option.ite_none_left_eq_some.mp hfixed
    obtain ⟨rfl, -⟩ := Prod.mk.inj (Option.some.inj hu)
    simp at hok ⊢
    omega
  · cases hfixed

/-- The full prefix, by what the cache of the encoding holds. -/
theorem Holds.fullPrefix (h : c.Holds f) (hae : u.ae ∈ [1, 2, 4])
    (hwidth : u.prefixLen.toNat ≤ 8 * Flagged.width u.ae)
    (hlen : u.omitted.toNat + u.pfx.length = octetCount u.prefixLen) :
    f.fullPrefix u = if ((c.saved u.ae).getD []).length < u.omitted.toNat then none
      else some (((c.saved u.ae).getD []).take u.omitted.toNat ++ u.pfx) := by
  have homitted : u.omitted.toNat ≤ Flagged.width u.ae := by
    rw [octetCount] at hlen
    omega
  rw [h _ hae, Flagged.fullPrefix, if_neg (not_lt.mpr hwidth), if_neg (not_not.mpr hlen)]
  by_cases hzero : u.omitted = 0
  · simp [hzero]
  have hpos : 0 < u.omitted.toNat := by
    rw [Nat.pos_iff_ne_zero]
    exact fun h => hzero (UInt8.toNat_inj.mp h)
  have hlocal : u.ae ≠ 3 := by
    rintro h
    rw [h] at hae
    simp at hae
  cases f u.ae with
  | none => simp [hzero, hpos]
  | some p => simp [hzero, homitted, hlocal]

/-- One Update: the caches follow the last flagged prefixes. -/
theorem Holds.expand (h : c.Holds f) (henc : u.Encodable)
    (hlen : u.omitted.toNat + u.pfx.length = octetCount u.prefixLen) :
    (c.expand u).2 = (f.fullPrefix u).map u.expanded ∧ (c.expand u).1.Holds (f.flag u) := by
  obtain ⟨hwidth, hae | ⟨hae, homitted, hflag⟩⟩ := henc
  rotate_left
  · have hfull : f.fullPrefix u = some u.pfx := by
      rw [Flagged.fullPrefix, if_neg (not_lt.mpr hwidth), if_neg (not_not.mpr hlen),
        if_pos homitted]
    have hread : c.expand u = (c, some (u.expanded u.pfx)) := by
      simp [homitted] at hlen
      simp [PrefixCache.expand, hae, homitted, hflag, hlen]
    rw [hread, Flagged.flag, if_pos hflag, hfull]
    exact ⟨rfl, h⟩
  rw [PrefixCache.expand]
  obtain hzero | hae := mem_cons.mp hae
  · -- nothing is named and nothing is omitted
    have hfull : f.fullPrefix u = some u.pfx := by
      rw [hzero] at hwidth
      have hnone : u.omitted.toNat = 0 := by
        simp [octetCount, Flagged.width] at hwidth hlen
        omega
      rw [Flagged.fullPrefix, hzero, if_neg (not_lt.mpr hwidth), if_neg (not_not.mpr hlen),
        if_pos (UInt8.toNat_inj.mp hnone)]
    rw [if_pos hzero, Flagged.flag, hfull]
    refine ⟨rfl, fun ae hae => ?_⟩
    have hne : ae ≠ u.ae := by
      rintro rfl
      simp [hzero] at hae
    split
    · exact h ae hae
    · dsimp only
      rw [Function.update_of_ne hne]
      exact h ae hae
  · have hne : u.ae ≠ 0 := by
      rintro h
      rw [h] at hae
      simp at hae
    rw [Flagged.flag, h.fullPrefix hae hwidth hlen]
    have hok : (decide (u.omitted.toNat > octetCount u.prefixLen) ||
        u.pfx.length + u.omitted.toNat != octetCount u.prefixLen) = false := by
      simp
      omega
    simp only [hne, hok, if_false, Bool.false_eq_true]
    split
    · exact ⟨rfl, by split <;> exact h⟩
    refine ⟨rfl, ?_⟩
    by_cases hflag : u.flags &&& flagPrefix = 0
    · simpa [hflag] using h
    · simpa [hflag] using h.save hae _

theorem Holds.expandAll {bodies : List Bytes} (h : c.Holds f)
    (henc : ∀ v ∈ bodies, ∀ u ∈ UpdateTlv.decode v, u.Encodable) :
    c.expandAll bodies = f.expandAll bodies := by
  induction bodies generalizing c f with
  | nil => rfl
  | cons v bodies ih =>
    obtain ⟨henc, hencs⟩ := forall_mem_cons.mp henc
    simp only [PrefixCache.expandAll, Flagged.expandAll]
    cases hu : UpdateTlv.decode v with
    | none => exact congrArg _ (ih h hencs)
    | some u =>
      obtain ⟨hout, hholds⟩ := h.expand (henc u hu) (decode_lengths hu)
      exact congrArg₂ _ hout (ih hholds hencs)

/-- Prefix compression over the Updates of every packet. -/
theorem expandAll_eq_flagged (bodies : List Bytes)
    (henc : ∀ v ∈ bodies, ∀ u ∈ UpdateTlv.decode v, u.Encodable) :
    expandAll ⟨none, none, none⟩ bodies = Flagged.expandAll (fun _ => none) bodies :=
  Holds.expandAll (fun ae hae => by
    simp only [mem_cons, not_mem_nil, or_false] at hae
    rcases hae with rfl | rfl | rfl <;> rfl) henc

/-- 10.1.0.0/16 is flagged; the next Update omits its first octet. -/
theorem expandAll_eq_flagged_compressed :
    expandAll ⟨none, none, none⟩
        [[1, 0x80, 16, 0, 0, 100, 0, 1, 0, 0, 10, 1], [1, 0, 16, 1, 0, 100, 0, 1, 0, 0, 2]] =
      Flagged.expandAll (fun _ => none)
        [[1, 0x80, 16, 0, 0, 100, 0, 1, 0, 0, 10, 1], [1, 0, 16, 1, 0, 100, 0, 1, 0, 0, 2]] :=
  expandAll_eq_flagged _ (by decide +kernel)

/-- An IPv4 prefix of 40 bits is accepted, and 2001::/16 is completed from a link-local
prefix. -/
theorem expandAll_diverges :
    expandAll ⟨none, none, none⟩ [[1, 0, 40, 0, 0, 100, 0, 1, 0, 0, 1, 2, 3, 4, 5]] =
        [some ⟨1, 40, 100, 1, 0, [1, 2, 3, 4, 5], 0, []⟩] ∧
      Flagged.expandAll (fun _ => none) [[1, 0, 40, 0, 0, 100, 0, 1, 0, 0, 1, 2, 3, 4, 5]] =
        [none] ∧
      expandAll ⟨none, none, none⟩
          [[3, 0x80, 8, 0, 0, 100, 0, 1, 0, 0, 0x20], [2, 0, 16, 1, 0, 100, 0, 1, 0, 0, 1]] =
        [some ⟨3, 8, 100, 1, 0, [0x20], 0, []⟩, some ⟨2, 16, 100, 1, 0, [0x20, 1], 0, []⟩] ∧
      Flagged.expandAll (fun _ => none)
          [[3, 0x80, 8, 0, 0, 100, 0, 1, 0, 0, 0x20], [2, 0, 16, 1, 0, 100, 0, 1, 0, 0, 1]] =
        [some ⟨3, 8, 100, 1, 0, [0x20], 0, []⟩, none] := by
  decide +kernel

end PrefixCache

end LibRouting.Babel
