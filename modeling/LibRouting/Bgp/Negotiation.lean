/-
  Bgp/Negotiation.lean --- what an OPEN exchange settles on each side.

  Each side computes the hold time and the Add-Path directions from its own
  configuration and the capabilities it decodes.  When the OPEN of the other side
  fits its length octet, the capabilities arrive as they were offered
  (`openCapabilities_received`), and both computations are symmetric in the two
  configurations (`negotiate_settled`).
-/
import LibRouting.Bgp.Codec.RoundTrip
import LibRouting.Bgp.Stream

set_option autoImplicit false

namespace LibRouting.Bgp

open Foundation Core Outcome List

/-! ## Capabilities on the wire -/

theorem CapabilityCode.fromU8_toU8 {c : CapabilityCode} (h : c ∈ named) : fromU8 c.toU8 = c := by
  revert c
  decide

namespace Capability
variable {caps : List Capability} {c : Capability}

theorem length_le_encodeSet (h : c ∈ caps) : c.value.length ≤ (encodeSet caps).length := by
  obtain ⟨before, after, rfl⟩ := append_of_mem h
  simp only [encodeSet, flatMap_append, flatMap_cons, length_append,
    length_cons]
  omega

theorem decodeSet_encodeSet (hcode : ∀ c ∈ caps, c.code ∈ CapabilityCode.named)
    (hlen : ∀ c ∈ caps, c.value.length ≤ 255) : decodeSet (encodeSet caps) = caps := by
  induction caps with
  | nil =>
    show decodeSet [] = []
    simp [decodeSet]
  | cons c caps ih =>
    have hvalue : (UInt8.ofNat c.value.length).toNat = c.value.length :=
      toNat_ofNat_of_le8 (hlen c (by simp))
    have hrest := ih (fun d hd => hcode d (by simp [hd])) (fun d hd => hlen d (by simp [hd]))
    have hwire : encodeSet (c :: caps) =
        c.code.toU8 :: UInt8.ofNat c.value.length :: (c.value ++ encodeSet caps) := by
      simp [encodeSet]
    rw [hwire, decodeSet, hvalue, if_neg (by simp), take_left, drop_left, hrest,
      CapabilityCode.fromU8_toU8 (hcode c (by simp))]

theorem asAddPath_addPath (families : List NlriFamily) :
    asAddPath (addPath families) = families.map fun f => (f, true, true) := by
  have hchunks : ∀ fs : List NlriFamily,
      asAddPath.chunks (fs.flatMap fun f => toBe16 f.afi ++ [f.safi, 0x03]) =
        fs.map fun f => (f, true, true) := by
    intro fs
    induction fs with
    | nil => rfl
    | cons f fs ih =>
      simp only [flatMap_cons, map_cons, ← ih]
      simp only [toBe16, cons_append, nil_append, asAddPath.chunks, fromBe16_toBe16]
      rfl
  simp only [asAddPath, addPath, if_true]
  exact hchunks families

theorem asAddPath_of_code_ne (h : c.code ≠ .addPath) : asAddPath c = [] :=
  if_neg h

end Capability

namespace PeerConfig
variable {cfg : PeerConfig} {f : NlriFamily}

/-- A session offers capabilities the library has names for, and Add-Path only for
its own families. -/
theorem mem_capabilities {c : Capability} (h : c ∈ cfg.capabilities) :
    c.code ∈ CapabilityCode.named ∧ (c.code = .addPath → c = .addPath cfg.addPathFamilies) := by
  simp only [capabilities, mem_append, mem_map, mem_ite_nil_right,
    mem_singleton] at h
  obtain ((((((⟨-, rfl⟩ | ⟨f, -, rfl⟩) | ⟨-, rfl⟩) | ⟨-, rfl⟩) | ⟨-, rfl⟩) | ⟨-, rfl⟩) |
    ⟨-, rfl⟩) | ⟨-, rfl⟩ := h
  case inl.inr => exact ⟨by simp [Capability.addPath, CapabilityCode.named], fun _ => rfl⟩
  all_goals exact ⟨by simp [CapabilityCode.named, Capability.fourOctetAs, Capability.multiprotocol,
    Capability.routeRefresh, Capability.enhancedRr, Capability.gracefulRestart,
    Capability.longLivedGr, Capability.extendedNextHop], fun h => by cases h⟩

theorem mem_asAddPath_capabilities {t : NlriFamily × Bool × Bool} :
    t ∈ cfg.capabilities.flatMap Capability.asAddPath ↔
      t.1 ∈ cfg.addPathFamilies ∧ t.2 = (true, true) := by
  rw [mem_flatMap]
  constructor
  · rintro ⟨c, hc, ht⟩
    by_cases hcode : c.code = .addPath
    · rw [(mem_capabilities hc).2 hcode, Capability.asAddPath_addPath] at ht
      obtain ⟨f, hf, rfl⟩ := mem_map.mp ht
      exact ⟨hf, rfl⟩
    · rw [Capability.asAddPath_of_code_ne hcode] at ht
      cases ht
  · obtain ⟨f, directions⟩ := t
    rintro ⟨hf, rfl⟩
    refine ⟨.addPath cfg.addPathFamilies, ?_, ?_⟩
    · have hne : cfg.addPathFamilies ≠ [] := ne_nil_of_mem hf
      simp [capabilities, hne]
    · rw [Capability.asAddPath_addPath]
      exact mem_map_of_mem hf

/-- The optional parameters of the OPEN a session sends fit their length octet. -/
def OpenFits (cfg : PeerConfig) : Prop := (BgpMessage.open cfg.openMessage).ParamsFit
  deriving Decidable

theorem mem_collect {wants : Bool × Bool → Bool} (ts : List (NlriFamily × Bool × Bool))
    (out : List NlriFamily) :
    f ∈ ts.foldl (fun out t => if wants t.2 && !out.contains t.1 then out ++ [t.1] else out) out ↔
      f ∈ out ∨ ∃ t ∈ ts, t.1 = f ∧ wants t.2 = true := by
  induction ts generalizing out with
  | nil => simp
  | cons t ts ih =>
    rw [foldl_cons, ih]
    simp only [mem_cons, exists_eq_or_imp]
    by_cases hnew : (wants t.2 && !out.contains t.1) = true
    · have hw : wants t.2 = true := (Bool.and_eq_true_iff.mp hnew).1
      rw [if_pos hnew]
      simp only [mem_append, mem_singleton, hw, and_true, or_assoc, @eq_comm _ f t.1]
    -- a wanted family that is not collected here was collected before
    have hold : t.1 = f ∧ wants t.2 = true → f ∈ out := by
      rintro ⟨rfl, hw⟩
      simpa [hw] using hnew
    rw [if_neg hnew]
    constructor
    · rintro (h | h)
      · exact .inl h
      · exact .inr (.inr h)
    · rintro (h | h | h)
      · exact .inl h
      · exact .inl (hold h)
      · exact .inr h

/-- Both directions between two sessions cover the families both offer. -/
theorem mem_negotiatedDirections {other : PeerConfig} :
    (f ∈ (cfg.negotiatedDirections (other.capabilities.flatMap Capability.asAddPath)).1 ↔
      f ∈ cfg.addPathFamilies ∧ f ∈ other.addPathFamilies) ∧
    (f ∈ (cfg.negotiatedDirections (other.capabilities.flatMap Capability.asAddPath)).2 ↔
      f ∈ cfg.addPathFamilies ∧ f ∈ other.addPathFamilies) := by
  have hcollect : ∀ wants : Bool × Bool → Bool, wants (true, true) = true →
      ((∃ t ∈ (other.capabilities.flatMap Capability.asAddPath).filter
          fun t => cfg.addPathFamilies.contains t.1, t.1 = f ∧ wants t.2 = true) ↔
        f ∈ cfg.addPathFamilies ∧ f ∈ other.addPathFamilies) := by
    intro wants hwants
    constructor
    · rintro ⟨t, ht, rfl, -⟩
      obtain ⟨hoffer, hours⟩ := mem_filter.mp ht
      exact ⟨by simpa using hours, (mem_asAddPath_capabilities.mp hoffer).1⟩
    · rintro ⟨hours, htheirs⟩
      refine ⟨(f, true, true), mem_filter.mpr ⟨?_, by simpa using hours⟩, rfl, hwants⟩
      exact mem_asAddPath_capabilities.mpr ⟨htheirs, rfl⟩
  constructor
  · rw [negotiatedDirections]
    dsimp only
    rw [mem_collect, hcollect Prod.snd rfl]
    simp
  · rw [negotiatedDirections]
    dsimp only
    rw [mem_collect, hcollect Prod.fst rfl]
    simp

/-- An OPEN that fits carries the capabilities its sender offers. -/
theorem openCapabilities_received (h : cfg.OpenFits) (asn : Asn) :
    BgpPeer.openCapabilities { cfg.openMessage with myAs := asn } = cfg.capabilities := by
  have hfit : (Capability.encodeSet cfg.capabilities).length ≤ 253 := by
    simp only [OpenFits, BgpMessage.ParamsFit, openMessage, flatMap_cons, flatMap_nil,
      append_nil, paramWire, length_append, length_cons, length_nil] at h
    omega
  simp only [BgpPeer.openCapabilities, openMessage, flatMap_cons, flatMap_nil,
    append_nil, if_true]
  refine Capability.decodeSet_encodeSet (fun c hc => (mem_capabilities hc).1) fun c hc => ?_
  have := Capability.length_le_encodeSet hc
  omega

end PeerConfig

/-! ## The session after the exchange -/

/-- The OPEN of a session as the other side decodes it. -/
def PeerConfig.openReceived (cfg : PeerConfig) : Open :=
  { cfg.openMessage with myAs := (wireAs cfg.localAs).toUInt32 }

namespace BgpPeer

/-- What the session has negotiated is what the two configurations settle. -/
structure Settled (other : PeerConfig) (p : BgpPeer) : Prop where
  hold : p.negotiatedHoldTime = min other.holdTime p.cfg.holdTime
  tx : ∀ f, f ∈ p.addPathTx ↔ f ∈ p.cfg.addPathFamilies ∧ f ∈ other.addPathFamilies
  rx : ∀ f, f ∈ p.addPathRx ↔ f ∈ p.cfg.addPathFamilies ∧ f ∈ other.addPathFamilies

theorem negotiate_settled {other : PeerConfig} (h : other.OpenFits) (p : BgpPeer) (asn : Asn) :
    (p.negotiate other.openReceived asn).Settled other := by
  have hcaps : openCapabilities other.openReceived = other.capabilities :=
    PeerConfig.openCapabilities_received h _
  refine ⟨rfl, fun f => ?_, fun f => ?_⟩
  · simp only [negotiate, hcaps]
    exact PeerConfig.mem_negotiatedDirections.1
  · simp only [negotiate, hcaps]
    exact PeerConfig.mem_negotiatedDirections.2

end BgpPeer

end LibRouting.Bgp
