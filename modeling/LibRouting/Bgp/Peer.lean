/-
  Bgp/Peer.lean --- the configuration of one session and what an OPEN exchange
  negotiates (`peer.rs`, `role/`, `capabilities.rs`, `extensions/`).
-/
import LibRouting.Bgp.Message

set_option autoImplicit false

namespace LibRouting.Bgp

open Foundation Core

/-! ## Roles -/

/-- How a peer stands to the local AS. -/
inductive PeerRole where
  | ebgp
  | ibgp
  | confederationExternal
  | confederationInternal
  deriving DecidableEq, Repr

namespace PeerRole

/-- Inside the AS or the member AS. -/
def isInternal : PeerRole → Bool
  | ibgp | confederationInternal => true
  | _ => false

/-- Outside the AS or the member AS. -/
def isExternal : PeerRole → Bool
  | ebgp | confederationExternal => true
  | _ => false

/-- The local AS is prepended towards such peers. -/
def prependsAsPath : PeerRole → Bool := isExternal

/-- NEXT_HOP is set to ourselves towards such peers. -/
def rewritesNextHop : PeerRole → Bool := isExternal

end PeerRole

/-- The confederation the speaker belongs to. -/
structure ConfederationConfig where
  members : List UInt32
  confederationId : Option UInt32
  deriving DecidableEq, Repr

namespace ConfederationConfig

/-- The AS is a member. -/
def contains (c : ConfederationConfig) (asn : UInt32) : Bool := c.members.contains asn

/-- `ConfederationConfig::external_as`. -/
def externalAs (c : ConfederationConfig) : Option UInt32 :=
  c.confederationId.or c.members.head?

end ConfederationConfig

/-- `PeerRole::from_asns`. -/
def PeerRole.fromAsns (localAs peerAs : Asn) (confed : Option ConfederationConfig) : PeerRole :=
  if (confed.map fun c => c.contains peerAs).getD false then
    if peerAs = localAs then confederationInternal else confederationExternal
  else if peerAs = localAs then ibgp
  else ebgp

/-- The reflector part of the configuration. -/
structure RouteReflectorConfig where
  clusterId : UInt32 := 0
  enabled : Bool := false
  deriving DecidableEq, Repr

/-- `RouteReflectorConfig::effective_cluster_id`. -/
def RouteReflectorConfig.effectiveClusterId (c : RouteReflectorConfig) (bgpId : RouterId) :
    UInt32 :=
  if c.clusterId ≠ 0 then c.clusterId else bgpId

/-- RFC 9234 roles of the local speaker. -/
inductive OtcRole where
  | unset
  | provider
  | customer
  | peer
  | routeServer
  | rsClient
  deriving DecidableEq, Repr

/-- `otc_can_advertise`: a marked route goes to customers and route-server clients
only. -/
def otcCanAdvertise (routeOtc : UInt32) (localRole : OtcRole) : Bool :=
  if routeOtc = 0 then true
  else
    match localRole with
    | .provider | .routeServer => true
    | _ => false

/-! ## Configuration -/

/-- The fields of `PeerConfig` that the session logic reads. -/
structure PeerConfig where
  localAs : Asn
  peerAs : Asn
  localBgpId : RouterId
  holdTime : UInt16 := 90
  routeReflectorClient : Bool := false
  confederationMember : Bool := false
  asn4 : Bool := true
  mpFamilies : List NlriFamily := []
  defaultIpv4Unicast : Bool := true
  addPath : Bool := false
  extendedNextHop : List (UInt16 × UInt8 × UInt16) := []
  gracefulRestart : Bool := false
  gracefulRestartTime : UInt16 := 120
  routeRefresh : Bool := true
  enhancedRr : Bool := true
  keepalive : UInt16 := 0
  longLived : Bool := false
  longLivedStaleTime : UInt32 := 0
  roleOverride : Option PeerRole := none
  otcRole : OtcRole := .unset
  confederation : Option ConfederationConfig := none
  routeReflector : RouteReflectorConfig := {}
  routeServerClient : Bool := false
  peerId : UInt64 := 0
  localAddress : Option IpAddr := none
  deriving DecidableEq, Repr

namespace PeerConfig

/-- `peer_role`. -/
def peerRole (cfg : PeerConfig) : PeerRole :=
  cfg.roleOverride.getD (.fromAsns cfg.localAs cfg.peerAs cfg.confederation)

/-- `ipv4_unicast_active`. -/
def ipv4UnicastActive (cfg : PeerConfig) : Bool :=
  cfg.defaultIpv4Unicast || cfg.mpFamilies.contains .ipv4Unicast

/-- `keepalive_interval`. -/
def keepaliveInterval (cfg : PeerConfig) : UInt16 :=
  if cfg.keepalive ≠ 0 then cfg.keepalive else max (cfg.holdTime / 3) 1

/-- `confed_peer`: the neighbour is a member of the local confederation. -/
def confedPeer (cfg : PeerConfig) : Bool :=
  (cfg.confederation.map fun c => c.contains cfg.peerAs).getD false

end PeerConfig

/-! ## Capabilities -/

/-- The capabilities the speaker knows. -/
inductive CapabilityCode where
  | multiprotocolExtensions
  | routeRefresh
  | extendedNextHop
  | extendedMessage
  | gracefulRestart
  | fourOctetAs
  | addPath
  | enhancedRouteRefresh
  | longLivedGracefulRestart
  | other (code : UInt8)
  deriving DecidableEq, Repr

namespace CapabilityCode

/-- The code on the wire. -/
def toU8 : CapabilityCode → UInt8
  | multiprotocolExtensions => 1
  | routeRefresh => 2
  | extendedNextHop => 5
  | extendedMessage => 6
  | gracefulRestart => 64
  | fourOctetAs => 65
  | addPath => 69
  | enhancedRouteRefresh => 70
  | longLivedGracefulRestart => 71
  | other v => v

/-- The codes that have a name. -/
def named : List CapabilityCode :=
  [multiprotocolExtensions, routeRefresh, extendedNextHop, extendedMessage, gracefulRestart,
    fourOctetAs, addPath, enhancedRouteRefresh, longLivedGracefulRestart]

/-- `CapabilityCode::from_u8`. -/
def fromU8 (v : UInt8) : CapabilityCode := (named.find? fun c => c.toU8 = v).getD (other v)

end CapabilityCode

/-- A capability: code and value octets. -/
structure Capability where
  code : CapabilityCode
  value : Bytes
  deriving DecidableEq, Repr

namespace Capability

/-- RFC 6793. -/
def fourOctetAs (asn : UInt32) : Capability := ⟨.fourOctetAs, toBe32 asn⟩

/-- `as_four_octet`. -/
def asFourOctet (c : Capability) : Option UInt32 :=
  match c.code, c.value with
  | .fourOctetAs, [a, b, d, e] => some (fromBe32 a b d e)
  | _, _ => none

/-- RFC 4760. -/
def multiprotocol (f : NlriFamily) : Capability :=
  ⟨.multiprotocolExtensions, toBe16 f.afi ++ [0, f.safi]⟩

/-- RFC 2918. -/
def routeRefresh : Capability := ⟨.routeRefresh, []⟩

/-- RFC 7313. -/
def enhancedRr : Capability := ⟨.enhancedRouteRefresh, []⟩

/-- `graceful_restart(0, time, families)` with the forwarding bit set. -/
def gracefulRestart (time : UInt16) (families : List NlriFamily) : Capability :=
  ⟨.gracefulRestart, toBe16 (time &&& 0x0fff) ++
    families.flatMap fun f => toBe16 f.afi ++ [f.safi, 0x80]⟩

/-- `long_lived_gr` with the forwarding bit set; the stale time has 24 bits. -/
def longLivedGr (staleTime : UInt32) (families : List NlriFamily) : Capability :=
  ⟨.longLivedGracefulRestart,
    families.flatMap fun f => toBe16 f.afi ++ [f.safi, 0x80] ++ (toBe32 staleTime).drop 1⟩

/-- `add_path` offering both directions. -/
def addPath (families : List NlriFamily) : Capability :=
  ⟨.addPath, families.flatMap fun f => toBe16 f.afi ++ [f.safi, 0x03]⟩

/-- `as_add_path`: family, send, receive. -/
def asAddPath (c : Capability) : List (NlriFamily × Bool × Bool) :=
  if c.code = .addPath then chunks c.value else []
where
  /-- The complete four-octet tuples. -/
  chunks : Bytes → List (NlriFamily × Bool × Bool)
    | h :: l :: safi :: d :: rest =>
      (⟨fromBe16 h l, safi⟩, d &&& 0x02 != 0, d &&& 0x01 != 0) :: chunks rest
    | _ => []

/-- RFC 8950. -/
def extendedNextHop (tuples : List (UInt16 × UInt8 × UInt16)) : Capability :=
  ⟨.extendedNextHop,
    tuples.flatMap fun t => toBe16 t.1 ++ toBe16 t.2.1.toUInt16 ++ toBe16 t.2.2⟩

/-- `as_extended_next_hop`. -/
def asExtendedNextHop (c : Capability) : Option (List (UInt16 × UInt8 × UInt16)) :=
  if c.code = .extendedNextHop then chunks c.value else none
where
  /-- Six-octet tuples; a partial tuple or a SAFI above 255 spoils the list. -/
  chunks : Bytes → Option (List (UInt16 × UInt8 × UInt16))
    | [] => some []
    | a :: b :: c :: d :: e :: f :: rest =>
      if c ≠ 0 then none else (chunks rest).map ((fromBe16 a b, d, fromBe16 e f) :: ·)
    | _ => none

/-- `Capability::encode_set`. -/
def encodeSet (caps : List Capability) : Bytes :=
  caps.flatMap fun c => c.code.toU8 :: UInt8.ofNat c.value.length :: c.value

/-- `Capability::decode_set`: it stops at a capability that runs past the end. -/
def decodeSet (b : Bytes) : List Capability :=
  match b with
  | code :: len :: rest =>
    if rest.length < len.toNat then []
    else ⟨.fromU8 code, rest.take len.toNat⟩ :: decodeSet (rest.drop len.toNat)
  | _ => []
termination_by b.length
decreasing_by
  simp only [List.length_cons, List.length_drop]
  omega

end Capability

/-! ## What a session offers -/

namespace PeerConfig

section

variable (cfg : PeerConfig)

/-- `addpath::advertised_families`. -/
def addPathFamilies : List NlriFamily :=
  if !cfg.addPath then []
  else
    cfg.mpFamilies.foldl (fun out f => if out.contains f then out else out ++ [f])
      (if cfg.defaultIpv4Unicast then [.ipv4Unicast] else [])

/-- `addpath::negotiated_directions`: transmit where the peer receives, receive
where the peer sends. -/
def negotiatedDirections (peer : List (NlriFamily × Bool × Bool)) :
    List NlriFamily × List NlriFamily :=
  let ours := peer.filter fun t => cfg.addPathFamilies.contains t.1
  let pick (wants : Bool × Bool → Bool) : List NlriFamily :=
    ours.foldl (fun out t => if wants t.2 && !out.contains t.1 then out ++ [t.1] else out) []
  (pick Prod.snd, pick Prod.fst)

/-- `extended_next_hop::advertised_tuples`. -/
def extNextHopTuples : List (UInt16 × UInt8 × UInt16) :=
  cfg.extendedNextHop.foldl (fun out t =>
    let family : NlriFamily := ⟨t.1, t.2.1⟩
    if (family = .ipv4Unicast ∨ cfg.mpFamilies.contains family) ∧ !out.contains t then out ++ [t]
    else out) []

/-- `extended_next_hop::negotiated_tuples`. -/
def negotiatedTuples (peer : List (UInt16 × UInt8 × UInt16)) : List (UInt16 × UInt8 × UInt16) :=
  cfg.extNextHopTuples.filter fun t => peer.contains t

/-- `long_lived::advertised_families`. -/
def grFamilies : List NlriFamily :=
  if !cfg.defaultIpv4Unicast && !cfg.mpFamilies.contains .ipv4Unicast then cfg.mpFamilies
  else if cfg.mpFamilies = [] then [.ipv4Unicast]
  else cfg.mpFamilies

/-- The capabilities `enqueue_open` offers, in order. -/
def capabilities : List Capability :=
  (if cfg.asn4 then [.fourOctetAs cfg.localAs] else []) ++
  cfg.mpFamilies.map .multiprotocol ++
  (if cfg.routeRefresh then [.routeRefresh] else []) ++
  (if cfg.enhancedRr then [.enhancedRr] else []) ++
  (if cfg.gracefulRestart then [.gracefulRestart cfg.gracefulRestartTime cfg.grFamilies]
    else []) ++
  (if cfg.longLived && cfg.gracefulRestart then
    [.longLivedGr cfg.longLivedStaleTime cfg.grFamilies] else []) ++
  (if cfg.addPathFamilies ≠ [] then [.addPath cfg.addPathFamilies] else []) ++
  (if cfg.extNextHopTuples ≠ [] then [.extendedNextHop cfg.extNextHopTuples] else [])

/-- The OPEN a session sends: one capability parameter. -/
def openMessage : Open :=
  ⟨4, cfg.localAs, cfg.holdTime, cfg.localBgpId, [⟨2, Capability.encodeSet cfg.capabilities⟩]⟩

end

end PeerConfig

end LibRouting.Bgp
