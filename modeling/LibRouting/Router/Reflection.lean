/-
  Router/Reflection.lean --- route reflection (RFC 4456).

  Whether an internally learned route may go to an internal neighbour is decided
  twice: by the split-horizon gate inside `advertise_with_originator`, which sees the
  origin tag of the route and the configuration of the target, and by
  `PeerTopology::can_advertise`, which sees the topologies of both sessions.  The
  router itself keeps a route from the session it came from.
-/
import LibRouting.Router.ExportPaths

set_option autoImplicit false

namespace LibRouting.Bgp

open Core

/-! ## Topologies -/

/-- `PeerTopology`. -/
structure PeerTopology where
  role : PeerRole
  rrClient : Bool
  rsClient : Bool
  otc : OtcRole
  deriving DecidableEq, Repr

/-- `compute_topology`. -/
def PeerConfig.computeTopology (cfg : PeerConfig) : PeerTopology where
  role := cfg.peerRole
  rrClient := cfg.routeReflectorClient
  rsClient := cfg.routeServerClient
  otc := cfg.otcRole

namespace PeerTopology

/-- `can_advertise`: a route learned from `source`, up for `target`. -/
def canAdvertise (target source : PeerTopology) (routeOtc : Option UInt32) : Bool :=
  if source.role.isInternal && target.role.isInternal && !target.rrClient && !source.rrClient then
    false
  else
    match routeOtc with
    | some otc => otcCanAdvertise otc target.otc
    | none => true

/-- RFC 4456 for a route learned from the internal neighbour `source`: every external
neighbour may have it; routes of clients go to clients and non-clients, those of
non-clients to clients only; nothing goes back where it came from. -/
def reflects (source target : PeerTopology) (back : Bool) : Bool :=
  !target.role.isInternal || (!back && (source.rrClient || target.rrClient))

end PeerTopology

/-- A route without OTC passes the OTC rule, as in `can_advertise`. -/
theorem otcCanAdvertise_getD (routeOtc : Option UInt32) (role : OtcRole) :
    otcCanAdvertise (routeOtc.getD 0) role =
      match routeOtc with
      | some otc => otcCanAdvertise otc role
      | none => true := by
  cases routeOtc <;> rfl

end LibRouting.Bgp

namespace LibRouting.Router

open Core Bgp Rib

/-! ## Candidates -/

/-- An internally learned route up for a session of the same router, under the tags that
the import side gives it. -/
structure Reflection where
  source : BgpPeer
  target : BgpPeer
  route : Route
  internal : source.cfg.peerRole.isInternal = true
  tagged : route.origin = source.routeOrigin
  bgp : route.protocol = .bgp
  -- a session has one configuration
  sessions : source.cfg.peerId = target.cfg.peerId → source.cfg = target.cfg

namespace Reflection

variable (x : Reflection)

/-- The attributes of the offered route. -/
def attrs : PathAttributes := .ofAttributes x.route.attributes

/-- The route would go back to the session it came from. -/
def back : Bool := x.source.cfg.peerId = x.target.cfg.peerId

/-- The OTC rule of RFC 9234 lets the route pass. -/
def otcOpen : Bool := otcCanAdvertise (x.attrs.otc.getD 0) x.target.cfg.otcRole

/-- What the router and the gates of `advertise` say. -/
def advertises : Bool :=
  x.route.origin.peer ≠ x.target.cfg.peerId && x.target.roleGates x.route x.attrs

/-- What `can_advertise` says. -/
def canAdvertise : Bool :=
  x.target.cfg.computeTopology.canAdvertise x.source.cfg.computeTopology x.attrs.otc

/-- What RFC 4456 says, under the OTC rule. -/
def permitted : Bool :=
  x.source.cfg.computeTopology.reflects x.target.cfg.computeTopology x.back && x.otcOpen

/-- The two implementations agree with each other and with the rule. -/
def Agrees : Prop := x.advertises = x.canAdvertise ∧ x.canAdvertise = x.permitted

/-- The tag of the route makes it an internal one for the gate. -/
theorem advertises_eq : x.advertises = (!x.back && (!x.target.cfg.peerRole.isInternal ||
    x.target.cfg.routeReflectorClient) && x.otcOpen) := by
  have hpeer : x.route.origin.peer = x.source.cfg.peerId := by rw [x.tagged]; rfl
  have hproto : x.route.origin.proto = 1 := by
    rw [x.tagged]
    exact if_pos x.internal
  simp only [advertises, BgpPeer.roleGates, hpeer, hproto, x.bgp, back, otcOpen]
  cases x.target.cfg.peerRole.isInternal <;> cases x.target.cfg.routeReflectorClient <;> simp

theorem canAdvertise_eq : x.canAdvertise = ((!x.target.cfg.peerRole.isInternal ||
    x.target.cfg.routeReflectorClient || x.source.cfg.routeReflectorClient) && x.otcOpen) := by
  simp only [canAdvertise, PeerTopology.canAdvertise, PeerConfig.computeTopology, x.internal,
    otcOpen, otcCanAdvertise_getD]
  cases x.target.cfg.peerRole.isInternal <;> cases x.target.cfg.routeReflectorClient <;>
    cases x.source.cfg.routeReflectorClient <;> simp

theorem permitted_eq : x.permitted = ((!x.target.cfg.peerRole.isInternal || (!x.back &&
    (x.source.cfg.routeReflectorClient || x.target.cfg.routeReflectorClient))) && x.otcOpen) := rfl

/-- The session a route came from is an internal one with the client flag of the
source. -/
theorem of_back (h : x.back = true) : x.target.cfg.peerRole.isInternal = true ∧
    x.target.cfg.routeReflectorClient = x.source.cfg.routeReflectorClient := by
  have hcfg := x.sessions (of_decide_eq_true h)
  exact ⟨hcfg ▸ x.internal, by rw [hcfg]⟩

/-- The disagreements: a route of a client for an internal neighbour that is none, which
the gate holds back; and a route of a client for that client itself, which only the
router holds back.  They do not show where the OTC rule refuses the route. -/
theorem agrees_iff_roles : x.Agrees ↔ x.otcOpen = false ∨
    x.target.cfg.peerRole.isInternal = false ∨
    (x.target.cfg.routeReflectorClient = true ∧ x.back = false) ∨
    (x.target.cfg.routeReflectorClient = false ∧ x.source.cfg.routeReflectorClient = false) := by
  have hback := x.of_back
  unfold Agrees
  rw [x.advertises_eq, x.canAdvertise_eq, x.permitted_eq]
  revert hback
  cases x.back <;> cases x.otcOpen <;> cases x.target.cfg.peerRole.isInternal <;>
    cases x.target.cfg.routeReflectorClient <;> cases x.source.cfg.routeReflectorClient <;> simp

end Reflection

/-! ## What the router offers -/

section Offers

variable {session : UInt64} {peer : BgpPeer} {rib : LocRib} {family : NlriFamily} {r : Route}

theorem origin_of_mem_dumpSnapshot (h : r ∈ Egress.dumpSnapshot session peer rib family) :
    r.origin.peer ≠ session := by
  unfold Egress.dumpSnapshot at h
  split at h
  · obtain ⟨entry, -, h⟩ := List.mem_flatMap.mp h
    obtain ⟨slot, -, h⟩ := List.mem_filterMap.mp h
    split at h
    · rename_i hslot
      cases h
      exact hslot.1
    · cases h
  · have hfilter := (List.mem_filter.mp h).2
    simp only [decide_eq_true_eq] at hfilter
    exact hfilter.2.1

theorem origin_of_mem_refreshSnapshot (h : r ∈ Egress.refreshSnapshot session peer rib family) :
    r.origin.peer ≠ session := by
  obtain ⟨key, paths, -, -, o, ho, rfl⟩ := mem_refreshSnapshot.mp h
  exact (mem_pathOffers.mp ho).1

theorem origin_of_mem_desired {c : ExportContext} {key : RouteKey} {ranked : List Route}
    (h : r ∈ desired c session peer key ranked) :
    ∃ path ∈ ranked, path.origin.peer ≠ session ∧
      ∃ id, c.hooks.runExportTo { path with pathId := id } session = some r := by
  obtain ⟨-, -, o, ho, -, hr⟩ := mem_desired.mp h
  exact ⟨o.route, route_mem_of_mem_pathOffers ho, (mem_pathOffers.mp ho).1, o.deltaId, hr⟩

end Offers

/-- Import tags a route with the session it was received on. -/
theorem tagged_of_installed {source : BgpPeer} {u : Update} {actions : List BgpAction}
    {route : Route} (h : source.handleUpdateInEstablished u = .ok actions)
    (hroute : .installRoute route ∈ actions) (addr : Option IpAddr) :
    (stampPeerSource addr route).origin = source.routeOrigin ∧
      (stampPeerSource addr route).protocol = .bgp := by
  obtain ⟨horigin, hproto⟩ := BgpPeer.handleUpdateInEstablished_names h _ hroute
  cases addr with
  | none | some ip => exact ⟨horigin, hproto⟩

/-- The reflection gate, `can_advertise` and RFC 4456 agree on an internally learned route
exactly when the OTC rule refuses it, the target is external, the target is a client other
than the source, or neither of the two is a client.  Import gives every route the tag the
gate looks at, and no export path of the router offers a route to the session it came
from. -/
theorem reflection_agrees_iff (x : Reflection) :
    (x.Agrees ↔ x.otcOpen = false ∨ x.target.cfg.peerRole.isInternal = false ∨
      (x.target.cfg.routeReflectorClient = true ∧ x.back = false) ∨
      (x.target.cfg.routeReflectorClient = false ∧
        x.source.cfg.routeReflectorClient = false)) ∧
    (∀ (source : BgpPeer) (u : Update) (actions : List BgpAction) (route : Route)
      (addr : Option IpAddr), source.handleUpdateInEstablished u = .ok actions →
      .installRoute route ∈ actions → (stampPeerSource addr route).origin = source.routeOrigin ∧
        (stampPeerSource addr route).protocol = .bgp) ∧
    ∀ (session : UInt64) (peer : BgpPeer) (r : Route),
      (∀ rib family, r ∈ Egress.dumpSnapshot session peer rib family ∨
        r ∈ Egress.refreshSnapshot session peer rib family → r.origin.peer ≠ session) ∧
      ∀ c key ranked, r ∈ desired c session peer key ranked →
        ∃ path ∈ ranked, path.origin.peer ≠ session ∧
          ∃ id, c.hooks.runExportTo { path with pathId := id } session = some r := by
  refine ⟨x.agrees_iff_roles, fun source u actions route addr h hroute =>
    tagged_of_installed h hroute addr, fun session peer r => ⟨?_, fun c key ranked => ?_⟩⟩
  · intro rib family h
    exact h.elim origin_of_mem_dumpSnapshot origin_of_mem_refreshSnapshot
  · exact origin_of_mem_desired

/-- An internal neighbour of a reflector. -/
def reflectedTo (peerId : UInt64) (client : Bool) : PeerConfig where
  localAs := 65000
  peerAs := 65000
  localBgpId := 1
  peerId
  routeReflectorClient := client
  routeReflector := { enabled := true }

/-- A route of one internal neighbour, up for another. -/
def internalRoute (fromClient toClient : Bool) : Reflection where
  source := .new (reflectedTo 1 fromClient)
  target := .new (reflectedTo 2 toClient)
  route := { key := .new (.newV4 (.padded 4 [10]) 8) .ipv4Unicast, origin := ⟨1, 1⟩
             protocol := .bgp, preference := ⟨20, 0⟩, nextHop := none, attributes := ∅
             ageMs := 0, pathId := 0, tag := none }
  internal := rfl
  tagged := rfl
  bgp := rfl
  sessions := nofun

/-- A client gets the routes of a neighbour that is none. -/
theorem reflection_agrees_iff_toClient :
    (internalRoute false true).Agrees ∧ (internalRoute false true).advertises = true := by
  have hroles := (reflection_agrees_iff (internalRoute false true)).1
  exact ⟨hroles.mpr (.inr (.inr (.inl ⟨rfl, rfl⟩))), by decide +kernel⟩

/-- The gate keeps a client's route from a non-client, which `can_advertise` and RFC 4456
let it have. -/
theorem clientRoute_withheld :
    let x := internalRoute true false
    x.advertises = false ∧ x.canAdvertise = true ∧ x.permitted = true ∧ ¬ x.Agrees := by
  intro x
  have hgate : x.advertises = false := by decide +kernel
  have hcan : x.canAdvertise = true := by decide +kernel
  refine ⟨hgate, hcan, by decide +kernel, fun h => ?_⟩
  rw [Reflection.Agrees, hgate, hcan] at h
  exact Bool.false_ne_true h.1

end LibRouting.Router
