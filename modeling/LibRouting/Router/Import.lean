/-
  Router/Import.lean --- from a session to the Adj-RIB-In (`instance/mod.rs`).

  The decision process that follows an admitted or a withdrawn route does not change
  the Adj-RIB-In and is not part of this module.
-/
import LibRouting.Bgp.Fsm
import LibRouting.Policy.Safety
import LibRouting.Rib.AdjRib

set_option autoImplicit false

namespace LibRouting.Router

open Foundation Core Bgp Policy Rib Outcome

/-! ## Admission -/

/-- What `import_route` reads of the router and of the session a route came from. -/
structure ImportConfig where
  peer : PeerConfig
  peerAddress : Option IpAddr := none
  localAsTolerance : UInt32 := 0
  safety : Option SafetyNet := none
  enforceFirstAs : Bool := false
  ebgpRequiresPolicy : Bool := false
  hasImportPolicy : Bool := false
  hooks : HookChain := {}

namespace ImportConfig

variable (c : ImportConfig)

/-- The import half of `rfc8212_denies`. -/
def rfc8212Denies : Bool :=
  c.ebgpRequiresPolicy && c.peer.peerRole.isExternal && !c.hasImportPolicy

/-- A BGP route of an eBGP peer. -/
def isEbgp (route : Route) : Bool := route.protocol = .bgp ∧ route.origin.proto = 0

/-- `count_local_as`, saturating. -/
def countLocalAs (route : Route) : UInt32 :=
  match (PathAttributes.ofAttributes route.attributes).asPath with
  | none => 0
  | some path => UInt32.ofNat (min 0xffffffff (path.asns.countP (· == c.peer.localAs)))

/-- The safety net with the per-peer tolerance for the local AS. -/
def safetyAdmits (route : Route) : Bool :=
  match c.safety with
  | none => true
  | some net =>
    match net.check route (isEbgp route) with
    | .ok _ => true
    | .error (.asLoop _ _) =>
      isEbgp route && 0 < c.localAsTolerance && c.countLocalAs route ≤ c.localAsTolerance
    | .error _ => false

/-- The first AS of the leftmost ordered segment that has one. -/
def firstAs (segments : List AsPathSegment) : Option Asn :=
  segments.findSome? fun s =>
    if s.kind = .sequence ∨ s.kind = .confedSequence then s.ases.head? else none

/-- `check_first_as`: the route is rejected. -/
def firstAsRejects (route : Route) : Bool :=
  match (PathAttributes.ofAttributes route.attributes).asPath with
  | none => false
  | some path => (firstAs path.segments).any (· != c.peer.peerAs)

/-- The admission half of `import_route`: the route as it is stored, or `none` when it
is rejected. -/
def admitRoute (now : UInt64) (route : Route) : Option Route :=
  if c.rfc8212Denies then none
  else if !c.safetyAdmits route then none
  else if c.enforceFirstAs && isEbgp route && c.firstAsRejects route then none
  else c.hooks.runImport { route with ageMs := now }

theorem admitRoute_keepsPath (hhooks : ∀ hook ∈ c.hooks.imports, KeepsPath hook) {now : UInt64}
    {route r : Route} (h : c.admitRoute now route = some r) :
    r.origin = route.origin ∧ r.key = route.key ∧ r.pathId = route.pathId := by
  unfold admitRoute at h
  split at h
  · cases h
  split at h
  · cases h
  split at h
  · cases h
  have hkept := runHooks_keepsPath hhooks h
  exact hkept

/-! ## Dispatch -/

end ImportConfig

/-- The `InstallRoute` arm of `dispatch_bgp_actions`: a session with a configured
peer address stamps it on its routes. -/
def stampPeerSource (peerAddress : Option IpAddr) (r : Route) : Route :=
  match peerAddress with
  | none => r
  | some addr =>
    { r with attributes :=
        ((PathAttributes.ofAttributes r.attributes).setPeerSourceAddress addr).toAttributes }

/-- An action as the router takes it up. -/
def dispatched (peerAddress : Option IpAddr) : BgpAction → BgpAction
  | .installRoute r => .installRoute (stampPeerSource peerAddress r)
  | a => a

/-- `import_route` on the Adj-RIB-In. -/
def importRoute (c : ImportConfig) (now : UInt64) (rib : AdjRibIn) (route : Route) : AdjRibIn :=
  match c.admitRoute now route with
  | none => rib
  | some r => rib.feedPrePolicy r.origin r

/-- `dispatch_bgp_actions` on the Adj-RIB-In of a session that is not resynchronizing
after a restart.  A withdrawal is filed under the external origin of the session. -/
def dispatch (c : ImportConfig) (now : UInt64) (rib : AdjRibIn) : BgpAction → AdjRibIn
  | .installRoute r => importRoute c now rib (stampPeerSource c.peerAddress r)
  | .withdrawRoute key pathId => rib.withdraw ⟨0, c.peer.peerId⟩ key pathId
  | _ => rib

/-! ## UPDATEs of a neighbour -/

/-- An UPDATE with the mandatory attributes; the AS_PATH is one sequence of 4-octet AS
numbers. -/
def announcement (path : List Asn) (nlri : List Nlri) : Update where
  withdrawn := []
  attributes := ((PathAttributes.new.insert ⟨⟨0x40⟩, .origin, [0]⟩).insert
    ⟨⟨0x40⟩, .asPath, 2 :: UInt8.ofNat path.length :: path.flatMap toBe32⟩).insert
      ⟨⟨0x40⟩, .nextHop, [10, 0, 0, 1]⟩
  nlri := nlri

/-- An UPDATE that withdraws prefixes. -/
def withdrawal (withdrawn : List Nlri) : Update := ⟨withdrawn, .new, []⟩

end LibRouting.Router
