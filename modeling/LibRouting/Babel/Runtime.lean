/-
  Babel/Runtime.lean --- what a Babel session does with the updates of its neighbour
  (`lr-router/src/instance/babel.rs`) and what the router re-advertises from its
  sessions (`babel_reachable`).
-/
import LibRouting.Babel.Route
import LibRouting.Bgp.PathAttr

set_option autoImplicit false

namespace LibRouting.Babel

open Foundation Core Bgp List

/-! ## Updates -/

/-- An Update TLV with its prefix expanded.  Metric `0xFFFF` is a retraction. -/
structure Update where
  ae : UInt8
  prefixLen : UInt8
  intervalCs : UInt16
  seqno : UInt16
  metric : UInt16
  pfx : Bytes
  srcPrefixLen : UInt8
  srcPrefix : Bytes
  deriving DecidableEq, Repr

namespace Update

/-- The metric of a retraction. -/
def retraction : UInt16 := 0xffff

/-- The destination prefix of address encodings 1, 2 and 4 (RFC 9229). -/
def destination (u : Update) : Option Prefix :=
  match u.ae with
  | 1 | 4 =>
    if u.pfx.isEmpty || u.pfx.length > 4 then none
    else some (.newV4 (.padded 4 u.pfx) u.prefixLen)
  | 2 =>
    if u.pfx.isEmpty || u.pfx.length > 16 then none
    else some (.newV6 (.padded 16 u.pfx) u.prefixLen)
  | _ => none

/-- The source prefix (RFC 9079), in the encoding of the destination. -/
def source (u : Update) : Option Prefix :=
  if u.srcPrefixLen > 0 && !u.srcPrefix.isEmpty then
    match u.ae with
    | 1 | 4 =>
      if u.srcPrefix.length ≤ 4 then some (.newV4 (.padded 4 u.srcPrefix) u.srcPrefixLen)
      else none
    | 2 =>
      if u.srcPrefix.length ≤ 16 then some (.newV6 (.padded 16 u.srcPrefix) u.srcPrefixLen)
      else none
    | _ => none
  else none

end Update

/-- What the retractions of a frame were: the first prefix retracted, or the wildcard that
supersedes it. -/
inductive LastWithdraw where
  | none
  | perPrefix (first : Prefix)
  | wildcard
  deriving DecidableEq, Repr

/-- The reason reported with the withdrawals of a delta. -/
inductive WithdrawReason where
  | displaced (count : Nat)
  | retracted (p : Prefix)
  | retractions (count : Nat)
  | wildcard (count : Nat)
  | expired (count : Nat) (nowMs : Nat)
  | linkDown (count : Nat)
  deriving DecidableEq, Repr

/-- The routes a runtime step installs into and withdraws from the Loc-RIB. -/
structure RuntimeDelta where
  installed : List Route
  withdrawn : List Core.RouteKey
  reason : Option WithdrawReason
  deriving DecidableEq

/-! ## The session -/

/-- One Babel session: the neighbour's address, its routes and the state its TLVs set. -/
structure BabelRuntime where
  address : IpAddr
  routes : BabelRouteTable
  nextHopV4 : Option IpAddr
  nextHopV6 : Option IpAddr
  routerId : Octets 8
  ownRouterId : Option (Octets 8)
  published : Std.ExtTreeMap Core.RouteKey Route compare
  lastWithdraw : LastWithdraw

namespace BabelRuntime
variable (rt : BabelRuntime)

/-- `BabelRuntime::new`. -/
def new (address : IpAddr) : BabelRuntime where
  address := address
  routes := .new
  nextHopV4 := none
  nextHopV6 := none
  routerId := .zero 8
  ownRouterId := none
  published := ∅
  lastWithdraw := .none

section

variable (rt : BabelRuntime)

/-- The peer address where it is IPv4. -/
def peerV4 : Option IpAddr :=
  if rt.address.isIpv4 then some rt.address else none

/-- The peer address where it is IPv6. -/
def peerV6 : Option IpAddr :=
  if rt.address.isIpv4 then none else some rt.address

/-- The next hop of an update: an IPv4 update needs an IPv4 next hop. -/
def nextHop (ae : UInt8) : Option IpAddr :=
  if ae = 1 then rt.nextHopV4.or rt.peerV4
  else some ((rt.nextHopV6.or rt.peerV6).getD rt.address)

/-- The advertised metric with the link cost added, below infinity. -/
def routeMetric (metric : UInt16) (link : UInt32) : UInt32 :=
  UInt32.ofNat (min (min (metric.toNat + link.toNat) (2 ^ 32 - 1)) 0xfffe)

/-- The per-prefix retraction `withdraw` records for the report. -/
def noteRetraction (p : Prefix) : LastWithdraw → LastWithdraw
  | .none => .perPrefix p
  | other => other

/-- `apply_update`.  `link` is the cost of the link, `none` before the first IHU. -/
def applyUpdate (u : Update) (link : Option UInt32) (nowMs : Nat) : BabelRuntime :=
  if u.metric ≠ Update.retraction ∧ rt.ownRouterId = some rt.routerId then rt
  else if u.ae = 0 then
    if u.metric = Update.retraction ∧ !rt.routes.isEmpty then
      { rt with routes := .new, lastWithdraw := .wildcard }
    else rt
  else
    match u.destination with
    | none => rt
    | some destination =>
      let key : RouteKey := ⟨destination, u.source, rt.routerId⟩
      if u.metric = Update.retraction then
        { rt with
          routes := rt.routes.withdraw key
          lastWithdraw := noteRetraction destination rt.lastWithdraw }
      else
        match rt.nextHop u.ae with
        | none => rt
        | some nh =>
          match link with
          | none => rt
          | some cost =>
            { rt with
              routes := rt.routes.insertTimed
                ⟨key, u.seqno, routeMetric u.metric cost, nh, true⟩ u.intervalCs nowMs }

/-- A Babel best route as a route of the RIB.  The source prefix is not part of it. -/
def ribRoute (r : BabelRoute) : Route where
  key := .new r.key.destination (.fromAddr r.key.destination.addr)
  origin := ⟨4, match rt.routerId.bytes with
    | [_, _, _, _, a, b, c, d] => (fromBe32 a b c d).toUInt64
    | _ => 0⟩
  protocol := .babel
  preference := ⟨Protocol.babel.defaultAdminDistance, r.metric⟩
  nextHop := some <|
    if r.nextHop = .v4 (.zero 4) then (rt.nextHopV4.or rt.peerV4).getD rt.address
    else if r.nextHop = .v6 (.zero 16) then (rt.nextHopV6.or rt.peerV6).getD rt.address
    else r.nextHop
  attributes := ((∅ : Attributes).insert AttrType.lrBabelSeqno.toU8
    ⟨0x80, toBe32 r.seqno.toUInt32⟩).insert AttrType.lrBabelRouterId.toU8
      ⟨0x80, r.key.routerId.bytes⟩
  ageMs := 0
  pathId := 0
  tag := none

/-- The best routes under their RIB keys: of several source prefixes the last one stays. -/
def current : Std.ExtTreeMap Core.RouteKey Route compare :=
  rt.routes.bestRoutes.foldl (fun m r => m.insert (rt.ribRoute r).key (rt.ribRoute r)) ∅

/-- The delta between what is published and the current best routes. -/
def delta : RuntimeDelta where
  installed := (valuesOf rt.current).filter fun r => rt.published[r.key]? != some r
  withdrawn := rt.published.keys.filter fun k => !rt.current.contains k
  reason := none

/-- `diff`. -/
def diff : BabelRuntime × RuntimeDelta :=
  ({ rt with published := rt.current }, rt.delta)

/-- The report of the withdrawals at the end of a frame. -/
def frameReason (last : LastWithdraw) (count : Nat) : WithdrawReason :=
  match last with
  | .none => .displaced count
  | .perPrefix p => if count = 1 then .retracted p else .retractions count
  | .wildcard => .wildcard count

/-- The end of `handle_frame`: the delta with its report. -/
def endFrame : BabelRuntime × RuntimeDelta :=
  let d := rt.delta
  if d.withdrawn.isEmpty then rt.diff
  else
    ({ rt.diff.1 with lastWithdraw := .none },
      { d with reason := some (frameReason rt.lastWithdraw d.withdrawn.length) })

/-- The runtime with another table. -/
def withRoutes (routes : BabelRouteTable) : BabelRuntime :=
  { rt with routes := routes }

/-- `gc`.  A sweep that withdraws nothing installs nothing either. -/
def gc (nowMs : Nat) : BabelRuntime × RuntimeDelta :=
  let rt' := rt.withRoutes (rt.routes.expire nowMs).1
  let expired := (rt.routes.expire nowMs).2
  if expired.isEmpty then (rt', ⟨[], [], none⟩)
  else if rt'.delta.withdrawn.isEmpty then (rt'.diff.1, ⟨[], [], none⟩)
  else (rt'.diff.1, { rt'.delta with reason := some (.expired expired.length nowMs) })

/-- `babel_flush_session`. -/
def flush : BabelRuntime × RuntimeDelta :=
  let rt' := rt.withRoutes .new
  let d := rt'.delta
  if d.withdrawn.isEmpty then rt'.diff
  else (rt'.diff.1, { d with reason := some (.linkDown d.withdrawn.length) })

end

/-- An update leaves the table with less, or the table accepts it. -/
theorem applyUpdate_cases (u : Update) (link : Option UInt32) (nowMs : Nat) :
    (rt.applyUpdate u link nowMs).routes.Within rt.routes ∨
      ∃ route timing, rt.routes.admits route = true ∧
        (rt.applyUpdate u link nowMs).routes = rt.routes.accept route timing := by
  fun_cases applyUpdate rt u link nowMs with
  | case2 => exact .inl (BabelRouteTable.within_new _)
  | case5 => exact .inl (BabelRouteTable.within_withdraw _ _)
  | case8 _ _ destination _ _ _ nh _ cost =>
    obtain h | h := rt.routes.insertTimed_cases
      ⟨⟨destination, u.source, rt.routerId⟩, u.seqno, routeMetric u.metric cost, nh, true⟩
      u.intervalCs nowMs
    · exact .inl h
    · exact .inr ⟨_, _, h⟩
  | _ => exact .inl (.refl _)

@[simp] theorem endFrame_routes : rt.endFrame.1.routes = rt.routes := by
  rw [endFrame]
  split <;> rfl

@[simp] theorem gc_routes (nowMs : Nat) : (rt.gc nowMs).1.routes = (rt.routes.expire nowMs).1 := by
  rw [gc]
  split
  case isTrue => rfl
  case isFalse => split <;> rfl

@[simp] theorem flush_routes : rt.flush.1.routes = .new := by
  rw [flush]
  split <;> rfl

end BabelRuntime

/-! ## Re-advertisement -/

/-- The handle of a session. -/
abbrev Handle : Type := UInt64

/-- The Babel sessions of the router. -/
abbrev Sessions : Type := Std.ExtTreeMap Handle BabelRuntime compare

/-- One step of `babel_reachable`: per claim the lower metric wins. -/
def pickReachable (best : Std.ExtTreeMap RouteKey BabelRoute compare) (r : BabelRoute) :
    Std.ExtTreeMap RouteKey BabelRoute compare :=
  keepLeast (·.key) (·.metric) best r

/-- `babel_reachable`: what the router re-advertises on one session, from the best routes
of the others. -/
def babelReachable (sessions : Sessions) (exclude : Handle) : List BabelRoute :=
  valuesOf (((sessions.toList.filter fun e => e.1 != exclude).flatMap fun e =>
    e.2.routes.bestRoutes).foldl pickReachable ∅)

/-- What is re-advertised is a best route of some session. -/
theorem session_of_mem_babelReachable {sessions : Sessions} {exclude : Handle} {r : BabelRoute}
    (h : r ∈ babelReachable sessions exclude) :
    ∃ (s : Handle) (rt : BabelRuntime), sessions[s]? = some rt ∧ r ∈ rt.routes.bestRoutes := by
  refine foldlRecOn (motive := fun m : Std.ExtTreeMap RouteKey BabelRoute compare =>
    ∀ x ∈ valuesOf m, ∃ (s : Handle) (rt : BabelRuntime), sessions[s]? = some rt ∧
      x ∈ rt.routes.bestRoutes) _ _ (by simp [mem_valuesOf])
    (fun m hm y hy x hx => ?_) r h
  obtain ⟨k, hk⟩ := mem_valuesOf.mp hx
  obtain rfl | hold := keepLeast_getElem? hk
  · obtain ⟨⟨s, rt⟩, he, hr⟩ := mem_flatMap.mp hy
    obtain ⟨he, -⟩ := mem_filter.mp he
    exact ⟨s, rt, Std.ExtTreeMap.mem_toList_iff_getElem?_eq_some.mp he, hr⟩
  · exact hm x (mem_valuesOf.mpr ⟨k, hold⟩)

end LibRouting.Babel
