/-
  Router/Transports.lean --- which of two colliding connections is closed (RFC 4271 §6.8).

  When the OPEN on a connection arrives, the router compares it with the sessions of the
  same collision group and closes one.
-/
import LibRouting.Bgp.Fsm

set_option autoImplicit false

namespace LibRouting.Router

open Foundation Core Bgp

/-- Why a connection is closed. -/
inductive CollisionRule where
  /-- another connection to the peer is Established -/
  | established
  /-- the connection initiated by the higher BGP Identifier wins -/
  | identifier
  deriving DecidableEq, Repr

/-- One connection is closed in favour of another. -/
structure Closing where
  loser : UInt64
  winner : UInt64
  rule : CollisionRule
  deriving DecidableEq, Repr

/-- The part of a router that collisions are about: its BGP sessions by handle, the
collision group and the transport role (`locally_initiated`) of those that have one, and
those that lost.  Maps are lists in the order of their keys. -/
structure Transports where
  sessions : List (UInt64 × BgpPeer)
  collisionMeta : List (UInt64 × UInt64 × Bool)
  collisionLost : List UInt64

namespace Transports

/-- The peer of a transport. -/
def peer (t : Transports) (h : UInt64) : Option BgpPeer := t.sessions.lookup h

/-- Replaces the peer of a transport. -/
def setPeer (t : Transports) (h : UInt64) (p : BgpPeer) : Transports :=
  { t with sessions := t.sessions.map fun e => if e.1 = h then (h, p) else e }

/-- `remote_initiated_wins`.  Equal identifiers are ranked by AS number. -/
def remoteInitiatedWins (cfg : PeerConfig) (remoteId : RouterId) : Bool :=
  if cfg.localBgpId < remoteId then true
  else if remoteId < cfg.localBgpId then false
  else decide (cfg.localAs < cfg.peerAs)

/-- The loop over the siblings of a session: the first one that collides decides. -/
def judge (t : Transports) (session : UInt64) (locallyInitiated : Bool) (cfg : PeerConfig)
    (remoteId : RouterId) : List UInt64 → Option Closing
  | [] => none
  | sibling :: rest =>
    match t.peer sibling with
    | none => t.judge session locallyInitiated cfg remoteId rest
    | some p =>
      -- a sibling in OpenSent has no identifier yet; the group vouches for it
      if p.state ≠ .openSent ∧ p.peerBgpId ≠ some remoteId then
        t.judge session locallyInitiated cfg remoteId rest
      else
        match p.state with
        | .established => some ⟨session, sibling, .established⟩
        | .openSent | .openConfirm =>
          if ((t.collisionMeta.lookup sibling).map Prod.snd).getD false = locallyInitiated then
            t.judge session locallyInitiated cfg remoteId rest
          else if (if locallyInitiated then !remoteInitiatedWins cfg remoteId
              else remoteInitiatedWins cfg remoteId) then
            some ⟨sibling, session, .identifier⟩
          else some ⟨session, sibling, .identifier⟩
        | .idle | .connect | .active => t.judge session locallyInitiated cfg remoteId rest

/-- `resolve_connection_collision`: what to close, if anything. -/
def resolveConnectionCollision (t : Transports) (session : UInt64) : Option Closing :=
  match t.collisionMeta.lookup session, t.peer session with
  | some (group, locallyInitiated), some p =>
    match p.peerBgpId with
    | none => none
    | some remoteId =>
      t.judge session locallyInitiated p.cfg remoteId
        ((t.collisionMeta.filter fun e => e.1 ≠ session ∧ e.2.1 = group).map Prod.fst)
  | _, _ => none

end Transports

end LibRouting.Router
