/-
  Core/Rib.lean --- routes and their attribute sets (`lr-core`).
-/
import LibRouting.Core.Addr

set_option autoImplicit false

namespace LibRouting.Core

open Foundation

/-- A stored path attribute; its tag is the key it is stored under. -/
structure Attribute where
  flags : UInt8
  value : Bytes
  deriving DecidableEq, Repr

/-- The ordered attribute set, keyed by tag. -/
abbrev Attributes : Type := Std.ExtTreeMap UInt8 Attribute compare

/-- Who contributed a route: a protocol discriminator and a session id. -/
@[ext] structure RouteOrigin where
  proto : UInt32
  peer : UInt64
  deriving DecidableEq, Repr

namespace RouteOrigin

instance : Ord RouteOrigin := ⟨compareLex (compareOn proto) (compareOn peer)⟩

instance : Std.TransOrd RouteOrigin := inferInstanceAs (Std.TransCmp (compareLex _ _))

instance : Std.LawfulEqOrd RouteOrigin where
  eq_of_compare h := RouteOrigin.ext_iff.mpr (eq_of_compareLex h)

end RouteOrigin

/-- The key of a routing-table entry. -/
@[ext] structure RouteKey where
  pfx : Prefix
  family : NlriFamily
  source : Option Prefix
  deriving DecidableEq, Repr

namespace RouteKey

/-- `RouteKey::new`: a key without a source prefix. -/
def new (p : Prefix) (family : NlriFamily) : RouteKey := ⟨p, family, none⟩

instance : Ord RouteKey :=
  ⟨compareLex (compareOn pfx) (compareLex (compareOn family) (compareOn source))⟩

instance : Std.TransOrd RouteKey := inferInstanceAs (Std.TransCmp (compareLex _ (compareLex _ _)))

instance : Std.LawfulEqOrd RouteKey where
  eq_of_compare h := RouteKey.ext_iff.mpr (eq_of_compareLex₃ h)

end RouteKey

/-- The protocol a route was learned from. -/
inductive Protocol where
  | bgp
  | ospfv2
  | ospfv3
  | babel
  | static
  | connected
  | other (id : UInt16)
  deriving DecidableEq, Repr

/-- `Protocol::default_admin_distance`. -/
def Protocol.defaultAdminDistance : Protocol → UInt32
  | connected => 0
  | static => 1
  | bgp => 20
  | ospfv2 | ospfv3 => 110
  | babel => 120
  | other _ => 200

/-- The preference of a route across protocols: lower is better. -/
structure Preference where
  adminDistance : UInt32
  metric : UInt32
  deriving DecidableEq, Repr

/-- A route of any protocol. -/
structure Route where
  key : RouteKey
  origin : RouteOrigin
  protocol : Protocol
  preference : Preference
  nextHop : Option IpAddr
  attributes : Attributes
  ageMs : UInt64
  pathId : UInt32
  tag : Option UInt32
  deriving DecidableEq

end LibRouting.Core
