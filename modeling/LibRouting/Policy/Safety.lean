/-
  Policy/Safety.lean --- the hook chain (`lr-policy/src/hooks.rs`) and the safety net
  (`safety.rs`): protocol-level checks a route passes before any policy runs.

  Hooks are the embedder's code; a hook is any function of the route it is shown.
-/
import LibRouting.Bgp.WellKnown

set_option autoImplicit false

namespace LibRouting.Policy

open Foundation Core Bgp

/-- What a hook makes of a route. -/
inductive HookVerdict where
  | keep
  | drop
  | replace (route : Route)

/-- A hook may change the route in place and returns a verdict. -/
abbrev ImportHook : Type := Route → Route × HookVerdict

/-- An export hook also sees the session the route goes to. -/
abbrev ExportHook : Type := UInt64 → Route → Route × HookVerdict

/-- The hooks of the router, in order. -/
structure HookChain where
  imports : List ImportHook := []
  exports : List ExportHook := []

/-- Run hooks in order; `none` is the verdict to drop the route. -/
def runHooks : List (Route → Route × HookVerdict) → Route → Option Route
  | [], route => some route
  | hook :: hooks, route =>
    match hook route with
    | (_, .drop) => none
    | (_, .replace r) => runHooks hooks r
    | (r, .keep) => runHooks hooks r

namespace HookChain

/-- `run_import`. -/
def runImport (c : HookChain) (route : Route) : Option Route := runHooks c.imports route

/-- `run_export_to`. -/
def runExportTo (c : HookChain) (route : Route) (destination : UInt64) : Option Route :=
  runHooks (c.exports.map (· destination)) route

end HookChain

/-- The hook leaves alone which path the route is: its origin, key and path
identifier. -/
def KeepsPath (hook : Route → Route × HookVerdict) : Prop :=
  ∀ route, match hook route with
    | (_, .drop) => True
    | (_, .replace r) | (r, .keep) =>
      r.origin = route.origin ∧ r.key = route.key ∧ r.pathId = route.pathId

theorem runHooks_keepsPath :
    ∀ {hooks : List (Route → Route × HookVerdict)} {route r : Route},
      (∀ hook ∈ hooks, KeepsPath hook) → runHooks hooks route = some r →
      r.origin = route.origin ∧ r.key = route.key ∧ r.pathId = route.pathId
  | [], route, r, _, h => by
      cases h
      exact ⟨rfl, rfl, rfl⟩
  | hook :: hooks, route, r, hk, h => by
      have hrest : ∀ hook ∈ hooks, KeepsPath hook := fun x hx => hk x (by simp [hx])
      have hhook := hk hook (by simp) route
      unfold runHooks at h
      split at h
      · cases h
      · rename_i x r' heq
        rw [heq] at hhook
        obtain ⟨ho, hkey, hid⟩ := runHooks_keepsPath hrest h
        exact ⟨ho.trans hhook.1, hkey.trans hhook.2.1, hid.trans hhook.2.2⟩
      · rename_i r' heq
        rw [heq] at hhook
        obtain ⟨ho, hkey, hid⟩ := runHooks_keepsPath hrest h
        exact ⟨ho.trans hhook.1, hkey.trans hhook.2.1, hid.trans hhook.2.2⟩

/-- The switches of the safety net that a check reads. -/
structure SafetyConfig where
  enabled : Bool := true
  rejectAsLoop : Bool := true
  rejectInvalidNextHop : Bool := true
  rejectEmptyAsPathEbgp : Bool := false
  rejectExcessiveAsLoop : Bool := true
  maxAsPathLoops : UInt8 := 3
  rejectOversizedAsPath : Bool := true
  maxAsPathLength : Nat := 64
  rejectMartianPrefix : Bool := true
  asLoopExceptions : List Asn := []
  martianExceptions : List Prefix := []
  rejectMartianV4 : Bool := true
  rejectMartianV6 : Bool := true
  deriving DecidableEq, Repr

/-- A violation; the route is named by its prefix. -/
inductive SafetyViolation where
  | asLoop (route : Prefix) (localAs : Asn)
  | invalidNextHop (route : Prefix) (nextHop : IpAddr)
  | emptyAsPathEbgp (route : Prefix)
  | excessiveAsLoop (route : Prefix) (count : UInt8)
  | oversizedAsPath (route : Prefix) (len : Nat)
  | martianPrefix (route : Prefix) (reason : String)
  deriving DecidableEq, Repr

/-- The import safety checks and what they compare with. -/
structure SafetyNet where
  cfg : SafetyConfig := {}
  localAs : Asn
  localAddrs : List IpAddr := []
  deriving DecidableEq, Repr

/-- `prefix_bytes_contain`. -/
def prefixBytesContain (outer inner : Bytes) (fullBytes remBits : Nat) : Bool :=
  outer.take fullBytes == inner.take fullBytes &&
    (remBits == 0 ||
      let mask : UInt8 := 0xff <<< UInt8.ofNat (8 - remBits)
      (outer.drop fullBytes).head?.map (· &&& mask) ==
        (inner.drop fullBytes).head?.map (· &&& mask))

/-- `prefix_contains`: `inner` is `outer` or a subnet of it. -/
def prefixContains (outer inner : Prefix) : Bool :=
  !decide (inner.prefixLen < outer.prefixLen) && outer.addr.isIpv4 == inner.addr.isIpv4 &&
    prefixBytesContain outer.addr.octets inner.addr.octets (outer.prefixLen.toNat / 8)
      (outer.prefixLen.toNat % 8)

namespace SafetyNet

section

variable (net : SafetyNet) (route : Route)

/-- `is_martian_exempt`. -/
def isMartianExempt (p : Prefix) : Bool :=
  net.cfg.martianExceptions.any fun ex => prefixContains ex p

/-- `is_martian`. -/
def isMartian (p : Prefix) : Bool :=
  let pl := p.prefixLen
  match p.addr, p.addr.octets with
  | .v4 _, b₀ :: b₁ :: _ => net.cfg.rejectMartianV4 &&
      ((b₀ == 0 && decide (8 ≤ pl)) || (b₀ == 127 && decide (8 ≤ pl)) ||
        (b₀ == 169 && b₁ == 254 && decide (16 ≤ pl)) ||
        (b₀ &&& 0xf0 == 0xe0 && decide (4 ≤ pl)) || (b₀ &&& 0xf0 == 0xf0 && decide (4 ≤ pl)))
  | .v6 _, b₀ :: b₁ :: rest => net.cfg.rejectMartianV6 &&
      ((b₀ == 0 && b₁ == 0 && rest == List.replicate 14 0 && decide (128 ≤ pl)) ||
        (b₀ == 0 && b₁ == 0 && rest == List.replicate 13 0 ++ [1] && decide (128 ≤ pl)) ||
        (b₀ &&& 0xfe == 0xfc && decide (7 ≤ pl)) ||
        (b₀ == 0xfe && b₁ &&& 0xc0 == 0x80 && decide (10 ≤ pl)) ||
        (b₀ == 0xff && decide (8 ≤ pl)))
  | _, _ => false

/-- The AS_PATH the net looks at: AS4_PATH before AS_PATH, read in four octets and
else in two. -/
def pathOf : Option AsPath := do
  let attr ← route.attributes[(17 : UInt8)]?.or route.attributes[(2 : UInt8)]?
  (AsPath.decode4 attr.value).or (AsPath.decode attr.value)

/-- `as_path_len`. -/
def asPathLen : Option Nat := (pathOf route).map AsPath.length

/-- `local_as_count`: occurrences of the local AS outside the exceptions, saturating. -/
def localAsCount : UInt8 :=
  match pathOf route with
  | none => 0
  | some path => UInt8.ofNat (min 255
      (path.asns.countP fun a => a == net.localAs && !net.cfg.asLoopExceptions.contains a))

/-- The AS_PATH checks of `check`. -/
def checkPath (isEbgp : Bool) : Except SafetyViolation Unit :=
  match asPathLen route with
  | none => .ok ()
  | some len =>
    let localCount := net.localAsCount route
    if net.cfg.rejectOversizedAsPath ∧ net.cfg.maxAsPathLength < len then
      .error (.oversizedAsPath route.key.pfx len)
    else if net.cfg.rejectEmptyAsPathEbgp ∧ isEbgp ∧ len = 0 then
      .error (.emptyAsPathEbgp route.key.pfx)
    else if net.cfg.rejectAsLoop ∧ 0 < localCount then
      .error (.asLoop route.key.pfx net.localAs)
    else if net.cfg.rejectExcessiveAsLoop ∧ net.cfg.maxAsPathLoops < localCount then
      .error (.excessiveAsLoop route.key.pfx localCount)
    else .ok ()

/-- The NEXT_HOP check of `check`: unspecified, loopback or an own address. -/
def checkNextHop : Except SafetyViolation Unit :=
  match route.nextHop with
  | some nh =>
    if net.cfg.rejectInvalidNextHop ∧ (nh.octets.all (· == 0) ∨
        nh = .v4 (.padded 4 [127, 0, 0, 1]) ∨ nh ∈ net.localAddrs) then
      .error (.invalidNextHop route.key.pfx nh)
    else .ok ()
  | none => .ok ()

/-- `SafetyNet::check`. -/
def check (isEbgp : Bool) : Except SafetyViolation Unit :=
  if !net.cfg.enabled then .ok ()
  else if net.cfg.rejectMartianPrefix && !net.isMartianExempt route.key.pfx &&
      net.isMartian route.key.pfx then
    .error (.martianPrefix route.key.pfx "prefix is in the martian list")
  else do
    net.checkPath route isEbgp
    net.checkNextHop route

end

end SafetyNet

end LibRouting.Policy
