/-
  Babel/Retraction.lean --- what a retraction leaves of the neighbour's routes
  (`lr-router/src/instance/babel.rs`).

  A retraction withdraws the one route stored under the router-id in force, which is the
  one of the last Router-Id TLV, in this packet or an earlier one.
-/
import LibRouting.Babel.Feasibility

set_option autoImplicit false

namespace LibRouting.Babel

open Foundation Core

/-- The Update with the octet of a default route written out. -/
def Update.spelledOut (u : Update) : Update := if u.pfx.isEmpty then { u with pfx := [0] } else u

/-- The address encoding is one whose prefixes are taken up. -/
def Update.TakenUp (u : Update) : Prop := u.ae = 1 ∨ u.ae = 2 ∨ u.ae = 4
  deriving Decidable

theorem Update.destination_of_not_takenUp {u : Update} (h : ¬ u.TakenUp) :
    u.destination = none := by
  unfold destination
  split <;> simp_all [TakenUp]

theorem Update.spelledOut_ae (u : Update) : u.spelledOut.ae = u.ae := by
  rw [spelledOut]
  split <;> rfl

theorem Update.spelledOut_metric (u : Update) : u.spelledOut.metric = u.metric := by
  rw [spelledOut]
  split <;> rfl

/-- A prefix without its host bits. -/
def bare (p : Prefix) : IpAddr × UInt8 := (p.network, p.prefixLen)

/-- A route for the pair of destination and source prefix, of any router. -/
def RouteKey.ForPair (k : RouteKey) (destination : Prefix) (source : Option Prefix) : Prop :=
  bare k.destination = bare destination ∧ k.source.map bare = source.map bare

namespace BabelRuntime

variable {rt : BabelRuntime} {u : Update} {link : Option UInt32} {nowMs : Nat}

/-- A wildcard retraction leaves nothing, a retraction leaves no route of its pair, and a
default route is treated as if its octet were there. -/
structure Complete (rt : BabelRuntime) (u : Update) (link : Option UInt32) (nowMs : Nat) :
    Prop where
  wildcard : u.metric = Update.retraction → u.ae = 0 →
    (rt.applyUpdate u link nowMs).routes.isEmpty = true
  pair : u.metric = Update.retraction → ∀ d, u.spelledOut.destination = some d →
    ∀ k : RouteKey, k.ForPair d u.source → (rt.applyUpdate u link nowMs).routes.routes[k]? = none
  default : (rt.applyUpdate u link nowMs).routes = (rt.applyUpdate u.spelledOut link nowMs).routes

/-- The routes of the retracted pair are stored under the router-id in force. -/
def InForce (rt : BabelRuntime) (u : Update) : Prop :=
  u.metric = Update.retraction → ∀ d, u.destination = some d →
    ∀ k : RouteKey, k.ForPair d u.source → k ∈ rt.routes.routes →
      k = ⟨d, u.source, rt.routerId⟩

theorem applyUpdate_wildcard (hae : u.ae = 0) (hmetric : u.metric = Update.retraction) :
    (rt.applyUpdate u link nowMs).routes.isEmpty = true := by
  rw [applyUpdate, if_neg (fun h => h.1 hmetric), if_pos hae]
  split
  · rfl
  · simp_all

theorem applyUpdate_retraction {d : Prefix} (hmetric : u.metric = Update.retraction)
    (hd : u.destination = some d) :
    (rt.applyUpdate u link nowMs).routes = rt.routes.withdraw ⟨d, u.source, rt.routerId⟩ := by
  have hae : u.ae ≠ 0 := by
    intro hae
    simp [Update.destination, hae] at hd
  rw [applyUpdate, if_neg (fun h => h.1 hmetric), if_neg hae, hd]
  simp [hmetric]

/-- The Update claims to come from this router itself; such announcements are ignored. -/
def Echoes (rt : BabelRuntime) (u : Update) : Prop :=
  u.metric ≠ Update.retraction ∧ rt.ownRouterId = some rt.routerId

/-- Without a prefix to read its octets do not matter. -/
theorem applyUpdate_spelledOut (h : ¬ u.TakenUp ∨ rt.Echoes u) :
    rt.applyUpdate u.spelledOut link nowMs = rt.applyUpdate u link nowMs := by
  simp only [applyUpdate, u.spelledOut_ae, u.spelledOut_metric]
  obtain h | ⟨hm, hown⟩ := h
  · have h' : ¬ u.spelledOut.TakenUp := by rwa [Update.TakenUp, u.spelledOut_ae]
    rw [Update.destination_of_not_takenUp h, Update.destination_of_not_takenUp h']
  · rw [if_pos ⟨hm, hown⟩, if_pos ⟨hm, hown⟩]

/-- A retraction is complete exactly when the routes of its pair are stored under the
router-id in force.  Default routes are left out, whose octet the source asks for. -/
theorem retraction_complete_iff (rt : BabelRuntime) (u : Update) (link : Option UInt32)
    (nowMs : Nat) (hdefault : u.TakenUp → u.pfx = [] → rt.Echoes u) :
    rt.Complete u link nowMs ↔ rt.InForce u := by
  by_cases hskip : ¬ u.TakenUp ∨ rt.Echoes u
  · have hnone : u.metric = Update.retraction →
        u.destination = none ∧ u.spelledOut.destination = none := by
      intro hm
      have h := hskip.resolve_right fun h => h.1 hm
      exact ⟨Update.destination_of_not_takenUp h,
        Update.destination_of_not_takenUp (by rwa [Update.TakenUp, u.spelledOut_ae])⟩
    refine iff_of_true ⟨fun hm hae => applyUpdate_wildcard hae hm, fun hm d hd => ?_,
      by rw [applyUpdate_spelledOut hskip]⟩ fun hm d hd => ?_
    · cases (hnone hm).2.symm.trans hd
    · cases (hnone hm).1.symm.trans hd
  · obtain ⟨htaken, hecho⟩ := not_or.mp hskip
    have hspelled : u.spelledOut = u := by
      have hpfx : u.pfx ≠ [] := fun hpfx => hecho (hdefault (not_not.mp htaken) hpfx)
      simp [Update.spelledOut, hpfx]
    have hae : u.ae ≠ 0 := by
      intro hae
      simp [Update.TakenUp, hae] at htaken
    constructor
    · intro h hm d hd k hk hmem
      have hnone := h.pair hm d (by rw [hspelled, hd]) k hk
      rw [applyUpdate_retraction hm hd, BabelRouteTable.withdraw,
        lookup_erase] at hnone
      split at hnone
      case isTrue heq => exact heq.symm
      case isFalse => simp [Std.ExtTreeMap.mem_iff_isSome_getElem?, hnone] at hmem
    · intro h
      refine ⟨fun _ hzero => absurd hzero hae, fun hm d hd k hk => ?_, by rw [hspelled]⟩
      rw [hspelled] at hd
      rw [applyUpdate_retraction hm hd, BabelRouteTable.withdraw, lookup_erase]
      split
      case isTrue => rfl
      case isFalse hne =>
        refine Std.ExtTreeMap.getElem?_eq_none fun hmem => hne ?_
        rw [h hm d hd k hk hmem]

/-- The announcement of 10.0.0.0/8 and its retraction, under a router-id of their own. -/
theorem retraction_complete_iff_ten :
    let rt := (new (.v4 ⟨[192, 0, 2, 1], rfl⟩)).applyUpdate ⟨1, 8, 400, 1, 10, [10], 0, []⟩
      (some 96) 0
    rt.Complete ⟨1, 8, 400, 1, Update.retraction, [10], 0, []⟩ (some 96) 1 ↔
      rt.InForce ⟨1, 8, 400, 1, Update.retraction, [10], 0, []⟩ :=
  retraction_complete_iff _ _ _ _ (fun _ => nofun)

/-- Another Router-Id TLV precedes the retraction of 10.0.0.0/8, which stays; a default
route is not learned. -/
theorem retraction_misses :
    ((exec Speaker.step .empty [.addSession 0 (.v4 ⟨[192, 0, 2, 1], rfl⟩),
        .routerId 0 (.padded 8 [1]), .update 0 ⟨1, 8, 400, 1, 10, [10], 0, []⟩ (some 96) 0,
        .routerId 0 (.padded 8 [2]),
        .update 0 ⟨1, 8, 400, 1, Update.retraction, [10], 0, []⟩ (some 96) 1]).bind
      (·.sessions[(0 : Handle)]?)).any (fun rt => rt.routes.routes.contains
        ⟨.newV4 (.padded 4 [10]) 8, none, .padded 8 [1]⟩) = true ∧
    ((exec Speaker.step .empty [.addSession 0 (.v4 ⟨[192, 0, 2, 1], rfl⟩),
        .routerId 0 (.padded 8 [1]), .update 0 ⟨1, 0, 400, 1, 10, [], 0, []⟩ (some 96) 0]).bind
      (·.sessions[(0 : Handle)]?)).any (fun rt => rt.routes.isEmpty) = true := by
  decide +kernel

end BabelRuntime

end LibRouting.Babel
