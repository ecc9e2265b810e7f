/-
  Ospf/Nssa.lean --- which border router of an NSSA translates (`lr-ospf/src/nssa.rs`,
  RFC 3101 §3.1).

  Each border router decides for itself, from the database it shares with the others.
-/
import LibRouting.Ospf.Spf
import Mathlib.Data.Finset.Max

set_option autoImplicit false

namespace LibRouting.Ospf

open Foundation List

/-! ## The election -/

namespace RouterLsaFlags

/-- The router is an area border router. -/
def b : UInt8 := 0x01

/-- The router translates unconditionally. -/
def nt : UInt8 := 0x10

end RouterLsaFlags

/-- `router_lsa_flags_byte`. -/
def routerLsaFlagsByte (body : Bytes) : Option UInt8 := body.head?

/-- The loop of the election leaves with `false` at this entry of the database. -/
def overrules (routerId : UInt32) (reachable : Option (List UInt32))
    (entry : LsaKey × LsaEntry) : Bool :=
  if entry.1.lsType ≠ lsTypeRouter ∨ entry.1.advertisingRouter = routerId then false
  else
    match routerLsaFlagsByte entry.2.lsa.body with
    | none => false
    | some flags =>
      if flags &&& RouterLsaFlags.b = 0 then false
      else if reachable.any (!·.contains entry.1.advertisingRouter) then false
      else flags &&& RouterLsaFlags.nt ≠ 0 || entry.1.advertisingRouter > routerId

/-- `is_elected_translator_with_reachability`; without a set it is `is_elected_translator`. -/
def isElectedTranslator (lsdb : Lsdb) (routerId : UInt32) (reachable : Option (List UInt32)) :
    Bool :=
  if reachable.any (!·.contains routerId) then false
  else !lsdb.iter.any (overrules routerId reachable)

/-! ## What all routers decide together -/

/-- The router has a router-LSA in the area with these flags set, the B bit among them. -/
def Advertises (lsdb : Lsdb) (router : UInt32) (wanted : UInt8 → Prop) : Prop :=
  ∃ entry ∈ lsdb.iter, entry.1.lsType = lsTypeRouter ∧ entry.1.advertisingRouter = router ∧
    ∃ flags ∈ routerLsaFlagsByte entry.2.lsa.body, flags &&& RouterLsaFlags.b ≠ 0 ∧ wanted flags

instance (lsdb : Lsdb) (router : UInt32) (wanted : UInt8 → Prop) [DecidablePred wanted] :
    Decidable (Advertises lsdb router wanted) :=
  inferInstanceAs (Decidable (∃ entry ∈ lsdb.iter, _))

/-- The router has advertised itself as a border router. -/
abbrev Border (lsdb : Lsdb) (router : UInt32) : Prop := Advertises lsdb router fun _ => True

/-- A border router with the Nt bit. -/
abbrev Unconditional (lsdb : Lsdb) (router : UInt32) : Prop :=
  Advertises lsdb router fun flags => flags &&& RouterLsaFlags.nt ≠ 0

/-- The election of the area: `reach r` is what router `r` knows to be reachable. -/
structure Elects (lsdb : Lsdb) (reach : UInt32 → Option (List UInt32)) : Prop where
  translated : ∃ r, Border lsdb r ∧ isElectedTranslator lsdb r (reach r) = true
  highest : (∀ r, ¬ Unconditional lsdb r) → ∃ top, Border lsdb top ∧
    (∀ s, Border lsdb s → s ≤ top) ∧
    ∀ r, Border lsdb r → (isElectedTranslator lsdb r (reach r) = true ↔ r = top)
  unconditional : ∀ r, Unconditional lsdb r → isElectedTranslator lsdb r (reach r) = true
  others : ∀ s, Unconditional lsdb s → ∀ r, Border lsdb r → ¬ Unconditional lsdb r →
    isElectedTranslator lsdb r (reach r) = false

/-- Every border router reaches all of them. -/
def MutuallyReachable (lsdb : Lsdb) (reach : UInt32 → Option (List UInt32)) : Prop :=
  ∀ r s, Border lsdb r → Border lsdb s → ∀ set ∈ reach r, s ∈ set

variable {lsdb : Lsdb} {reach : UInt32 → Option (List UInt32)} {r s : UInt32}

theorem Unconditional.border (h : Unconditional lsdb r) : Border lsdb r := by
  obtain ⟨entry, hmem, htype, hrouter, flags, hflags, hb, -⟩ := h
  exact ⟨entry, hmem, htype, hrouter, flags, hflags, hb, trivial⟩

theorem overrules_iff {reachable : Option (List UInt32)} {entry : LsaKey × LsaEntry} :
    overrules r reachable entry = true ↔
      entry.1.lsType = lsTypeRouter ∧ entry.1.advertisingRouter ≠ r ∧
      ∃ flags ∈ routerLsaFlagsByte entry.2.lsa.body, flags &&& RouterLsaFlags.b ≠ 0 ∧
        (∀ set ∈ reachable, entry.1.advertisingRouter ∈ set) ∧
        (flags &&& RouterLsaFlags.nt ≠ 0 ∨ r < entry.1.advertisingRouter) := by
  unfold overrules
  by_cases hskip : entry.1.lsType ≠ lsTypeRouter ∨ entry.1.advertisingRouter = r
  · rw [if_pos hskip]
    grind
  rw [if_neg hskip]
  cases routerLsaFlagsByte entry.2.lsa.body with
  | none => simp
  | some flags =>
    have hout : reachable.any (!·.contains entry.1.advertisingRouter) = true ↔
        ¬ ∀ set ∈ reachable, entry.1.advertisingRouter ∈ set := by
      cases reachable <;> simp
    simp only [hout]
    split_ifs <;> grind

/-- A border router translates unless another one has the Nt bit or a higher id. -/
theorem isElectedTranslator_iff (hreach : MutuallyReachable lsdb reach) (hr : Border lsdb r) :
    isElectedTranslator lsdb r (reach r) = true ↔
      ∀ s, Border lsdb s → s ≠ r → ¬ Unconditional lsdb s ∧ s ≤ r := by
  have hself : (reach r).any (!·.contains r) = false := by
    simp only [Option.any_eq_false, Bool.not_eq_false', contains_iff_mem]
    exact fun set hset => hreach r r hr hr set hset
  simp only [isElectedTranslator, hself, Bool.false_eq_true, if_false, Bool.not_eq_true',
    any_eq_false, overrules_iff]
  constructor
  · intro hnone s hs hne
    constructor
    · rintro ⟨entry, hmem, htype, rfl, flags, hflags, hb, hnt⟩
      exact hnone entry hmem ⟨htype, hne, flags, hflags, hb, hreach r _ hr hs, .inl hnt⟩
    · obtain ⟨entry, hmem, htype, rfl, flags, hflags, hb, -⟩ := id hs
      rw [← UInt32.not_lt]
      intro hlt
      exact hnone entry hmem ⟨htype, hne, flags, hflags, hb, hreach r _ hr hs, .inr hlt⟩
  · rintro hall entry hmem ⟨htype, hne, flags, hflags, hb, -, hover⟩
    obtain ⟨hnt, hle⟩ := hall _ ⟨entry, hmem, htype, rfl, flags, hflags, hb, trivial⟩ hne
    rcases hover with hover | hlt
    · exact hnt ⟨entry, hmem, htype, rfl, flags, hflags, hb, hover⟩
    · exact UInt32.not_lt.mpr hle hlt

/-- There are finitely many border routers. -/
theorem exists_highest (hr : Border lsdb r) :
    ∃ top, Border lsdb top ∧ ∀ s, Border lsdb s → s ≤ top := by
  classical
  let routers := (lsdb.iter.map (·.1.advertisingRouter)).toFinset.filter (Border lsdb)
  have hmem : ∀ s, s ∈ routers ↔ Border lsdb s := by
    intro s
    simp only [routers, Finset.mem_filter, mem_toFinset, mem_map, and_iff_right_iff_imp]
    rintro ⟨entry, hentry, -, hrouter, -⟩
    exact ⟨entry, hentry, hrouter⟩
  obtain ⟨top, htop, hmax⟩ := routers.exists_max_image UInt32.toNat ⟨r, (hmem r).mpr hr⟩
  exact ⟨top, (hmem top).mp htop, fun s hs => hmax s ((hmem s).mpr hs)⟩

/-- The routers agree on their translators exactly when no border router has a higher id
than one with the Nt bit. -/
theorem elects_iff (hr : Border lsdb r) (hreach : MutuallyReachable lsdb reach) :
    Elects lsdb reach ↔ ∀ r, Unconditional lsdb r → ∀ s, Border lsdb s → s ≤ r := by
  constructor
  · intro h r hnt s hs
    by_cases hne : s = r
    · exact UInt32.le_of_eq hne
    · have helected := (isElectedTranslator_iff hreach hnt.border).mp (h.unconditional r hnt)
      exact (helected s hs hne).2
  · intro htop
    obtain ⟨top, hborder, hhighest⟩ := exists_highest hr
    have hunconditional : ∀ r, Unconditional lsdb r →
        isElectedTranslator lsdb r (reach r) = true := by
      intro r hnt
      refine (isElectedTranslator_iff hreach hnt.border).mpr fun s hs hne => ⟨?_, htop r hnt s hs⟩
      -- both would have the highest id
      intro hnt'
      exact hne (UInt32.le_antisymm (htop r hnt s hs) (htop s hnt' r hnt.border))
    have helected : (∀ r, ¬ Unconditional lsdb r) → ∀ r, Border lsdb r →
        (isElectedTranslator lsdb r (reach r) = true ↔ r = top) := by
      intro hnone r hr
      rw [isElectedTranslator_iff hreach hr]
      constructor
      · intro hall
        by_contra hne
        exact hne (UInt32.le_antisymm (hhighest r hr) (hall top hborder (Ne.symm hne)).2)
      · rintro rfl s hs -
        exact ⟨hnone s, hhighest s hs⟩
    refine ⟨?_, fun hnone => ⟨top, hborder, hhighest, helected hnone⟩, hunconditional, ?_⟩
    · by_cases hnt : ∃ r, Unconditional lsdb r
      · obtain ⟨r, hnt⟩ := hnt
        exact ⟨r, hnt.border, hunconditional r hnt⟩
      · exact ⟨top, hborder, (helected (not_exists.mp hnt) top hborder).mpr rfl⟩
    · intro s hs r hr hnot
      rw [← Bool.not_eq_true, isElectedTranslator_iff hreach hr]
      intro hall
      exact (hall s hs.border fun heq => hnot (heq ▸ hs)).1 hs

/-! ### Two border routers -/

/-- The router-LSA of a border router. -/
def borderLsa (router : UInt32) (flags : UInt8) : Lsa :=
  ⟨⟨0, 0, lsTypeRouter, router, router, initialSequenceNumber, 0, 21⟩, [flags]⟩

/-- Routers 2 and 9 with these flags. -/
def twoBorders (flags₂ flags₉ : UInt8) : Lsdb :=
  ((Lsdb.empty.install (borderLsa 2 flags₂) 0).1.install (borderLsa 9 flags₉) 0).1

theorem elects_iff_nine : Elects (twoBorders 0x01 0x11) fun _ => none := by
  have hnine : Border (twoBorders 0x01 0x11) 9 := by decide +kernel
  have hids : ∀ entry ∈ (twoBorders 0x01 0x11).iter, entry.1.advertisingRouter ≤ 9 ∧
      ∀ flags ∈ routerLsaFlagsByte entry.2.lsa.body, flags &&& RouterLsaFlags.nt ≠ 0 →
        entry.1.advertisingRouter = 9 := by
    decide +kernel
  refine (elects_iff hnine (by simp [MutuallyReachable])).mpr ?_
  rintro _ ⟨entry, hmem, -, rfl, flags, hflags, -, hnt⟩ _ ⟨entry', hmem', -, rfl, -⟩
  rw [(hids entry hmem).2 flags hflags hnt]
  exact (hids entry' hmem').1

/-- Router 2 translates unconditionally, but its id is lower: neither router translates. -/
theorem nobody_translates :
    Border (twoBorders 0x11 0x01) 9 ∧ Unconditional (twoBorders 0x11 0x01) 2 ∧
      MutuallyReachable (twoBorders 0x11 0x01) (fun _ => none) ∧
      (∀ r ∈ [2, 9], isElectedTranslator (twoBorders 0x11 0x01) r none = false) ∧
      ¬ Elects (twoBorders 0x11 0x01) fun _ => none := by
  have hnt : Unconditional (twoBorders 0x11 0x01) 2 := by decide +kernel
  have hnone : ∀ r ∈ [2, 9], isElectedTranslator (twoBorders 0x11 0x01) r none = false := by
    refine forall_mem_cons.mpr ⟨?_, forall_mem_singleton.mpr ?_⟩ <;> decide +kernel
  refine ⟨by decide +kernel, hnt, by simp [MutuallyReachable], hnone, fun h => ?_⟩
  have htrue := h.unconditional 2 hnt
  rw [hnone 2 (by simp)] at htrue
  cases htrue

end LibRouting.Ospf
