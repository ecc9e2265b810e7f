/-
  Ospf/Recency.lean --- which instance of an LSA the database ends with.

  RFC 2328 §13.1 orders the instances of an LSA by sequence number, then checksum, then age.
  `install` compares sequence numbers alone, keeps the first of equal ones, and lets every
  instance of age MaxAge purge what is stored together with its watermark.  So the database
  ends with the most recent of a set of instances, in whatever order and how often they
  arrive, exactly where the set does not mix MaxAge with other instances and §13.1 makes no
  difference among those of the highest sequence number.
-/
import Mathlib.Data.Finset.Max
import LibRouting.Ospf.Lsdb

set_option autoImplicit false

namespace LibRouting.Ospf

open Foundation List

/-! ## The order of RFC 2328 §13.1 -/

namespace Lsa

/-- `MaxAgeDiff` (RFC 2328 Appendix B): 15 minutes. -/
def maxAgeDiff : Nat := 900

/-- The instance has reached MaxAge. -/
def MaxAged (l : Lsa) : Prop := maxAgeSecs ≤ l.header.lsAge
  deriving Decidable

/-- `a` is more recent than `b`: the larger sequence number, then the larger checksum, then
the only one of age MaxAge, then the smaller age where the ages differ by more than
`maxAgeDiff`. -/
def Newer (a b : Lsa) : Prop :=
  b.signedSeq < a.signedSeq ∨ a.signedSeq = b.signedSeq ∧
    (b.header.lsChecksum < a.header.lsChecksum ∨ a.header.lsChecksum = b.header.lsChecksum ∧
      (a.MaxAged ∧ ¬ b.MaxAged ∨ ¬ a.MaxAged ∧ ¬ b.MaxAged ∧
        a.header.lsAge.toNat + maxAgeDiff < b.header.lsAge.toNat))
  deriving Decidable

/-- An instance of the set that no other is newer than. -/
def MostRecent (s : List Lsa) (m : Lsa) : Prop := m ∈ s ∧ ∀ x ∈ s, ¬ x.Newer m

/-- The most recent instance of a set is stored, or it is of age MaxAge and nothing is. -/
def Newest (s : List Lsa) : Option Lsa → Prop
  | some m => MostRecent s m ∧ ¬ m.MaxAged
  | none => s = [] ∨ ∃ m, MostRecent s m ∧ m.MaxAged

/-- A number that grows along the order. -/
def recencyRank (l : Lsa) : Int :=
  (l.signedSeq * 2 ^ 16 + l.header.lsChecksum.toNat) * 2 ^ 17 +
    if l.MaxAged then 2 ^ 16 else 65535 - l.header.lsAge.toNat

theorem Newer.rank_lt {a b : Lsa} (h : a.Newer b) : b.recencyRank < a.recencyRank := by
  have hca := a.header.lsChecksum.toNat_lt
  have hcb := b.header.lsChecksum.toNat_lt
  have haa := a.header.lsAge.toNat_lt
  have hab := b.header.lsAge.toNat_lt
  unfold recencyRank
  rcases h with hseq | ⟨hseq, hsum | ⟨hsum, ⟨ha, hb⟩ | ⟨ha, hb, hage⟩⟩⟩
  · split <;> split <;> omega
  · rw [UInt16.lt_iff_toNat_lt] at hsum
    split <;> split <;> omega
  · rw [if_pos ha, if_neg hb, hseq, hsum]
    omega
  · rw [if_neg ha, if_neg hb, hseq, hsum]
    omega

theorem exists_mostRecent {s : List Lsa} (hs : s ≠ []) : ∃ m, MostRecent s m := by
  obtain ⟨m, hmem, hmax⟩ := Multiset.exists_max_image recencyRank (s := (s : Multiset Lsa))
    (by simpa using hs)
  exact ⟨m, hmem, fun x hx hnewer => absurd hnewer.rank_lt (Int.not_lt.mpr (hmax x hx))⟩

/-- The most recent instances are of age MaxAge together or not at all. -/
theorem MostRecent.maxAged_iff {s : List Lsa} {m m' : Lsa} (h : MostRecent s m)
    (h' : MostRecent s m') : m.MaxAged ↔ m'.MaxAged := by
  have hno := h.2 m' h'.1
  have hno' := h'.2 m h.1
  simp only [Newer, not_or, not_and, UInt16.lt_iff_toNat_lt, ← UInt16.toNat_inj] at hno hno'
  have hseq : m.signedSeq = m'.signedSeq := by omega
  have hsum : m.header.lsChecksum.toNat = m'.header.lsChecksum.toNat := by
    have h₁ := (hno.2 hseq.symm).1
    have h₂ := (hno'.2 hseq).1
    omega
  have h₁ := ((hno.2 hseq.symm).2 hsum.symm).1
  have h₂ := ((hno'.2 hseq).2 hsum).1
  tauto

end Lsa

/-! ## Runs of installs -/

namespace Lsdb

/-- Install a list of instances, each at its time. -/
def installAll (db : Lsdb) (l : List (Lsa × Nat)) : Lsdb :=
  l.foldl (fun db x => (db.install x.1 x.2).1) db

theorem installAll_append (db : Lsdb) (l l' : List (Lsa × Nat)) :
    db.installAll (l ++ l') = (db.installAll l).installAll l' :=
  foldl_append ..

@[simp] theorem drop_held (db : Lsdb) (key k : LsaKey) :
    (db.drop key).held k = if key = k then none else db.held k := by
  rw [held, get, drop, lookup_erase]
  by_cases h : key = k
  · simp [h]
  · simp [h, held, get]

theorem install_held_maxAged (db : Lsdb) {l : Lsa} (hl : l.MaxAged) (now : Nat) :
    (db.install l now).1.held l.key = none := by
  have hage : ¬ l.header.lsAge < maxAgeSecs := by
    rw [UInt16.not_lt]
    exact hl
  rw [install, dif_neg hage]
  by_cases hcontains : db.entries.contains l.key = true
  · rw [if_pos hcontains]
    simp
  · rw [if_neg hcontains]
    simp only [held, get, Option.map_eq_none_iff]
    exact Std.ExtTreeMap.getElem?_eq_none (by simpa using hcontains)

section Runs

variable {k : LsaKey} {l : List (Lsa × Nat)} {x y : Lsa} (db : Lsdb)

/-- Instances of one LSA within the sequence range. -/
def Instances (k : LsaKey) (s : List Lsa) : Prop :=
  ∀ x ∈ s, x.key = k ∧ sequenceInRange x.header.lsSequenceNumber = true

theorem storable_of_not_maxAged (hx : ¬ x.MaxAged)
    (hseq : sequenceInRange x.header.lsSequenceNumber = true) : x.Storable :=
  ⟨UInt16.not_le.mp hx, hseq⟩

theorem install_held_some (hx : x.Storable) (hy : db.held x.key = some y) (now : Nat) :
    (db.install x now).1.held x.key = some (if y.signedSeq < x.signedSeq then x else y) := by
  rw [install_held db hx, if_pos rfl, hy, moreRecent, DbSync.latest]
  split <;> rfl

theorem install_held_none (hx : x.Storable) (hnone : db.held x.key = none) (now : Nat) :
    (db.install x now).1.held x.key = some x := by
  rw [install_held db hx, if_pos rfl, hnone]
  rfl

/-- A stored instance stays while nothing with a higher sequence number arrives. -/
theorem installAll_keeps (hy : db.held k = some y)
    (hl : ∀ x ∈ l, x.1.key = k ∧ x.1.Storable ∧ x.1.signedSeq ≤ y.signedSeq) :
    (db.installAll l).held k = some y := by
  induction l generalizing db with
  | nil => exact hy
  | cons x l ih =>
    obtain ⟨rfl, hstorable, hle⟩ := hl x mem_cons_self
    refine ih _ ?_ fun z hz => hl z (mem_cons_of_mem _ hz)
    rw [install_held_some db hstorable hy, if_neg (by omega)]

/-- Without MaxAge instances a run ends with one of the highest sequence number. -/
theorem installAll_highest (hy : db.held k = some y) (hl : ∀ x ∈ l, x.1.key = k ∧ x.1.Storable) :
    ∃ m, (db.installAll l).held k = some m ∧ (m = y ∨ m ∈ l.map (·.1)) ∧
      y.signedSeq ≤ m.signedSeq ∧ ∀ x ∈ l, x.1.signedSeq ≤ m.signedSeq := by
  induction l generalizing db y with
  | nil => exact ⟨y, hy, .inl rfl, le_rfl, by simp⟩
  | cons x l ih =>
    obtain ⟨rfl, hstorable⟩ := hl x mem_cons_self
    obtain ⟨m, hm, hfrom, hle, hall⟩ := ih (db.install x.1 x.2).1
      (install_held_some db hstorable hy x.2) fun z hz => hl z (mem_cons_of_mem _ hz)
    have hboth : y.signedSeq ≤ m.signedSeq ∧ x.1.signedSeq ≤ m.signedSeq := by
      split at hle <;> omega
    refine ⟨m, hm, ?_, hboth.1, forall_mem_cons.mpr ⟨hboth.2, hall⟩⟩
    rcases hfrom with hfrom | hfrom
    · by_cases hlt : y.signedSeq < x.1.signedSeq
      · rw [if_pos hlt] at hfrom
        exact .inr (by simp [hfrom])
      · rw [if_neg hlt] at hfrom
        exact .inl hfrom
    · exact .inr (mem_cons_of_mem _ hfrom)

/-- Where all instances are of age MaxAge nothing is ever stored. -/
theorem installAll_maxAged (hnone : db.held k = none) (hl : ∀ x ∈ l, x.1.key = k ∧ x.1.MaxAged) :
    (db.installAll l).held k = none := by
  induction l generalizing db with
  | nil => exact hnone
  | cons x l ih =>
    obtain ⟨rfl, hage⟩ := hl x mem_cons_self
    exact ih _ (install_held_maxAged db hage x.2) fun z hz => hl z (mem_cons_of_mem _ hz)

end Runs

/-! ## Newest wins -/

/-- An instance of the highest sequence number of the set. -/
def Highest (s : List Lsa) (x : Lsa) : Prop := x ∈ s ∧ ∀ z ∈ s, z.signedSeq ≤ x.signedSeq

/-- The set does not mix MaxAge with other instances, and those of the highest sequence
number have one checksum and ages within `maxAgeDiff` of each other. -/
def Settled (s : List Lsa) : Prop :=
  (∀ x ∈ s, x.MaxAged) ∨
    (∀ x ∈ s, ¬ x.MaxAged) ∧ ∀ x y, Highest s x → Highest s y →
      x.header.lsChecksum = y.header.lsChecksum ∧
        x.header.lsAge.toNat ≤ y.header.lsAge.toNat + Lsa.maxAgeDiff

/-- Whatever the order and duplication in which the instances of `s` arrive, the database
ends with the most recent; and while instances of `s` arrive, none replaces or removes a
newer one. -/
def NewestWins (k : LsaKey) (s : List Lsa) : Prop :=
  ∀ db : Lsdb, db.held k = none →
    (∀ l : List (Lsa × Nat), (∀ x, x ∈ l.map (·.1) ↔ x ∈ s) →
      Lsa.Newest s ((db.installAll l).held k)) ∧
    (∀ l : List (Lsa × Nat), (∀ x ∈ l, x.1 ∈ s) → ∀ m, (db.installAll l).held k = some m →
      ∀ x ∈ s, m.Newer x → ∀ now, ((db.installAll l).install x now).1.held k = some m)

variable {k : LsaKey} {s : List Lsa}

theorem signedSeq_le_of_newer {m x : Lsa} (h : m.Newer x) : x.signedSeq ≤ m.signedSeq := by
  rcases h with hseq | ⟨hseq, -⟩ <;> omega

theorem newestWins_of_maxAged (hs : Instances k s) (h : ∀ x ∈ s, x.MaxAged) : NewestWins k s := by
  intro db hnone
  have hrun (l : List (Lsa × Nat)) (hl : ∀ x ∈ l, x.1 ∈ s) : (db.installAll l).held k = none :=
    installAll_maxAged db hnone fun x hx => ⟨(hs x.1 (hl x hx)).1, h x.1 (hl x hx)⟩
  refine ⟨?_, ?_⟩
  · intro l hl
    rw [hrun l fun x hx => (hl x.1).mp (mem_map_of_mem hx)]
    by_cases hempty : s = []
    · exact .inl hempty
    · obtain ⟨m, hm⟩ := Lsa.exists_mostRecent hempty
      exact .inr ⟨m, hm, h m hm.1⟩
  · intro l hl m hm
    rw [hrun l hl] at hm
    cases hm

/-- Without MaxAge instances a run that starts with nothing ends with one of the highest
sequence number. -/
theorem installAll_highest_of_none (db : Lsdb) (hnone : db.held k = none)
    {l : List (Lsa × Nat)} (hl : ∀ x ∈ l, x.1.key = k ∧ x.1.Storable) :
    l = [] ∨ ∃ m, (db.installAll l).held k = some m ∧ Highest (l.map (·.1)) m := by
  cases l with
  | nil => exact .inl rfl
  | cons x l =>
    obtain ⟨rfl, hstorable⟩ := hl x mem_cons_self
    obtain ⟨m, hm, hfrom, hle, hall⟩ := installAll_highest (db.install x.1 x.2).1
      (install_held_none db hstorable hnone x.2) fun z hz => hl z (mem_cons_of_mem _ hz)
    exact .inr ⟨m, hm, mem_cons.mpr hfrom, forall_mem_cons.mpr ⟨hle, forall_mem_map.mpr hall⟩⟩

theorem newestWins_of_settled (hs : Instances k s) (hage : ∀ x ∈ s, ¬ x.MaxAged)
    (hsame : ∀ x y, Highest s x → Highest s y → x.header.lsChecksum = y.header.lsChecksum ∧
      x.header.lsAge.toNat ≤ y.header.lsAge.toNat + Lsa.maxAgeDiff) : NewestWins k s := by
  intro db hnone
  have hstorable (x : Lsa) (hx : x ∈ s) : x.key = k ∧ x.Storable :=
    ⟨(hs x hx).1, storable_of_not_maxAged (hage x hx) (hs x hx).2⟩
  refine ⟨?_, ?_⟩
  · intro l hl
    have hmem (x : Lsa × Nat) (hx : x ∈ l) : x.1 ∈ s := (hl x.1).mp (mem_map_of_mem hx)
    rcases installAll_highest_of_none db hnone fun x hx => hstorable x.1 (hmem x hx) with
      rfl | ⟨m, hm, hhigh⟩
    · rw [show (db.installAll []).held k = none from hnone]
      exact .inl (eq_nil_iff_forall_not_mem.mpr fun m hm =>
        absurd ((hl m).mpr hm) not_mem_nil)
    · have hhigh : Highest s m := ⟨(hl m).mp hhigh.1, fun z hz => hhigh.2 z ((hl z).mpr hz)⟩
      rw [hm]
      refine ⟨⟨hhigh.1, ?_⟩, hage m hhigh.1⟩
      intro x hx hnewer
      have hle := hhigh.2 x hx
      have hxhigh : Highest s x :=
        ⟨hx, fun z hz => (hhigh.2 z hz).trans (signedSeq_le_of_newer hnewer)⟩
      obtain ⟨hsum, -⟩ := hsame x m hxhigh hhigh
      obtain ⟨-, hdiff⟩ := hsame m x hhigh hxhigh
      rcases hnewer with hseq | ⟨-, hlt | ⟨-, ⟨haged, -⟩ | ⟨-, -, hyounger⟩⟩⟩
      · omega
      · rw [hsum] at hlt
        exact absurd hlt (UInt16.lt_irrefl _)
      · exact hage x hx haged
      · omega
  · intro l hl m hm x hx hnewer now
    obtain ⟨rfl, hx⟩ := hstorable x hx
    have hle := signedSeq_le_of_newer hnewer
    rw [install_held_some _ hx hm, if_neg (by omega)]

/-- A MaxAge instance beside another lets either win, depending on which comes last. -/
theorem NewestWins.unmixed (h : NewestWins k s) (hs : Instances k s) {x y : Lsa} (hx : x ∈ s)
    (hy : y ∈ s) (hage : x.MaxAged) : y.MaxAged := by
  by_contra hyoung
  obtain ⟨rfl, -⟩ := hs x hx
  obtain ⟨hykey, hyseq⟩ := hs y hy
  let purged : List (Lsa × Nat) := s.map (·, 0) ++ [(x, 0)]
  have hpurged : ((empty.installAll purged).held x.key) = none := by
    rw [installAll_append]
    exact install_held_maxAged _ hage 0
  have hstored : ((empty.installAll (purged ++ [(y, 0)])).held x.key) = some y := by
    rw [installAll_append, ← hykey]
    refine install_held_none _ (storable_of_not_maxAged hyoung hyseq) ?_ 0
    rw [hykey]
    exact hpurged
  have hnone : empty.held x.key = none := by simp [held, get, empty]
  obtain ⟨hends, -⟩ := h empty hnone
  have h₁ := hends purged (by simp [purged]; grind)
  have h₂ := hends (purged ++ [(y, 0)]) (by simp [purged]; grind)
  rw [hpurged] at h₁
  rw [hstored] at h₂
  rcases h₁ with rfl | ⟨m, hm, hmage⟩
  · cases hx
  · exact hyoung ((hm.maxAged_iff h₂.1).mp hmage)

/-- Of the highest sequence number the first to arrive wins, so none of these is newer. -/
theorem NewestWins.not_newer (h : NewestWins k s) (hs : Instances k s)
    (hage : ∀ x ∈ s, ¬ x.MaxAged) {x y : Lsa} (hx : x ∈ s) (hy : Highest s y) : ¬ x.Newer y := by
  obtain ⟨hykey, hyseq⟩ := hs y hy.1
  have hystorable := storable_of_not_maxAged (hage y hy.1) hyseq
  have hnone : empty.held k = none := by simp [held, get, empty]
  have hstored : (empty.installAll ((y, 0) :: s.map (·, 0))).held k = some y := by
    refine installAll_keeps (empty.install y 0).1 ?_ ?_
    · rw [← hykey]
      exact install_held_none empty hystorable (by rw [hykey]; exact hnone) 0
    · intro z hz
      obtain ⟨z, hzs, rfl⟩ := mem_map.mp hz
      exact ⟨(hs z hzs).1, storable_of_not_maxAged (hage z hzs) (hs z hzs).2, hy.2 z hzs⟩
  have hends := (h empty hnone).1 ((y, 0) :: s.map (·, 0)) (by
    intro z
    have hyz : z = y → z ∈ s := fun hzy => hzy ▸ hy.1
    simp only [map_cons, map_map, Function.comp_def, map_id', mem_cons]
    tauto)
  rw [hstored] at hends
  exact hends.1.2 x hx

/-- The database keeps the newest instance of a set exactly where the set is settled. -/
theorem newestWins_iff_settled (k : LsaKey) (s : List Lsa) (hs : Instances k s) :
    NewestWins k s ↔ Settled s := by
  constructor
  · intro h
    by_cases hall : ∀ x ∈ s, x.MaxAged
    · exact .inl hall
    have hage : ∀ x ∈ s, ¬ x.MaxAged := by
      intro x hx haged
      exact hall fun y hy => h.unmixed hs hx hy haged
    refine .inr ⟨hage, ?_⟩
    intro x y hx hy
    have hxy := h.not_newer hs hage hx.1 hy
    have hyx := h.not_newer hs hage hy.1 hx
    have hseq : x.signedSeq = y.signedSeq := le_antisymm (hy.2 x hx.1) (hx.2 y hy.1)
    have hax := hage x hx.1
    have hay := hage y hy.1
    simp only [Lsa.Newer, hseq, hax, hay, UInt16.lt_iff_toNat_lt, ← UInt16.toNat_inj,
      lt_irrefl, not_false_eq_true, false_and, true_and, false_or] at hxy hyx ⊢
    omega
  · rintro (hall | ⟨hage, hsame⟩)
    · exact newestWins_of_maxAged hs hall
    · exact newestWins_of_settled hs hage hsame

/-- An instance of one router LSA. -/
def routerInstance (seq : UInt32) (age sum : UInt16) : Lsa :=
  ⟨⟨age, 0, 1, 1, 1, seq, sum, 20⟩, []⟩

/-- An instance and the refreshed one that follows it. -/
def refreshed : List Lsa := [routerInstance 0x80000001 0 7, routerInstance 0x80000002 5 9]

theorem newestWins_refreshed : NewestWins ⟨1, 1, 1⟩ refreshed := by
  refine (newestWins_iff_settled _ _ ?_).mpr (.inr ⟨by decide, ?_⟩)
  · unfold Instances
    decide
  · intro x y hx hy
    have hlast {z : Lsa} (hz : Highest refreshed z) : z = routerInstance 0x80000002 5 9 := by
      obtain ⟨hmem, hhigh⟩ := hz
      rcases mem_pair.mp hmem with rfl | rfl
      · exact absurd (hhigh (routerInstance 0x80000002 5 9) (by decide)) (by decide)
      · rfl
    rw [hlast hx, hlast hy]
    decide

/-- A MaxAge copy of an older instance purges the newer one, and then even the older one is
accepted. -/
theorem install_stalePurge :
    (routerInstance 0x80000002 0 7).Newer (routerInstance 0x80000001 3600 7) ∧
      (empty.installAll [(routerInstance 0x80000002 0 7, 0),
        (routerInstance 0x80000001 3600 7, 0)]).held ⟨1, 1, 1⟩ = none ∧
      (empty.installAll [(routerInstance 0x80000002 0 7, 0),
        (routerInstance 0x80000001 3600 7, 0), (routerInstance 0x80000001 0 7, 0)]).held
          ⟨1, 1, 1⟩ = some (routerInstance 0x80000001 0 7) ∧
      ¬ NewestWins ⟨1, 1, 1⟩
        [routerInstance 0x80000002 0 7, routerInstance 0x80000001 3600 7] := by
  refine ⟨by decide, by decide +kernel, by decide +kernel, ?_⟩
  intro h
  have hs : Instances ⟨1, 1, 1⟩
      [routerInstance 0x80000002 0 7, routerInstance 0x80000001 3600 7] := by
    unfold Instances
    decide
  exact absurd (h.unmixed hs (x := routerInstance 0x80000001 3600 7)
    (y := routerInstance 0x80000002 0 7) (by decide) (by decide) (by decide)) (by decide)

end Lsdb

end LibRouting.Ospf
