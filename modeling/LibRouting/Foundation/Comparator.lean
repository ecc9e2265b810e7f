/-
  Foundation/Comparator.lean --- comparators, selection and stable sorting.

  A selection procedure that compares candidates pairwise is independent of the
  order in which they arrive exactly as far as its comparator is a total
  preorder on them.  This file states that once, for an arbitrary comparator:

      PreorderOn cmp l   : `cmp` is oriented and transitive on the members of `l`
      RankedBy cmp l f   : it compares the numbers `f` gives to the members of `l`
      minBy_equiv        : then the selected minimum is unique up to `eq`
      sortBy_equiv       : and so is the sorted sequence, position by position

  Where `cmp` is a preorder its members have ranks (`PreorderOn.rankedBy`), and what there is
  to say about the elements is said about natural numbers.

  `sortDedup` is the sort of a set: it depends on the members of the list only.

  `guardedLex` is the lexicographic comparator with one step that applies only
  between members of the same group.  Such a step can break transitivity;
  `guardedLex_preorderOn_iff` says exactly on which candidate lists it does.
-/
import Mathlib.Data.List.Count
import Mathlib.Data.List.Destutter
import Mathlib.Data.List.Sort
import Mathlib.Order.Compare

set_option autoImplicit false

namespace LibRouting.Foundation

open List Option
open Std (OrientedCmp TransCmp)

variable {α : Type} {cmp : α → α → Ordering} {l l' : List α} {rank : α → Nat}

/-- `cmp` is a total preorder on the members of `l`. -/
structure PreorderOn (cmp : α → α → Ordering) (l : List α) : Prop where
  oriented : ∀ a ∈ l, ∀ b ∈ l, cmp a b = (cmp b a).swap
  transitive : ∀ a ∈ l, ∀ b ∈ l, ∀ c ∈ l,
    (cmp a b).isLE → (cmp b c).isLE → (cmp a c).isLE

/-- `Iterator::min_by`: the first of the minimal elements. -/
def minBy (cmp : α → α → Ordering) : List α → Option α
  | [] => none
  | a :: l => some (l.foldl (fun best x => if cmp best x = .gt then x else best) a)

/-- `slice::sort_by`: the stable sort.  Where `cmp` is no total order the source's sort may
give another sequence, and may panic; this one is insertion sort. -/
def sortBy (cmp : α → α → Ordering) (l : List α) : List α :=
  l.insertionSort fun a b => (cmp a b).isLE

/-! ## Ranks -/

/-- `cmp` compares the members of `l` by their ranks. -/
def RankedBy (cmp : α → α → Ordering) (l : List α) (rank : α → Nat) : Prop :=
  ∀ a ∈ l, ∀ b ∈ l, cmp a b = compare (rank a) (rank b)

namespace RankedBy

variable (h : RankedBy cmp l rank)
include h

theorem mono (hsub : l' ⊆ l) : RankedBy cmp l' rank :=
  fun a ha b hb => h a (hsub ha) b (hsub hb)

variable {a b : α} (ha : a ∈ l) (hb : b ∈ l)
include ha hb

theorem isLE_iff : (cmp a b).isLE ↔ rank a ≤ rank b := by
  rw [h a ha b hb]
  exact Nat.isLE_compare

theorem eq_iff : cmp a b = .eq ↔ rank a = rank b := by
  rw [h a ha b hb]
  exact Nat.compare_eq_eq

end RankedBy

namespace PreorderOn

theorem lt_of_lt_of_le (h : PreorderOn cmp l) {a b c : α} (ha : a ∈ l) (hb : b ∈ l) (hc : c ∈ l)
    (hab : cmp a b = .lt) (hbc : (cmp b c).isLE) : cmp a c = .lt := by
  have hac := h.transitive a ha b hb c hc (by simp [hab]) hbc
  have hca := h.oriented a ha c hc
  have hba := h.oriented a ha b hb
  -- `cmp a c = eq` would give `b ≤ c ≤ a`, against `a < b`
  have hcontra := h.transitive b hb c hc a ha hbc
  cases h1 : cmp c a <;> cases h2 : cmp b a <;> simp_all

theorem countP_lt_of_imp {p q : α → Bool} (himp : ∀ x ∈ l, p x → q x) {a : α} (ha : a ∈ l)
    (hq : q a) (hp : ¬ p a) : l.countP p < l.countP q :=
  calc l.countP p = (l.filter q).countP p := by
        rw [countP_filter]
        refine countP_congr fun x hx => ?_
        simpa using himp x hx
    _ < (l.filter q).length :=
      countP_lt_length_iff.mpr ⟨a, mem_filter.mpr ⟨ha, hq⟩, by simpa using hp⟩
    _ = l.countP q := countP_eq_length_filter.symm

/-- The members of a total preorder are ranked by how many come strictly before them. -/
theorem rankedBy (h : PreorderOn cmp l) :
    RankedBy cmp l fun x => l.countP fun y => cmp y x = .lt := by
  have hlt : ∀ {a b : α}, a ∈ l → b ∈ l → cmp a b = .lt →
      l.countP (fun y => cmp y a = .lt) < l.countP fun y => cmp y b = .lt := by
    intro a b ha hb hab
    have hself := h.oriented a ha a ha
    refine countP_lt_of_imp (fun x hx hxa => ?_) ha (by simp [hab]) ?_
    · simp only [decide_eq_true_eq] at hxa ⊢
      exact h.lt_of_lt_of_le hx ha hb hxa (by simp [hab])
    · cases hc : cmp a a <;> simp_all
  intro a ha b hb
  have hba := h.oriented b hb a ha
  cases hc : cmp a b with
  | lt => exact (Nat.compare_eq_lt.mpr (hlt ha hb hc)).symm
  | gt => exact (Nat.compare_eq_gt.mpr (hlt hb ha (by simpa [hc] using hba))).symm
  | eq =>
    refine (Nat.compare_eq_eq.mpr (countP_congr fun x hx => ?_)).symm
    simp only [decide_eq_true_eq]
    exact ⟨fun hxa => h.lt_of_lt_of_le hx ha hb hxa (by simp [hc]),
      fun hxb => h.lt_of_lt_of_le hx hb ha hxb (by simp [hba, hc])⟩

end PreorderOn

/-! ## Selection -/

/-- A member that precedes every other one. -/
def Minimal (cmp : α → α → Ordering) (l : List α) (b : α) : Prop :=
  b ∈ l ∧ ∀ x ∈ l, (cmp b x).isLE

section Select

variable {m : α}

theorem minBy_mem (hm : minBy cmp l = some m) : m ∈ l := by
  cases l with
  | nil => cases hm
  | cons a l =>
    obtain rfl := some.inj hm
    refine foldlRecOn (motive := (· ∈ a :: l)) l _ (.head _) fun best hbest x hx => ?_
    split
    · exact .tail _ hx
    · exact hbest

theorem minBy_isSome (hl : l ≠ []) : ∃ m, minBy cmp l = some m := by
  cases l with
  | nil => exact absurd rfl hl
  | cons a l => exact ⟨_, rfl⟩

theorem minBy_concat (l : List α) (x : α) :
    minBy cmp (l ++ [x]) =
      some ((minBy cmp l).elim x fun best => if cmp best x = .gt then x else best) := by
  cases l with
  | nil => rfl
  | cons a l => simp [minBy, foldl_append]

/-- Candidates that lose against each of the others do not matter. -/
theorem minBy_filter {p : α → Bool} (hp : ∀ a ∈ l, p a = true → ∀ b ∈ l, p b = false →
      cmp a b = .lt ∧ cmp b a = .gt) (hsome : ∃ a ∈ l, p a = true) :
    minBy cmp (l.filter p) = minBy cmp l := by
  induction l using List.reverseRecOn with
  | nil => simp at hsome
  | append_singleton l x ih =>
    rw [filter_append, minBy_concat]
    by_cases hl : ∃ a ∈ l, p a = true
    · have hrest := ih (fun a ha hpa b hb => hp a (by simp [ha]) hpa b (by simp [hb])) hl
      cases hx : p x with
      | true => rw [filter_cons_of_pos hx, filter_nil, minBy_concat, hrest]
      | false =>
        obtain ⟨a, ha, hpa⟩ := hl
        obtain ⟨m, hm⟩ : ∃ m, minBy cmp (l.filter p) = some m :=
          minBy_isSome (ne_nil_of_mem (mem_filter.mpr ⟨ha, hpa⟩))
        obtain ⟨hml, hpm⟩ := mem_filter.mp (minBy_mem hm)
        have hlt := (hp m (by simp [hml]) hpm x (by simp) hx).1
        rw [filter_cons_of_neg (by simp [hx]), filter_nil, append_nil, ← hrest, hm]
        simp [hlt]
    · have hnone : l.filter p = [] := filter_eq_nil_iff.mpr fun a ha hpa => hl ⟨a, ha, hpa⟩
      have hx : p x = true := by
        obtain ⟨a, ha, hpa⟩ := hsome
        rcases mem_append.mp ha with ha | ha
        · exact absurd ⟨a, ha, hpa⟩ hl
        · exact mem_singleton.mp ha ▸ hpa
      rw [hnone, filter_cons_of_pos hx]
      cases hm : minBy cmp l with
      | none => rfl
      | some m =>
        have hml := minBy_mem hm
        have hpm : p m = false := by simpa using fun hpm => hl ⟨m, hml, hpm⟩
        have hgt := (hp x (by simp) hx m (by simp [hml]) hpm).2
        simp [minBy, hgt]

/-- The first of the minima is selected. -/
theorem minBy_of_first {pre post : List α} (h : RankedBy cmp (pre ++ m :: post) rank)
    (hpre : ∀ x ∈ pre, rank m < rank x) (hpost : ∀ x ∈ post, rank m ≤ rank x) :
    minBy cmp (pre ++ m :: post) = some m := by
  have hgt {a b : α} (ha : a ∈ pre ++ m :: post) (hb : b ∈ pre ++ m :: post) :
      cmp a b = .gt ↔ rank b < rank a := by
    rw [h a ha b hb]
    exact Nat.compare_eq_gt
  have hstay : post.foldl (fun best x => if cmp best x = .gt then x else best) m = m := by
    refine foldlRecOn (motive := (· = m)) post _ rfl fun best hbest x hx => ?_
    subst hbest
    exact if_neg fun hlt => absurd ((hgt (by simp) (by simp [hx])).mp hlt) (hpost x hx).not_gt
  cases pre with
  | nil => exact congrArg some hstay
  | cons a pre =>
    -- whatever was selected from the elements in front gives way
    obtain ⟨c, hc⟩ : ∃ c, minBy cmp (a :: pre) = some c := ⟨_, rfl⟩
    have hmem := minBy_mem hc
    rw [cons_append]
    simp only [minBy, foldl_append, foldl_cons, some.inj hc]
    rw [if_pos ((hgt (mem_append_left _ hmem) (by simp)).mpr (hpre c hmem)), hstay]

theorem minBy_eq_some_iff (h : RankedBy cmp l rank) :
    minBy cmp l = some m ↔ ∃ pre post, l = pre ++ m :: post ∧ (∀ x ∈ pre, rank m < rank x) ∧
      ∀ x ∈ post, rank m ≤ rank x := by
  constructor
  · intro hm
    have hne : (l.map rank) ≠ [] := by
      rintro hnil
      simp [map_eq_nil_iff.mp hnil, minBy] at hm
    obtain ⟨k, hk⟩ := Option.isSome_iff_exists.mp (isSome_min?_of_ne_nil hne)
    obtain ⟨hmem, hle⟩ := min?_eq_some_iff.mp hk
    obtain ⟨a, ha, rfl⟩ := mem_map.mp hmem
    have hmin : ∀ x ∈ l, rank a ≤ rank x := fun x hx => hle _ (mem_map_of_mem hx)
    obtain ⟨b, hb⟩ : ∃ b, l.find? (fun x => rank x ≤ rank a) = some b :=
      Option.isSome_iff_exists.mp (find?_isSome.mpr ⟨a, ha, by simp⟩)
    obtain ⟨hba, pre, post, rfl, hpre⟩ := find?_eq_some_iff_append.mp hb
    simp only [decide_eq_true_eq, Bool.not_eq_true', decide_eq_false_iff_not,
      Nat.not_le] at hba hpre
    have hfirst : ∀ x ∈ pre, rank b < rank x := fun x hx => Nat.lt_of_le_of_lt hba (hpre x hx)
    have hrest : ∀ x ∈ post, rank b ≤ rank x := fun x hx =>
      Nat.le_trans hba (hmin x (by simp [hx]))
    obtain rfl := some.inj (hm.symm.trans (minBy_of_first h hfirst hrest))
    exact ⟨pre, post, rfl, hfirst, hrest⟩
  · rintro ⟨pre, post, rfl, hpre, hpost⟩
    exact minBy_of_first h hpre hpost

theorem minBy_minimal (h : RankedBy cmp l rank) (hm : minBy cmp l = some m) : Minimal cmp l m := by
  have hmem := minBy_mem hm
  refine ⟨hmem, fun x hx => (h.isLE_iff hmem hx).mpr ?_⟩
  obtain ⟨pre, post, rfl, hpre, hpost⟩ := (minBy_eq_some_iff h).mp hm
  rcases mem_append.mp hx with hx | hx
  · exact (hpre x hx).le
  · rcases mem_cons.mp hx with rfl | hx
    · exact le_rfl
    · exact hpost x hx

theorem Minimal.of_perm (hp : l'.Perm l) (h : Minimal cmp l' m) : Minimal cmp l m :=
  ⟨hp.subset h.1, fun x hx => h.2 x (hp.symm.subset hx)⟩

theorem Minimal.rank_eq (h : RankedBy cmp l rank) {b : α} (hm : Minimal cmp l m)
    (hb : Minimal cmp l b) : rank m = rank b :=
  Nat.le_antisymm ((h.isLE_iff hm.1 hb.1).mp (hm.2 b hb.1))
    ((h.isLE_iff hb.1 hm.1).mp (hb.2 m hm.1))

/-- The selected minimum of a reordered candidate list compares equal to the
original one. -/
theorem minBy_equiv (h : RankedBy cmp l rank) (hp : l'.Perm l) :
    Option.Rel (fun a b => cmp a b = .eq) (minBy cmp l') (minBy cmp l) := by
  by_cases hnil : l = []
  · subst hnil
    rw [hp.eq_nil]
    exact .none
  obtain ⟨m, hm⟩ : ∃ m, minBy cmp l = some m := minBy_isSome hnil
  obtain ⟨m', hm'⟩ : ∃ m', minBy cmp l' = some m' :=
    minBy_isSome fun h => hnil (h ▸ hp).symm.eq_nil
  have hmin := minBy_minimal h hm
  have hmin' := (minBy_minimal (h.mono hp.subset) hm').of_perm hp
  rw [hm, hm']
  exact .some ((h.eq_iff hmin'.1 hmin.1).mpr (hmin'.rank_eq h hmin))

end Select

/-! ## Stable sorting -/

theorem sortBy_perm (l : List α) : (sortBy cmp l).Perm l := perm_insertionSort _ l

theorem forall₂_iff_map_eq {β : Type} {f : α → β} {R : α → α → Prop} {s t : List α}
    (hR : ∀ a ∈ s, ∀ b ∈ t, (R a b ↔ f a = f b)) : Forall₂ R s t ↔ s.map f = t.map f := by
  induction s generalizing t with
  | nil => cases t <;> simp
  | cons a s ih =>
    cases t with
    | nil => simp
    | cons b t =>
      rw [forall₂_cons, map_cons, map_cons, List.cons.injEq, hR a (.head _) b (.head _),
        ih fun x hx y hy => hR x (.tail _ hx) y (.tail _ hy)]

/-- The sorted sequence of a reordered candidate list agrees with the original
one up to runs of equal elements. -/
theorem sortBy_equiv (h : RankedBy cmp l rank) (hp : l'.Perm l) :
    Forall₂ (fun a b => cmp a b = .eq) (sortBy cmp l') (sortBy cmp l) := by
  -- the ranks of a sorted list are its sorted ranks
  have hranks {u : List α} (hu : u ⊆ l) :
      (sortBy cmp u).map rank = (u.map rank).insertionSort (· ≤ ·) :=
    map_insertionSort _ _ _ _ fun a ha b hb => h.isLE_iff (hu ha) (hu hb)
  refine (forall₂_iff_map_eq (f := rank) fun a ha b hb =>
    h.eq_iff (hp.subset ((sortBy_perm l').subset ha)) ((sortBy_perm l).subset hb)).mpr ?_
  rw [hranks hp.subset, hranks (Subset.refl l)]
  refine List.Perm.eq_of_pairwise' (pairwise_insertionSort _ _) (pairwise_insertionSort _ _) ?_
  exact ((perm_insertionSort _ _).trans (hp.map rank)).trans (perm_insertionSort _ _).symm

/-! ## Sorted lists without duplicates -/

/-- `sort_unstable` followed by `dedup`, for elements that are equal when they compare
equal: then it does not matter that the sort is not stable. -/
def sortDedup [DecidableEq α] (cmp : α → α → Ordering) (l : List α) : List α :=
  (sortBy cmp l).destutter (· ≠ ·)

section SortDedup

variable [TransCmp cmp]

theorem pairwise_sortBy (l : List α) : (sortBy cmp l).Pairwise fun a b => (cmp a b).isLE := by
  have htotal : Std.Total fun a b : α => ((cmp a b).isLE : Prop) :=
    ⟨fun a b => by
      rw [(OrientedCmp.eq_swap : cmp b a = (cmp a b).swap)]
      cases cmp a b <;> simp⟩
  have htrans : IsTrans α fun a b => (cmp a b).isLE := ⟨fun _ _ _ => TransCmp.isLE_trans⟩
  exact pairwise_insertionSort _ l

variable [Std.LawfulEqCmp cmp]

theorem antisymm_isLE : Std.Antisymm fun a b : α => ((cmp a b).isLE : Prop) :=
  ⟨fun _ _ hab hba => Std.LawfulEqCmp.eq_of_compare (OrientedCmp.isLE_antisymm hab hba)⟩

variable [DecidableEq α]

theorem sortDedup_eq_dedup (l : List α) : sortDedup cmp l = (sortBy cmp l).dedup := by
  have hanti : Std.Antisymm fun a b : α => ((cmp a b).isLE : Prop) := antisymm_isLE
  exact (pairwise_sortBy l).destutter_eq_dedup

theorem mem_sortDedup {x : α} : x ∈ sortDedup cmp l ↔ x ∈ l := by
  rw [sortDedup_eq_dedup, mem_dedup, (sortBy_perm l).mem_iff]

theorem sortDedup_congr (h : ∀ x, x ∈ l ↔ x ∈ l') : sortDedup cmp l = sortDedup cmp l' := by
  have hanti : Std.Antisymm fun a b : α => ((cmp a b).isLE : Prop) := antisymm_isLE
  have hsorted (l : List α) : (sortDedup cmp l).Pairwise fun a b => ((cmp a b).isLE : Prop) :=
    (pairwise_sortBy l).sublist (destutter_sublist _ _)
  have hnodup (l : List α) : (sortDedup cmp l).Nodup := by
    rw [sortDedup_eq_dedup]
    exact nodup_dedup _
  refine List.Perm.eq_of_pairwise' (hsorted l) (hsorted l') ?_
  rw [perm_ext_iff_of_nodup (hnodup l) (hnodup l')]
  intro x
  rw [mem_sortDedup, mem_sortDedup, h]

end SortDedup

/-! ## A step that applies within groups only -/

section Guarded

variable {before within after : α → α → Ordering} {same : α → α → Prop} [DecidableRel same]
  {a b c : α}

/-- Lexicographic comparison by `before`, then by `within` between members of the
same group, then by `after`. -/
def guardedLex (before : α → α → Ordering) (same : α → α → Prop) [DecidableRel same]
    (within after : α → α → Ordering) (a b : α) : Ordering :=
  (before a b).then ((if same a b then within a b else .eq).then (after a b))

/-- `x` beats `y` inside their group, and the outsider `z` ranks between them in
the steps that follow. -/
structure Conflict (before : α → α → Ordering) (same : α → α → Prop)
    (within after : α → α → Ordering) (x y z : α) : Prop where
  before_xy : before x y = .eq
  before_yz : before y z = .eq
  same_xy : same x y
  not_same_xz : ¬ same x z
  within_xy : within x y = .lt
  after_yz : (after y z).isLE
  after_zx : (after z x).isLE

theorem guardedLex_oriented [OrientedCmp before] [OrientedCmp within] [OrientedCmp after]
    (hsymm : ∀ {a b}, same a b → same b a) (a b : α) :
    guardedLex before same within after a b = (guardedLex before same within after b a).swap := by
  have hiff : same a b ↔ same b a := ⟨hsymm, hsymm⟩
  have hbefore : before a b = (before b a).swap := OrientedCmp.eq_swap
  have hwithin : within a b = (within b a).swap := OrientedCmp.eq_swap
  have hafter : after a b = (after b a).swap := OrientedCmp.eq_swap
  simp only [guardedLex, Ordering.swap_then, hbefore, hwithin, hafter, hiff]
  split <;> simp

/-- A transitive first step leaves only the triples it ties to the next ones. -/
theorem isLE_then_trans [TransCmp cmp] {ab bc ac : Ordering} (hab : ((cmp a b).then ab).isLE)
    (hbc : ((cmp b c).then bc).isLE)
    (hnext : cmp a b = .eq → cmp b c = .eq → ab.isLE → bc.isLE → ac.isLE) :
    ((cmp a c).then ac).isLE := by
  rw [Ordering.isLE_then_iff_or] at hab hbc ⊢
  rcases hab with hab | ⟨hab, hab'⟩
  · have hle : (cmp b c).isLE := by rcases hbc with h | ⟨h, -⟩ <;> simp [h]
    exact .inl (TransCmp.lt_of_lt_of_isLE hab hle)
  · rcases hbc with hbc | ⟨hbc, hbc'⟩
    · exact .inl (TransCmp.lt_of_eq_of_lt hab hbc)
    · exact .inr ⟨TransCmp.eq_trans hab hbc, hnext hab hbc hab' hbc'⟩

theorem isLE_swap_of_not_isLE [OrientedCmp cmp] (h : ¬ (cmp a b).isLE) : cmp b a = .lt := by
  rw [← OrientedCmp.gt_iff_lt]
  simpa using h

/-- Without a conflict the guarded comparator is transitive at `a`, `b`, `c`. -/
theorem guardedLex_isLE_trans [TransCmp before] [TransCmp within] [TransCmp after]
    (hequiv : Equivalence same) {l : List α}
    (hno : ∀ x ∈ l, ∀ y ∈ l, ∀ z ∈ l, ¬ Conflict before same within after x y z) (ha : a ∈ l)
    (hb : b ∈ l) (hc : c ∈ l) (hab : (guardedLex before same within after a b).isLE)
    (hbc : (guardedLex before same within after b c).isLE) :
    (guardedLex before same within after a c).isLE := by
  refine isLE_then_trans hab hbc fun hPab hPbc hab hbc => ?_
  have hPba := OrientedCmp.eq_comm.mp hPab
  have hPcb := OrientedCmp.eq_comm.mp hPbc
  have hPca := TransCmp.eq_trans hPcb hPba
  by_contra hac
  -- which of the three pairs lie in one group
  by_cases sab : same a b
  · by_cases sbc : same b c
    · have sac : same a c := hequiv.trans sab sbc
      rw [if_pos sab] at hab
      rw [if_pos sbc] at hbc
      rw [if_pos sac] at hac
      exact hac (isLE_then_trans hab hbc fun _ _ h₁ h₂ => TransCmp.isLE_trans h₁ h₂)
    · have sac : ¬ same a c := fun h => sbc (hequiv.trans (hequiv.symm sab) h)
      rw [if_pos sab, Ordering.isLE_then_iff_or] at hab
      rw [if_neg sbc, Ordering.eq_then] at hbc
      rw [if_neg sac, Ordering.eq_then] at hac
      rcases hab with hlt | ⟨-, hab⟩
      · refine hno a ha b hb c hc ⟨hPab, hPbc, sab, sac, hlt, hbc, ?_⟩
        simp [isLE_swap_of_not_isLE hac]
      · exact hac (TransCmp.isLE_trans hab hbc)
  · by_cases sbc : same b c
    · have sac : ¬ same a c := fun h => sab (hequiv.trans h (hequiv.symm sbc))
      rw [if_neg sab, Ordering.eq_then] at hab
      rw [if_pos sbc, Ordering.isLE_then_iff_or] at hbc
      rw [if_neg sac, Ordering.eq_then] at hac
      rcases hbc with hlt | ⟨-, hbc⟩
      · refine hno b hb c hc a ha ⟨hPbc, hPca, sbc, fun h => sab (hequiv.symm h), hlt, ?_, hab⟩
        simp [isLE_swap_of_not_isLE hac]
      · exact hac (TransCmp.isLE_trans hab hbc)
    · rw [if_neg sab, Ordering.eq_then] at hab
      rw [if_neg sbc, Ordering.eq_then] at hbc
      have hac' := TransCmp.isLE_trans hab hbc
      by_cases sac : same a c
      · rw [if_pos sac, Ordering.isLE_then_iff_and] at hac
        have hwithin : within c a = .lt := by
          refine isLE_swap_of_not_isLE fun h => hac ⟨h, .inr hac'⟩
        exact hno c hc a ha b hb ⟨hPca, hPab, hequiv.symm sac,
          fun h => sbc (hequiv.symm h), hwithin, hab, hbc⟩
      · rw [if_neg sac, Ordering.eq_then] at hac
        exact hac hac'

/-- The guarded comparator is a total preorder on a candidate list exactly when
the list has no conflict. -/
theorem guardedLex_preorderOn_iff [TransCmp before] [TransCmp within]
    [TransCmp after] (hequiv : Equivalence same) (l : List α) :
    PreorderOn (guardedLex before same within after) l ↔
      ∀ x ∈ l, ∀ y ∈ l, ∀ z ∈ l, ¬ Conflict before same within after x y z := by
  constructor
  · intro h x hx y hy z hz hcon
    have hzx : before z x = .eq := OrientedCmp.eq_comm.mp
      (TransCmp.eq_trans hcon.before_xy hcon.before_yz)
    have syz : ¬ same y z := fun h => hcon.not_same_xz (hequiv.trans hcon.same_xy h)
    have szx : ¬ same z x := fun h => hcon.not_same_xz (hequiv.symm h)
    have hyz : (guardedLex before same within after y z).isLE := by
      simpa [guardedLex, hcon.before_yz, syz] using hcon.after_yz
    have hzx' : (guardedLex before same within after z x).isLE := by
      simpa [guardedLex, hzx, szx] using hcon.after_zx
    -- transitivity puts `y` before `x`, but `x` beats `y` within their group
    have hyx := h.transitive y hy z hz x hx hyz hzx'
    have hxy : guardedLex before same within after x y = .lt := by
      simp [guardedLex, hcon.before_xy, hcon.same_xy, hcon.within_xy]
    rw [h.oriented y hy x hx, hxy] at hyx
    simp at hyx
  · intro hno
    exact ⟨fun a _ b _ => guardedLex_oriented hequiv.symm a b,
      fun a ha b hb c hc => guardedLex_isLE_trans hequiv hno ha hb hc⟩

end Guarded

end LibRouting.Foundation
