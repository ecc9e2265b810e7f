/-
  Foundation/Ties.lean --- the minimum of a list together with those that tie with it,
  at most `m` of them in the order of the list.

  Cutting the list off at `m` makes the choice depend on the order of arrival.
  `choice_perm_iff` says for which lists it does not: either every minimum ties with
  the same candidates and there is room for all of them, or nothing but minima ties
  with a minimum.
-/
import LibRouting.Foundation.Comparator
import Mathlib.Data.List.Perm.Basic

set_option autoImplicit false

namespace LibRouting.Foundation

open List

variable {α : Type} {cmp : α → α → Ordering} {rank : α → Nat} {l l' : List α}

/-- The same list up to order and members that compare equal. -/
def SameUpTo (cmp : α → α → Ordering) (s t : List α) : Prop :=
  ∃ s', s'.Perm s ∧ Forall₂ (fun a b => cmp a b = .eq) s' t

/-- Among ranked members two lists are the same when they have the same ranks. -/
theorem sameUpTo_iff {s t : List α} (h : RankedBy cmp l rank) (hs : s ⊆ l) (ht : t ⊆ l) :
    SameUpTo cmp s t ↔ (s.map rank).Perm (t.map rank) := by
  have hmatch {s' : List α} (hs' : s'.Perm s) :
      Forall₂ (fun a b => cmp a b = .eq) s' t ↔ s'.map rank = t.map rank :=
    forall₂_iff_map_eq fun a ha b hb => h.eq_iff (hs (hs'.subset ha)) (ht hb)
  constructor
  · rintro ⟨s', hperm, hall⟩
    rw [← (hmatch hperm).mp hall]
    exact (hperm.map rank).symm
  · intro hperm
    obtain ⟨s', hs', hranks⟩ : Relation.Comp List.Perm (Forall₂ fun a n => rank a = n) s
        (t.map rank) := by
      rw [← forall₂_comp_perm_eq_perm_comp_forall₂]
      exact ⟨s.map rank, forall₂_map_right_iff.mpr (forall₂_same.mpr fun _ _ => rfl), hperm⟩
    refine ⟨s', hs'.symm, (hmatch hs'.symm).mpr ?_⟩
    rwa [← forall₂_eq_eq_eq, forall₂_map_left_iff]

/-! ## Ties with the minimum -/

section Choice

variable (cmp) (ties : α → α → Bool) (m : Nat) {a b : α}

/-- The candidates that tie with `b`. -/
def tiesOf (l : List α) (b : α) : List α := l.filter fun r => ties r b

/-- Some choice of `m` ties is the same for every minimum and every order. -/
def Stable (l : List α) : Prop :=
  (∀ a b, Minimal cmp l a → Minimal cmp l b →
    (tiesOf ties l b).length ≤ m ∧ SameUpTo cmp (tiesOf ties l b) (tiesOf ties l a)) ∨
  (∀ a b, Minimal cmp l a → Minimal cmp l b →
    (∀ r ∈ tiesOf ties l b, cmp r b = .eq) ∧
      min m (tiesOf ties l b).length = min m (tiesOf ties l a).length)

variable {cmp ties m}

theorem tiesOf_perm (hp : l'.Perm l) (b : α) : (tiesOf ties l' b).Perm (tiesOf ties l b) :=
  hp.filter _

theorem tiesOf_subset (hp : l'.Perm l) : tiesOf ties l' b ⊆ l :=
  fun _ hx => hp.subset (mem_filter.mp hx).1

theorem take_tiesOf_subset (hp : l'.Perm l) : (tiesOf ties l' b).take m ⊆ l :=
  fun _ hx => tiesOf_subset hp (mem_of_mem_take hx)

variable (hr : RankedBy cmp l rank)
include hr

/-- The ranks that are chosen where a minimum ties with minima only. -/
theorem map_take_tiesOf (hp : l'.Perm l) (hb : b ∈ l)
    (hall : ∀ r ∈ tiesOf ties l b, cmp r b = .eq) :
    ((tiesOf ties l' b).take m).map rank = replicate (min m (tiesOf ties l b).length) (rank b) := by
  have hties : (tiesOf ties l' b).Perm (tiesOf ties l b) := tiesOf_perm hp b
  refine eq_replicate_iff.mpr ⟨by rw [length_map, length_take, hties.length_eq], fun n hn => ?_⟩
  obtain ⟨r, hmem, rfl⟩ := mem_map.mp hn
  have hmem := hties.subset (mem_of_mem_take hmem)
  exact (hr.eq_iff (mem_filter.mp hmem).1 hb).mp (hall r hmem)

/-- A list for which every choice is the same. -/
theorem Stable.choice_perm (h : Stable cmp ties m l) (hp : l'.Perm l) (ha : Minimal cmp l a)
    (hb : Minimal cmp l' b) :
    SameUpTo cmp ((tiesOf ties l' b).take m) ((tiesOf ties l a).take m) := by
  have hb' := hb.of_perm hp
  have hties : (tiesOf ties l' b).Perm (tiesOf ties l b) := tiesOf_perm hp b
  refine (sameUpTo_iff hr (take_tiesOf_subset hp) (take_tiesOf_subset (.refl l))).mpr ?_
  rcases h with h | h
  · obtain ⟨hroom, hsame⟩ := h a b ha hb'
    rw [take_of_length_le (hties.length_eq ▸ hroom), take_of_length_le (h a a ha ha).1]
    exact (hties.map rank).trans
      ((sameUpTo_iff hr (tiesOf_subset (.refl l)) (tiesOf_subset (.refl l))).mp hsame)
  · obtain ⟨hall, hlen⟩ := h a b ha hb'
    rw [map_take_tiesOf hr hp hb'.1 hall, map_take_tiesOf hr (.refl l) ha.1 (h a a ha ha).1, hlen,
      hb'.rank_eq hr ha]

/-- A selected element is among the chosen ones when every choice is the same. -/
theorem Stable.mem_take (h : Stable cmp ties m l) (hm : 0 < m) (hrefl : ∀ b, ties b b = true)
    (hb : minBy cmp l = some b) : b ∈ (tiesOf ties l b).take m := by
  have hmin := minBy_minimal hr hb
  rcases h with h | h
  · rw [take_of_length_le (h b b hmin hmin).1]
    exact mem_filter.mpr ⟨hmin.1, hrefl b⟩
  -- all ties are minima, and the selected one is the first of them
  obtain ⟨pre, post, rfl, hfront, -⟩ := (minBy_eq_some_iff hr).mp hb
  have hnone : pre.filter (fun r => ties r b) = [] := by
    refine filter_eq_nil_iff.mpr fun x hx htie => ?_
    have hxl : x ∈ pre ++ b :: post := by simp [hx]
    have heq := (hr.eq_iff hxl hmin.1).mp ((h b b hmin hmin).1 x (mem_filter.mpr ⟨hxl, htie⟩))
    exact absurd (hfront x hx) (by omega)
  obtain ⟨k, rfl⟩ : ∃ k, m = k + 1 := ⟨m - 1, by omega⟩
  rw [tiesOf, filter_append, hnone, nil_append, filter_cons_of_pos (by simpa using hrefl b),
    take_succ_cons]
  exact .head _

/-- Every order of the ties of `b` that selects `b` is that of some order of the list. -/
theorem exists_order (hb : Minimal cmp l b) (pre post : List α)
    (hu : (pre ++ b :: post).Perm (tiesOf ties l b)) (hpre : ∀ x ∈ pre, rank b < rank x) :
    ∃ l', l'.Perm l ∧ minBy cmp l' = some b ∧ tiesOf ties l' b = pre ++ b :: post := by
  set rest := l.filter fun r => !ties r b with hrest
  have hperm : ((pre ++ b :: post) ++ rest).Perm l :=
    (hu.append_right rest).trans (filter_append_perm _ l)
  rw [append_assoc, cons_append] at hperm
  have hself : (pre ++ b :: post).filter (fun r => ties r b) = pre ++ b :: post :=
    filter_eq_self.mpr fun x hx => (mem_filter.mp (hu.subset hx)).2
  have hnone : rest.filter (fun r => ties r b) = [] := filter_eq_nil_iff.mpr (by simp [hrest])
  refine ⟨_, hperm, minBy_of_first (hr.mono hperm.subset) hpre fun x hx => ?_, ?_⟩
  · have hxl : x ∈ l := hperm.subset (mem_append_right _ (.tail _ hx))
    exact (hr.isLE_iff hb.1 hxl).mp (hb.2 x hxl)
  · rw [tiesOf, ← cons_append, ← append_assoc, filter_append, hself, hnone, append_nil]

omit hr

/-- What a choice of ranks that is the same in every order says about one minimum: it chooses
as many as there is room for, all its ties if there is room, and otherwise `b` ties with its
equals only. -/
structure Settled (rank : α → Nat) (ties : α → α → Bool) (m : Nat) (l : List α) (chosen : List Nat)
    (b : α) : Prop where
  length : min m (tiesOf ties l b).length = chosen.length
  room : (tiesOf ties l b).length ≤ m → ((tiesOf ties l b).map rank).Perm chosen
  full : m < (tiesOf ties l b).length →
    (∀ r ∈ tiesOf ties l b, rank r = rank b) ∧ ∀ n ∈ chosen, n = rank b

theorem settled_of_choice_perm (hr : RankedBy cmp l rank) (hrefl : ∀ b, ties b b = true)
    (hm : 0 < m) {chosen : List Nat}
    (hall : ∀ l', l'.Perm l → ∀ b, minBy cmp l' = some b →
      (((tiesOf ties l' b).take m).map rank).Perm chosen)
    (hb : Minimal cmp l b) : Settled rank ties m l chosen b := by
  -- two orders: the equals of `b` in front of its other ties, and behind them
  set isEq : α → Bool := fun x => rank x = rank b with hisEq
  set other := (tiesOf ties l b).filter fun x => !isEq x with hother
  obtain ⟨s, t, hst⟩ : ∃ s t, (tiesOf ties l b).filter isEq = s ++ b :: t :=
    append_of_mem (mem_filter.mpr ⟨mem_filter.mpr ⟨hb.1, hrefl b⟩, by simp [hisEq]⟩)
  have hequal : (b :: (s ++ t)).Perm ((tiesOf ties l b).filter isEq) := hst ▸ perm_middle.symm
  have hperm : ((b :: (s ++ t)) ++ other).Perm (tiesOf ties l b) :=
    (hequal.append_right other).trans (filter_append_perm isEq _)
  have hranks : ∀ x ∈ b :: (s ++ t), rank x = rank b := fun x hx => by
    simpa [hisEq] using (mem_filter.mp (hequal.subset hx)).2
  have habove : ∀ x ∈ other, rank b < rank x := by
    intro x hx
    obtain ⟨htie, hne⟩ := mem_filter.mp hx
    have hxl := (mem_filter.mp htie).1
    have hle := (hr.isLE_iff hb.1 hxl).mp (hb.2 x hxl)
    have : rank x ≠ rank b := by simpa [hisEq] using hne
    omega
  obtain ⟨l₁, hp₁, hmin₁, hties₁⟩ := exists_order hr hb [] ((s ++ t) ++ other) hperm (by simp)
  obtain ⟨l₂, hp₂, hmin₂, hties₂⟩ :=
    exists_order hr hb other (s ++ t) (perm_append_comm.trans hperm) habove
  have h₁ := hall l₁ hp₁ b hmin₁
  have h₂ := hall l₂ hp₂ b hmin₂
  have hmap : (b :: (s ++ t)).map rank = replicate (b :: (s ++ t)).length (rank b) :=
    eq_replicate_iff.mpr ⟨length_map .., forall_mem_map.mpr hranks⟩
  have hnot : ∀ k, (other.map rank |>.take k).count (rank b) = 0 := fun k =>
    count_eq_zero.mpr fun hmem => by
      obtain ⟨x, hx, heq⟩ := mem_map.mp (mem_of_mem_take hmem)
      exact absurd (habove x hx) (by omega)
  rw [hties₁, nil_append, ← cons_append] at h₁
  have hchosen := h₁
  rw [map_take, map_append, hmap, take_append] at h₁
  rw [hties₂, map_take, map_append, hmap, take_append] at h₂
  -- both orders choose as many equals of `b`
  have hcount := (h₁.trans h₂.symm).count_eq (rank b)
  simp only [count_append, take_replicate, count_replicate_self, hnot, length_replicate,
    length_map] at hcount
  have hlen := hperm.length_eq
  rw [length_append] at hlen
  have hpos : 0 < (b :: (s ++ t)).length := Nat.zero_lt_succ _
  refine ⟨?_, fun hroom => ?_, fun hfull => ?_⟩
  · rw [← hchosen.length_eq, length_map, length_take, hperm.length_eq]
  · rw [take_of_length_le (hperm.length_eq ▸ hroom)] at hchosen
    exact (hperm.map rank).symm.trans hchosen
  · have hnone : other = [] := by
      rw [← length_eq_zero_iff]
      omega
    rw [hnone, append_nil] at hperm hchosen
    refine ⟨fun r hmem => hranks r (hperm.symm.subset hmem), fun n hn => ?_⟩
    obtain ⟨x, hx, rfl⟩ := mem_map.mp (hchosen.symm.subset hn)
    exact hranks x (mem_of_mem_take hx)

/-- The choice of a list is the same in every order exactly when the list is stable. -/
theorem choice_perm_iff (hr : RankedBy cmp l rank) (hrefl : ∀ b, ties b b = true) (hm : 0 < m)
    (ha : minBy cmp l = some a) :
    (∀ l', l'.Perm l → ∀ b, minBy cmp l' = some b →
      SameUpTo cmp ((tiesOf ties l' b).take m) ((tiesOf ties l a).take m)) ↔
    Stable cmp ties m l := by
  refine ⟨fun hall => ?_, fun hstable l' hp b hb =>
    hstable.choice_perm hr hp (minBy_minimal hr ha) (minBy_minimal (hr.mono hp.subset) hb)⟩
  have hsettled {b : α} (hb : Minimal cmp l b) :
      Settled rank ties m l (((tiesOf ties l a).take m).map rank) b :=
    settled_of_choice_perm hr hrefl hm (fun l' hp b hb =>
      (sameUpTo_iff hr (take_tiesOf_subset hp) (take_tiesOf_subset (.refl l))).mp
        (hall l' hp b hb)) hb
  by_cases hroom : ∀ b, Minimal cmp l b → (tiesOf ties l b).length ≤ m
  · refine .inl fun c b hc hb => ⟨hroom b hb, ?_⟩
    refine (sameUpTo_iff hr (tiesOf_subset (.refl l)) (tiesOf_subset (.refl l))).mpr ?_
    exact ((hsettled hb).room (hroom b hb)).trans ((hsettled hc).room (hroom c hc)).symm
  · push Not at hroom
    obtain ⟨c, hc, hfull⟩ := hroom
    obtain ⟨-, hchosen⟩ := (hsettled hc).full hfull
    refine .inr fun d b hd hb => ⟨fun r hmem => ?_, ?_⟩
    · refine (hr.eq_iff (tiesOf_subset (.refl l) hmem) hb.1).mpr ?_
      rcases Nat.lt_or_ge m (tiesOf ties l b).length with hlong | hshort
      · exact ((hsettled hb).full hlong).1 r hmem
      · rw [hchosen _ (((hsettled hb).room hshort).subset (mem_map_of_mem hmem)), hc.rank_eq hr hb]
    · rw [(hsettled hb).length, (hsettled hd).length]

end Choice

end LibRouting.Foundation
