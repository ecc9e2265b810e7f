/-
  Bgp/RoaStore.lean --- the live ROA database (`lr-bgp/src/roa_store.rs`).

  The store merges two provenance layers, the configured entries and those learned over
  RTR, into one published table.  `RoaLedger` says what the layers are for: it keeps the
  configured entries and the current records of every cache apart.  The store follows the
  ledger as long as no cache takes away what another cache still holds, because all
  caches share its one RTR layer.
-/
import LibRouting.Bgp.RoaTable

set_option autoImplicit false

namespace LibRouting.Bgp.Roa

open Core Bgp.Rtr List
open Std (ExtTreeSet)

/-! ## The store -/

/-- `RoaStoreInner`.  The layers are hash sets in the code; the order in which they are
iterated over does not reach the published table. -/
structure RoaStore where
  staticEntries : RoaSet
  rtrEntries : RoaSet
  snapshot : RoaTable

namespace RoaStore

/-- `new`. -/
def new : RoaStore := ⟨∅, ∅, ⟨[], .new⟩⟩

section

variable (s : RoaStore)

/-- `rebuild`.  `none` is a panic of `from_entries`. -/
def rebuild : Option RoaStore :=
  (RoaTable.fromEntries (s.staticEntries.toList ++ s.rtrEntries.toList)).map
    fun table => { s with snapshot := table }

/-- `replace_static`. -/
def replaceStatic (entries : List RoaEntry) : Option RoaStore :=
  rebuild { s with staticEntries := .ofList entries compare }

/-- `add_static`, without the returned flag. -/
def addStatic (entry : RoaEntry) : Option RoaStore :=
  if s.staticEntries.contains entry then some s
  else rebuild { s with staticEntries := s.staticEntries.insert entry }

/-- `remove_static`, without the returned flag. -/
def removeStatic (entry : RoaEntry) : Option RoaStore :=
  if s.staticEntries.contains entry then
    rebuild { s with staticEntries := s.staticEntries.erase entry }
  else some s

/-- `apply_rtr_deltas`. -/
def applyRtrDeltas (deltas : List RoaDelta) : Option RoaStore :=
  if deltas.isEmpty then some s
  else rebuild { s with rtrEntries := deltas.foldl RoaDelta.apply s.rtrEntries }

/-- `clear_rtr`. -/
def clearRtr : Option RoaStore :=
  if s.rtrEntries.isEmpty then some s else rebuild { s with rtrEntries := ∅ }

end

end RoaStore

/-! ## What the layers are for -/

/-- What can happen to the store: changes of the configuration, and for each cache a
delta batch, a full set of records, and the expiry of its data. -/
inductive RoaEvent (γ : Type) where
  | replaceStatic (entries : List RoaEntry)
  | addStatic (entry : RoaEntry)
  | removeStatic (entry : RoaEntry)
  | deltas (cache : γ) (deltas : List RoaDelta)
  | snapshot (cache : γ) (records : RoaSet)
  | expire (cache : γ)

/-- The configured entries, and the current records of each cache. -/
structure RoaLedger (γ : Type) where
  configured : RoaSet
  held : γ → RoaSet

section

variable {γ : Type} [DecidableEq γ]

namespace RoaLedger

/-- No record. -/
def empty : RoaLedger γ := ⟨∅, fun _ => ∅⟩

/-- What an event means. -/
def record (L : RoaLedger γ) : RoaEvent γ → RoaLedger γ
  | .replaceStatic entries => { L with configured := .ofList entries compare }
  | .addStatic entry => { L with configured := L.configured.insert entry }
  | .removeStatic entry => { L with configured := L.configured.erase entry }
  | .deltas c ds => { L with held := Function.update L.held c (ds.foldl RoaDelta.apply (L.held c)) }
  | .snapshot c records => { L with held := Function.update L.held c records }
  | .expire c => { L with held := Function.update L.held c ∅ }

/-- An entry that some layer holds. -/
def Holds (L : RoaLedger γ) (entry : RoaEntry) : Prop :=
  entry ∈ L.configured ∨ ∃ c, entry ∈ L.held c

/-- No cache other than `c` holds the entry. -/
def OnlyFrom (L : RoaLedger γ) (c : γ) (entry : RoaEntry) : Prop :=
  ∀ c', c' ≠ c → entry ∉ L.held c'

/-- The event takes nothing away that another cache holds.  The expiry of one cache clears
the layer, so it must be the only one with data. -/
def Orderly (L : RoaLedger γ) : RoaEvent γ → Prop
  | .deltas c ds => ∀ d ∈ ds, d.announce = false → L.OnlyFrom c d.entry
  | .snapshot c records => ∀ entry ∈ L.held c, entry ∉ records → L.OnlyFrom c entry
  | .expire c => ∀ entry, L.OnlyFrom c entry
  | _ => True

end RoaLedger
variable {s : RoaStore} {L : RoaLedger γ} {ds : List RoaDelta} {evs : List (RoaEvent γ)}

/-- What the daemon does with an event.  A full set of records reaches the store as its
difference from the records the client had. -/
def RoaStore.handle (s : RoaStore) (L : RoaLedger γ) : RoaEvent γ → Option RoaStore
  | .replaceStatic entries => s.replaceStatic entries
  | .addStatic entry => s.addStatic entry
  | .removeStatic entry => s.removeStatic entry
  | .deltas _ ds => s.applyRtrDeltas ds
  | .snapshot c records => s.applyRtrDeltas (diffRecords (L.held c) records)
  | .expire _ => s.clearRtr

/-- The store and the ledger after a sequence of events. -/
def runEvents : RoaStore → RoaLedger γ → List (RoaEvent γ) → Option (RoaStore × RoaLedger γ)
  | s, L, [] => some (s, L)
  | s, L, ev :: evs => (s.handle L ev).bind fun s' => runEvents s' (L.record ev) evs

/-- Every event of the sequence is orderly when it happens. -/
def OrderlyRun : RoaLedger γ → List (RoaEvent γ) → Prop
  | _, [] => True
  | L, ev :: evs => L.Orderly ev ∧ OrderlyRun (L.record ev) evs

/-! ## One event -/

/-- The store shows what the ledger holds. -/
structure Follows (s : RoaStore) (L : RoaLedger γ) : Prop where
  static_eq : s.staticEntries = L.configured
  mem_rtr : ∀ entry, entry ∈ s.rtrEntries ↔ ∃ c, entry ∈ L.held c
  published : RoaTable.fromEntries (s.staticEntries.toList ++ s.rtrEntries.toList) =
    some s.snapshot

omit [DecidableEq γ] in
theorem follows_rebuild (hstatic : s.staticEntries = L.configured)
    (hrtr : ∀ entry, entry ∈ s.rtrEntries ↔ ∃ c, entry ∈ L.held c) :
    ∃ s', s.rebuild = some s' ∧ Follows s' L := by
  obtain ⟨table, htable, -⟩ :=
    RoaTable.fromEntries_spec (s.staticEntries.toList ++ s.rtrEntries.toList)
  refine ⟨{ s with snapshot := table }, ?_, hstatic, hrtr, htable⟩
  rw [RoaStore.rebuild, htable, Option.map_some]

/-- The records of one cache against those of the others. -/
theorem exists_mem_update (held : γ → RoaSet) (c : γ) (records : RoaSet) (entry : RoaEntry) :
    (∃ c', entry ∈ Function.update held c records c') ↔
      entry ∈ records ∨ ∃ c', c' ≠ c ∧ entry ∈ held c' := by
  constructor
  · rintro ⟨c', h⟩
    by_cases hc : c' = c
    · subst hc
      rw [Function.update_self] at h
      exact .inl h
    · rw [Function.update_of_ne hc] at h
      exact .inr ⟨c', hc, h⟩
  · rintro (h | ⟨c', hc, h⟩)
    · exact ⟨c, by rwa [Function.update_self]⟩
    · exact ⟨c', by rwa [Function.update_of_ne hc]⟩

/-- A delta batch acts on the union as on one member, when it withdraws nothing that is
also in the rest. -/
theorem mem_foldl_apply_union {rest : RoaEntry → Prop} {whole part : RoaSet}
    (hunion : ∀ entry, entry ∈ whole ↔ entry ∈ part ∨ rest entry)
    (hrest : ∀ d ∈ ds, d.announce = false → ¬ rest d.entry) (entry : RoaEntry) :
    entry ∈ ds.foldl RoaDelta.apply whole ↔ entry ∈ ds.foldl RoaDelta.apply part ∨ rest entry := by
  induction ds generalizing whole part with
  | nil => exact hunion entry
  | cons d ds ih =>
    rw [foldl_cons, foldl_cons]
    refine ih (fun e => ?_) fun d' hd' => hrest d' (mem_cons_of_mem d hd')
    cases hann : d.announce with
    | true =>
      simp only [RoaDelta.apply, hann, if_true, ExtTreeSet.mem_insert, hunion, or_assoc]
    | false =>
      have hnot := hrest d mem_cons_self hann
      simp only [RoaDelta.apply, hann, Bool.false_eq_true, if_false, ExtTreeSet.mem_erase,
        hunion]
      constructor
      · rintro ⟨hne, h | h⟩
        · exact .inl ⟨hne, h⟩
        · exact .inr h
      · rintro (⟨hne, h⟩ | h)
        · exact ⟨hne, .inl h⟩
        · refine ⟨fun heq => hnot ?_, .inr h⟩
          rwa [Std.LawfulEqOrd.eq_of_compare heq]

/-- A full set of records withdraws what it no longer lists. -/
theorem withdrawn_of_mem_diffRecords {old new : RoaSet} {d : RoaDelta}
    (hd : d ∈ diffRecords old new) (hann : d.announce = false) : d.entry ∈ old ∧ d.entry ∉ new := by
  simp only [diffRecords, mem_append, mem_map, mem_filter,
    ExtTreeSet.mem_toList, Bool.not_eq_true', ← Bool.not_eq_true,
    ExtTreeSet.contains_iff_mem] at hd
  rcases hd with ⟨e, -, rfl⟩ | ⟨e, he, rfl⟩
  · exact (Bool.false_ne_true hann.symm).elim
  · exact he

theorem Follows.applyRtrDeltas (h : Follows s L) {c : γ}
    (hds : ∀ d ∈ ds, d.announce = false → L.OnlyFrom c d.entry) :
    ∃ s', s.applyRtrDeltas ds = some s' ∧ Follows s' (L.record (.deltas c ds)) := by
  have hother : ∀ entry, entry ∈ s.rtrEntries ↔
      entry ∈ L.held c ∨ ∃ c', c' ≠ c ∧ entry ∈ L.held c' := by
    intro entry
    rw [h.mem_rtr, ← exists_mem_update, Function.update_eq_self]
  have hmem : ∀ entry, entry ∈ ds.foldl RoaDelta.apply s.rtrEntries ↔
      ∃ c', entry ∈ (L.record (.deltas c ds)).held c' := by
    intro entry
    rw [RoaLedger.record, exists_mem_update]
    refine mem_foldl_apply_union hother (fun d hd hann => ?_) entry
    rintro ⟨c', hc', hin⟩
    exact hds d hd hann c' hc' hin
  cases ds with
  | nil => exact ⟨s, rfl, h.static_eq, hmem, h.published⟩
  | cons d ds => exact follows_rebuild h.static_eq hmem

theorem Follows.handle (h : Follows s L) {ev : RoaEvent γ} (hev : L.Orderly ev) :
    ∃ s', s.handle L ev = some s' ∧ Follows s' (L.record ev) := by
  cases ev with
  | replaceStatic entries => exact follows_rebuild rfl h.mem_rtr
  | addStatic entry =>
    rw [RoaStore.handle, RoaStore.addStatic]
    by_cases hin : s.staticEntries.contains entry = true
    · rw [if_pos hin]
      refine ⟨s, rfl, ?_, h.mem_rtr, h.published⟩
      rw [ExtTreeSet.contains_iff_mem] at hin
      rw [RoaLedger.record, ← h.static_eq]
      refine ExtTreeSet.ext_mem fun e => ?_
      rw [ExtTreeSet.mem_insert, Std.LawfulEqOrd.compare_eq_iff_eq]
      exact ⟨.inr, fun he => he.elim (fun heq => heq ▸ hin) id⟩
    · rw [if_neg hin]
      exact follows_rebuild (congrArg (·.insert entry) h.static_eq) h.mem_rtr
  | removeStatic entry =>
    rw [RoaStore.handle, RoaStore.removeStatic]
    by_cases hin : s.staticEntries.contains entry = true
    · rw [if_pos hin]
      exact follows_rebuild (congrArg (·.erase entry) h.static_eq) h.mem_rtr
    rw [if_neg hin]
    refine ⟨s, rfl, ?_, h.mem_rtr, h.published⟩
    rw [ExtTreeSet.contains_iff_mem] at hin
    rw [RoaLedger.record, ← h.static_eq]
    refine ExtTreeSet.ext_mem fun e => ?_
    rw [ExtTreeSet.mem_erase, Ne, Std.LawfulEqOrd.compare_eq_iff_eq]
    exact ⟨fun he => ⟨fun heq => hin (heq ▸ he), he⟩, And.right⟩
  | deltas c ds => exact h.applyRtrDeltas hev
  | snapshot c records =>
    have hds : ∀ d ∈ diffRecords (L.held c) records, d.announce = false →
        L.OnlyFrom c d.entry := by
      intro d hd hann
      obtain ⟨hold, hnew⟩ := withdrawn_of_mem_diffRecords hd hann
      exact hev d.entry hold hnew
    obtain ⟨s', hs', hfollows⟩ := h.applyRtrDeltas hds
    rw [RoaLedger.record, foldl_diffRecords] at hfollows
    exact ⟨s', hs', hfollows⟩
  | expire c =>
    have hnone : ∀ entry, ¬ ∃ c', entry ∈ (L.record (.expire c)).held c' := by
      intro entry
      rw [RoaLedger.record, exists_mem_update]
      rintro (hin | ⟨c', hc', hin⟩)
      · exact ExtTreeSet.not_mem_empty hin
      · exact hev entry c' hc' hin
    rw [RoaStore.handle, RoaStore.clearRtr]
    by_cases hempty : s.rtrEntries.isEmpty = true
    · rw [if_pos hempty]
      refine ⟨s, rfl, h.static_eq, fun entry => ?_, h.published⟩
      rw [ExtTreeSet.isEmpty_iff] at hempty
      rw [hempty]
      exact iff_of_false ExtTreeSet.not_mem_empty (hnone entry)
    · rw [if_neg hempty]
      exact follows_rebuild h.static_eq fun entry =>
        iff_of_false ExtTreeSet.not_mem_empty (hnone entry)

/-! ## Sequences of events -/

theorem Follows.run (h : Follows s L) (hevs : OrderlyRun L evs) :
    ∃ s' L', runEvents s L evs = some (s', L') ∧ Follows s' L' := by
  induction evs generalizing s L with
  | nil => exact ⟨s, L, rfl, h⟩
  | cons ev evs ih =>
    obtain ⟨s₁, hs₁, h₁⟩ := h.handle hevs.1
    obtain ⟨s', L', hrun, hfollows⟩ := ih h₁ hevs.2
    refine ⟨s', L', ?_, hfollows⟩
    rw [runEvents, hs₁]
    exact hrun

end

end LibRouting.Bgp.Roa
