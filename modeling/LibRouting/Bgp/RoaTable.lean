/-
  Bgp/RoaTable.lean --- prefix-origin validation (`lr-bgp/src/roa.rs`, RFC 6811) over the
  prefix trie of `lr-bgp/src/roa_trie.rs`.

  The table keeps its entries sorted and without duplicates; the trie stores their
  positions.  `fromEntries_congr` says that the table depends on the set of entries only,
  `validate_spec` that the walk over the trie finds the entries whose prefix contains the
  route.  Positions and node indices are natural numbers: the `u32` of the code holds them
  while a table has fewer than 2 ^ 31 entries.
-/
import LibRouting.Core.PrefixKey
import LibRouting.Bgp.Rtr.Client
import LibRouting.Foundation.Comparator

set_option autoImplicit false

namespace LibRouting.Bgp.Roa

open Foundation Foundation.Patricia Core Bgp.Rtr List

/-! ## The index -/

/-- `RoaTrie`.  The items of a node are positions in the entry list. -/
abbrev RoaTrie : Type := Trie (Fin 2) Nat

namespace RoaTrie

/-- One turn of the loop of `build`. -/
def insertEntry (t : RoaTrie) (indexed : RoaEntry × Nat) : Option RoaTrie :=
  let (key, len, family) := encodePrefix indexed.1.pfx
  t.insert key len family indexed.2

/-- `build`. -/
def build (entries : List RoaEntry) : Option RoaTrie :=
  entries.zipIdx.foldlM insertEntry .new

/-- `walk_covering`.  A position outside the entry list is a panic. -/
def walkCovering (t : RoaTrie) (entries : List RoaEntry) (p : Prefix) (f : RoaEntry → Bool) :
    Option (Bool × Bool) :=
  let (key, len, family) := encodePrefix p
  t.walk key len family fun _ idx => entries[idx]?.map f

end RoaTrie

/-! ## The table -/

/-- `RoaState`. -/
inductive RoaState where
  | valid
  | notFound
  | invalid
  deriving DecidableEq, Repr

/-- `RoaTable`. -/
structure RoaTable where
  entries : List RoaEntry
  trie : RoaTrie

namespace RoaTable

/-- `from_entries`. -/
def fromEntries (entries : List RoaEntry) : Option RoaTable :=
  let entries := sortDedup compare entries
  (RoaTrie.build entries).map fun trie => ⟨entries, trie⟩

/-- The entry authorises the origin for a route of this length. -/
def authorizes (p : Prefix) (originAs : UInt32) (entry : RoaEntry) : Bool :=
  decide (p.prefixLen ≤ entry.maxLength) && decide (entry.asn = originAs)

/-- `validate`. -/
def validate (table : RoaTable) (p : Prefix) : Option UInt32 → Option RoaState
  | none => some .notFound
  | some originAs =>
    (table.trie.walkCovering table.entries p (authorizes p originAs)).map
      fun (anyCovered, authorized) =>
        if authorized then .valid else if anyCovered then .invalid else .notFound

end RoaTable

/-! ## Building the index -/

/-- The entry at the position has the prefix. -/
def IndexedAt (entries : List RoaEntry) (p : Prefix) (idx : Nat) : Prop :=
  ∃ entry, entries[idx]? = some entry ∧ entry.pfx = p

theorem indexedAt_concat (done : List RoaEntry) (entry : RoaEntry) (p : Prefix) (idx : Nat) :
    IndexedAt (done ++ [entry]) p idx ↔
      IndexedAt done p idx ∨ p = entry.pfx ∧ idx = done.length := by
  unfold IndexedAt
  constructor
  · intro h
    obtain ⟨e, hget, rfl⟩ := h
    rw [getElem?_append] at hget
    by_cases hidx : idx < done.length
    · rw [if_pos hidx] at hget
      exact .inl ⟨e, hget, rfl⟩
    rw [if_neg hidx, getElem?_singleton] at hget
    by_cases hlast : idx - done.length = 0
    · rw [if_pos hlast, Option.some.injEq] at hget
      exact .inr ⟨by rw [hget], by omega⟩
    · rw [if_neg hlast] at hget
      exact (Option.some_ne_none e hget.symm).elim
  · intro h
    rcases h with ⟨e, hget, rfl⟩ | ⟨rfl, rfl⟩
    · have hidx : idx < done.length := (List.getElem?_eq_some_iff.mp hget).1
      exact ⟨e, by rw [getElem?_append_left hidx, hget], rfl⟩
    · exact ⟨entry, by simp, rfl⟩

theorem build_represents (entries : List RoaEntry) :
    ∃ t, RoaTrie.build entries = some t ∧ Represents t (IndexedAt entries) := by
  -- the loop, started after some entries are in
  have hrun : ∀ (t : RoaTrie) (done : List RoaEntry), Represents t (IndexedAt done) →
      ∃ t', (entries.zipIdx done.length).foldlM RoaTrie.insertEntry t = some t' ∧
        Represents t' (IndexedAt (done ++ entries)) := by
    induction entries with
    | nil => exact fun t done h => ⟨t, rfl, by rwa [append_nil]⟩
    | cons entry entries ih =>
      intro t done h
      obtain ⟨t₁, ht₁, h₁⟩ := h.insert entry.pfx done.length
      have hmore : IndexedAt (done ++ [entry]) =
          fun q i => IndexedAt done q i ∨ q = entry.pfx ∧ i = done.length := by
        funext q i
        exact propext (indexedAt_concat done entry q i)
      rw [← hmore] at h₁
      obtain ⟨t₂, ht₂, h₂⟩ := ih t₁ _ h₁
      rw [length_append, length_singleton] at ht₂
      refine ⟨t₂, ?_, by simpa using h₂⟩
      rw [zipIdx_cons, foldlM_cons]
      exact (congrArg (· >>= _) ht₁).trans ht₂
  have hnone : IndexedAt [] = fun _ _ => False := by
    funext p idx
    simp [IndexedAt]
  exact hrun .new [] (hnone ▸ represents_new)

/-! ## Validation -/

/-- The covering walk, in terms of the entries. -/
theorem walkCovering_spec {entries : List RoaEntry} {t : RoaTrie}
    (h : Represents t (IndexedAt entries)) (hfits : ∀ entry ∈ entries, entry.pfx.Fits)
    {p : Prefix} (hp : p.Fits) (f : RoaEntry → Bool) :
    ∃ covered accepted, t.walkCovering entries p f = some (covered, accepted) ∧
      (covered = true ↔ ∃ entry ∈ entries, entry.pfx.containsPrefix p = true) ∧
      (accepted = true ↔
        ∃ entry ∈ entries, entry.pfx.containsPrefix p = true ∧ f entry = true) := by
  obtain ⟨covered, accepted, hwalk, hcov, hacc⟩ := h.walk p (fun _ idx => entries[idx]?.map f)
    (fun _ idx => (entries[idx]?.map f).getD false) (by
      rintro q idx ⟨entry, hget, rfl⟩
      rw [hget]
      rfl)
  -- a position with its prefix is an entry
  have hentry : ∀ {entry}, entry ∈ entries → (entry.pfx.containsPrefix p = true ↔
      entry.pfx.addr.isIpv4 = p.addr.isIpv4 ∧ entry.pfx.fixedBits <+: p.fixedBits) :=
    fun hmem => Prefix.containsPrefix_iff_isPrefix (hfits _ hmem) hp
  refine ⟨covered, accepted, hwalk, hcov.trans ?_, hacc.trans ?_⟩
  · constructor
    · rintro ⟨q, idx, ⟨entry, hget, rfl⟩, hcover⟩
      have hmem := mem_of_getElem? hget
      exact ⟨entry, hmem, (hentry hmem).mpr hcover⟩
    · rintro ⟨entry, hmem, hcover⟩
      obtain ⟨idx, hget⟩ := mem_iff_getElem?.mp hmem
      exact ⟨entry.pfx, idx, ⟨entry, hget, rfl⟩, (hentry hmem).mp hcover⟩
  · constructor
    · rintro ⟨q, idx, ⟨entry, hget, rfl⟩, hfam, hpre, hf⟩
      have hmem := mem_of_getElem? hget
      rw [hget] at hf
      exact ⟨entry, hmem, (hentry hmem).mpr ⟨hfam, hpre⟩, hf⟩
    · rintro ⟨entry, hmem, hcover, hf⟩
      obtain ⟨idx, hget⟩ := mem_iff_getElem?.mp hmem
      obtain ⟨hfam, hpre⟩ := (hentry hmem).mp hcover
      refine ⟨entry.pfx, idx, ⟨entry, hget, rfl⟩, hfam, hpre, ?_⟩
      rw [hget]
      exact hf

namespace RoaTable

/-- The table depends on the set of entries only. -/
theorem fromEntries_congr {l l' : List RoaEntry} (h : ∀ entry, entry ∈ l ↔ entry ∈ l') :
    fromEntries l = fromEntries l' := by
  simp only [fromEntries, sortDedup_congr h]

theorem fromEntries_spec (l : List RoaEntry) :
    ∃ table, fromEntries l = some table ∧ (∀ entry, entry ∈ table.entries ↔ entry ∈ l) ∧
      Represents table.trie (IndexedAt table.entries) := by
  obtain ⟨trie, hbuild, hrep⟩ := build_represents (sortDedup compare l)
  refine ⟨⟨sortDedup compare l, trie⟩, ?_, fun entry => mem_sortDedup, hrep⟩
  simp only [fromEntries, hbuild, Option.map_some]

/-- RFC 6811: a route is valid when an entry that contains it authorises its origin,
invalid when entries contain it and none does, and not found otherwise; neither the order
of the entries nor how often one is listed matters. -/
theorem fromEntries_validate (l : List RoaEntry) (p : Prefix) (asn : UInt32)
    (hl : ∀ entry ∈ l, entry.pfx.Fits) (hp : p.Fits) :
    ∃ table state, fromEntries l = some table ∧ table.validate p (some asn) = some state ∧
      (state = .valid ↔ ∃ entry ∈ l, entry.pfx.containsPrefix p = true ∧
        p.prefixLen ≤ entry.maxLength ∧ entry.asn = asn) ∧
      (state = .invalid ↔ (∃ entry ∈ l, entry.pfx.containsPrefix p = true) ∧
        ¬ ∃ entry ∈ l, entry.pfx.containsPrefix p = true ∧
          p.prefixLen ≤ entry.maxLength ∧ entry.asn = asn) ∧
      (state = .notFound ↔ ¬ ∃ entry ∈ l, entry.pfx.containsPrefix p = true) ∧
      ∀ l', (∀ entry, entry ∈ l' ↔ entry ∈ l) → fromEntries l' = some table := by
  obtain ⟨table, htable, hmem, hrep⟩ := fromEntries_spec l
  obtain ⟨covered, accepted, hwalk, hcov, hacc⟩ := walkCovering_spec hrep
    (fun entry h => hl entry ((hmem entry).mp h)) hp (authorizes p asn)
  simp only [hmem, authorizes, Bool.and_eq_true, decide_eq_true_eq] at hcov hacc
  refine ⟨table, if accepted then .valid else if covered then .invalid else .notFound, htable,
    ?_, ?_, ?_, ?_, ?_⟩
  · rw [validate, hwalk]
    rfl
  · rw [← hacc]
    cases accepted <;> cases covered <;> simp
  · rw [← hacc, ← hcov]
    cases accepted <;> cases covered <;> simp
  · rw [← hcov]
    -- an entry that authorises the route contains it
    have himp : accepted = true → covered = true := by
      rw [hacc, hcov]
      rintro ⟨entry, hin, hcontains, -⟩
      exact ⟨entry, hin, hcontains⟩
    revert himp
    cases accepted <;> cases covered <;> simp
  · intro l' h
    rw [fromEntries_congr h, htable]

/-- Two entries that differ in host bits only, and a more specific one with another
origin: a host bit in the table does not matter, and the second origin is authorised. -/
theorem fromEntries_validate_nested :
    ∃ table, fromEntries
        [⟨⟨.v4 ⟨[10, 1, 0, 0], rfl⟩, 16⟩, 24, 64501⟩, ⟨⟨.v4 ⟨[10, 0, 0, 1], rfl⟩, 8⟩, 8, 64500⟩,
          ⟨⟨.v4 ⟨[10, 0, 0, 0], rfl⟩, 8⟩, 8, 64500⟩] = some table ∧
      table.validate ⟨.v4 ⟨[10, 1, 2, 0], rfl⟩, 24⟩ (some 64501) = some .valid := by
  obtain ⟨table, state, htable, hstate, hvalid, -⟩ := fromEntries_validate
    [⟨⟨.v4 ⟨[10, 1, 0, 0], rfl⟩, 16⟩, 24, 64501⟩, ⟨⟨.v4 ⟨[10, 0, 0, 1], rfl⟩, 8⟩, 8, 64500⟩,
      ⟨⟨.v4 ⟨[10, 0, 0, 0], rfl⟩, 8⟩, 8, 64500⟩]
    ⟨.v4 ⟨[10, 1, 2, 0], rfl⟩, 24⟩ 64501 (by decide) (by decide)
  have hstate' : state = .valid := hvalid.mpr ⟨_, mem_cons_self, by decide⟩
  exact ⟨table, htable, hstate' ▸ hstate⟩

end RoaTable

end LibRouting.Bgp.Roa
