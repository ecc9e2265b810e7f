/-
  Ospf/Lsdb.lean --- LSAs and the link-state database (`lr-ospf/src/lsdb.rs`, `lsa/mod.rs`).
-/
import Mathlib.Data.Int.Order.Basic
import LibRouting.Core.Addr
import LibRouting.Foundation.DbSync

set_option autoImplicit false

namespace LibRouting.Ospf

open Foundation List
open Std (ExtTreeMap LawfulEqOrd)

/-! ## LSAs -/

/-- The header of an LSA. -/
structure LsaHeader where
  lsAge : UInt16
  options : UInt8
  lsType : UInt16
  linkStateId : UInt32
  advertisingRouter : UInt32
  lsSequenceNumber : UInt32
  lsChecksum : UInt16
  length : UInt16
  deriving DecidableEq, Repr

/-- What identifies an LSA. -/
@[ext] structure LsaKey where
  lsType : UInt16
  linkStateId : UInt32
  advertisingRouter : UInt32
  deriving DecidableEq, Repr

namespace LsaKey

instance : Ord LsaKey :=
  ⟨compareLex (compareOn lsType) (compareLex (compareOn linkStateId) (compareOn advertisingRouter))⟩

instance : Std.TransOrd LsaKey := inferInstanceAs (Std.TransCmp (compareLex _ (compareLex _ _)))

instance : LawfulEqOrd LsaKey where
  eq_of_compare h := LsaKey.ext_iff.mpr (eq_of_compareLex₃ h)

end LsaKey

/-- The key of the LSA a header describes. -/
def LsaHeader.key (h : LsaHeader) : LsaKey := ⟨h.lsType, h.linkStateId, h.advertisingRouter⟩

/-- The sequence number as the code compares it (`as i32`, RFC 2328 §12.1.1). -/
def LsaHeader.signedSeq (h : LsaHeader) : Int := h.lsSequenceNumber.toInt32.toInt

/-- What a description says of an LSA. -/
def LsaHeader.summary (h : LsaHeader) : LsaKey × Int := (h.key, h.signedSeq)

/-- An LSA with its body as octets. -/
structure Lsa where
  header : LsaHeader
  body : Bytes
  deriving DecidableEq, Repr

/-- The key in the header. -/
def Lsa.key (l : Lsa) : LsaKey := l.header.key

/-- The sequence number as a signed one. -/
def Lsa.signedSeq (l : Lsa) : Int := l.header.signedSeq

/-- The more recent of two instances: the second where there is no first or the first is
older. -/
def moreRecent : Option Lsa → Option Lsa → Option Lsa := DbSync.latest Lsa.signedSeq

/-! ## The database -/

/-- The constants of RFC 2328 appendix B. -/
def maxAgeSecs : UInt16 := 3600
def initialSequenceNumber : UInt32 := 0x80000001
def maxSequenceNumber : UInt32 := 0x7fffffff

/-- `sequence_in_range`. -/
def sequenceInRange (seq : UInt32) : Bool :=
  seq ≥ initialSequenceNumber || seq == maxSequenceNumber

/-- What installing an LSA did. -/
inductive InstallOutcome where
  | new
  | replaced
  | ignored
  | purged
  deriving DecidableEq, Repr

/-- An LSA and when it was installed. -/
structure LsaEntry where
  lsa : Lsa
  installedMs : Nat
  deriving DecidableEq, Repr

/-- An instance the database may hold: not of age MaxAge, its number in the sequence
space. -/
def Lsa.Storable (l : Lsa) : Prop :=
  l.header.lsAge < maxAgeSecs ∧ sequenceInRange l.header.lsSequenceNumber = true

/-- The database of an area.  Each entry is stored under the key of its LSA, and the
watermark of a key is the sequence number of its entry. -/
structure Lsdb where
  entries : ExtTreeMap LsaKey LsaEntry compare
  seqWatermark : ExtTreeMap LsaKey UInt32 compare
  version : UInt64
  keyed : ∀ (k : LsaKey) (e : LsaEntry), entries[k]? = some e → e.lsa.key = k
  storable : ∀ (k : LsaKey) (e : LsaEntry), entries[k]? = some e → e.lsa.Storable
  watermark : ∀ k : LsaKey,
    seqWatermark[k]? = entries[k]?.map (·.lsa.header.lsSequenceNumber)

namespace Lsdb
variable {db : Lsdb} {k : LsaKey} {l : Lsa}

/-- No LSA. -/
def empty : Lsdb := ⟨∅, ∅, 0, by simp, by simp, by simp⟩

section

variable (db : Lsdb)

/-- Store an entry under the key of its LSA. -/
def put (e : LsaEntry) (he : e.lsa.Storable) : Lsdb where
  entries := db.entries.insert e.lsa.key e
  seqWatermark := db.seqWatermark.insert e.lsa.key e.lsa.header.lsSequenceNumber
  version := db.version + 1
  keyed := by
    intro k e' h
    rw [lookup_insert] at h
    split at h
    case isTrue heq =>
      cases h
      exact heq
    case isFalse => exact db.keyed k e' h
  storable := by
    intro k e' h
    rw [lookup_insert] at h
    split at h
    case isTrue =>
      cases h
      exact he
    case isFalse => exact db.storable k e' h
  watermark := by
    intro k
    rw [lookup_insert, lookup_insert, db.watermark]
    split <;> rfl

/-- Drop an entry and the watermark of its key. -/
def drop (key : LsaKey) : Lsdb where
  entries := db.entries.erase key
  seqWatermark := db.seqWatermark.erase key
  version := db.version + 1
  keyed := by
    intro k e h
    rw [lookup_erase] at h
    split at h
    case isTrue => cases h
    case isFalse => exact db.keyed k e h
  storable := by
    intro k e h
    rw [lookup_erase] at h
    split at h
    case isTrue => cases h
    case isFalse => exact db.storable k e h
  watermark := by
    intro k
    rw [lookup_erase, lookup_erase, db.watermark]
    split <;> rfl

/-- The sequence number is not above the watermark of its key. -/
def outdated (lsa : Lsa) : Bool :=
  let prevSeq := db.seqWatermark[lsa.key]?.getD 0
  lsa.header.lsSequenceNumber.toInt32 ≤ prevSeq.toInt32 && prevSeq != 0

/-- `install` (RFC 2328 §13).  An instance of age MaxAge purges, one out of the sequence
space or not newer than the watermark is ignored. -/
def install (lsa : Lsa) (nowMs : Nat) : Lsdb × InstallOutcome :=
  if hage : lsa.header.lsAge < maxAgeSecs then
    if hseq : sequenceInRange lsa.header.lsSequenceNumber = true then
      if db.outdated lsa then (db, .ignored)
      else
        (db.put ⟨lsa, nowMs⟩ ⟨hage, hseq⟩,
          if db.entries.contains lsa.key then .replaced else .new)
    else (db, .ignored)
  else if db.entries.contains lsa.key then (db.drop lsa.key, .purged)
  else (db, .ignored)

/-- `get`. -/
def get (key : LsaKey) : Option LsaEntry := db.entries[key]?

/-- The instance stored under a key. -/
def held (key : LsaKey) : Option Lsa := (db.get key).map (·.lsa)

/-- `len`. -/
def len : Nat := db.entries.size

/-- The keys in order. -/
def keys : List LsaKey := db.entries.keys

/-- `iter`: the entries in key order. -/
def iter : List (LsaKey × LsaEntry) := db.entries.toList

/-- `headers`. -/
def headers : List LsaHeader := (valuesOf db.entries).map (·.lsa.header)

end

/-! ## What is stored -/

theorem held_eq_some : db.held k = some l ↔ ∃ e, db.entries[k]? = some e ∧ e.lsa = l := by
  simp [held, get]

theorem key_of_held (h : db.held k = some l) : l.key = k := by
  obtain ⟨e, he, rfl⟩ := held_eq_some.mp h
  exact db.keyed k e he

theorem storable_of_held (h : db.held k = some l) : l.Storable := by
  obtain ⟨e, he, rfl⟩ := held_eq_some.mp h
  exact db.storable k e he

theorem mem_keys : k ∈ db.keys ↔ (db.held k).isSome := by
  rw [keys, ExtTreeMap.mem_keys, ExtTreeMap.mem_iff_isSome_getElem?, held, get,
    Option.isSome_map]

@[simp] theorem length_keys (db : Lsdb) : db.keys.length = db.len :=
  ExtTreeMap.length_keys

theorem nodup_keys (db : Lsdb) : db.keys.Nodup := Foundation.nodup_keys db.entries

/-- The keys are in order, so two databases with the same keys list them alike. -/
theorem keys_eq {db' : Lsdb} (h : ∀ k, (db.held k).isSome ↔ (db'.held k).isSome) :
    db.keys = db'.keys := by
  have hperm : db.keys.Perm db'.keys :=
    (perm_ext_iff_of_nodup db.nodup_keys db'.nodup_keys).mpr fun k => by
      rw [mem_keys, mem_keys]
      exact h k
  refine hperm.eq_of_pairwise ?_ ExtTreeMap.ordered_keys ExtTreeMap.ordered_keys
  intro a b _ _ hab hba
  have hswap : compare b a = (compare a b).swap := Std.OrientedCmp.eq_swap
  rw [hab, hba] at hswap
  cases hswap

/-- The headers are those of the stored instances, in the order of their keys. -/
theorem map_key_headers (db : Lsdb) : db.headers.map LsaHeader.key = db.keys := by
  rw [headers, valuesOf, map_map, map_map, keys,
    ← ExtTreeMap.map_fst_toList_eq_keys]
  apply map_congr_left
  intro e he
  exact db.keyed e.1 e.2 (ExtTreeMap.mem_toList_iff_getElem?_eq_some.mp he)

theorem held_of_mem_headers {h : LsaHeader} (hmem : h ∈ db.headers) :
    ∃ l, db.held h.key = some l ∧ l.header = h := by
  obtain ⟨e, he, rfl⟩ := mem_map.mp hmem
  obtain ⟨k, hk⟩ := mem_valuesOf.mp he
  refine ⟨e.lsa, held_eq_some.mpr ⟨e, ?_, rfl⟩, rfl⟩
  rw [show e.lsa.header.key = k from db.keyed k e hk]
  exact hk

@[simp] theorem put_held (db : Lsdb) (e : LsaEntry) (he : e.lsa.Storable) (k : LsaKey) :
    (db.put e he).held k = if e.lsa.key = k then some e.lsa else db.held k := by
  rw [held, get, put, lookup_insert]
  by_cases h : e.lsa.key = k
  · simp [h]
  · simp [h, held, get]

/-- Nothing is outdated where nothing is stored, and otherwise what is not newer is. -/
theorem outdated_iff (db : Lsdb) (l : Lsa) :
    db.outdated l = true ↔ ∃ ours, db.held l.key = some ours ∧ l.signedSeq ≤ ours.signedSeq := by
  have hwm := db.watermark l.key
  cases he : db.entries[l.key]? with
  | none => simp [outdated, hwm, he, held, get]
  | some e =>
    have hne : e.lsa.header.lsSequenceNumber ≠ 0 := by
      intro h0
      have hrange := (db.storable _ e he).2
      rw [h0] at hrange
      revert hrange
      decide
    simp [outdated, hwm, he, held, get, hne, Lsa.signedSeq, LsaHeader.signedSeq,
      Int32.le_iff_toInt_le]

theorem install_fst (db : Lsdb) (hl : l.Storable) (now : Nat) :
    (db.install l now).1 = if db.outdated l = true then db else db.put ⟨l, now⟩ hl := by
  obtain ⟨hage, hseq⟩ := id hl
  simp only [install, hage, hseq, dite_true]
  split <;> rfl

/-- Installing an instance that may be stored leaves the more recent one under its key and
every other key alone. -/
theorem install_held (db : Lsdb) (hl : l.Storable) (now : Nat) (k : LsaKey) :
    (db.install l now).1.held k =
      if l.key = k then moreRecent (db.held k) (some l) else db.held k := by
  rw [install_fst db hl]
  by_cases hout : db.outdated l = true
  · obtain ⟨ours, hours, hle⟩ := (outdated_iff db l).mp hout
    rw [if_pos hout]
    split
    case isTrue hk =>
      subst hk
      rw [hours, moreRecent, DbSync.latest, if_neg (by omega)]
    case isFalse => rfl
  · rw [if_neg hout, put_held]
    split
    case isTrue hk =>
      subst hk
      cases hours : db.held l.key with
      | none => rfl
      | some ours =>
        have hlt : ours.signedSeq < l.signedSeq := by
          by_contra hge
          exact hout ((outdated_iff db l).mpr ⟨ours, hours, by omega⟩)
        rw [moreRecent, DbSync.latest, if_pos hlt]
    case isFalse => rfl

end Lsdb

end LibRouting.Ospf
