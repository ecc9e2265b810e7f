/-
  Foundation/TimerQueue.lean --- a queue of one-shot timers.

  A timer is armed under an identifier; the same identifier may be armed more than
  once.  `tick` takes out every timer that is due, the earliest first.  A binary heap keeps
  no order among timers of one time, so that order is a parameter of every tick.
-/
import LibRouting.Foundation.Comparator

set_option autoImplicit false

namespace LibRouting.Foundation

open List

/-- An armed timer. -/
structure TimerEntry (ι : Type) where
  fireAt : Nat
  id : ι
  deriving DecidableEq, Repr

/-- The armed timers, in the order they were armed. -/
abbrev TimerQueue (ι : Type) : Type := List (TimerEntry ι)

/-- An order in which timers leave the heap: by time, and of one time in any order. -/
structure PopOrder (ι : Type) where
  pops : List (TimerEntry ι) → List (TimerEntry ι)
  perm : ∀ l, (pops l).Perm l
  sorted : ∀ l, (pops l).Pairwise fun a b => a.fireAt ≤ b.fireAt

namespace PopOrder

theorem sorted_sortBy {ι : Type} (l : List (TimerEntry ι)) :
    (sortBy (compareOn TimerEntry.fireAt) l).Pairwise fun a b => a.fireAt ≤ b.fireAt := by
  have hsorted : (sortBy (compareOn TimerEntry.fireAt) l).Pairwise _ := pairwise_sortBy l
  exact hsorted.imp fun hle => Nat.isLE_compare.mp hle

/-- Timers of one time in the order they were armed. -/
def arming (ι : Type) : PopOrder ι where
  pops := sortBy (compareOn TimerEntry.fireAt)
  perm := sortBy_perm
  sorted := sorted_sortBy

/-- Timers of one time by a rank of their identifiers. -/
def ranked {ι : Type} (rank : ι → Nat) : PopOrder ι where
  pops l := sortBy (compareOn TimerEntry.fireAt) (sortBy (compareOn fun e => rank e.id) l)
  perm l := (sortBy_perm _).trans (sortBy_perm l)
  sorted _ := sorted_sortBy _

end PopOrder

namespace TimerQueue

variable {ι : Type} [DecidableEq ι]

section

variable (q : TimerQueue ι) (now : Nat) (id : ι)

/-- One more timer; one that is armed already stays. -/
def arm (afterMs : Nat) : TimerQueue ι :=
  q ++ [⟨now + afterMs, id⟩]

/-- Drops every timer of the identifier. -/
def cancel : TimerQueue ι := q.filter fun e => e.id ≠ id

/-- The timers that are due, the earliest first. -/
def due (order : PopOrder ι) : List ι :=
  (order.pops (q.filter fun e => e.fireAt ≤ now)).map TimerEntry.id

/-- The queue after `tick`. -/
def pending : TimerQueue ι := q.filter fun e => now < e.fireAt

/-- How many timers are armed under an identifier. -/
def armed : Nat := q.countP fun e => e.id = id

@[simp] theorem armed_arm (now afterMs : Nat) (i id : ι) :
    (q.arm now i afterMs).armed id = q.armed id + if i = id then 1 else 0 := by
  simp only [armed, arm, countP_append, countP_cons, countP_nil, Nat.zero_add,
    decide_eq_true_eq]

@[simp] theorem armed_cancel (i id : ι) :
    (q.cancel i).armed id = if i = id then 0 else q.armed id := by
  rw [armed, armed, cancel, countP_filter]
  split
  case isTrue h =>
    subst h
    simp
  case isFalse h =>
    congr 1
    funext e
    by_cases hid : e.id = id
    · simp [hid, Ne.symm h]
    · simp [hid]

omit [DecidableEq ι] in
theorem mem_due {order : PopOrder ι} :
    id ∈ q.due now order ↔ ∃ e ∈ q, e.fireAt ≤ now ∧ e.id = id := by
  simp [due, (order.perm _).mem_iff, and_assoc]

/-- Of two timers of different times the later one comes out later, whatever the order. -/
theorem due_later {order : PopOrder ι} {a b : TimerEntry ι} (ha : a ∈ q) (hb : b ∈ q)
    (hlt : a.fireAt < b.fireAt) (hdue : b.fireAt ≤ now) :
    b.id ∈ (q.due now order).dropWhile (· ≠ a.id) := by
  have hin {e : TimerEntry ι} (he : e ∈ q) (hle : e.fireAt ≤ now) :
      e ∈ order.pops (q.filter fun e => e.fireAt ≤ now) :=
    (order.perm _).mem_iff.mpr (mem_filter.mpr ⟨he, by simpa using hle⟩)
  have hpa := hin ha (by omega)
  have hpb := hin hb hdue
  have hsorted := order.sorted (q.filter fun e => e.fireAt ≤ now)
  unfold due
  generalize order.pops _ = l at hpa hpb hsorted ⊢
  induction l with
  | nil => cases hpa
  | cons e l ih =>
    rw [pairwise_cons] at hsorted
    rw [map_cons]
    by_cases he : e.id = a.id
    · rw [dropWhile_cons_of_neg (by simpa using he), ← map_cons]
      exact mem_map_of_mem hpb
    · rw [dropWhile_cons_of_pos (by simpa using he)]
      have hpa' : a ∈ l := (mem_cons.mp hpa).resolve_left fun heq => he (by rw [heq])
      refine ih hpa' ((mem_cons.mp hpb).resolve_left fun heq => ?_) hsorted.2
      have hle := hsorted.1 a hpa'
      rw [← heq] at hle
      omega

theorem armed_split (order : PopOrder ι) :
    q.armed id = (q.due now order).count id + (q.pending now).armed id := by
  have hdue : (q.due now order).count id =
      (q.filter fun e => e.fireAt ≤ now).countP fun e => e.id = id := by
    rw [due, count, countP_map]
    refine ((order.perm _).countP_eq _).trans ?_
    rfl
  rw [hdue, armed, armed, pending, countP_filter, countP_filter]
  clear hdue
  induction q with
  | nil => rfl
  | cons e q ih =>
    simp only [countP_cons, ih]
    by_cases hid : e.id = id
    case neg => simp [hid]
    case pos =>
      by_cases hle : e.fireAt ≤ now
      · simp only [hid, hle, Nat.not_lt.mpr hle]
        simp
        omega
      · simp only [hid, hle, Nat.lt_of_not_le hle]
        simp
        omega

end

end TimerQueue

end LibRouting.Foundation
