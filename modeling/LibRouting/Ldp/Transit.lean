/-
  Ldp/Transit.lean --- the label allocator for transit FECs over whole runs
  (`lr-ldp`: `TransitAllocator`).
-/
import LibRouting.Ldp.Engine

set_option autoImplicit false

namespace LibRouting.Ldp.TransitAllocator

open Core Foundation
open Std (ExtTreeMap ExtTreeSet)

/-- The labels a platform can write. -/
def platformMin : Nat := 16
def platformMax : Nat := 1048575

/-- `u32::clamp` into the labels a platform can write. -/
def clamp (l : UInt32) : Nat := max platformMin (min l.toNat platformMax)

/-- `TransitAllocator::new`. -/
def new (labelMin labelMax : UInt32) (reserved : List UInt32) : TransitAllocator where
  labelMin := min (clamp labelMin) (clamp labelMax)
  labelMax := max (clamp labelMin) (clamp labelMax)
  next := min (clamp labelMin) (clamp labelMax)
  used := .ofList ((reserved.map UInt32.toNat).filter fun l => platformMin ≤ l && l ≤ platformMax)

/-- The calls on the allocator. -/
inductive Call where
  | allocate (p : Prefix)
  | release (p : Prefix)
  deriving DecidableEq, Repr

/-- One call; the label returned does not matter here. -/
def call (a : TransitAllocator) : Call → TransitAllocator
  | .allocate p => (a.allocate p).1
  | .release p => (a.release p).1

/-- The value of the label a prefix holds. -/
def held (a : TransitAllocator) (p : Prefix) : Option Nat :=
  (a.labelOf p).map (·.value.toNat)

/-! ## The search -/

variable {a : TransitAllocator} {reserved : List UInt32} {l : GenericLabel}

theorem firstFree_spec (a : TransitAllocator) (cursor : Nat) :
    match a.firstFree cursor with
    | some c => cursor ≤ c ∧ c ≤ a.labelMax ∧ c ∉ a.used ∧ ∀ x, cursor ≤ x → x < c → x ∈ a.used
    | none => ∀ x, cursor ≤ x → x ≤ a.labelMax → x ∈ a.used := by
  fun_induction firstFree a cursor with
  | case1 | case3 => grind
  | case2 cursor hle hused ih => grind

/-- The search finds a free label of the range, and gives up only when there is none: what
lies behind the cursor was looked at before the wrap. -/
theorem findFree_spec (hnext : a.labelMin ≤ a.next) :
    match a.findFree with
    | some c => a.labelMin ≤ c ∧ c ≤ a.labelMax ∧ c ∉ a.used
    | none => ∀ x, a.labelMin ≤ x → x ≤ a.labelMax → x ∈ a.used := by
  have hup := firstFree_spec a a.next
  have hlow := firstFree_spec a a.labelMin
  fun_cases findFree a <;> grind

/-! ## Runs -/

/-- What the books of an allocator over `lo..=hi` say: the used labels are the reserved and
the held ones, and no label is held twice, outside the range or although reserved. -/
structure Books (lo hi : Nat) (reserved : List UInt32) (a : TransitAllocator) : Prop where
  range : a.labelMin = lo ∧ a.labelMax = hi
  used_iff : ∀ x, lo ≤ x → x ≤ hi →
    (x ∈ a.used ↔ x ∈ reserved.map UInt32.toNat ∨ ∃ p, a.held p = some x)
  inside : ∀ p x, a.held p = some x → lo ≤ x ∧ x ≤ hi ∧ x ∉ reserved.map UInt32.toNat
  distinct : ∀ p q x, a.held p = some x → a.held q = some x → p = q
  next_le : lo ≤ a.next

variable {lo hi : Nat}

theorem books_new (labelMin labelMax : UInt32) :
    Books (min (clamp labelMin) (clamp labelMax)) (max (clamp labelMin) (clamp labelMax)) reserved
      (new labelMin labelMax reserved) where
  range := ⟨rfl, rfl⟩
  used_iff x hmin hmax := by
    simp only [clamp, platformMin, platformMax] at hmin hmax
    simp [new, held, labelOf, platformMin, platformMax]
    grind
  inside p x h := by simp [new, held, labelOf] at h
  distinct p q x h := by simp [new, held, labelOf] at h
  next_le := le_rfl

theorem Books.findFree (h : Books lo hi reserved a) :
    match a.findFree with
    | some c => lo ≤ c ∧ c ≤ hi ∧ c ∉ a.used
    | none => ∀ x, lo ≤ x → x ≤ hi → x ∈ a.used := by
  obtain ⟨⟨rfl, rfl⟩, -, -, -, hnext⟩ := h
  exact findFree_spec hnext

/-- The books still say so when one prefix gets a free label or gives its label up. -/
theorem Books.update {b : TransitAllocator} {p : Prefix} {r : Option Nat}
    (h : Books lo hi reserved a) (hof : ∀ q, b.held q = if p = q then r else a.held q)
    (hused : ∀ x, x ∈ b.used ↔ r = some x ∨ x ∈ a.used ∧ a.held p ≠ some x)
    (hrange : b.labelMin = a.labelMin ∧ b.labelMax = a.labelMax) (hnext : lo ≤ b.next)
    (hr : ∀ x, r = some x → lo ≤ x ∧ x ≤ hi ∧ x ∉ a.used) : Books lo hi reserved b := by
  obtain ⟨h₀, h₁, h₂, h₃, -⟩ := h
  have hp := hof p
  constructor <;> grind

theorem Books.call (h : Books lo hi reserved a) (hhi : hi ≤ platformMax) (c : Call) :
    Books lo hi reserved (a.call c) := by
  cases c with
  | allocate p =>
    rw [TransitAllocator.call]
    fun_cases TransitAllocator.allocate a p with
    | case1 | case2 => exact h
    | case3 hp c hc label =>
      have hfree := h.findFree
      rw [hc] at hfree
      have hvalue : label.value.toNat = c :=
        UInt32.toNat_ofNat_of_lt' (by rw [platformMax] at hhi; simp [UInt32.size]; omega)
      refine h.update (p := p) (r := some c) (fun q => ?_) (fun x => ?_) ⟨rfl, rfl⟩ ?_ (by grind)
      · simp only [held, labelOf, lookup_insert]
        grind
      · simp [held, labelOf, hp]
      · exact hfree.1.trans (Nat.le_succ _)
  | release p =>
    rw [TransitAllocator.call]
    fun_cases TransitAllocator.release a p with
    | case1 => exact h
    | case2 label hp =>
      have hheld : a.held p = some label.value.toNat := by rw [held, labelOf, hp]; rfl
      refine h.update (p := p) (r := none) (fun q => ?_) (fun x => ?_) ⟨rfl, rfl⟩
        (le_min h.next_le (h.inside p _ hheld).1) nofun
      · simp only [held, labelOf, lookup_erase]
        grind
      · simp [hheld, and_comm]

/-- A call other than its release leaves a prefix its label. -/
theorem labelOf_call {p : Prefix} {c : Call} (h : a.labelOf p = some l) (hc : c ≠ .release p) :
    (a.call c).labelOf p = some l := by
  cases c with
  | allocate q =>
    rw [call]
    fun_cases allocate a q with
    | case1 | case2 => exact h
    | case3 hq => grind [labelOf]
  | release q =>
    rw [call]
    fun_cases release a q with
    | case1 => exact h
    | case2 => grind [labelOf]

/-- Whatever the calls were, the labels held are pairwise distinct, inside the range and not
reserved; a prefix keeps its label until it is released and is given it again when it asks;
and a prefix is refused only when every label of the range that is not reserved is held. -/
theorem run_sound (labelMin labelMax : UInt32) (reserved : List UInt32) (calls : List Call) :
    let a := calls.foldl call (new labelMin labelMax reserved)
    let lo := min (clamp labelMin) (clamp labelMax)
    let hi := max (clamp labelMin) (clamp labelMax)
    (∀ p q l, a.labelOf p = some l → a.labelOf q = some l → p = q) ∧
    (∀ p l, a.labelOf p = some l → lo ≤ l.value.toNat ∧ l.value.toNat ≤ hi ∧ l.value ∉ reserved) ∧
    (∀ p l c, a.labelOf p = some l → c ≠ .release p → (a.call c).labelOf p = some l) ∧
    (∀ p l, a.labelOf p = some l → (a.allocate p).2 = some l) ∧
    ∀ p, (a.allocate p).2 = none → ∀ l : GenericLabel, lo ≤ l.value.toNat → l.value.toNat ≤ hi →
      l.value ∉ reserved → ∃ q, a.labelOf q = some l := by
  intro a lo hi
  have hhi : hi ≤ platformMax := by simp only [hi, clamp, platformMin, platformMax]; omega
  have hbooks : Books lo hi reserved a :=
    calls.foldlRecOn call (books_new labelMin labelMax) fun _ h c _ => h.call hhi c
  have hheld {p : Prefix} {l : GenericLabel} : a.held p = some l.value.toNat ↔
      a.labelOf p = some l := by
    obtain ⟨v⟩ := l
    rcases h : a.labelOf p with _ | ⟨⟨w⟩⟩ <;> simp [held, h, UInt32.toNat_inj]
  have hreserved {v : UInt32} : v.toNat ∈ reserved.map UInt32.toNat ↔ v ∈ reserved := by
    simp [UInt32.toNat_inj]
  refine ⟨fun p q l hp hq => hbooks.distinct p q _ (hheld.mpr hp) (hheld.mpr hq), fun p l hp => ?_,
    fun p l c => labelOf_call, fun p l h => ?_, fun p h l hlo hhi hl => ?_⟩
  · simpa only [hreserved] using hbooks.inside p _ (hheld.mpr hp)
  · rw [labelOf] at h
    simp [allocate, h]
  · have hfree := hbooks.findFree
    have hused := hbooks.used_iff _ hlo hhi
    simp only [hreserved, hheld] at hused
    rw [allocate] at h
    grind

/-- A range below the labels a platform can write is moved up: 16 is handed out for `0..=5`. -/
theorem allocate_outside_given_range :
    ¬ ∀ p l, ((new 0 5 []).call (.allocate p)).labelOf p = some l → l.value.toNat ≤ 5 := by
  intro h
  have hfree : (new 0 5 []).findFree = some 16 := by
    rw [findFree, firstFree]
    simp [new, clamp, platformMin, platformMax]
  have hle := h ⟨.v4 (.zero 4), 0⟩ ⟨16⟩ (by
    simp only [call, allocate, labelOf, hfree]
    simp [new])
  simp at hle

end LibRouting.Ldp.TransitAllocator
