/-
  Babel/PacketCounter.lean --- the receiver's packet-counter state
  (`lr-babel/src/auth.rs`, RFC 8967 §4.3 and RFC 9467 §3.2).
-/
import Mathlib.Data.List.GetD
import Mathlib.Tactic.ByContra
import Mathlib.Tactic.Set
import Mathlib.Tactic.SplitIfs

set_option autoImplicit false

namespace LibRouting.Babel

open List

/-- The counter state of one traffic class: the highest counter accepted, or a window
below it that says which counters were received. -/
inductive ReceiverPc where
  | strict (v : UInt32)
  | window (highest : UInt32) (seen : List Bool)
  deriving DecidableEq, Repr

namespace ReceiverPc
variable {seen : List Bool} {pc : UInt32}

/-- The state of a new neighbour; `pcWindow` is the configured window size. -/
def new : Option Nat → ReceiverPc
  | none => strict 0
  | some size => window 0 (replicate size false)

/-- The window position of a counter. -/
def slot (highest : UInt32) (size : Nat) (pc : UInt32) : Int :=
  pc.toNat - highest.toNat + size - 1

/-- `accepts`. -/
def accepts : ReceiverPc → UInt32 → Bool
  | strict v, pc => pc > v
  | window highest seen, pc =>
    let i := slot highest seen.length pc
    if i < 0 then false else i.toNat ≥ seen.length || !seen.getD i.toNat false

/-- `*seen.last_mut() = true`. -/
def setLast (seen : List Bool) : List Bool := seen.set (seen.length - 1) true

/-- `commit`. -/
def commit : ReceiverPc → UInt32 → ReceiverPc
  | strict _, pc => strict pc
  | window highest seen, pc =>
    let i := (slot highest seen.length pc).toNat
    if i < seen.length then window highest (seen.set i true)
    else
      let shift := i + 1 - seen.length
      let shifted :=
        if shift ≥ seen.length then replicate seen.length false
        else seen.drop shift ++ replicate shift false
      window pc (setLast shifted)

/-- `reset_to`. -/
def resetTo : ReceiverPc → UInt32 → ReceiverPc
  | strict _, pc => strict pc
  | window _ seen, pc => window pc (setLast (replicate seen.length false))

/-! ## What stays rejected -/

theorem lt_length_of_getD {i : Nat} (h : seen.getD i false = true) : i < seen.length := by
  by_contra hge
  rw [getD_eq_default _ _ (by omega)] at h
  cases h

theorem accepts_window_eq_false {highest : UInt32} :
    (window highest seen).accepts pc = false ↔
      slot highest seen.length pc < 0 ∨
        0 ≤ slot highest seen.length pc ∧
          seen.getD (slot highest seen.length pc).toNat false = true := by
  simp only [accepts]
  split_ifs with hneg
  · simp [hneg]
  have hpos : 0 ≤ slot highest seen.length pc := by omega
  constructor
  · intro h
    rw [Bool.or_eq_false_iff] at h
    exact .inr ⟨hpos, by simpa using h.2⟩
  · rintro (h | ⟨-, h⟩)
    · exact absurd h hneg
    · have hlt := lt_length_of_getD h
      rw [h]
      simpa using hlt

@[simp] theorem setLast_length (seen : List Bool) : (setLast seen).length = seen.length := by
  simp [setLast]

theorem getD_setLast_of_true {i : Nat} (h : seen.getD i false = true) :
    (setLast seen).getD i false = true := by
  unfold setLast
  grind

theorem getD_setLast_last (h : 0 < seen.length) :
    (setLast seen).getD (seen.length - 1) false = true := by
  unfold setLast
  grind

theorem slot_self (pc : UInt32) (n : Nat) : slot pc n pc = n - 1 := by
  unfold slot
  omega

theorem window_setLast_self (pc : UInt32) (seen : List Bool) :
    (window pc (setLast seen)).accepts pc = false := by
  rw [accepts_window_eq_false, setLast_length, slot_self]
  rcases Nat.eq_zero_or_pos seen.length with h | h
  · left
    omega
  right
  refine ⟨by omega, ?_⟩
  have hidx : ((seen.length : Int) - 1).toNat = seen.length - 1 := by omega
  rw [hidx]
  exact getD_setLast_last h

theorem accepts_commit_self (s : ReceiverPc) (h : s.accepts pc = true) :
    (s.commit pc).accepts pc = false := by
  cases s with
  | strict v => simp [commit, accepts]
  | window highest seen =>
    simp only [commit]
    split_ifs with hlt
    · rw [accepts_window_eq_false, length_set]
      have hpos : ¬ slot highest seen.length pc < 0 := by
        intro hneg
        simp [accepts, hneg] at h
      right
      refine ⟨by omega, ?_⟩
      grind
    all_goals exact window_setLast_self _ _

theorem accepts_commit_of_rejected (s : ReceiverPc) {q : UInt32} (h : s.accepts pc = true)
    (hq : s.accepts q = false) : (s.commit pc).accepts q = false := by
  cases s with
  | strict v =>
    simp only [accepts, commit, decide_eq_true_eq, decide_eq_false_iff_not] at *
    exact fun hlt => hq (UInt32.lt_trans h hlt)
  | window highest seen =>
    have hpos : ¬ slot highest seen.length pc < 0 := by
      intro hneg
      simp [accepts, hneg] at h
    rw [accepts_window_eq_false] at hq
    simp only [commit]
    split_ifs with hlt hbig
    · rw [accepts_window_eq_false, length_set]
      rcases hq with hq | ⟨hq0, hq⟩
      · exact .inl hq
      · refine .inr ⟨hq0, ?_⟩
        grind
    · -- the window moves past everything it held
      rw [accepts_window_eq_false, setLast_length, length_replicate]
      left
      have hle : slot highest seen.length q < seen.length := by
        rcases hq with hq | ⟨hq0, hq⟩
        · omega
        · have := lt_length_of_getD hq
          omega
      unfold slot at *
      omega
    · have hshift : (slot highest seen.length pc).toNat + 1 - seen.length =
          (pc.toNat - highest.toNat : Int).toNat := by
        unfold slot at *
        omega
      set shift := (slot highest seen.length pc).toNat + 1 - seen.length with hs
      have hlen : (seen.drop shift ++ replicate shift false).length = seen.length := by
        simp
        omega
      rw [accepts_window_eq_false, setLast_length, hlen]
      have hslot : slot pc seen.length q = slot highest seen.length q - shift := by
        unfold slot at *
        omega
      rw [hslot]
      rcases hq with hq | ⟨hq0, hq⟩
      · left
        omega
      by_cases hneg : slot highest seen.length q - shift < 0
      · exact .inl hneg
      refine .inr ⟨by omega, getD_setLast_of_true ?_⟩
      have hidx : (slot highest seen.length q - shift).toNat =
          (slot highest seen.length q).toNat - shift := by omega
      have hlt' := lt_length_of_getD hq
      rw [hidx]
      grind

theorem accepts_resetTo_self (s : ReceiverPc) (pc : UInt32) :
    (s.resetTo pc).accepts pc = false := by
  cases s with
  | strict v => simp [resetTo, accepts]
  | window highest seen => exact window_setLast_self _ _

end ReceiverPc

end LibRouting.Babel
