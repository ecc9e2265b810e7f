/-
  Foundation/WriteBuf.lean --- a bounded write buffer with backpatched lengths.

  An encoder writes fields in order, reserves room for a length it does not know
  yet and patches it afterwards.  `put` is the closed form of all of that: the
  rules below turn a sequence of writes, and a reserve/write/patch group, into a
  single `put` of the bytes they produce.  An encoder's specification is then the
  byte string it equals a `put` of.
-/
import LibRouting.Foundation.Outcome

set_option autoImplicit false

namespace LibRouting.Foundation

open Outcome List

/-- A slice-backed buffer: `written` is the part before the cursor. -/
structure WriteBuf where
  capacity : Nat
  written : Bytes
  fits : written.length ≤ capacity
  deriving Repr

namespace WriteBuf

variable {ε : Type} {full : ε} {b : Bytes} {w w' : WriteBuf}
  {f body : WriteBuf → Outcome ε WriteBuf} {α : Type} {n : Nat} {g : WriteBuf → Outcome ε WriteBuf}
  {c : Bytes} {wire : α → Bytes}

/-- An empty buffer. -/
def new (capacity : Nat) : WriteBuf := ⟨capacity, [], Nat.zero_le _⟩

/-- Room left. -/
def remaining (w : WriteBuf) : Nat := w.capacity - w.written.length

/-- Append `b`, or report `full` and write nothing. -/
def put (full : ε) (b : Bytes) (w : WriteBuf) : Outcome ε WriteBuf :=
  if h : w.written.length + b.length ≤ w.capacity then
    ok ⟨w.capacity, w.written ++ b, by simpa using h⟩
  else err full

/-- Leave room for `n` octets; returns where they start. -/
def reserve (full : ε) (n : Nat) (w : WriteBuf) : Outcome ε (Nat × WriteBuf) := do
  let w' ← put full (replicate n 0) w
  pure (w.written.length, w')

/-- Overwrite the octets at `at_`. -/
def patch (full : ε) (at_ : Nat) (b : Bytes) (w : WriteBuf) : Outcome ε WriteBuf :=
  if w.capacity < at_ + b.length then err full
  else
    ok ⟨w.capacity, (w.written.take at_ ++ b ++ w.written.drop (at_ + b.length)).take
      w.written.length, le_trans (length_take_le _ _) w.fits⟩

theorem put_eq_ok_iff :
    put full b w = ok w' ↔
      w.written.length + b.length ≤ w.capacity ∧ w'.capacity = w.capacity ∧
        w'.written = w.written ++ b := by
  unfold put
  split
  · rename_i h
    obtain ⟨cap, wr, hf⟩ := w'
    simp [h, eq_comm]
  · rename_i h
    simp [h]

@[simp] theorem put_nil (full : ε) (w : WriteBuf) : put full [] w = ok w := by
  rw [put_eq_ok_iff]
  simp [w.fits]

theorem put_of_fits (h : w.written.length + b.length ≤ w.capacity) :
    put full b w = ok ⟨w.capacity, w.written ++ b, by simpa using h⟩ := dif_pos h

theorem put_of_not_fits (h : ¬ w.written.length + b.length ≤ w.capacity) :
    put full b w = err full := dif_neg h

theorem put_bind_put (full : ε) (b c : Bytes) (w : WriteBuf) :
    (put full b w >>= put full c) = put full (b ++ c) w := by
  have hlen : w.written.length + (b ++ c).length = w.written.length + b.length + c.length := by
    simp only [length_append]; omega
  by_cases h : w.written.length + b.length ≤ w.capacity
  · rw [put_of_fits h, ok_bind]
    by_cases h' : w.written.length + b.length + c.length ≤ w.capacity
    · rw [put_of_fits (b := c) (by simpa using h'), put_of_fits (hlen ▸ h')]
      simp
    · rw [put_of_not_fits (b := c) (by simpa using h'), put_of_not_fits (hlen ▸ h')]
  · rw [put_of_not_fits h, put_of_not_fits (by omega), err_bind]

/-- `f` writes exactly `b`. -/
def Writes (full : ε) (f : WriteBuf → Outcome ε WriteBuf) (b : Bytes) : Prop :=
  ∀ w, f w = put full b w

theorem writes_put (full : ε) (b : Bytes) : Writes full (put full b) b := fun _ => rfl

theorem Writes.bind (hf : Writes full f b) (hg : Writes full g c) :
    Writes full (fun w => f w >>= g) (b ++ c) := by
  intro w
  show (f w >>= g) = _
  rw [← put_bind_put, hf w, funext hg]

theorem Writes.put_bind (hf : Writes full f c) (b : Bytes) :
    Writes full (fun w => put full b w >>= f) (b ++ c) :=
  (writes_put full b).bind hf

/-- Writing a list entry by entry. -/
def putAll {α : Type} (f : α → WriteBuf → Outcome ε WriteBuf) :
    List α → WriteBuf → Outcome ε WriteBuf
  | [], w => ok w
  | a :: as, w => f a w >>= putAll f as

theorem writes_putAll {f : α → WriteBuf → Outcome ε WriteBuf} (as : List α)
    (h : ∀ a ∈ as, Writes full (f a) (wire a)) : Writes full (putAll f as) (as.flatMap wire) := by
  induction as with
  | nil => intro w; simp [putAll]
  | cons a as ih =>
    rw [flatMap_cons]
    exact (h a (by simp)).bind (ih fun x hx => h x (by simp [hx]))

theorem patch_reserved (full : ε) (p q len r : Bytes) (capacity : Nat)
    (hlen : len.length = q.length) (hfit : (p ++ q ++ r).length ≤ capacity) :
    patch full p.length len ⟨capacity, p ++ q ++ r, hfit⟩ =
      ok ⟨capacity, p ++ len ++ r, by simpa [hlen] using hfit⟩ := by
  have hcap : ¬ capacity < p.length + len.length := by
    simp only [length_append] at hfit; omega
  have htake : (p ++ q ++ r).take p.length = p := by
    rw [append_assoc, take_left]
  have hdrop : (p ++ q ++ r).drop (p.length + len.length) = r := by
    rw [hlen, ← length_append, drop_left]
  have hall : (p ++ len ++ r).take (p ++ q ++ r).length = p ++ len ++ r := by
    apply take_of_length_le
    simp only [length_append]; omega
  simp only [patch, hcap, if_false, htake, hdrop, hall]

/-- Reserve `n` octets, run `body`, then patch in the field that `value` computes
from where the cursor ended. -/
def backpatched (full : ε) (n : Nat) (body : WriteBuf → Outcome ε WriteBuf)
    (value : WriteBuf → WriteBuf → Bytes) (w : WriteBuf) : Outcome ε WriteBuf := do
  let (at_, start) ← reserve full n w
  let w' ← body start
  patch full at_ (value start w') w'

/-- A backpatched group writes its field and then its body. -/
theorem backpatched_eq (full : ε) (hbody : Writes full body b) {field : Bytes}
    (hfield : field.length = n) (value : WriteBuf → WriteBuf → Bytes) (w : WriteBuf)
    (hvalue : ∀ start w' : WriteBuf, start.written.length = w.written.length + n →
      w'.written.length = w.written.length + n + b.length → value start w' = field) :
    backpatched full n body value w = put full (field ++ b) w := by
  have hzeros : (replicate n (0 : UInt8)).length = n := length_replicate
  have hlen : w.written.length + (field ++ b).length = w.written.length + n + b.length := by
    simp only [length_append]; omega
  by_cases hn : w.written.length + n ≤ w.capacity
  · rw [backpatched, reserve, put_of_fits (by rwa [hzeros])]
    simp only [ok_bind, pure_eq_ok]
    by_cases h : w.written.length + n + b.length ≤ w.capacity
    · rw [put_of_fits (hlen ▸ h), hbody, put_of_fits (by simpa using h), ok_bind,
        hvalue _ _ (by simp) (by simp; omega)]
      simpa using patch_reserved full w.written (replicate n 0) field b w.capacity
        (by rw [hfield, hzeros]) (by simp; omega)
    · rw [put_of_not_fits (hlen ▸ h), hbody, put_of_not_fits (by simpa using h), err_bind]
  · rw [backpatched, reserve, put_of_not_fits (by rwa [hzeros]), put_of_not_fits (by omega)]
    rfl

/-- A group whose field is the length of its body. -/
def withLength (full : ε) (n : Nat) (field : Nat → Bytes)
    (body : WriteBuf → Outcome ε WriteBuf) : WriteBuf → Outcome ε WriteBuf :=
  backpatched full n body fun start w => field (w.written.length - start.written.length)

theorem writes_withLength {field : Nat → Bytes} (hbody : Writes full body b)
    (hfield : (field b.length).length = n) :
    Writes full (withLength full n field body) (field b.length ++ b) := by
  intro w
  refine backpatched_eq full hbody hfield _ w fun start w' hstart hw' => ?_
  rw [hstart, hw', Nat.add_sub_cancel_left]

/-! ## What a successful writer ran -/

theorem putAll_ok {f : α → WriteBuf → Outcome ε WriteBuf} {as : List α}
    (h : putAll f as w = ok w') :
    ∀ a ∈ as, ∃ v v', f a v = ok v' := by
  induction as generalizing w with
  | nil => simp
  | cons a as ih =>
    obtain ⟨v, hv, h⟩ := bind_eq_ok.mp h
    exact forall_mem_cons.mpr ⟨⟨w, v, hv⟩, ih h⟩

theorem backpatched_ok {value : WriteBuf → WriteBuf → Bytes}
    (h : backpatched full n body value w = ok w') : ∃ v v', body v = ok v' := by
  obtain ⟨⟨_, v⟩, -, h⟩ := bind_eq_ok.mp h
  obtain ⟨v', hv', -⟩ := bind_eq_ok.mp h
  exact ⟨v, v', hv'⟩

/-! ## Writers that always fail -/

/-- `f` reports an error whatever the buffer. -/
def Refuses (f : WriteBuf → Outcome ε WriteBuf) : Prop := ∀ w, ∃ e, f w = err e

theorem Refuses.bind (hf : Refuses f) (g : WriteBuf → Outcome ε WriteBuf) :
    Refuses fun w => f w >>= g := by
  intro w
  obtain ⟨e, he⟩ := hf w
  exact ⟨e, by simp only [he, err_bind]⟩

theorem Writes.bind_refuses (hf : Writes full f b) (hg : Refuses g) :
    Refuses fun w => f w >>= g := by
  intro w
  show ∃ e, (f w >>= g) = err e
  rw [hf w]
  by_cases h : w.written.length + b.length ≤ w.capacity
  · rw [put_of_fits h, ok_bind]
    exact hg _
  · exact ⟨full, by rw [put_of_not_fits h, err_bind]⟩

/-- One refused entry refuses the list, when the others are written. -/
theorem putAll_refuses {f : α → WriteBuf → Outcome ε WriteBuf} (as : List α)
    (h : ∀ a ∈ as, Writes full (f a) (wire a) ∨ Refuses (f a)) (hbad : ∃ a ∈ as, Refuses (f a)) :
    Refuses (putAll f as) := by
  induction as with
  | nil => simp at hbad
  | cons a as ih =>
    rcases h a (by simp) with hw | hr
    · by_cases hra : Refuses (f a)
      · exact hra.bind _
      · obtain ⟨b, hb, hrb⟩ := hbad
        refine hw.bind_refuses (ih (fun x hx => h x (by simp [hx])) ⟨b, ?_, hrb⟩)
        rcases mem_cons.mp hb with rfl | hb
        · exact absurd hrb hra
        · exact hb
    · exact hr.bind _

theorem backpatched_refuses (full : ε) (n : Nat) (hbody : Refuses body)
    (value : WriteBuf → WriteBuf → Bytes) : Refuses (backpatched full n body value) := by
  intro w
  by_cases h : w.written.length + (replicate n (0 : UInt8)).length ≤ w.capacity
  · obtain ⟨e, he⟩ := hbody ⟨w.capacity, w.written ++ replicate n 0, by simpa using h⟩
    exact ⟨e, by rw [backpatched, reserve, put_of_fits h]; simp [he]⟩
  · exact ⟨full, by rw [backpatched, reserve, put_of_not_fits h]; rfl⟩

end WriteBuf

end LibRouting.Foundation
