/-
  Foundation/Outcome.lean --- computations that return, fail or panic, and the
  cursor loop of a hand-written decoder.

  An indexing expression of the modelled language aborts the thread when the
  index is out of range.  `Outcome` keeps that case apart from an ordinary
  error, so "this decoder never panics" is a statement about its result and not
  an assumption of the model.

  `scan` is the loop `while i < bytes.len() { .. }` in which every turn reads an
  entry at the cursor and advances it.  Its rule says what the loop returns in
  terms of a grammar for one turn: `scan_ok_iff` for results, `scan_abort_iff`
  for panics.  A turn that does not advance would spin forever; the loop reports
  it as `abort` too, so a proof that `abort` is impossible is also a proof of
  termination.
-/
import LibRouting.Foundation.Bytes

set_option autoImplicit false

namespace LibRouting.Foundation

variable {ε δ α β σ : Type}

/-- The result of a fallible computation in a language whose indexing panics. -/
inductive Outcome (ε α : Type) where
  | ok (value : α)
  | err (error : ε)
  | abort
  deriving DecidableEq, Repr

namespace Outcome
variable {x : Outcome ε α} {a : α} {b : β} {f : α → Outcome ε β}

/-- Sequencing: the first error or abort wins. -/
def bind (x : Outcome ε α) (f : α → Outcome ε β) : Outcome ε β :=
  match x with
  | ok a => f a
  | err e => err e
  | abort => abort

instance : Monad (Outcome ε) where
  pure := ok
  bind := bind

/-- `Result::map_err`. -/
def mapErr (f : ε → δ) : Outcome ε α → Outcome δ α
  | ok a => ok a
  | err e => err (f e)
  | abort => abort

/-- The outcome of a computation whose error the caller inspects. -/
def attempt : Outcome ε α → Outcome δ (Except ε α)
  | ok a => ok (.ok a)
  | err e => ok (.error e)
  | abort => abort

/-- The value, when there is one. -/
def toOption : Outcome ε α → Option α
  | ok a => some a
  | _ => none

@[simp] theorem toOption_eq_some : x.toOption = some a ↔ x = ok a := by
  cases x <;> simp [toOption]

/-- Whether a computation returns a value with a decidable property can be read
off its result. -/
instance decidableReturns {p : α → Prop} [DecidablePred p] :
    (x : Outcome ε α) → Decidable (∃ a, x = ok a ∧ p a)
  | ok a => decidable_of_iff (p a) (by simp)
  | err _ => isFalse (by simp)
  | abort => isFalse (by simp)

@[simp] theorem pure_eq_ok (a : α) : (pure a : Outcome ε α) = ok a := rfl

@[simp] theorem ok_bind (a : α) (f : α → Outcome ε β) : (ok a >>= f) = f a := rfl

@[simp] theorem err_bind (e : ε) (f : α → Outcome ε β) :
    ((err e : Outcome ε α) >>= f) = err e := rfl

@[simp] theorem abort_bind (f : α → Outcome ε β) : ((abort : Outcome ε α) >>= f) = abort := rfl

@[simp] theorem map_ok (f : α → β) (a : α) : f <$> (ok a : Outcome ε α) = ok (f a) := rfl

@[simp] theorem map_err (f : α → β) (e : ε) : f <$> (err e : Outcome ε α) = err e := rfl

@[simp] theorem map_abort (f : α → β) : f <$> (abort : Outcome ε α) = abort := rfl

theorem map_eq_ok {f : α → β} : f <$> x = ok b ↔ ∃ a, x = ok a ∧ f a = b := by
  cases x <;> simp

theorem bind_eq_ok : (x >>= f) = ok b ↔ ∃ a, x = ok a ∧ f a = ok b := by
  cases x <;> simp

theorem bind_eq_abort : (x >>= f) = abort ↔ x = abort ∨ ∃ a, x = ok a ∧ f a = abort := by
  cases x <;> simp

@[simp] theorem mapErr_eq_ok {f : ε → δ} : x.mapErr f = ok a ↔ x = ok a := by
  cases x <;> simp [mapErr]

@[simp] theorem mapErr_eq_abort {f : ε → δ} : x.mapErr f = abort ↔ x = abort := by
  cases x <;> simp [mapErr]

end Outcome

open Outcome List

variable {i j : Nat} {b : Bytes}

/-! ## Indexing -/

section

variable (bytes : Bytes) (i : Nat)

/-- `bytes[i]`. -/
def index : Outcome ε UInt8 :=
  match bytes[i]? with
  | some b => ok b
  | none => abort

/-- `bytes[i..j]`. -/
def slice (i j : Nat) : Outcome ε Bytes :=
  if i ≤ j ∧ j ≤ bytes.length then ok ((bytes.drop i).take (j - i)) else abort

/-- `u16::from_be_bytes([bytes[i], bytes[i + 1]])`. -/
def readBe16 : Outcome ε UInt16 := do
  let a ← index bytes i
  let b ← index bytes (i + 1)
  pure (fromBe16 a b)

/-- `u32::from_be_bytes([bytes[i], .., bytes[i + 3]])`. -/
def readBe32 : Outcome ε UInt32 := do
  let a ← index bytes i
  let b ← index bytes (i + 1)
  let c ← index bytes (i + 2)
  let d ← index bytes (i + 3)
  pure (fromBe32 a b c d)

@[simp] theorem index_nil : (index [] i : Outcome ε UInt8) = abort := by
  simp [index]

end

@[simp] theorem index_cons_zero (b : UInt8) (bs : Bytes) :
    (index (b :: bs) 0 : Outcome ε UInt8) = ok b := rfl

@[simp] theorem index_cons_succ (b : UInt8) (bs : Bytes) (i : Nat) :
    (index (b :: bs) (i + 1) : Outcome ε UInt8) = index bs i := by
  simp [index]

theorem slice_of_le {bytes : Bytes} (hij : i ≤ j) (hj : j ≤ bytes.length) :
    (slice bytes i j : Outcome ε Bytes) = ok ((bytes.drop i).take (j - i)) := by
  simp [slice, hij, hj]

/-! An access inside `b` does not see what follows `b`. -/

theorem index_append_left (h : i < b.length) (c : Bytes) :
    (index (b ++ c) i : Outcome ε UInt8) = index b i := by
  simp [index, getElem?_append_left h]

theorem slice_append_left (h : j ≤ b.length) (c : Bytes) :
    (slice (b ++ c) i j : Outcome ε Bytes) = slice b i j := by
  by_cases hij : i ≤ j
  · rw [slice_of_le hij h, slice_of_le hij (by simp only [length_append]; omega),
      drop_append_of_le_length (by omega),
      take_append_of_le_length (by simp only [length_drop]; omega)]
  · simp [slice, hij]

theorem readBe16_append_left (h : i + 1 < b.length) (c : Bytes) :
    (readBe16 (b ++ c) i : Outcome ε UInt16) = readBe16 b i := by
  rw [readBe16, readBe16, index_append_left (by omega), index_append_left h]

/-! ## The cursor loop -/

/-- `while i < bytes.len() { .. }`.  `rest` is the input from the cursor `i` on;
one turn returns the new loop state and how far it moved the cursor. -/
def scan (turn : σ → Nat → Bytes → Outcome ε (σ × Nat)) (s : σ) (i : Nat) (rest : Bytes) :
    Outcome ε σ :=
  if _hrest : rest = [] then ok s
  else
    match turn s i rest with
    | ok (s', n) => if 0 < n then scan turn s' (i + n) (rest.drop n) else abort
    | err e => err e
    | abort => abort
termination_by rest.length
decreasing_by
  have := length_pos_iff.mpr _hrest
  simp only [length_drop]
  omega

/-- Consecutive turns of a loop: `Turns G s b s'` when the bytes `b` split into
entries that take the loop state from `s` to `s'`. -/
inductive Turns (G : σ → Bytes → σ → Prop) : σ → Bytes → σ → Prop where
  | nil (s : σ) : Turns G s [] s
  | cons {s₁ s₂ s₃ : σ} {b bs : Bytes} :
      G s₁ b s₂ → Turns G s₂ bs s₃ → Turns G s₁ (b ++ bs) s₃

theorem Turns.first {G : σ → Bytes → σ → Prop} {s s' : σ} (h : Turns G s b s') :
    (b = [] ∧ s' = s) ∨ ∃ c cs m, b = c ++ cs ∧ G s c m ∧ Turns G m cs s' := by
  cases h with
  | nil => exact .inl ⟨rfl, rfl⟩
  | cons hg hrest => exact .inr ⟨_, _, _, rfl, hg, hrest⟩

/-- One turn accepts exactly the entries of the grammar `G`, consumes exactly
the entry's bytes, and never accepts an empty entry. -/
def Accepts (turn : σ → Nat → Bytes → Outcome ε (σ × Nat)) (G : σ → Bytes → σ → Prop) : Prop :=
  ∀ s i rest s' n, rest ≠ [] →
    (turn s i rest = ok (s', n) ↔
      ∃ b r, rest = b ++ r ∧ b.length = n ∧ 0 < n ∧ G s b s')

section Scan

variable {turn : σ → Nat → Bytes → Outcome ε (σ × Nat)} {G : σ → Bytes → σ → Prop} {s s' : σ}
  {i : Nat} {rest : Bytes}

@[simp] theorem scan_nil (s : σ) (i : Nat) : scan turn s i [] = ok s := by
  rw [scan]; simp

theorem scan_of_ok {n : Nat} (hrest : rest ≠ []) (hn : 0 < n) (hturn : turn s i rest = ok (s', n)) :
    scan turn s i rest = scan turn s' (i + n) (rest.drop n) := by
  rw [scan]; simp [hrest, hturn, hn]

theorem scan_of_abort (hrest : rest ≠ []) (hturn : turn s i rest = abort) :
    scan turn s i rest = abort := by
  rw [scan]; simp [hrest, hturn]

theorem scan_of_err {e : ε} (hrest : rest ≠ []) (hturn : turn s i rest = err e) :
    scan turn s i rest = err e := by
  rw [scan]; simp [hrest, hturn]

/-- A turn of the loop over an input that starts with an entry consumes that
entry. -/
theorem scan_append (hacc : Accepts turn G) {b r : Bytes} (hb : b ≠ []) (hG : G s b s') (i : Nat) :
    scan turn s i (b ++ r) = scan turn s' (i + b.length) r := by
  have hlen : 0 < b.length := length_pos_iff.mpr hb
  have hturn : turn s i (b ++ r) = ok (s', b.length) :=
    (hacc s i (b ++ r) s' b.length (by simp [hb])).mpr ⟨b, r, rfl, rfl, hlen, hG⟩
  rw [scan_of_ok (by simp [hb]) hlen hturn, drop_left]

/-- The loop over the entries `b` followed by any input `r` reaches `r` with the
state the entries produce. -/
theorem scan_turns_append (hacc : Accepts turn G) (hne : ∀ s b s', G s b s' → b ≠ []) {b : Bytes}
    (h : Turns G s b s') (r : Bytes) (i : Nat) :
    scan turn s i (b ++ r) = scan turn s' (i + b.length) r := by
  induction h generalizing i with
  | nil s => simp
  | cons hG _ ih =>
    rw [append_assoc, scan_append hacc (hne _ _ _ hG) hG, ih, length_append,
      Nat.add_assoc]

/-- The loop returns `s'` exactly on the inputs that split into entries leading
to `s'`. -/
theorem scan_ok_iff (hacc : Accepts turn G) (hne : ∀ s b s', G s b s' → b ≠ []) (s : σ) (i : Nat)
    (rest : Bytes) (s' : σ) : scan turn s i rest = ok s' ↔ Turns G s rest s' := by
  constructor
  · intro h
    -- along the turns of the loop
    fun_induction scan turn s i rest with
    | case1 =>
      cases h
      exact .nil _
    | case2 s i rest hrest s₂ n hturn hn ih =>
      obtain ⟨b, r, rfl, rfl, -, hG⟩ := (hacc s i rest s₂ n hrest).mp hturn
      rw [drop_left] at ih h
      exact .cons hG (ih h)
    | case3 | case4 | case5 => cases h
  · intro h
    have happ := scan_turns_append hacc hne h [] i
    rwa [append_nil, scan_nil] at happ

/-- The loop panics exactly when, after some entries, one turn panics. -/
theorem scan_abort_iff (hacc : Accepts turn G) (hne : ∀ s b s', G s b s' → b ≠ [])
    {Stuck : Bytes → Prop} (hstuck : ∀ s i rest, rest ≠ [] → (turn s i rest = abort ↔ Stuck rest))
    (s : σ) (i : Nat) (rest : Bytes) :
    scan turn s i rest = abort ↔
      ∃ entries tail s', rest = entries ++ tail ∧ tail ≠ [] ∧ Turns G s entries s' ∧
        Stuck tail := by
  constructor
  · intro h
    fun_induction scan turn s i rest with
    | case1 | case4 => cases h
    | case2 s i rest hrest s₂ n hturn hn ih =>
      obtain ⟨b, r, rfl, rfl, -, hG⟩ := (hacc s i rest s₂ n hrest).mp hturn
      rw [drop_left] at ih h
      obtain ⟨entries, tail, s', rfl, htail, hturns, hst⟩ := ih h
      exact ⟨b ++ entries, tail, s', by simp, htail, .cons hG hturns, hst⟩
    | case3 s i rest hrest s₂ n hturn hn =>
      obtain ⟨-, -, -, -, hpos, -⟩ := (hacc s i rest s₂ n hrest).mp hturn
      exact absurd hpos hn
    | case5 s i rest hrest hturn =>
      exact ⟨[], rest, s, rfl, hrest, .nil s, (hstuck s i rest hrest).mp hturn⟩
  · rintro ⟨entries, tail, s', rfl, htail, hturns, hst⟩
    rw [scan_turns_append hacc hne hturns]
    exact scan_of_abort htail ((hstuck s' _ tail htail).mpr hst)

end Scan

end LibRouting.Foundation
