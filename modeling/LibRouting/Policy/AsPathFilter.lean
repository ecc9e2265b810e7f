/-
  Policy/AsPathFilter.lean --- AS-path list patterns (`lr-policy`: `as_path_filter.rs`).

  A path is matched as text: decimal numbers with single spaces between them.  Numbers have
  no spaces in them, so a literal between two boundaries can only match a whole number.
-/
import LibRouting.Core.Addr

set_option autoImplicit false

namespace LibRouting.Policy

open Core List

/-- One compiled pattern token. -/
inductive Tok where
  | lit (text : List Char)
  | bound
  | start
  | atEnd
  deriving DecidableEq

/-- The pending literal, if there is one, before the tokens that follow. -/
def flush (lit : List Char) (toks : List Tok) : List Tok :=
  if lit.isEmpty then toks else .lit lit :: toks

/-- The loop of `compile` with the literal read so far. -/
def compileFrom (lit : List Char) : List Char → List Tok
  | [] => flush lit []
  | ch :: cs =>
    if ch = '_' then flush lit (.bound :: compileFrom [] cs)
    else if ch = '^' then flush lit (.start :: compileFrom [] cs)
    else if ch = '$' then flush lit (.atEnd :: compileFrom [] cs)
    else compileFrom (lit ++ [ch]) cs

/-- `match_from` on a text cut at `pos`; what it returns is the text before the end. -/
def matchFrom : List Tok → List Char → List Char → Option (List Char)
  | [], before, _ => some before
  | .lit l :: toks, before, rest =>
    if l <+: rest then matchFrom toks (before ++ l) (rest.drop l.length) else none
  | .bound :: toks, before, rest =>
    if before.isEmpty || rest.isEmpty then matchFrom toks before rest
    else if rest.head? = some ' ' then matchFrom toks (before ++ [' ']) rest.tail
    else none
  | .start :: toks, before, rest => if before.isEmpty then matchFrom toks before rest else none
  | .atEnd :: toks, before, rest => if rest.isEmpty then matchFrom toks before rest else none

/-- `search`: any start position may match. -/
def search (toks : List Tok) (s : List Char) : Bool :=
  (List.range (s.length + 1)).any fun pos => (matchFrom toks (s.take pos) (s.drop pos)).isSome

/-- `to_string` of a number. -/
def decimal (a : Asn) : List Char := Nat.toDigits 10 a.toNat

/-- The numbers in decimal with a separator between them. -/
def joined (sep : Char) (path : List Asn) : List Char := [sep].intercalate (path.map decimal)

/-- `pattern_matches`. -/
def patternMatches (pattern : List Char) (path : List Asn) : Bool :=
  search (compileFrom [] pattern) (joined ' ' path)

/-! ## Decimal text -/

variable {a b : Asn} {path q : List Asn} {sep : Char} {w r : List Char}

theorem isDigit_of_mem_decimal {c : Char} (h : c ∈ decimal a) : c.isDigit :=
  Nat.isDigit_of_mem_toDigits (by decide) (by decide) h

theorem decimal_inj (h : decimal a = decimal b) : a = b := by
  have hnat := congrArg (Nat.ofDigitChars 10 · 0) h
  simp only [decimal, Nat.ofDigitChars_ten_toDigits] at hnat
  exact UInt32.toNat_inj.mp hnat

/-- The numbers with a separator in front of each. -/
def separated (sep : Char) (path : List Asn) : List Char := path.flatMap (sep :: decimal ·)

theorem joined_cons : joined sep (a :: path) = decimal a ++ separated sep path := by
  induction path generalizing a with
  | nil => simp [joined, intercalate, separated]
  | cons b path ih =>
    have := @ih b
    simp_all [joined, intercalate, separated]

/-- A number ends where the text goes on with a space or not at all. -/
theorem takeWhile_decimal (hr : ∀ c ∈ r.head?, c = ' ') :
    (decimal a ++ r).takeWhile Char.isDigit = decimal a := by
  rw [takeWhile_append_of_pos fun c => isDigit_of_mem_decimal]
  cases r <;> simp_all

/-- A number that is followed by a space or the end is the first of the path. -/
theorem joined_eq_append (h : joined ' ' path = decimal a ++ r) (hr : ∀ c ∈ r.head?, c = ' ') :
    ∃ path', path = a :: path' ∧ r = separated ' ' path' := by
  cases path with
  | nil =>
    have := (append_eq_nil_iff.mp h.symm).1
    exact absurd this Nat.toDigits_ne_nil
  | cons b path =>
    rw [joined_cons] at h
    have hw := congrArg (takeWhile Char.isDigit) h
    rw [takeWhile_decimal hr, takeWhile_decimal (by cases path <;> simp [separated])] at hw
    rw [decimal_inj hw] at h ⊢
    exact ⟨path, rfl, (append_cancel_left h).symm⟩

/-! ## Matching -/

/-- The tokens of the numbers with boundaries between them. -/
def numberToks (back : Tok) : List Asn → List Tok
  | [] => []
  | [a] => [.lit (decimal a), back]
  | a :: q => .lit (decimal a) :: .bound :: numberToks back q

variable {back : Tok} {toks : List Tok} {before : List Char}

theorem append_decimal_ne_nil : before ++ decimal a ≠ [] := by
  simp [decimal, Nat.toDigits_ne_nil]

theorem matchFrom_bound (h : before ≠ []) :
    matchFrom (.bound :: toks) before (separated ' ' path) =
      matchFrom toks (if path = [] then before else before ++ [' ']) (joined ' ' path) := by
  cases path with
  | nil => simp [matchFrom, joined, intercalate, separated]
  | cons b path => simp [matchFrom, joined_cons, separated, h]

/-- A number in front of a boundary matches the number that comes next. -/
theorem matchFrom_lit (hback : back = .bound ∨ back = .atEnd) :
    (matchFrom (.lit (decimal a) :: back :: toks) before (joined ' ' path)).isSome ↔
      ∃ path', path = a :: path' ∧ (matchFrom (back :: toks) (before ++ decimal a)
        (separated ' ' path')).isSome := by
  rw [matchFrom]
  constructor
  · split
    · rename_i hpre
      obtain ⟨r, hr⟩ := hpre
      rw [← hr, drop_left]
      intro h
      have hhead : ∀ c ∈ r.head?, c = ' ' := by
        have hne := @append_decimal_ne_nil a before
        generalize before ++ decimal a = before at h hne
        obtain rfl | rfl := hback <;> cases r <;> simp_all [matchFrom]
        grind
      obtain ⟨path', rfl, rfl⟩ := joined_eq_append hr.symm hhead
      exact ⟨path', rfl, h⟩
    · rintro ⟨⟩
  · rintro ⟨path', rfl, h⟩
    rwa [joined_cons, if_pos (prefix_append _ _), drop_left]

/-- Matched from the start of a number, the tokens match the numbers that come next. -/
theorem matchFrom_numberToks (hback : back = .bound ∨ back = .atEnd) :
    (matchFrom (numberToks back (a :: q)) before (joined ' ' path)).isSome ↔
      ∃ rest, path = a :: q ++ rest ∧ (back = .atEnd → rest = []) := by
  induction q generalizing a path before with
  | nil =>
    rw [numberToks, matchFrom_lit hback]
    refine exists_congr fun rest => and_congr_right fun _ => ?_
    obtain rfl | rfl := hback
    · rw [matchFrom_bound append_decimal_ne_nil]
      simp [matchFrom]
    · cases rest <;> simp [matchFrom, separated]
  | cons b q ih =>
    rw [numberToks, matchFrom_lit (.inl rfl)]
    · simp only [matchFrom_bound append_decimal_ne_nil, ih]
      grind
    · rintro ⟨⟩

/-- A space in the text stands in front of a number. -/
theorem separated_split {x y : List Char} (h : separated ' ' path = x ++ ' ' :: y) :
    ∃ u v, path = u ++ v ∧ y = joined ' ' v := by
  induction path generalizing x with
  | nil => simp [separated] at h
  | cons a path ih =>
    rw [separated, flatMap_cons, cons_append] at h
    cases x with
    | nil =>
      cases h
      exact ⟨[], a :: path, rfl, joined_cons.symm⟩
    | cons c x =>
      obtain ⟨-, h⟩ := cons.inj h
      obtain ⟨z, -, hz⟩ | ⟨_ | ⟨c, z⟩, hx, hy⟩ := append_eq_append_iff.mp h
      · obtain ⟨u, v, rfl, hy⟩ := ih hz
        exact ⟨a :: u, v, rfl, hy⟩
      · obtain ⟨u, v, rfl, hv⟩ := ih (x := []) hy.symm
        exact ⟨a :: u, v, rfl, hv⟩
      · cases hy
        cases isDigit_of_mem_decimal (a := a) (c := ' ') (by simp [hx])

theorem search_iff {s : List Char} :
    search toks s ↔ ∃ x y, s = x ++ y ∧ (matchFrom toks x y).isSome := by
  simp only [search, any_eq_true, mem_range]
  constructor
  · rintro ⟨pos, -, h⟩
    exact ⟨_, _, (take_append_drop pos s).symm, h⟩
  · rintro ⟨x, y, rfl, h⟩
    exact ⟨x.length, by rw [length_append]; omega, by simpa using h⟩

theorem search_start (hback : back = .bound ∨ back = .atEnd) :
    search (.start :: numberToks back (a :: q)) (joined ' ' path) ↔
      ∃ rest, path = a :: q ++ rest ∧ (back = .atEnd → rest = []) := by
  rw [search_iff, ← @matchFrom_numberToks _ _ _ _ [] hback]
  constructor
  · rintro ⟨_ | ⟨c, x⟩, y, hs, h⟩
    · rwa [hs]
    · cases h
  · exact fun h => ⟨[], _, rfl, h⟩

theorem search_bound (hback : back = .bound ∨ back = .atEnd) :
    search (.bound :: numberToks back (a :: q)) (joined ' ' path) ↔
      ∃ u rest, path = u ++ (a :: q ++ rest) ∧ (back = .atEnd → rest = []) := by
  rw [search_iff]
  constructor
  · rintro ⟨x, y, hs, h⟩
    rw [matchFrom] at h
    obtain ⟨u, v, before, rfl, h⟩ : ∃ u v before, path = u ++ v ∧
        (matchFrom (numberToks back (a :: q)) before (joined ' ' v)).isSome := by
      split at h
      · rename_i hends
        obtain hx | hy : x = [] ∨ y = [] := by simpa using hends
        · exact ⟨[], path, x, rfl, by rwa [hs, hx, nil_append, ← hx]⟩
        · exact ⟨path, [], x, by simp, by rwa [hy] at h⟩
      split at h
      · rename_i hspace
        obtain ⟨y, rfl⟩ := head?_eq_some_iff.mp hspace
        cases path with
        | nil => simp [joined, intercalate] at hs
        | cons b path =>
          have hsep : separated ' ' (b :: path) = ' ' :: x ++ ' ' :: y := by
            rw [cons_append, ← hs, joined_cons]
            rfl
          obtain ⟨u, v, huv, rfl⟩ := separated_split hsep
          exact ⟨u, v, _, huv, h⟩
      · cases h
    obtain ⟨rest, rfl, hrest⟩ := (matchFrom_numberToks hback).mp h
    exact ⟨u, rest, rfl, hrest⟩
  · rintro ⟨u, rest, rfl, hrest⟩
    cases u with
    | nil => exact ⟨[], _, rfl, (matchFrom_numberToks hback).mpr ⟨rest, rfl, hrest⟩⟩
    | cons b u =>
      refine ⟨joined ' ' (b :: u), separated ' ' (a :: q ++ rest), ?_, ?_⟩
      · rw [cons_append, joined_cons, joined_cons, separated, flatMap_append, append_assoc]
        rfl
      · rw [matchFrom_bound (by simp [joined_cons, decimal, Nat.toDigits_ne_nil]),
          matchFrom_numberToks hback]
        exact ⟨rest, rfl, hrest⟩

/-- A pattern: the numbers with `_` between them and an anchor on either side. -/
def pattern (front : Char) (q : List Asn) (back : Char) : List Char :=
  front :: joined '_' q ++ [back]

theorem compileFrom_digits {lit : List Char} (hw : ∀ c ∈ w, c.isDigit) :
    compileFrom lit (w ++ r) = compileFrom (lit ++ w) r := by
  induction w generalizing lit with
  | nil => simp
  | cons c w ih =>
    have hne : ∀ d : Char, d.isDigit = false → c ≠ d := by
      rintro d hd rfl
      simp [hw c (.head _)] at hd
    rw [cons_append, compileFrom, if_neg (hne _ rfl), if_neg (hne _ rfl), if_neg (hne _ rfl),
      ih fun c hc => hw c (.tail _ hc), append_assoc]
    rfl

theorem compileFrom_joined {c : Char} (hc : ∀ lit, compileFrom lit [c] = flush lit [back]) :
    compileFrom [] (joined '_' (a :: q) ++ [c]) = numberToks back (a :: q) := by
  have hne (a : Asn) : decimal a ≠ [] := Nat.toDigits_ne_nil
  induction q generalizing a with
  | nil =>
    rw [joined_cons, append_assoc, compileFrom_digits fun _ => isDigit_of_mem_decimal]
    simp [separated, hc, flush, hne, numberToks]
  | cons b q ih =>
    rw [joined_cons, append_assoc, compileFrom_digits fun _ => isDigit_of_mem_decimal, separated,
      flatMap_cons, cons_append, cons_append, compileFrom, if_pos rfl, ← separated, ← joined_cons,
      ih]
    simp [flush, hne, numberToks]

theorem patternMatches_bound {c : Char} (hc : ∀ lit, compileFrom lit [c] = flush lit [back])
    (hback : back = .bound ∨ back = .atEnd) : patternMatches (pattern '_' (a :: q) c) path ↔
      ∃ u rest, path = u ++ (a :: q ++ rest) ∧ (back = .atEnd → rest = []) := by
  rw [← search_bound hback, ← compileFrom_joined hc]
  rfl

theorem patternMatches_start {c : Char} (hc : ∀ lit, compileFrom lit [c] = flush lit [back])
    (hback : back = .bound ∨ back = .atEnd) : patternMatches (pattern '^' (a :: q) c) path ↔
      ∃ rest, path = a :: q ++ rest ∧ (back = .atEnd → rest = []) := by
  rw [← search_start hback, ← compileFrom_joined hc]
  rfl

/-- The four ways to anchor a list of numbers match the paths that contain it in one piece,
are it, begin with it and end with it. -/
theorem patternMatches_iff (a : Asn) (q path : List Asn) :
    (patternMatches (pattern '_' (a :: q) '_') path ↔ a :: q <:+: path) ∧
    (patternMatches (pattern '^' (a :: q) '$') path ↔ path = a :: q) ∧
    (patternMatches (pattern '^' (a :: q) '_') path ↔ a :: q <+: path) ∧
    (patternMatches (pattern '_' (a :: q) '$') path ↔ a :: q <:+ path) := by
  have hend := @patternMatches_bound a path q .atEnd '$' (fun _ => rfl) (.inr rfl)
  have hwhole := @patternMatches_start a path q .atEnd '$' (fun _ => rfl) (.inr rfl)
  rw [patternMatches_bound (fun _ => rfl) (.inl rfl), hwhole,
    patternMatches_start (fun _ => rfl) (.inl rfl), hend]
  simp [IsInfix, IsPrefix, IsSuffix, eq_comm]

end LibRouting.Policy
