/-
  Config/Glob.lean --- interface-name patterns (`lr-cli`: `glob_match`).

  The matcher remembers the last star only.  That is enough: whatever an earlier
  star could still be stretched to, the last one can make up for.
-/
import LibRouting.Foundation.Bytes

set_option autoImplicit false

namespace LibRouting.Config

open Foundation List

/-! ## Patterns and what they match -/

/-- An element of a pattern. -/
inductive Token where
  | star
  | any
  | lit (b : UInt8)
  deriving DecidableEq

/-- The byte strings an element stands for. -/
def Token.Denotes : Token → Bytes → Prop
  | star, _ => True
  | any, a => a.length = 1
  | lit b, a => a = [b]

/-- The name is a concatenation of strings the elements stand for. -/
def Matches : List Token → Bytes → Prop
  | [], s => s = []
  | t :: ts, s => ∃ a b, s = a ++ b ∧ t.Denotes a ∧ Matches ts b

/-- The elements a pattern spells: `?`, `*`, a byte behind a backslash, any other byte.  A
backslash with nothing behind it stands for itself. -/
inductive Spells : Bytes → List Token → Prop where
  | nil : Spells [] []
  | any {p : Bytes} {ts : List Token} : Spells p ts → Spells (63 :: p) (.any :: ts)
  | star {p : Bytes} {ts : List Token} : Spells p ts → Spells (42 :: p) (.star :: ts)
  | escaped {p : Bytes} {ts : List Token} (b : UInt8) :
      Spells p ts → Spells (92 :: b :: p) (.lit b :: ts)
  | dangling : Spells [92] [.lit 92]
  | literal {p : Bytes} {ts : List Token} {b : UInt8} :
      b ≠ 63 → b ≠ 42 → b ≠ 92 → Spells p ts → Spells (b :: p) (.lit b :: ts)

/-! ## The matcher -/

/-- The element a pattern begins with and what is behind it. -/
def nextToken : Bytes → Option (Token × Bytes)
  | [] => none
  | c :: p =>
    if c = 63 then some (.any, p)
    else if c = 42 then some (.star, p)
    else if c = 92 then
      match p with
      | [] => some (.lit c, [])
      | d :: p => some (.lit d, p)
    else some (.lit c, p)

theorem nextToken_length {p p' : Bytes} {t : Token} (h : nextToken p = some (t, p')) :
    p'.length < p.length := by
  revert h
  fun_cases nextToken p <;> rintro ⟨⟩ <;> simp only [length_cons, length_nil] <;> omega

/-- The elements of a pattern. -/
def tokens (p : Bytes) : List Token :=
  match _h : nextToken p with
  | none => []
  | some (t, p') => t :: tokens p'
termination_by p.length
decreasing_by exact nextToken_length _h

theorem tokens_of_some {p p' : Bytes} {t : Token} (h : nextToken p = some (t, p')) :
    tokens p = t :: tokens p' := by
  rw [tokens]
  split <;> simp_all

/-- The matcher takes the pattern apart as it is spelled. -/
theorem spells_iff {p : Bytes} {ts : List Token} : Spells p ts ↔ ts = tokens p := by
  constructor
  · intro h
    induction h with
    | nil =>
      rw [tokens]
      rfl
    | dangling =>
      rw [tokens_of_some rfl, tokens]
      rfl
    | @literal p ts b hany hstar hescape _ ih =>
      have hnext : nextToken (b :: p) = some (.lit b, p) := by
        simp [nextToken, hany, hstar, hescape]
      rw [tokens_of_some hnext, ih]
    | any _ ih | star _ ih | escaped b _ ih => rw [tokens_of_some rfl, ih]
  · rintro rfl
    fun_induction tokens p with
    | case1 p h =>
      revert h
      fun_cases nextToken p <;> simp [Spells.nil]
    | case2 p t p' h ih =>
      revert h
      fun_cases nextToken p with
      | case1 => exact nofun
      | case2 p => rintro ⟨⟩; exact .any ih
      | case3 p => rintro ⟨⟩; exact .star ih
      | case4 => rintro ⟨⟩; rw [tokens]; exact .dangling
      | case5 => rintro ⟨⟩; exact .escaped _ ih
      | case6 b p hany hstar hescape => rintro ⟨⟩; exact .literal hany hstar hescape ih

/-- The element goes with a name that continues with this byte. -/
def Token.accepts (c : UInt8) : Token → Bool
  | lit b => b == c
  | _ => true

/-- The loop of `glob_match` from `p[pi..]` and `s[si..]`.  `star` holds what follows the
last star in the pattern and `s[star_s..si]`, what was read of the name since. -/
def globLoop (p s : Bytes) (star : Option (Bytes × Bytes)) : Bool :=
  match s with
  | [] => (p.dropWhile (· == 42)).isEmpty
  | c :: s =>
    match _h : (nextToken p).filter (·.1.accepts c) with
    | some (.star, p') => globLoop p' (c :: s) (some (p', []))
    | some (_, p') => globLoop p' s (star.map fun (q, since) => (q, since ++ [c]))
    | none =>
      match star with
      | none => false
      | some (q, since) => globLoop q (since ++ c :: s).tail (some (q, []))
termination_by ((star.elim 1 (·.2.length)) + s.length, p.length)
decreasing_by
  · have := nextToken_length (Option.filter_eq_some_iff.mp _h).1
    cases star <;> grind
  · have := nextToken_length (Option.filter_eq_some_iff.mp _h).1
    cases star <;> grind
  · grind

/-- `glob_match`. -/
def globMatch (pattern name : Bytes) : Bool := globLoop pattern name none

/-! ## Correctness -/

variable {p s : Bytes} {q since : Bytes} {ts us : List Token}

theorem matches_append :
    Matches (ts ++ us) s ↔ ∃ a b, s = a ++ b ∧ Matches ts a ∧ Matches us b := by
  induction ts generalizing s with
  | nil => simp [Matches]
  | cons t ts ih =>
    simp only [cons_append, Matches, ih]
    constructor
    · rintro ⟨a, _, rfl, ht, b, c, rfl, hts, hus⟩
      exact ⟨a ++ b, c, by simp, ⟨a, b, rfl, ht, hts⟩, hus⟩
    · rintro ⟨_, c, rfl, ⟨a, b, rfl, ht, hts⟩, hus⟩
      exact ⟨a, b ++ c, by simp, ht, b, c, rfl, hts, hus⟩

/-- Without a star the length of the match is fixed. -/
theorem Matches.length_eq (h : Matches ts s) (hts : .star ∉ ts) : s.length = ts.length := by
  induction ts generalizing s with
  | nil => rw [show s = [] from h, length_nil, length_nil]
  | cons t ts ih =>
    obtain ⟨a, b, rfl, ht, h⟩ := h
    have hlen : a.length = 1 := by cases t <;> grind [Token.Denotes]
    grind

theorem matches_nil_iff : Matches (tokens p) [] ↔ (p.dropWhile (· == 42)).isEmpty := by
  fun_induction tokens p with
  | case1 p h =>
    revert h
    fun_cases nextToken p <;> simp [Matches]
  | case2 p t p' h ih =>
    revert h
    fun_cases nextToken p <;> rintro ⟨⟩ <;> simp_all [Matches, Token.Denotes]

/-- What lies between the last star and `pi` in the pattern is what was read of the name
since, element for byte. -/
def Kept (p : Bytes) (star : Option (Bytes × Bytes)) : Prop :=
  ∀ q since, star = some (q, since) →
    ∃ ts, tokens q = ts ++ tokens p ∧ .star ∉ ts ∧ ts.length = since.length

/-- The last star can be stretched further so that the rest of the pattern matches. -/
def Later (s : Bytes) (star : Option (Bytes × Bytes)) : Prop :=
  ∃ q since, star = some (q, since) ∧ ∃ a b, since ++ s = a ++ b ∧ a ≠ [] ∧ Matches (tokens q) b

/-- Stretching the last star moves the match of what comes after it. -/
theorem Later.exists_matches {star : Option (Bytes × Bytes)} (h : Later s star)
    (hkept : Kept p star) : ∃ a b, s = a ++ b ∧ a ≠ [] ∧ Matches (tokens p) b := by
  obtain ⟨q, since, hstar, a, b, hab, ha, hb⟩ := h
  obtain ⟨ts, hq, hts, hlen⟩ := hkept q since hstar
  rw [hq] at hb
  obtain ⟨x, y, rfl, hx, hy⟩ := matches_append.mp hb
  have hxl := hx.length_eq hts
  have hpos := length_pos_of_ne_nil ha
  rw [← append_assoc] at hab
  obtain ⟨z, hz, rfl⟩ | ⟨z, hz, -⟩ := append_eq_append_iff.mp hab
  · exact ⟨z, y, rfl, by grind, hy⟩
  · grind

theorem matches_cons_iff {t : Token} {c : UInt8} (ht : t ≠ .star) :
    Matches (t :: ts) (c :: s) ↔ t.accepts c ∧ Matches ts s := by
  have hone : ∀ a, t.Denotes a ↔ ∃ b, t.accepts b ∧ a = [b] := by
    cases t <;> simp_all [Token.Denotes, Token.accepts, length_eq_one_iff]
  simp only [Matches, hone]
  constructor
  · rintro ⟨_, b, hs, ⟨_, hd, rfl⟩, h⟩
    cases hs
    exact ⟨hd, h⟩
  · rintro ⟨hc, h⟩
    exact ⟨[c], s, rfl, ⟨c, hc, rfl⟩, h⟩

theorem not_matches_of_filter_none {c : UInt8}
    (h : (nextToken p).filter (·.1.accepts c) = none) : ¬ Matches (tokens p) (c :: s) := by
  cases hnext : nextToken p with
  | none =>
    rw [tokens]
    split <;> simp_all [Matches]
  | some e =>
    have hacc := Option.filter_eq_none_iff.mp h e hnext
    rw [tokens_of_some hnext, matches_cons_iff]
    · exact fun h => hacc h.1
    · rintro heq
      simp [heq, Token.accepts] at hacc

theorem matches_or_later_nil : Matches (tokens q) s ∨ Later s (some (q, [])) ↔
    ∃ a b, s = a ++ b ∧ Matches (tokens q) b := by
  simp only [Later, Option.some.injEq]
  constructor
  · rintro (h | ⟨_, _, ⟨⟩, a, b, hab, -, h⟩)
    · exact ⟨[], s, rfl, h⟩
    · exact ⟨a, b, hab, h⟩
  · rintro ⟨_ | ⟨x, a⟩, b, rfl, h⟩
    · exact .inl h
    · exact .inr ⟨q, [], rfl, x :: a, b, rfl, nofun, h⟩

theorem globLoop_iff {star : Option (Bytes × Bytes)} (hkept : Kept p star) :
    globLoop p s star = true ↔ Matches (tokens p) s ∨ Later s star := by
  fun_induction globLoop p s star with
  | case1 p star =>
    rw [← matches_nil_iff, iff_self_or]
    intro h
    obtain ⟨a, b, hab, ha, -⟩ := h.exists_matches hkept
    exact absurd (append_eq_nil_iff.mp hab.symm).1 ha
  | case2 p star c s p' h ih =>
    -- a later end of an earlier star is a later end of this one
    have hstar : ∀ s, Matches (tokens p) s ↔ ∃ a b, s = a ++ b ∧ Matches (tokens p') b := by
      simp [tokens_of_some (Option.filter_eq_some_iff.mp h).1, Matches, Token.Denotes]
    rw [ih (by simp [Kept]), matches_or_later_nil, or_iff_left_of_imp (b := Later _ _), hstar]
    intro h
    obtain ⟨a, b, hab, -, hb⟩ := h.exists_matches hkept
    obtain ⟨a', b', rfl, hb'⟩ := (hstar b).mp hb
    exact (hstar _).mpr ⟨a ++ a', b', by rw [hab, append_assoc], hb'⟩
  | case3 p star c s t p' ht h ih =>
    obtain ⟨hnext, hacc⟩ := Option.filter_eq_some_iff.mp h
    have htok := tokens_of_some hnext
    rw [htok, matches_cons_iff ht, ih]
    · simp [Later, show t.accepts c = true from hacc]
    · intro q since h
      obtain ⟨⟨q, since⟩, hstar, ⟨⟩⟩ := Option.map_eq_some_iff.mp h
      obtain ⟨ts, hq, hts, hlen⟩ := hkept _ _ hstar
      exact ⟨ts ++ [t], by simp [hq, htok], by simp [hts, Ne.symm ht], by simp [hlen]⟩
  | case4 p c s h => simp [Later, not_matches_of_filter_none h]
  | case5 p c s q since h ih =>
    rw [ih (by simp [Kept]), matches_or_later_nil, or_iff_right (not_matches_of_filter_none h)]
    constructor
    · rintro ⟨a, b, hab, hb⟩
      cases hr : since ++ c :: s with
      | nil => simp at hr
      | cons x r =>
        rw [hr] at hab
        exact ⟨q, since, rfl, x :: a, b, by rw [hr, cons_append, ← hab, tail_cons], nofun, hb⟩
    · rintro ⟨_, _, ⟨⟩, _ | ⟨x, a⟩, b, hab, ha, hb⟩
      · exact absurd rfl ha
      · exact ⟨a, b, by rw [hab, cons_append, tail_cons], hb⟩

/-- The matcher says yes exactly when the pattern matches the whole name. -/
theorem globMatch_iff (pattern name : Bytes) :
    globMatch pattern name = true ↔ ∃ ts, Spells pattern ts ∧ Matches ts name := by
  rw [globMatch, globLoop_iff (by simp [Kept])]
  simp [Later, spells_iff]

end LibRouting.Config
