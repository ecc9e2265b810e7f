/-
  Foundation/RadixTrie.lean --- path-compressed tries over an arbitrary alphabet.

  A node carries a segment of key letters, the items whose key ends with that
  segment, and one child per letter.  `Mem` says what a trie stores, as pairs of a key
  and an item; `mem_insert` and `covers_iff` say that insertion adds exactly one such
  pair and that the walk along a query meets exactly those stored under its initial
  segments.  `WellRooted` is what both need: the child kept under a letter begins
  with that letter.
-/
import Mathlib.Data.List.Basic
import Mathlib.Logic.Function.Basic

set_option autoImplicit false

namespace LibRouting.Foundation

open Function List

variable {κ α : Type}

/-! ## How two keys overlap -/

/-- The four ways in which a segment and a key can lie to each other. -/
inductive Overlap : List κ → List κ → Prop
  | same (s : List κ) : Overlap s s
  | longer (s : List κ) (c : κ) (rest : List κ) : Overlap s (s ++ c :: rest)
  | shorter (k : List κ) (b : κ) (rest : List κ) : Overlap (k ++ b :: rest) k
  | apart (p : List κ) (b c : κ) (hne : b ≠ c) (s k : List κ) :
      Overlap (p ++ b :: s) (p ++ c :: k)

theorem Overlap.cons {s k : List κ} (a : κ) (h : Overlap s k) : Overlap (a :: s) (a :: k) := by
  cases h with
  | same => exact .same _
  | longer _ c rest => exact .longer (a :: s) c rest
  | shorter _ b rest => exact .shorter (a :: k) b rest
  | apart p b c hne s k => exact .apart (a :: p) b c hne s k

theorem Overlap.total [DecidableEq κ] (s k : List κ) : Overlap s k := by
  induction s generalizing k with
  | nil =>
    cases k with
    | nil => exact .same []
    | cons c rest => exact .longer [] c rest
  | cons b s ih =>
    cases k with
    | nil => exact .shorter [] b s
    | cons c k =>
      by_cases hbc : b = c
      · subst hbc
        exact (ih k).cons b
      · exact .apart [] b c hbc s k

theorem not_append_cons_isPrefix (k : List κ) (b : κ) (rest : List κ) : ¬ k ++ b :: rest <+: k := by
  intro h
  have hle := h.length_le
  simp only [length_append, length_cons] at hle
  omega

/-- How many leading letters two lists share. -/
def agree [DecidableEq κ] : List κ → List κ → Nat
  | b :: s, c :: k => if b = c then agree s k + 1 else 0
  | _, _ => 0

theorem agree_append [DecidableEq κ] (p s k : List κ) :
    agree (p ++ s) (p ++ k) = p.length + agree s k := by
  induction p with
  | nil => simp
  | cons b p ih =>
    simp only [cons_append, agree, if_true, ih, length_cons]
    omega

/-! ## Tries -/

/-- A path-compressed trie.  `empty` is a missing child or a missing root. -/
inductive RadixTrie (κ α : Type) where
  | empty
  | node (segment : List κ) (items : List α) (child : κ → RadixTrie κ α)

namespace RadixTrie

/-- A node without children. -/
def leaf (key : List κ) (a : α) : RadixTrie κ α := .node key [a] fun _ => .empty

/-- Insertion: the key ends at the node, goes on below it, ends inside the segment, or
leaves the segment on the way. -/
def insert [DecidableEq κ] : RadixTrie κ α → List κ → α → RadixTrie κ α
  | .empty, key, a => leaf key a
  | .node segment items child, key, a =>
    match segment.drop (agree segment key), key.drop (agree segment key) with
    | [], [] => .node segment (items ++ [a]) child
    | [], c :: rest =>
      .node segment items (update child c ((child c).insert (c :: rest) a))
    | b :: rest, [] =>
      .node key [a] (update (fun _ => .empty) b (.node (b :: rest) items child))
    | b :: s, c :: k =>
      .node (segment.take (agree segment key)) []
        (update (update (fun _ => .empty) c (leaf (c :: k) a)) b
          (.node (b :: s) items child))

section Insert

variable [DecidableEq κ] (items : List α) (child : κ → RadixTrie κ α) (a : α)

theorem agree_nil_right (s : List κ) : agree s [] = 0 := by
  cases s <;> rfl

theorem agree_nil_left (k : List κ) : agree [] k = 0 := rfl

theorem insert_same (s : List κ) :
    (node s items child).insert s a = .node s (items ++ [a]) child := by
  have hj : agree s s = s.length := by
    simpa [agree_nil_left] using agree_append s [] []
  simp [insert, hj]

theorem insert_longer (s : List κ) (c : κ) (rest : List κ) :
    (node s items child).insert (s ++ c :: rest) a =
      .node s items (update child c ((child c).insert (c :: rest) a)) := by
  have hj : agree s (s ++ c :: rest) = s.length := by
    simpa [agree_nil_left] using agree_append s [] (c :: rest)
  simp [insert, hj]

theorem insert_shorter (k : List κ) (b : κ) (rest : List κ) :
    (node (k ++ b :: rest) items child).insert k a =
      .node k [a] (update (fun _ => .empty) b (.node (b :: rest) items child)) := by
  have hj : agree (k ++ b :: rest) k = k.length := by
    simpa [agree_nil_right] using agree_append k (b :: rest) []
  simp [insert, hj]

theorem insert_apart (p : List κ) {b c : κ} (hne : b ≠ c) (s k : List κ) :
    (node (p ++ b :: s) items child).insert (p ++ c :: k) a =
      .node p [] (update (update (fun _ => .empty) c (leaf (c :: k) a)) b
        (.node (b :: s) items child)) := by
  have hj : agree (p ++ b :: s) (p ++ c :: k) = p.length := by
    rw [agree_append]
    simp [agree, hne]
  simp [insert, hj]

end Insert
variable {path : List κ} {x : α} {t : RadixTrie κ α} {items : List α} {child : κ → RadixTrie κ α}

/-! ## What a trie stores -/

/-- The trie stores `a` under the key. -/
def Mem : RadixTrie κ α → List κ → α → Prop
  | .empty, _, _ => False
  | .node segment items child, key, a =>
    (key = segment ∧ a ∈ items) ∨
      ∃ c rest, key = segment ++ c :: rest ∧ (child c).Mem (c :: rest) a

@[simp] theorem not_mem_empty (key : List κ) (a : α) : ¬ (empty : RadixTrie κ α).Mem key a :=
  fun h => h

theorem mem_leaf {key : List κ} {a : α} : (leaf key a).Mem path x ↔ path = key ∧ x = a := by
  simp [leaf, Mem]

theorem mem_cut {p : List κ} {b : κ} {s : List κ} :
    (node (p ++ b :: s) items child).Mem path x ↔
      ∃ rest, path = p ++ b :: rest ∧ (node (b :: s) items child).Mem (b :: rest) x := by
  constructor
  · rintro (⟨rfl, hx⟩ | ⟨c, rest, rfl, h⟩)
    · exact ⟨s, rfl, .inl ⟨rfl, hx⟩⟩
    · exact ⟨s ++ c :: rest, by simp, .inr ⟨c, rest, rfl, h⟩⟩
  · rintro ⟨rest, rfl, ⟨hrest, hx⟩ | ⟨c, rest', hrest, h⟩⟩
    · exact .inl ⟨by rw [hrest], hx⟩
    · exact .inr ⟨c, rest', by rw [hrest, append_assoc], h⟩

theorem mem_update [DecidableEq κ] {p : List κ} {b : κ} :
    (node p items (update child b t)).Mem path x ↔
      (path = p ∧ x ∈ items) ∨ (∃ rest, path = p ++ b :: rest ∧ t.Mem (b :: rest) x) ∨
        ∃ d ≠ b, ∃ rest, path = p ++ d :: rest ∧ (child d).Mem (d :: rest) x :=
  or_congr_right (exists_update_iff child fun d t =>
    ∃ rest, path = p ++ d :: rest ∧ t.Mem (d :: rest) x)

/-- Insertion adds the pair it is given and nothing else. -/
theorem mem_insert [DecidableEq κ] (t : RadixTrie κ α) (key : List κ) (a : α) (path : List κ)
    (x : α) : (t.insert key a).Mem path x ↔ (path = key ∧ x = a) ∨ t.Mem path x := by
  induction t generalizing key path with
  | empty => simp [insert, mem_leaf]
  | node segment items child ih =>
    cases Overlap.total segment key with
    | same =>
      rw [insert_same]
      simp only [Mem, mem_append, mem_singleton]
      tauto
    | longer _ c rest =>
      rw [insert_longer, mem_update]
      simp only [ih]
      constructor
      · rintro (h | ⟨rest', rfl, ⟨hrest, rfl⟩ | h⟩ | ⟨d, -, rest', rfl, h⟩)
        · exact .inr (.inl h)
        · exact .inl ⟨by rw [hrest], rfl⟩
        · exact .inr (.inr ⟨c, rest', rfl, h⟩)
        · exact .inr (.inr ⟨d, rest', rfl, h⟩)
      · rintro (⟨rfl, rfl⟩ | h | ⟨d, rest', rfl, h⟩)
        · exact .inr (.inl ⟨rest, rfl, .inl ⟨rfl, rfl⟩⟩)
        · exact .inl h
        · by_cases hdc : d = c
          · subst hdc
            exact .inr (.inl ⟨rest', rfl, .inr h⟩)
          · exact .inr (.inr ⟨d, hdc, rest', rfl, h⟩)
    | shorter _ b rest => simp [insert_shorter, mem_cut, mem_update]
    | apart p b c hne s k =>
      rw [insert_apart _ _ _ _ hne, mem_cut, mem_update, exists_update_iff _
        fun d (t : RadixTrie κ α) => d ≠ b ∧ ∃ rest, path = p ++ d :: rest ∧ t.Mem (d :: rest) x]
      simp [mem_leaf, hne.symm, or_comm]

/-! ## The child under a letter begins with that letter -/

/-- The trie is empty or its segment begins with the letter. -/
def Begins (c : κ) : RadixTrie κ α → Prop
  | .empty => True
  | .node segment _ _ => segment.head? = some c

/-- Every child begins with the letter it is kept under, at every depth. -/
def WellRooted : RadixTrie κ α → Prop
  | .empty => True
  | .node _ _ child => ∀ c, (child c).Begins c ∧ (child c).WellRooted

theorem wellRooted_leaf (key : List κ) (a : α) : (leaf key a).WellRooted :=
  fun _ => ⟨trivial, trivial⟩

theorem wellRooted_update [DecidableEq κ] {c : κ} (ht : t.Begins c ∧ t.WellRooted)
    (h : ∀ c, (child c).Begins c ∧ (child c).WellRooted) :
    ∀ d, (update child c t d).Begins d ∧ (update child c t d).WellRooted :=
  (forall_update_iff child fun d t => t.Begins d ∧ t.WellRooted).mpr ⟨ht, fun d _ => h d⟩

theorem Begins.insert [DecidableEq κ] {c : κ} (h : t.Begins c) (rest : List κ) (a : α) :
    (t.insert (c :: rest) a).Begins c := by
  cases t with
  | empty => exact rfl
  | node segment items child =>
    generalize hkey : c :: rest = key
    cases Overlap.total segment key with
    | same =>
      rw [insert_same]
      exact h
    | longer _ d rest' =>
      rw [insert_longer]
      exact h
    | shorter _ b rest' =>
      rw [insert_shorter, ← hkey]
      exact rfl
    | apart p b d hne s k =>
      rw [insert_apart _ _ _ _ hne]
      cases p with
      | nil =>
        -- an empty shared part would make both begin with the same letter
        have hb : b = c := by simpa [Begins] using h
        have hd : c = d := (List.cons.inj hkey).1
        exact (hne (hb.trans hd)).elim
      | cons e p =>
        simpa [Begins] using h

theorem WellRooted.insert [DecidableEq κ] (h : t.WellRooted) (key : List κ) (a : α) :
    (t.insert key a).WellRooted := by
  induction t generalizing key with
  | empty => exact wellRooted_leaf key a
  | node segment items child ih =>
    cases Overlap.total segment key with
    | same =>
      rw [insert_same]
      exact h
    | longer _ c rest =>
      rw [insert_longer]
      exact wellRooted_update ⟨(h c).1.insert rest a, ih c (h c).2 _⟩ h
    | shorter _ b rest =>
      rw [insert_shorter]
      exact wellRooted_update ⟨rfl, h⟩ fun _ => ⟨trivial, trivial⟩
    | apart p b c hne s k =>
      rw [insert_apart _ _ _ _ hne]
      exact wellRooted_update ⟨rfl, h⟩
        (wellRooted_update ⟨rfl, wellRooted_leaf _ a⟩ fun _ => ⟨trivial, trivial⟩)

/-! ## The walk along a query -/

/-- Does the walk along `query` meet an item that passes the test?  The test is given
the depth at which the item's key ends, counted from `depth`. -/
def covers [DecidableEq κ] (test : Nat → α → Bool) : RadixTrie κ α → Nat → List κ → Bool
  | .empty, _, _ => false
  | .node segment items child, depth, query =>
    segment.isPrefixOf query &&
      (items.any (test (depth + segment.length)) ||
        match query.drop segment.length with
        | [] => false
        | c :: rest => (child c).covers test (depth + segment.length) (c :: rest))

section Covers

variable [DecidableEq κ] (test : Nat → α → Bool) (items : List α) (child : κ → RadixTrie κ α)
  (depth : Nat)

theorem covers_same (s : List κ) :
    (node s items child).covers test depth s = items.any (test (depth + s.length)) := by
  simp [covers]

theorem covers_longer (s : List κ) (c : κ) (rest : List κ) :
    (node s items child).covers test depth (s ++ c :: rest) =
      (items.any (test (depth + s.length)) ||
        (child c).covers test (depth + s.length) (c :: rest)) := by
  simp [covers]

theorem covers_shorter (k : List κ) (b : κ) (rest : List κ) :
    (node (k ++ b :: rest) items child).covers test depth k = false := by
  have hnot : (k ++ b :: rest).isPrefixOf k = false := by
    rw [Bool.eq_false_iff]
    intro h
    exact not_append_cons_isPrefix k b rest (List.isPrefixOf_iff_prefix.mp h)
  simp [covers, hnot]

theorem covers_apart (p : List κ) {b c : κ} (hne : b ≠ c) (s k : List κ) :
    (node (p ++ b :: s) items child).covers test depth (p ++ c :: k) = false := by
  have hnot : (p ++ b :: s).isPrefixOf (p ++ c :: k) = false := by
    rw [Bool.eq_false_iff]
    intro h
    have hp := isPrefixOf_iff_prefix.mp h
    rw [prefix_append_right_inj, cons_prefix_cons] at hp
    exact hne hp.1
  simp [covers, hnot]

end Covers
variable {c : κ} {t : RadixTrie κ α} {path : List κ} {x : α}

theorem Begins.head_eq (h : t.Begins c) (hm : t.Mem path x) : path.head? = some c := by
  cases t with
  | empty => exact (not_mem_empty _ _ hm).elim
  | node segment items child =>
    rcases hm with ⟨rfl, -⟩ | ⟨d, rest, rfl, -⟩
    · exact h
    · cases segment with
      | nil => simp [Begins] at h
      | cons b s => simpa [Begins] using h

theorem WellRooted.mem_child {segment : List κ} (h : (node segment items child).WellRooted)
    (hm : (child c).Mem path x) :
    (node segment items child).Mem (segment ++ path) x := by
  have hhead := (h c).1.head_eq hm
  cases path with
  | nil => simp at hhead
  | cons d rest =>
    obtain rfl : d = c := by simpa using hhead
    exact .inr ⟨d, rest, rfl, hm⟩

/-- The walk meets exactly what is stored under an initial segment of the query. -/
theorem covers_iff [DecidableEq κ] (test : Nat → α → Bool) (h : t.WellRooted) (depth : Nat)
    (query : List κ) :
    t.covers test depth query = true ↔
      ∃ path x, path <+: query ∧ t.Mem path x ∧ test (depth + path.length) x = true := by
  induction t generalizing depth query with
  | empty => simp [covers]
  | node segment items child ih =>
    cases Overlap.total segment query with
    | same =>
      rw [covers_same, any_eq_true]
      constructor
      · rintro ⟨x, hx, ht⟩
        exact ⟨segment, x, prefix_rfl, .inl ⟨rfl, hx⟩, ht⟩
      · rintro ⟨path, x, hp, ⟨rfl, hx⟩ | ⟨c, rest, rfl, -⟩, ht⟩
        · exact ⟨x, hx, ht⟩
        · exact (not_append_cons_isPrefix segment c rest hp).elim
    | longer _ c rest =>
      rw [covers_longer, Bool.or_eq_true, any_eq_true, ih c (h c).2]
      constructor
      · rintro (⟨x, hx, ht⟩ | ⟨path, x, hp, hm, ht⟩)
        · exact ⟨segment, x, prefix_append _ _, .inl ⟨rfl, hx⟩, ht⟩
        · refine ⟨segment ++ path, x, ?_, WellRooted.mem_child h hm, ?_⟩
          · exact (prefix_append_right_inj segment).mpr hp
          · rwa [length_append, ← Nat.add_assoc]
      · rintro ⟨path, x, hp, ⟨rfl, hx⟩ | ⟨d, path', rfl, hm⟩, ht⟩
        · exact .inl ⟨x, hx, ht⟩
        · have hp' := (prefix_append_right_inj segment).mp hp
          obtain rfl : d = c := (cons_prefix_cons.mp hp').1
          refine .inr ⟨d :: path', x, hp', hm, ?_⟩
          rwa [Nat.add_assoc, ← length_append]
    | shorter _ b rest =>
      rw [covers_shorter]
      refine iff_of_false Bool.false_ne_true ?_
      rintro ⟨path, x, hp, hm, -⟩
      obtain ⟨rest', rfl, -⟩ := mem_cut.mp hm
      exact not_append_cons_isPrefix query b rest' hp
    | apart p b c hne s k =>
      rw [covers_apart _ _ _ _ _ hne]
      refine iff_of_false Bool.false_ne_true ?_
      rintro ⟨path, x, hp, hm, -⟩
      obtain ⟨rest', rfl, -⟩ := mem_cut.mp hm
      rw [prefix_append_right_inj, cons_prefix_cons] at hp
      exact hne hp.1

end RadixTrie

end LibRouting.Foundation
