/-
  Foundation/ShortestPath.lean --- least path costs, and the search that computes them.

  The search keeps a tentative distance per vertex and a heap of vertices to visit.  A
  visit relaxes the edges of one vertex at its current distance.  Whatever the order of
  the visits, the heap runs empty, and what is left then are the least path costs.
-/
import Mathlib.Algebra.Order.Ring.Nat
import Mathlib.Data.List.Basic
import Mathlib.Data.List.Perm.Basic
import Mathlib.Data.Nat.Find
import Mathlib.Order.Basic

set_option autoImplicit false

namespace LibRouting.Foundation

open List Option

open Std (ExtTreeMap LawfulEqOrd TransOrd)

universe u v

/-! ## Paths -/

section Paths

variable {V : Type u}

/-- There is a path of the given cost from `a`, over the edges `E`. -/
inductive Path (E : V → V → Nat → Prop) (a : V) : V → Nat → Prop where
  | refl : Path E a a 0
  | snoc {v w : V} {d c : Nat} (p : Path E a v d) (e : E v w c) : Path E a w (d + c)

/-- The least cost of the paths from `a` to a vertex. -/
def IsDist (E : V → V → Nat → Prop) (a v : V) (d : Nat) : Prop :=
  Path E a v d ∧ ∀ d', Path E a v d' → d ≤ d'

variable {E F : V → V → Nat → Prop} {a v : V} {d d' : Nat}

theorem Path.mono (h : ∀ v w c, E v w c → F v w c) (p : Path E a v d) : Path F a v d := by
  induction p with
  | refl => exact .refl
  | snoc _ e ih => exact .snoc ih (h _ _ _ e)

theorem isDist_self : IsDist E a a d ↔ d = 0 := by
  constructor
  · intro h
    exact Nat.le_zero.mp (h.2 0 .refl)
  · rintro rfl
    exact ⟨.refl, fun _ _ => Nat.zero_le _⟩

theorem Path.exists_isDist (p : Path E a v d) : ∃ d' ≤ d, IsDist E a v d' := by
  classical
  have hex : ∃ d, Path E a v d := ⟨d, p⟩
  exact ⟨Nat.find hex, Nat.find_min' hex p, Nat.find_spec hex, fun _ hp => Nat.find_min' hex hp⟩

/-- Two edge relations, one inside the other, give the same least costs exactly when the
larger one shortens no path. -/
theorem isDist_eq_iff (h : ∀ v w c, E v w c → F v w c) :
    (∀ v d, IsDist F a v d ↔ IsDist E a v d) ↔ ∀ v d, Path F a v d → ∃ d' ≤ d, Path E a v d' := by
  constructor
  · intro heq v d p
    obtain ⟨d', hle, hd'⟩ := p.exists_isDist
    exact ⟨d', hle, ((heq v d').mp hd').1⟩
  · intro hle v d
    constructor
    · rintro ⟨p, hmin⟩
      obtain ⟨d', hd', p'⟩ := hle v d p
      obtain rfl : d' = d := Nat.le_antisymm hd' (hmin d' (p'.mono h))
      exact ⟨p', fun d'' p'' => hmin d'' (p''.mono h)⟩
    · rintro ⟨p, hmin⟩
      refine ⟨p.mono h, fun d'' p'' => ?_⟩
      obtain ⟨d', hd', p'⟩ := hle v d'' p''
      exact (hmin d' p').trans hd'

end Paths

/-! ## The heap -/

section Heap

variable {α : Type u} (before : α → α → Bool)

/-- Take the first element out of a list, in the order `before`. -/
def popFirst : List α → Option (α × List α)
  | [] => none
  | x :: xs =>
    match popFirst xs with
    | none => some (x, [])
    | some (y, rest) => if before y x then some (y, x :: rest) else some (x, y :: rest)

variable {before}

theorem popFirst_eq_none {l : List α} (h : popFirst before l = none) : l = [] := by
  revert h
  fun_cases popFirst before l with
  | case1 => exact fun _ => rfl
  | case2 | case3 | case4 => exact nofun

theorem popFirst_perm {l rest : List α} {x : α} (h : popFirst before l = some (x, rest)) :
    l.Perm (x :: rest) := by
  fun_induction popFirst before l generalizing x rest with
  | case1 => cases h
  | case2 y l hpop =>
    cases h
    rw [popFirst_eq_none hpop]
  | case3 y l z l' hpop _ ih =>
    cases h
    exact ((ih hpop).cons y).trans (.swap _ _ _)
  | case4 y l z l' hpop _ ih =>
    cases h
    exact (ih hpop).cons y

end Heap

/-! ## Tentative distances -/

/-- The distances found so far and the vertices to visit. -/
structure Frontier (V : Type u) [Ord V] where
  dist : ExtTreeMap V Nat compare
  heap : List (V × Nat)

/-- A graph with finitely many vertices that edges lead to. -/
structure Graph (V : Type u) where
  edges : V → List (V × Nat)
  targets : List V
  closed : ∀ v, ∀ e ∈ edges v, e.1 ∈ targets

namespace Graph

variable {V : Type u}

/-- An edge and its cost. -/
def Edge (g : Graph V) (v w : V) (c : Nat) : Prop := (w, c) ∈ g.edges v

end Graph

namespace Frontier

variable {V : Type u} [Ord V] [TransOrd V] {f : Frontier V} {edges : List (V × Nat)} {w : V}
  {x : Nat} {targets : List V}

/-- Only the root, at distance 0. -/
def start (root : V) : Frontier V := ⟨(∅ : ExtTreeMap V Nat compare).insert root 0, [(root, 0)]⟩

section

variable (f : Frontier V) (v : V) (d : Nat)

/-- The distance `d` improves on what is known of `v`. -/
def improves : Bool :=
  match f.dist[v]? with
  | none => true
  | some prev => d < prev

/-- An improvement is recorded and its vertex is to be visited. -/
def relax : Frontier V :=
  if f.improves v d then ⟨f.dist.insert v d, (v, d) :: f.heap⟩ else f

/-- Relax edges from a vertex at distance `d`. -/
def expand (edges : List (V × Nat)) (d : Nat) : Frontier V :=
  edges.foldl (fun f e => f.relax e.1 (d + e.2)) f

theorem relax_heap : (f.relax v d).heap = if f.improves v d then (v, d) :: f.heap else f.heap := by
  rw [relax]
  split <;> rfl

end

/-- A loop that relaxes an edge at each turn, or skips it, expands the edges. -/
theorem front_foldl {σ : Type v} {α : Type} {front : σ → Frontier V} {turn : σ → α → σ}
    {edge : α → Option (V × Nat)} {d : Nat}
    (h : ∀ s x, front (turn s x) = (edge x).elim (front s) fun e => (front s).relax e.1 (d + e.2))
    (xs : List α) (s : σ) : front (xs.foldl turn s) = (front s).expand (xs.filterMap edge) d := by
  rw [expand, foldl_filterMap]
  refine (foldl_hom _ fun s x => ?_).symm
  rw [h]
  cases edge x <;> rfl

theorem mem_relax_heap {v : V} {d : Nat} {x : V × Nat} (h : x ∈ f.heap) :
    x ∈ (f.relax v d).heap := by
  rw [relax_heap]
  split
  case isTrue => exact mem_cons_of_mem _ h
  case isFalse => exact h

theorem mem_expand_heap {d : Nat} {x : V × Nat} (h : x ∈ f.heap) : x ∈ (f.expand edges d).heap := by
  induction edges generalizing f with
  | nil => exact h
  | cons e edges ih => exact ih (mem_relax_heap h)

variable [LawfulEqOrd V] [DecidableEq V]

theorem relax_dist (f : Frontier V) (v w : V) (d : Nat) :
    (f.relax v d).dist[w]? = if f.improves v d ∧ v = w then some d else f.dist[w]? := by
  rw [relax]
  cases himp : f.improves v d with
  | false => simp
  | true => simp [ExtTreeMap.getElem?_insert]

/-- The vertex is known to be no further away than `d`. -/
def Within (f : Frontier V) (v : V) (d : Nat) : Prop := ∃ y ≤ d, f.dist[v]? = some y

theorem Within.relax {v : V} {d : Nat} (h : f.Within w x) : (f.relax v d).Within w x := by
  obtain ⟨y, hy, h⟩ := h
  rw [Within, relax_dist]
  split
  case isTrue hcond =>
    obtain ⟨himp, rfl⟩ := hcond
    rw [improves, h] at himp
    exact ⟨d, (Nat.le_of_lt (of_decide_eq_true himp)).trans hy, rfl⟩
  case isFalse => exact ⟨y, hy, h⟩

theorem relax_self (f : Frontier V) (v : V) (d : Nat) : (f.relax v d).Within v d := by
  rw [Within, relax_dist]
  cases himp : f.improves v d with
  | true => exact ⟨d, Nat.le_refl d, by simp⟩
  | false =>
    rw [improves] at himp
    cases hv : f.dist[v]? with
    | none => simp [hv] at himp
    | some x =>
      rw [hv] at himp
      exact ⟨x, Nat.le_of_not_lt (of_decide_eq_false himp), by simp⟩

theorem Within.expand {d : Nat} (h : f.Within w x) : (f.expand edges d).Within w x := by
  induction edges generalizing f with
  | nil => exact h
  | cons e edges ih => exact ih h.relax

theorem expand_edge {d c : Nat} (h : (w, c) ∈ edges) : (f.expand edges d).Within w (d + c) := by
  induction edges generalizing f with
  | nil => cases h
  | cons e edges ih =>
    cases h with
    | head => exact (f.relax_self w (d + c)).expand
    | tail _ h => exact ih h

/-- A distance that a visit changes comes from an edge, and its vertex is to be visited. -/
theorem expand_cases {d : Nat} (h : (f.expand edges d).dist[w]? = some x) :
    f.dist[w]? = some x ∨ (∃ c, (w, c) ∈ edges ∧ x = d + c) ∧ (w, x) ∈ (f.expand edges d).heap := by
  induction edges generalizing f with
  | nil => exact .inl h
  | cons e edges ih =>
    obtain hrelax | ⟨⟨c, hc, rfl⟩, hheap⟩ := ih h
    · rw [relax_dist] at hrelax
      split at hrelax
      case isTrue hcond =>
        obtain ⟨himp, rfl⟩ := hcond
        obtain rfl := some.inj hrelax
        have hmem : (e.1, d + e.2) ∈ (f.relax e.1 (d + e.2)).heap := by
          rw [relax_heap, if_pos himp]
          exact mem_cons_self
        have hexpand : (e.1, d + e.2) ∈ ((f.relax e.1 (d + e.2)).expand edges d).heap :=
          mem_expand_heap hmem
        exact .inr ⟨⟨e.2, mem_cons_self, rfl⟩, hexpand⟩
      case isFalse => exact .inl hrelax
    · exact .inr ⟨⟨c, mem_cons_of_mem e hc, rfl⟩, hheap⟩

/-- What a visit puts into the heap is no nearer than its vertex is known to be. -/
theorem expand_heap_le {d : Nat} (hf : ∀ x ∈ f.heap, f.Within x.1 x.2) :
    ∀ x ∈ (f.expand edges d).heap, (f.expand edges d).Within x.1 x.2 := by
  induction edges generalizing f with
  | nil => exact hf
  | cons e edges ih =>
    refine ih fun x hx => ?_
    rw [relax_heap] at hx
    split at hx
    case isTrue =>
      cases hx with
      | head => exact relax_self f e.1 (d + e.2)
      | tail _ hx => exact (hf x hx).relax
    case isFalse => exact (hf x hx).relax

/-! ## Progress -/

/-- How many of the targets have no distance yet. -/
def unknown (targets : List V) (f : Frontier V) : Nat :=
  targets.countP fun v => f.dist[v]?.isNone

/-- The sum of the distances of the targets. -/
def total (targets : List V) (f : Frontier V) : Nat :=
  (targets.map fun v => f.dist[v]?.getD 0).sum

/-- In `f'` fewer targets are unknown, or the known ones are nearer. -/
def Nearer (targets : List V) (f' f : Frontier V) : Prop :=
  f'.unknown targets < f.unknown targets ∨
    f'.unknown targets = f.unknown targets ∧ f'.total targets < f.total targets

omit [LawfulEqOrd V] [DecidableEq V] in
theorem Nearer.trans {f' f'' : Frontier V} (h : Nearer targets f'' f') (h' : Nearer targets f' f) :
    Nearer targets f'' f := by
  simp only [Nearer] at *
  omega

theorem unknown_relax {v : V} (hv : f.dist[v]? = none) (d : Nat) (targets : List V) :
    (f.relax v d).unknown targets + targets.countP (v = ·) = f.unknown targets := by
  have himp : f.improves v d = true := by simp [improves, hv]
  induction targets with
  | nil => rfl
  | cons t targets ih =>
    simp only [unknown, countP_cons, relax_dist, himp, true_and] at ih ⊢
    by_cases ht : v = t
    · subst ht
      simp only [if_true, decide_true, isNone_some, hv, isNone_none,
        Bool.false_eq_true, if_false]
      omega
    · simp only [ht, if_false, decide_false, Bool.false_eq_true]
      omega

/-- A smaller distance leaves the unknown vertices as they are and lowers the sum. -/
theorem total_relax {v : V} {d : Nat} (hv : f.dist[v]? = some x) (hd : d < x) (targets : List V) :
    (f.relax v d).unknown targets = f.unknown targets ∧
      (f.relax v d).total targets + targets.countP (v = ·) ≤ f.total targets := by
  have himp : f.improves v d = true := by simp [improves, hv, hd]
  induction targets with
  | nil => exact ⟨rfl, Nat.le_refl _⟩
  | cons t targets ih =>
    simp only [unknown, total, countP_cons, map_cons, sum_cons, relax_dist, himp,
      true_and] at ih ⊢
    by_cases ht : v = t
    · subst ht
      simp only [if_true, decide_true, isNone_some, hv, getD_some,
        Bool.false_eq_true, if_false]
      omega
    · simp only [ht, if_false, decide_false, Bool.false_eq_true]
      omega

theorem relax_progress {v : V} {d : Nat} (hv : v ∈ targets) :
    f.relax v d = f ∨ Nearer targets (f.relax v d) f := by
  have hcount : 0 < targets.countP (v = ·) := countP_pos_iff.mpr ⟨v, hv, by simp⟩
  cases himp : f.improves v d with
  | false =>
    left
    rw [relax, himp]
    rfl
  | true =>
    right
    cases hx : f.dist[v]? with
    | none =>
      have := unknown_relax hx d targets
      left
      omega
    | some x =>
      rw [improves, hx] at himp
      have := total_relax hx (of_decide_eq_true himp) targets
      right
      omega

/-- A visit changes nothing or brings the targets nearer. -/
theorem expand_progress (hedges : ∀ e ∈ edges, e.1 ∈ targets) (f : Frontier V) (d : Nat) :
    f.expand edges d = f ∨ Nearer targets (f.expand edges d) f := by
  induction edges generalizing f with
  | nil => exact .inl rfl
  | cons e edges ih =>
    have hrelax := relax_progress (f := f) (d := d + e.2) (hedges e mem_cons_self)
    have hrest := ih (fun e' he' => hedges e' (mem_cons_of_mem e he')) (f.relax e.1 (d + e.2))
    have hcons : f.expand (e :: edges) d = (f.relax e.1 (d + e.2)).expand edges d := rfl
    rw [hcons]
    obtain heq | hnear := hrelax
    · rw [heq] at hrest ⊢
      exact hrest
    right
    obtain heq | hnear' := hrest
    · rw [heq]
      exact hnear
    · exact hnear'.trans hnear

end Frontier

/-! ## The search -/

/-- A search over states that hold a frontier among other things.  A visit relaxes the
edges of the graph; entries of the heap that are out of date may be skipped. -/
structure Search (V : Type u) (σ : Type v) [Ord V] [TransOrd V] where
  graph : Graph V
  front : σ → Frontier V
  setHeap : σ → List (V × Nat) → σ
  visit : σ → V → Nat → σ
  before : V × Nat → V × Nat → Bool
  skipStale : Bool
  front_setHeap : ∀ s heap, front (setHeap s heap) = ⟨(front s).dist, heap⟩
  front_visit : ∀ s v d, front (visit s v d) = (front s).expand (graph.edges v) d

namespace Search

variable {V : Type u} {σ : Type v} [Ord V] [TransOrd V] (S : Search V σ) {s s' : σ} {root : V}

/-- Visit the first vertex of the heap at its current distance. -/
def step (s : σ) : Option σ :=
  match popFirst S.before (S.front s).heap with
  | none => none
  | some (x, rest) =>
    match (S.front s).dist[x.1]? with
    | none => some (S.setHeap s rest)
    | some d =>
      if S.skipStale && d < x.2 then some (S.setHeap s rest)
      else some (S.visit (S.setHeap s rest) x.1 d)

/-- What a step does to the frontier. -/
inductive Moves (f f' : Frontier V) : Prop where
  | skip (x : V × Nat) (rest : List (V × Nat)) (perm : f.heap.Perm (x :: rest))
      (stale : f.dist[x.1]? ≠ some x.2) (eq : f' = ⟨f.dist, rest⟩)
  | visit (x : V × Nat) (rest : List (V × Nat)) (d : Nat) (perm : f.heap.Perm (x :: rest))
      (dist : f.dist[x.1]? = some d)
      (eq : f' = Frontier.expand ⟨f.dist, rest⟩ (S.graph.edges x.1) d)

variable {S}

theorem step_moves (h : S.step s = some s') : S.Moves (S.front s) (S.front s') := by
  revert h
  fun_cases step S s with
  | case1 => exact nofun
  | case2 x rest hpop hd =>
    rintro ⟨⟩
    exact .skip x rest (popFirst_perm hpop) (by simp [hd]) (S.front_setHeap s rest)
  | case3 x rest hpop d hd hstale =>
    rintro ⟨⟩
    refine .skip x rest (popFirst_perm hpop) ?_ (S.front_setHeap s rest)
    simp only [Bool.and_eq_true, decide_eq_true_eq] at hstale
    rw [hd, ne_eq, some.injEq]
    omega
  | case4 x rest hpop d hd =>
    rintro ⟨⟩
    refine .visit x rest d (popFirst_perm hpop) hd ?_
    rw [S.front_visit, S.front_setHeap]

/-- A step takes an entry out of the heap and may visit its vertex. -/
theorem step_cases (h : S.step s = some s') :
    ∃ rest, s' = S.setHeap s rest ∨ ∃ v d, s' = S.visit (S.setHeap s rest) v d := by
  revert h
  fun_cases step S s with
  | case1 => exact nofun
  | case2 x rest | case3 x rest =>
    rintro ⟨⟩
    exact ⟨rest, .inl rfl⟩
  | case4 x rest _ d =>
    rintro ⟨⟩
    exact ⟨rest, .inr ⟨x.1, d, rfl⟩⟩

theorem heap_of_step_none (h : S.step s = none) : (S.front s).heap = [] := by
  revert h
  fun_cases step S s with
  | case1 hpop => exact fun _ => popFirst_eq_none hpop
  | case2 | case3 | case4 => exact nofun

/-- A step brings the targets nearer or shortens the heap. -/
theorem step_decreases [LawfulEqOrd V] (h : S.step s = some s') :
    Frontier.Nearer S.graph.targets (S.front s') (S.front s) ∨
      ((S.front s').dist = (S.front s).dist ∧
        (S.front s').heap.length < (S.front s).heap.length) := by
  classical
  have hlen {x : V × Nat} {rest : List (V × Nat)}
      (hperm : (S.front s).heap.Perm (x :: rest)) : rest.length < (S.front s).heap.length := by
    rw [hperm.length_eq]
    exact Nat.lt_succ_self _
  cases step_moves h with
  | skip x rest hperm _ heq =>
    rw [heq]
    exact .inr ⟨rfl, hlen hperm⟩
  | visit x rest d hperm _ heq =>
    rw [heq]
    obtain hsame | hnear := Frontier.expand_progress (S.graph.closed x.1)
      ⟨(S.front s).dist, rest⟩ d
    · rw [hsame]
      exact .inr ⟨rfl, hlen hperm⟩
    · exact .inl hnear

variable (S)

/-- Step until the heap is empty. -/
def run [LawfulEqOrd V] (s : σ) : σ :=
  match _h : S.step s with
  | none => s
  | some s' => run s'
termination_by ((S.front s).unknown S.graph.targets, (S.front s).total S.graph.targets,
  (S.front s).heap.length)
decreasing_by
  have hdec := step_decreases _h
  simp only [Prod.lex_def, Frontier.Nearer] at hdec ⊢
  obtain (hlt | ⟨heq, hlt⟩) | ⟨heq, hlt⟩ := hdec
  · exact .inl hlt
  · exact .inr ⟨heq, .inl hlt⟩
  · refine .inr ⟨?_, .inr ⟨?_, hlt⟩⟩
    · simp only [Frontier.unknown, heq]
    · simp only [Frontier.total, heq]

/-- At most `n` steps. -/
def runFor : Nat → σ → σ
  | 0, s => s
  | n + 1, s =>
    match S.step s with
    | none => s
    | some s' => runFor n s'

variable {S} [LawfulEqOrd V]

theorem run_of_none (h : S.step s = none) : S.run s = s := by
  rw [run]
  split
  case h_1 => rfl
  case h_2 s' hsome =>
    rw [h] at hsome
    cases hsome

theorem run_of_some (h : S.step s = some s') : S.run s = S.run s' := by
  rw [run]
  split
  case h_1 hnone =>
    rw [h] at hnone
    cases hnone
  case h_2 s'' hsome =>
    rw [h] at hsome
    cases hsome
    rfl

/-- A bounded run that has come to its end is the run. -/
theorem run_eq_runFor (n : Nat) (s : σ) (h : S.step (S.runFor n s) = none) :
    S.run s = S.runFor n s := by
  induction n generalizing s with
  | zero => exact run_of_none h
  | succ n ih =>
    rw [runFor] at h ⊢
    cases hstep : S.step s with
    | none => exact run_of_none hstep
    | some s' =>
      rw [hstep] at h
      rw [run_of_some hstep]
      exact ih s' h

/-- What every step preserves holds at the end, and then the heap is empty. -/
theorem run_invariant {P : σ → Prop} (hstep : ∀ s s', P s → S.step s = some s' → P s') (s : σ)
    (hs : P s) : P (S.run s) ∧ (S.front (S.run s)).heap = [] := by
  induction s using run.induct S with
  | case1 s hnone =>
    rw [run_of_none hnone]
    exact ⟨hs, heap_of_step_none hnone⟩
  | case2 s s' hsome ih =>
    rw [run_of_some hsome]
    exact ih (hstep s s' hs hsome)

/-! ## Correctness -/

/-- Distances are path costs, and every vertex is to be visited or its edges are
respected. -/
structure Labels (g : Graph V) (root : V) (f : Frontier V) : Prop where
  sound : ∀ v d, f.dist[v]? = some d → Path g.Edge root v d
  root : f.dist[root]? = some 0
  heap : ∀ x ∈ f.heap, ∃ d ≤ x.2, f.dist[x.1]? = some d
  edges : ∀ v d, f.dist[v]? = some d → (v, d) ∈ f.heap ∨
    ∀ w c, g.Edge v w c → ∃ d' ≤ d + c, f.dist[w]? = some d'

theorem start_dist {v : V} {d : Nat} (h : (Frontier.start root).dist[v]? = some d) :
    v = root ∧ d = 0 := by
  simp only [Frontier.start, ExtTreeMap.getElem?_insert] at h
  split at h
  case isTrue heq =>
    obtain rfl := LawfulEqOrd.eq_of_compare heq
    cases h
    exact ⟨rfl, rfl⟩
  case isFalse => simp at h

theorem labels_start (g : Graph V) (root : V) : Labels g root (.start root) where
  sound v d h := by
    obtain ⟨rfl, rfl⟩ := start_dist h
    exact .refl
  root := by simp [Frontier.start]
  heap x hx := by
    simp only [Frontier.start, mem_singleton] at hx
    subst hx
    exact ⟨0, Nat.le_refl 0, by simp [Frontier.start]⟩
  edges v d h := by
    obtain ⟨rfl, rfl⟩ := start_dist h
    exact .inl mem_cons_self

theorem Labels.moves {f f' : Frontier V} (hf : Labels S.graph root f) (hmoves : S.Moves f f') :
    Labels S.graph root f' := by
  classical
  cases hmoves with
  | skip x rest hperm hstale heq =>
    subst heq
    refine ⟨hf.sound, hf.root, fun y hy => hf.heap y (hperm.mem_iff.mpr (.tail _ hy)), ?_⟩
    intro v d hv
    refine (hf.edges v d hv).imp_left fun hmem => ?_
    -- the entry taken out was not this vertex's distance
    cases hperm.mem_iff.mp hmem with
    | head => exact absurd hv hstale
    | tail _ hmem => exact hmem
  | visit x rest d hperm hd heq =>
    subst heq
    refine ⟨fun v e hv => ?_, ?_, ?_, fun v e hv => ?_⟩
    · obtain hold | ⟨⟨c, hc, rfl⟩, -⟩ := Frontier.expand_cases hv
      · exact hf.sound v e hold
      · exact .snoc (hf.sound x.1 d hd) hc
    · have hroot : Frontier.Within ⟨f.dist, rest⟩ root 0 := ⟨0, Nat.le_refl 0, hf.root⟩
      obtain ⟨e, hle, he⟩ : (Frontier.expand ⟨f.dist, rest⟩ (S.graph.edges x.1) d).Within root 0 :=
        hroot.expand
      rwa [Nat.le_zero.mp hle] at he
    · exact Frontier.expand_heap_le fun y hy => hf.heap y (hperm.mem_iff.mpr (.tail _ hy))
    · obtain hold | ⟨-, hheap⟩ := Frontier.expand_cases hv
      · by_cases hvx : v = x.1
        · -- the visited vertex: its edges have just been relaxed
          subst hvx
          have hde : e = d := some.inj (hold.symm.trans hd)
          subst hde
          exact .inr fun w c hc => Frontier.expand_edge hc
        · obtain hmem | hedges := hf.edges v e hold
          · cases hperm.mem_iff.mp hmem with
            | head => exact absurd rfl hvx
            | tail _ hmem => exact .inl (Frontier.mem_expand_heap hmem)
          · exact .inr fun w c hc => Frontier.Within.expand (hedges w c hc)
      · exact .inl hheap

omit [LawfulEqOrd V] in
/-- With nothing left to visit no path is shorter than the distance found. -/
theorem Labels.complete {g : Graph V} {f : Frontier V} (hf : Labels g root f) (hheap : f.heap = [])
    {v : V} {c : Nat} (p : Path g.Edge root v c) : ∃ d ≤ c, f.dist[v]? = some d := by
  induction p with
  | refl => exact ⟨0, Nat.le_refl 0, hf.root⟩
  | snoc p e ih =>
    obtain ⟨d, hle, hd⟩ := ih
    obtain hmem | hedges := hf.edges _ d hd
    · rw [hheap] at hmem
      cases hmem
    · obtain ⟨d', hle', hd'⟩ := hedges _ _ e
      exact ⟨d', hle'.trans (Nat.add_le_add_right hle _), hd'⟩

theorem run_dist_iff (hs : S.front s = .start root) (v : V) (d : Nat) :
    (S.front (S.run s)).dist[v]? = some d ↔ IsDist S.graph.Edge root v d := by
  have hstart : Labels S.graph root (S.front s) := hs ▸ labels_start S.graph root
  obtain ⟨hlabels, hheap⟩ := run_invariant (P := fun s => Labels S.graph root (S.front s))
    (fun s s' hs h => hs.moves (step_moves h)) s hstart
  constructor
  · intro hd
    refine ⟨hlabels.sound v d hd, fun c p => ?_⟩
    obtain ⟨d', hle, hd'⟩ := hlabels.complete hheap p
    rw [hd] at hd'
    cases hd'
    exact hle
  · rintro ⟨p, hmin⟩
    obtain ⟨d', hle, hd'⟩ := hlabels.complete hheap p
    rw [hd', Nat.le_antisymm hle (hmin d' (hlabels.sound v d' hd'))]

end Search

end LibRouting.Foundation
