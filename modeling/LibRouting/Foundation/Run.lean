/-
  Foundation/Run.lean --- runs of a partial, labelled transition function.

  A step may be refused (`none`): the label is not enabled in that state.
-/
import Mathlib.Data.Option.Basic

set_option autoImplicit false

namespace LibRouting.Foundation

universe u v

variable {σ : Type u} {ε : Type v} (step : σ → ε → Option σ) {s s' : σ} {es : List ε} {P : σ → Prop}
  {Q : σ → ε → Prop}

/-- Take the labels one after the other. -/
def exec : σ → List ε → Option σ
  | s, [] => some s
  | s, e :: es =>
    match step s e with
    | none => none
    | some s' => exec s' es

/-- `Q` holds of every state and label along the run. -/
def Along (Q : σ → ε → Prop) : σ → List ε → Prop
  | _, [] => True
  | s, e :: es =>
    Q s e ∧
      match step s e with
      | none => True
      | some s' => Along Q s' es

instance Along.decidable (Q : σ → ε → Prop) [∀ s e, Decidable (Q s e)] :
    ∀ (s : σ) (es : List ε), Decidable (Along step Q s es)
  | _, [] => .isTrue trivial
  | s, e :: es =>
    match h : step s e with
    | none => decidable_of_iff (Q s e) (by simp [Along, h])
    | some s' =>
      have := Along.decidable Q s' es
      decidable_of_iff (Q s e ∧ Along step Q s' es) (by simp [Along, h])

variable {step}

theorem exec_cons {e : ε} :
    exec step s (e :: es) = some s' ↔ ∃ t, step s e = some t ∧ exec step t es = some s' := by
  rw [exec]
  cases step s e with
  | none | some t => simp

/-- What every step that meets `Q` preserves, every run that meets `Q` preserves. -/
theorem exec_invariant (hstep : ∀ s e s', P s → Q s e → step s e = some s' → P s') :
    ∀ {es : List ε} {s s' : σ}, P s → Along step Q s es → exec step s es = some s' → P s'
  | [], s, s', hs, _, h => by
      cases h
      exact hs
  | e :: es, s, s', hs, hQ, h => by
      obtain ⟨t, he, h⟩ := exec_cons.mp h
      obtain ⟨hQe, hQ⟩ := hQ
      rw [he] at hQ
      exact exec_invariant hstep (hstep s e t hs hQe he) hQ h

theorem Along.mono {R : σ → ε → Prop} (h : ∀ s e, Q s e → R s e) :
    ∀ {es : List ε} {s : σ}, Along step Q s es → Along step R s es
  | [], _, _ => trivial
  | e :: es, s, hQ => by
      obtain ⟨hQe, hQ⟩ := hQ
      refine ⟨h s e hQe, ?_⟩
      cases he : step s e with
      | none => trivial
      | some t =>
        rw [he] at hQ
        exact Along.mono h hQ

/-- What holds of every label in every state holds along the run. -/
theorem Along.of_forall : ∀ {es : List ε} {s : σ}, (∀ e ∈ es, ∀ s, Q s e) → Along step Q s es
  | [], _, _ => trivial
  | e :: es, s, hQ => by
      refine ⟨hQ e (.head _) s, ?_⟩
      cases step s e with
      | none => trivial
      | some t => exact Along.of_forall fun e he => hQ e (.tail _ he)

/-- An invariant of the unconditional step. -/
theorem exec_invariant' (hstep : ∀ s e s', P s → step s e = some s' → P s') (hs : P s)
    (h : exec step s es = some s') : P s' :=
  exec_invariant (fun s e s' hs (_ : True) => hstep s e s' hs) hs
    (.of_forall fun _ _ _ => trivial) h

theorem foldlM_cons_some {e : ε} :
    (e :: es).foldlM step s = some s' ↔ ∃ t, step s e = some t ∧ es.foldlM step t = some s' := by
  rw [List.foldlM_cons]
  exact Option.bind_eq_some_iff

/-- A fold keeps what each of its turns keeps. -/
theorem foldlM_invariant (hstep : ∀ e ∈ es, ∀ s s', P s → step s e = some s' → P s') (hs : P s)
    (h : es.foldlM step s = some s') : P s' := by
  induction es generalizing s with
  | nil =>
    cases h
    exact hs
  | cons e es ih =>
    obtain ⟨t, he, h⟩ := foldlM_cons_some.mp h
    exact ih (fun e he' => hstep e (.tail _ he')) (hstep e (.head _) s t hs he) h

end LibRouting.Foundation
