/-
  Foundation/FramedStream.lean --- a receiver that cuts frames off a byte stream.

  The receiver keeps the bytes it has not consumed and looks at them again when
  more arrive.  One look either waits for more bytes, takes a frame, halts
  without consuming anything, or crashes.  When a look that does not wait is not
  changed by bytes that arrive later (`Stable`), the way the stream is cut into
  chunks cannot be observed up to the first closing turn (`through_feedAll`).
-/
import LibRouting.Foundation.Bytes

set_option autoImplicit false

namespace LibRouting.Foundation

open List

variable {σ ω : Type}

/-- One look at the buffer from state `σ`, with the observation it makes. -/
inductive Look (σ ω : Type) where
  | wait
  | take (n : Nat) (s : σ) (o : ω)
  | halt (s : σ) (o : ω)
  | crash

namespace FramedStream

/-- The observations of a run, and the state and buffer it left; `none` when it
crashed. -/
structure Run (σ ω : Type) where
  turns : List ω
  rest : Option (σ × Bytes)

section

variable (os : List ω) (r : Run σ ω)

/-- Put earlier observations in front of a run. -/
def Run.after : Run σ ω := ⟨os ++ r.turns, r.rest⟩

@[simp] theorem Run.after_turns : (r.after os).turns = os ++ r.turns := rfl

@[simp] theorem Run.after_rest : (r.after os).rest = r.rest := rfl

end

theorem Run.after_after (os os' : List ω) (r : Run σ ω) :
    (r.after os').after os = r.after (os ++ os') := by
  simp [Run.after]

/-- Look at the buffer until a look does not take a frame. -/
def feed (look : σ → Bytes → Look σ ω) (s : σ) (buf : Bytes) : Run σ ω :=
  match look s buf with
  | .wait => ⟨[], some (s, buf)⟩
  | .take n s' o =>
    if _h : 0 < n ∧ n ≤ buf.length then (feed look s' (buf.drop n)).after [o] else ⟨[], none⟩
  | .halt s' o => ⟨[o], some (s', buf)⟩
  | .crash => ⟨[], none⟩
termination_by buf.length
decreasing_by
  simp only [length_drop]
  omega

/-- Feed chunk after chunk; the buffer is carried over. -/
def feedAll (look : σ → Bytes → Look σ ω) : σ → Bytes → List Bytes → Run σ ω
  | s, buf, [] => ⟨[], some (s, buf)⟩
  | s, buf, c :: cs =>
    let r := feed look s (buf ++ c)
    match r.rest with
    | none => r
    | some (s', buf') => (feedAll look s' buf' cs).after r.turns

/-- A look that does not wait is final: bytes that arrive later do not change it,
and a frame it takes is there. -/
structure Stable (look : σ → Bytes → Look σ ω) : Prop where
  append : ∀ {s b}, look s b ≠ .wait → ∀ c, look s (b ++ c) = look s b
  take_le : ∀ {s b n s' o}, look s b = .take n s' o → 0 < n ∧ n ≤ b.length

/-! ## One run -/

section Feed

variable {look : σ → Bytes → Look σ ω} {s s' : σ} {buf : Bytes} {closes : ω → Bool} {o : ω}
  {xs : List ω}

theorem feed_take (hst : Stable look) {n : Nat} (h : look s buf = .take n s' o) :
    feed look s buf = (feed look s' (buf.drop n)).after [o] := by
  rw [feed, h]
  simp only [dif_pos (hst.take_le h)]

/-- What every look that does not wait preserves, together with the observations
made so far, a run preserves. -/
theorem feed_invariant {I : σ → Bytes → List ω → Prop}
    (htake : ∀ {s s' : σ} {b : Bytes} {os : List ω} {n : Nat} {o : ω},
      I s b os → look s b = .take n s' o → I s' (b.drop n) (os ++ [o]))
    (hhalt : ∀ {s s' : σ} {b : Bytes} {os : List ω} {o : ω},
      I s b os → look s b = .halt s' o → I s' b (os ++ [o]))
    {b b' : Bytes} {os : List ω} (h : I s b os) (hrest : (feed look s b).rest = some (s', b')) :
    I s' b' (os ++ (feed look s b).turns) := by
  fun_induction feed look s b generalizing os with
  | case1 s b hlook =>
    cases hrest
    simpa using h
  | case2 s b n t o hlook hn ih => simpa using ih (htake h hlook) hrest
  | case3 | case5 => cases hrest
  | case4 s b t o hlook =>
    cases hrest
    exact hhalt h hlook

/-- The turns from the start through the first that closes. -/
def through (closes : ω → Bool) : List ω → List ω
  | [] => []
  | o :: os => if closes o then [o] else o :: through closes os

theorem through_append_of_any (h : xs.any closes = true) (ys : List ω) :
    through closes (xs ++ ys) = through closes xs := by
  induction xs with
  | nil => simp at h
  | cons x xs ih =>
    cases hx : closes x with
    | true => simp [through, hx]
    | false =>
      have hxs : xs.any closes = true := by simpa [hx] using h
      simp [through, hx, ih hxs]

theorem through_append_of_none (h : xs.any closes = false) (ys : List ω) :
    through closes (xs ++ ys) = xs ++ through closes ys := by
  induction xs with
  | nil => rfl
  | cons x xs ih =>
    simp only [any_cons, Bool.or_eq_false_iff] at h
    simp [through, h.1, ih h.2]

/-- What a longer buffer adds to a run: after a closing turn, nothing that shows
before it; otherwise the run goes on where it waited. -/
theorem feed_append (hst : Stable look)
    (hhalt : ∀ {s b s' o}, look s b = .halt s' o → closes o = true) (s : σ) (b c : Bytes) :
    (∃ more, (feed look s (b ++ c)).turns = (feed look s b).turns ++ more ∧
      (feed look s b).turns.any closes = true) ∨
    feed look s (b ++ c) =
      match (feed look s b).rest with
      | none => feed look s b
      | some (s', b') => (feed look s' (b' ++ c)).after (feed look s b).turns := by
  -- along the frames the shorter buffer holds
  fun_induction feed look s b with
  | case1 => exact .inr (by simp [Run.after])
  | case2 s b n s' o hlook hn ih =>
    have hlong := (hst.append (by simp [hlook]) c).trans hlook
    rw [feed_take hst hlong, drop_append_of_le_length hn.2]
    rcases ih with ⟨more, hturns, hany⟩ | hgo
    · exact .inl ⟨more, by simp [hturns], by simp [hany]⟩
    right
    rw [hgo]
    simp only [Run.after_rest, Run.after_turns]
    cases (feed look s' (b.drop n)).rest with
    | none => rfl
    | some r => exact Run.after_after _ _ _
  | case3 s b n s' o hlook hn => exact absurd (hst.take_le hlook) hn
  | case4 s b s' o hlook =>
    have hlong := (hst.append (by simp [hlook]) c).trans hlook
    exact .inl ⟨[], by rw [feed, hlong]; simp, by simp [hhalt hlook]⟩
  | case5 s b hlook =>
    have hlong := (hst.append (by simp [hlook]) c).trans hlook
    exact .inr (by rw [feed, hlong])

end Feed

/-! ## Chunks -/

section Chunks

variable {look : σ → Bytes → Look σ ω} {closes : ω → Bool}

theorem feedAll_singleton (s : σ) (buf c : Bytes) :
    feedAll look s buf [c] = feed look s (buf ++ c) := by
  simp only [feedAll]
  cases hrest : (feed look s (buf ++ c)).rest with
  | none => rfl
  | some r => simp [Run.after, ← hrest]

/-- How the stream is cut shows nowhere through the first closing turn, and
nowhere at all in a run without one. -/
theorem through_feedAll (hst : Stable look)
    (hhalt : ∀ {s b s' o}, look s b = .halt s' o → closes o = true) (s : σ) (buf c : Bytes)
    (cs : List Bytes) :
    through closes (feedAll look s buf (c :: cs)).turns =
        through closes (feed look s (buf ++ (c :: cs).flatten)).turns ∧
      ((feed look s (buf ++ (c :: cs).flatten)).turns.any closes = false →
        feedAll look s buf (c :: cs) = feed look s (buf ++ (c :: cs).flatten)) := by
  induction cs generalizing s buf c with
  | nil => simp [feedAll_singleton]
  | cons c' cs ih =>
    set r := feed look s (buf ++ c) with hr
    have hflat : buf ++ (c :: c' :: cs).flatten = (buf ++ c) ++ (c' :: cs).flatten := by simp
    have hall : feedAll look s buf (c :: c' :: cs) =
        match r.rest with
        | none => r
        | some (s', buf') => (feedAll look s' buf' (c' :: cs)).after r.turns := rfl
    rw [hflat, hall]
    rcases feed_append hst hhalt s (buf ++ c) (c' :: cs).flatten with ⟨more, hmore, hany⟩ | hgo
    · -- the first chunk already closes
      rw [hmore, through_append_of_any hany]
      refine ⟨?_, fun hnone => ?_⟩
      · cases r.rest with
        | none => rfl
        | some p => exact through_append_of_any hany _
      · simp only [any_append, hany, Bool.true_or] at hnone
        cases hnone
    · rw [hgo, ← hr]
      cases r.rest with
      | none => exact ⟨rfl, fun _ => rfl⟩
      | some p =>
        obtain ⟨hthrough, heq⟩ := ih p.1 p.2 c'
        simp only [Run.after_turns]
        cases hany : r.turns.any closes with
        | true =>
          rw [through_append_of_any hany, through_append_of_any hany]
          refine ⟨rfl, fun hnone => ?_⟩
          simp only [any_append, hany, Bool.true_or] at hnone
          cases hnone
        | false =>
          rw [through_append_of_none hany, through_append_of_none hany, hthrough]
          refine ⟨rfl, fun hnone => ?_⟩
          rw [heq (by simpa [hany] using hnone)]

end Chunks

/-! ## After a closing turn -/

section Closed

variable {look : σ → Bytes → Look σ ω} {closes : ω → Bool} {Done : σ → Prop} {quiet : ω → Prop}

/-- A look that makes an observation, whether or not it consumes a frame. -/
def Observes (look : σ → Bytes → Look σ ω) (s : σ) (b : Bytes) (s' : σ) (o : ω) : Prop :=
  (∃ n, look s b = .take n s' o) ∨ look s b = .halt s' o

/-- Every turn behind a closing one is quiet. -/
def QuietAfter (closes : ω → Bool) (quiet : ω → Prop) : List ω → Prop
  | [] => True
  | o :: os => (closes o = true → ∀ y ∈ os, quiet y) ∧ QuietAfter closes quiet os

theorem quietAfter_append {xs ys : List ω} (hxs : QuietAfter closes quiet xs)
    (hys : QuietAfter closes quiet ys) (hlink : xs.any closes = true → ∀ y ∈ ys, quiet y) :
    QuietAfter closes quiet (xs ++ ys) := by
  induction xs with
  | nil => exact hys
  | cons x xs ih =>
    exact ⟨fun hx => forall_mem_append.mpr ⟨hxs.1 hx, hlink (by simp [hx])⟩,
      ih hxs.2 fun hany => hlink (by simp [hany])⟩

/-- From a finished state every turn is quiet and the state stays finished. -/
theorem feed_done (hdone : ∀ {s b s' o}, Done s → Observes look s b s' o → Done s' ∧ quiet o)
    (s : σ) (b : Bytes) (hs : Done s) :
    (∀ o ∈ (feed look s b).turns, quiet o) ∧
      ∀ s' b', (feed look s b).rest = some (s', b') → Done s' := by
  fun_induction feed look s b with
  | case1 => simp [hs]
  | case2 s b n s' o hlook _ ih =>
    have ⟨hs', ho⟩ := hdone hs (.inl ⟨n, hlook⟩)
    have ⟨hturns, hrest⟩ := ih hs'
    exact ⟨forall_mem_cons.mpr ⟨ho, hturns⟩, hrest⟩
  | case3 | case5 => simp
  | case4 s b s' o hlook =>
    have := hdone hs (.inr hlook)
    simp [this]

/-- Along a run, the turns behind a closing one are quiet, and a run with a
closing turn ends finished. -/
theorem feed_quietAfter
    (hclose : ∀ {s b s' o}, Observes look s b s' o → closes o = true → Done s')
    (hdone : ∀ {s b s' o}, Done s → Observes look s b s' o → Done s' ∧ quiet o)
    (s : σ) (b : Bytes) :
    QuietAfter closes quiet (feed look s b).turns ∧
      ((feed look s b).turns.any closes = true →
        ∀ s' b', (feed look s b).rest = some (s', b') → Done s') := by
  fun_induction feed look s b with
  | case1 | case3 | case5 => simp [QuietAfter]
  | case2 s b n s' o hlook _ ih =>
    have ⟨hquiet, hfin⟩ := ih
    cases ho : closes o with
    | false =>
      refine ⟨⟨fun h => by simp [ho] at h, hquiet⟩, fun hany => hfin ?_⟩
      simpa [ho] using hany
    | true =>
      have ⟨hturns, hrest⟩ := feed_done hdone s' (b.drop n) (hclose (.inl ⟨n, hlook⟩) ho)
      exact ⟨⟨fun _ => hturns, hquiet⟩, fun _ => hrest⟩
  | case4 s b s' o hlook =>
    refine ⟨⟨fun _ y hy => by simp at hy, trivial⟩, fun hany s₂ b₂ hrest => ?_⟩
    cases hrest
    exact hclose (.inr hlook) (by simpa using hany)

theorem feedAll_quietAfter
    (hclose : ∀ {s b s' o}, Observes look s b s' o → closes o = true → Done s')
    (hdone : ∀ {s b s' o}, Done s → Observes look s b s' o → Done s' ∧ quiet o)
    (cs : List Bytes) (s : σ) (buf : Bytes) :
    QuietAfter closes quiet (feedAll look s buf cs).turns ∧
      (Done s → ∀ o ∈ (feedAll look s buf cs).turns, quiet o) := by
  induction cs generalizing s buf with
  | nil => simp [feedAll, QuietAfter]
  | cons c cs ih =>
    have ⟨hquiet, hfin⟩ := feed_quietAfter hclose hdone s (buf ++ c)
    have hall := feed_done hdone s (buf ++ c)
    simp only [feedAll]
    cases hrest : (feed look s (buf ++ c)).rest with
    | none => exact ⟨hquiet, fun hs => (hall hs).1⟩
    | some p =>
      obtain ⟨s', buf'⟩ := p
      have ⟨hquiet', hdone'⟩ := ih s' buf'
      refine ⟨quietAfter_append hquiet hquiet' fun hany => hdone' (hfin hany _ _ hrest), ?_⟩
      exact fun hs => forall_mem_append.mpr ⟨(hall hs).1, hdone' ((hall hs).2 _ _ hrest)⟩

end Closed

end FramedStream

end LibRouting.Foundation
