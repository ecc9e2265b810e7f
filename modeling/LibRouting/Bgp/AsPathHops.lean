/-
  Bgp/AsPathHops.lean --- the hops an AS_PATH stands for (`path/as_path.rs`).

  Segments are a way to write hops down: a sequence is one hop for each of its members, a
  set is one hop.  Prepending and the reconciliation with AS4_PATH are compared with what
  they should do to the hops.
-/
import LibRouting.Bgp.AsPath
import Mathlib.Data.List.Induction
import Mathlib.Data.List.TakeWhile

set_option autoImplicit false

namespace LibRouting.Bgp

open Foundation Core List

/-- A member of a sequence, or a whole set; `confed` marks those of confederation
segments. -/
inductive AsHop where
  | member (confed : Bool) (asn : Asn)
  | oneOf (confed : Bool) (ases : List Asn)
  deriving DecidableEq, Repr

/-- Hops inside a confederation do not count (RFC 5065 §5.3). -/
def AsHop.counted : AsHop → Bool
  | .member confed _ | .oneOf confed _ => !confed

namespace AsPathSegment

/-- The hops of a segment; a set is one hop. -/
def hops (s : AsPathSegment) : List AsHop :=
  match s.kind with
  | .sequence => s.ases.map (.member false)
  | .confedSequence => s.ases.map (.member true)
  | .set => [.oneOf false s.ases]
  | .confedSet => [.oneOf true s.ases]

theorem countP_hops (s : AsPathSegment) : s.hops.countP AsHop.counted = AsPath.segmentLength s := by
  obtain ⟨kind, ases⟩ := s
  have hplain : (ases.map (AsHop.member false)).countP AsHop.counted = ases.length := by
    rw [countP_map, countP_eq_length.mpr]
    intro a _
    rfl
  have hconfed : (ases.map (AsHop.member true)).countP AsHop.counted = 0 := by
    rw [countP_map, countP_eq_zero]
    intro a _ h
    cases h
  cases kind with
  | sequence => exact hplain
  | confedSequence => exact hconfed
  | set | confedSet => rfl

end AsPathSegment

namespace AsPath

/-- The hops of a list of segments. -/
def hopsOf (segs : List AsPathSegment) : List AsHop := segs.flatMap AsPathSegment.hops

/-- The hops a path stands for, the nearest first. -/
def hops (p : AsPath) : List AsHop := hopsOf p.segments

@[simp] theorem hopsOf_nil : hopsOf [] = [] := rfl

@[simp] theorem hopsOf_cons (s : AsPathSegment) (segs : List AsPathSegment) :
    hopsOf (s :: segs) = s.hops ++ hopsOf segs := flatMap_cons

@[simp] theorem hopsOf_append (segs segs' : List AsPathSegment) :
    hopsOf (segs ++ segs') = hopsOf segs ++ hopsOf segs' := flatMap_append

/-- How many hops of a list of segments count. -/
def countOf (segs : List AsPathSegment) : Nat := (segs.map segmentLength).sum

@[simp] theorem countOf_nil : countOf [] = 0 := rfl

@[simp] theorem countOf_cons (s : AsPathSegment) (segs : List AsPathSegment) :
    countOf (s :: segs) = segmentLength s + countOf segs := by
  simp [countOf]

theorem countOf_sequence (ases : List Asn) : countOf [⟨.sequence, ases⟩] = ases.length := by
  rw [countOf_cons, countOf_nil]
  rfl

@[simp] theorem countOf_append (segs segs' : List AsPathSegment) :
    countOf (segs ++ segs') = countOf segs + countOf segs' := by
  simp [countOf]

theorem countP_hopsOf (segs : List AsPathSegment) :
    (hopsOf segs).countP AsHop.counted = countOf segs := by
  induction segs with
  | nil => rfl
  | cons s segs ih =>
    rw [hopsOf_cons, countP_append, AsPathSegment.countP_hops, ih, countOf_cons]

/-! ## Prepending -/

/-- The operations that put an AS in front of a path. -/
inductive PathOp where
  | prepend (asn : Asn)
  | prependConfed (asn : Asn)
  deriving DecidableEq, Repr

namespace PathOp

/-- The path after the operation. -/
def apply (p : AsPath) : PathOp → AsPath
  | prepend a => p.prepend a
  | prependConfed a => p.prependConfed a

/-- The kind of segment the AS goes into. -/
def kind : PathOp → AsPathType
  | prepend _ => .sequence
  | prependConfed _ => .confedSequence

/-- The AS that is prepended. -/
def asn : PathOp → Asn
  | prepend a | prependConfed a => a

/-- The hop the operation is to put in front. -/
def hop : PathOp → AsHop
  | prepend a => .member false a
  | prependConfed a => .member true a

theorem apply_eq (p : AsPath) (op : PathOp) : op.apply p = prependKind op.kind p op.asn := by
  cases op with
  | prepend | prependConfed => rfl

theorem hops_cons (op : PathOp) (ases : List Asn) :
    AsPathSegment.hops ⟨op.kind, op.asn :: ases⟩ =
      op.hop :: AsPathSegment.hops ⟨op.kind, ases⟩ := by
  cases op with
  | prepend | prependConfed => rfl

theorem hop_not_mem_hops (op : PathOp) {s : AsPathSegment} (hs : s.kind ≠ op.kind) :
    op.hop ∉ s.hops := by
  obtain ⟨kind, ases⟩ := s
  cases op with
  | prepend a =>
    cases kind with
    | sequence => exact absurd rfl hs
    | confedSequence | set | confedSet => simp [AsPathSegment.hops, hop]
  | prependConfed a =>
    cases kind with
    | confedSequence => exact absurd rfl hs
    | sequence | set | confedSet => simp [AsPathSegment.hops, hop]

end PathOp
variable (s : AsPathSegment) (segs : List AsPathSegment) {p wire as4 : AsPath}

section

variable (k : AsPathType) (p : AsPath)

/-- The segments before the first one of kind `k`. -/
def before : List AsPathSegment :=
  p.segments.takeWhile fun s => s.kind ≠ k

/-- The first segment of kind `k` and those behind it. -/
def fromFirst : List AsPathSegment :=
  p.segments.dropWhile fun s => s.kind ≠ k

theorem before_append_fromFirst :
    p.before k ++ p.fromFirst k = p.segments := takeWhile_append_dropWhile

theorem kind_of_mem_before {k : AsPathType} {p : AsPath} {s : AsPathSegment}
    (hs : s ∈ p.before k) : s.kind ≠ k := by
  have hall := mem_takeWhile_imp hs
  simpa using hall

theorem prependKind_segments (a : Asn) :
    (prependKind k p a).segments =
      match p.fromFirst k with
      | [] => ⟨k, [a]⟩ :: p.segments
      | s :: rest => p.before k ++ ⟨k, a :: s.ases⟩ :: rest := by
  have hinto : ∀ segs : List AsPathSegment, prependInto k a segs =
      match segs.dropWhile fun s => s.kind ≠ k with
      | [] => none
      | s :: rest => some ((segs.takeWhile fun s => s.kind ≠ k) ++ ⟨k, a :: s.ases⟩ :: rest) := by
    intro segs
    induction segs with
    | nil => rfl
    | cons s segs ih =>
      by_cases hk : s.kind = k
      · simp [prependInto, hk]
      · rw [prependInto, if_neg hk, ih, dropWhile_cons_of_pos (by simpa using hk),
          takeWhile_cons_of_pos (by simpa using hk)]
        split <;> rfl
  rw [prependKind, hinto]
  unfold fromFirst before
  split <;> rfl

/-- The path stands for its hops on the wire, and leads with the AS prepended last. -/
structure Represents (p : AsPath) (last : Option PathOp) : Prop where
  roundTrip : ∃ q, decode4 (encode4 p) = some q ∧ q.hops = p.hops
  leftmost : ∀ op ∈ last, p.hops.head? = some op.hop
  counts : ∀ s ∈ p.segments, s.ases.length ≤ 255

/-- The first segment of the operation's kind, if there is one, has room and no hop before
it. -/
def Room (op : PathOp) : Prop :=
  match p.fromFirst op.kind with
  | [] => True
  | s :: _ => s.ases.length < 255 ∧ hopsOf (p.before op.kind) = []

end

instance (p : AsPath) (op : PathOp) : Decidable (p.Room op) := by
  unfold Room
  split <;> infer_instance

theorem represents_of_counts {last : Option PathOp}
    (hcounts : ∀ s ∈ p.segments, s.ases.length ≤ 255)
    (hleft : ∀ op ∈ last, p.hops.head? = some op.hop) : Represents p last where
  roundTrip := ⟨p, (decode4_encode4_iff p).mpr hcounts, rfl⟩
  leftmost := hleft
  counts := hcounts

/-- What one more operation needs. -/
theorem represents_apply_iff (hp : ∀ s ∈ p.segments, s.ases.length ≤ 255) (op : PathOp) :
    Represents (op.apply p) (some op) ↔ p.Room op := by
  have hsegs := prependKind_segments op.kind p op.asn
  rw [← PathOp.apply_eq] at hsegs
  have hsplit := p.before_append_fromFirst op.kind
  unfold Room
  cases hfirst : p.fromFirst op.kind with
  | nil =>
    simp only [hfirst] at hsegs
    simp only [iff_true]
    refine represents_of_counts ?_ fun op' hop' => ?_
    · rw [hsegs]
      exact forall_mem_cons.mpr ⟨by simp, hp⟩
    · obtain rfl : op = op' := Option.some.inj hop'
      rw [hops, hsegs, hopsOf_cons, PathOp.hops_cons]
      rfl
  | cons s rest =>
    simp only [hfirst] at hsegs hsplit ⊢
    have hhops : (op.apply p).hops = hopsOf (p.before op.kind) ++
        (op.hop :: AsPathSegment.hops ⟨op.kind, s.ases⟩ ++ hopsOf rest) := by
      rw [hops, hsegs, hopsOf_append, hopsOf_cons, PathOp.hops_cons]
    constructor
    · intro h
      constructor
      · have hlen := h.counts ⟨op.kind, op.asn :: s.ases⟩ (by simp [hsegs])
        rw [length_cons] at hlen
        omega
      · -- the first hop is of the operation's kind, the hops before it are not
        cases hbefore : hopsOf (p.before op.kind) with
        | nil => rfl
        | cons hop hops' =>
          have hhead := h.leftmost op rfl
          rw [hhops, hbefore] at hhead
          obtain rfl : hop = op.hop := by simpa using hhead
          have hmem : op.hop ∈ hopsOf (p.before op.kind) := by simp [hbefore]
          obtain ⟨t, ht, hop'⟩ := mem_flatMap.mp hmem
          exact absurd hop' (op.hop_not_mem_hops (kind_of_mem_before ht))
    · rintro ⟨hroom, hbefore⟩
      refine represents_of_counts ?_ fun op' hop' => ?_
      · rw [← hsplit, forall_mem_append, forall_mem_cons] at hp
        rw [hsegs, forall_mem_append, forall_mem_cons, length_cons]
        exact ⟨hp.1, by omega, hp.2.2⟩
      · obtain rfl : op = op' := Option.some.inj hop'
        rw [hhops, hbefore]
        rfl

/-- The path after some operations. -/
def prepended (p : AsPath) (ops : List PathOp) : AsPath := ops.foldl PathOp.apply p

theorem prepended_concat (p : AsPath) (ops : List PathOp) (op : PathOp) :
    p.prepended (ops ++ [op]) = op.apply (p.prepended ops) := by
  rw [prepended, foldl_append]
  rfl

/-- Every path on the way stands for its hops, with the AS prepended last in front,
exactly when each operation finds room at the front. -/
theorem prepended_represents_iff {b : Bytes} {wide : Bool} {p : AsPath}
    (hp : decodeInner b wide = some p) (ops : List PathOp) :
    (∀ done rest, ops = done ++ rest → Represents (p.prepended done) done.getLast?) ↔
      ∀ done op rest, ops = done ++ op :: rest → (p.prepended done).Room op := by
  constructor
  · intro h done op rest hops
    have hdone := h done (op :: rest) hops
    have hnext := h (done ++ [op]) rest (by simp [hops])
    rw [prepended_concat, getLast?_concat] at hnext
    exact (represents_apply_iff hdone.counts op).mp hnext
  · intro h done rest hops
    -- from the front of the list on, each path is the one before with one operation more
    induction done using reverseRecOn generalizing rest with
    | nil => exact represents_of_counts (decodeInner_length hp).2 (by simp)
    | append_singleton done op ih =>
      have hops' : ops = done ++ op :: rest := by simp [hops]
      have hdone := ih (op :: rest) hops'
      rw [prepended_concat, getLast?_concat]
      exact (represents_apply_iff hdone.counts op).mpr (h done op rest hops')

theorem prepended_represents_two :
    Represents (new.prepended [.prepend 65001, .prependConfed 65100])
      (some (.prependConfed 65100)) := by
  have hdecode : decodeInner [] true = some new := by simp [decodeInner, decodeSegments, new]
  refine (prepended_represents_iff hdecode [.prepend 65001, .prependConfed 65100]).mpr ?_
    [.prepend 65001, .prependConfed 65100] [] (append_nil _).symm
  intro done op rest hops
  obtain _ | ⟨first, _ | ⟨second, done⟩⟩ := done
  · cases hops
    decide
  · cases hops
    decide
  · cases done <;> cases hops

/-- The 256th AS of one sequence turns the count octet to zero, and an AS prepended behind a
set is not the leftmost hop. -/
theorem prepended_misrepresents :
    decode4 [] = some new ∧
      decode4 (encode4 (new.prepended (replicate 256 (.prepend 65001)))) = none ∧
      decode4 [1, 1, 0, 0, 0, 7, 2, 1, 0, 0, 0, 8] =
        some ⟨[⟨.set, [7]⟩, ⟨.sequence, [8]⟩]⟩ ∧
      (prepended ⟨[⟨.set, [7]⟩, ⟨.sequence, [8]⟩]⟩ [.prepend 65001]).hops.head? =
        some (.oneOf false [7]) := by
  refine ⟨?_, ?_, ?_, ?_⟩ <;> decide +kernel

/-! ## Reconciliation with AS4_PATH (RFC 6793 §4.2.3) -/

/-- What `takeSegments` counts for a segment: confederation segments like plain ones. -/
def weight (s : AsPathSegment) : Nat :=
  match s.kind with
  | .sequence | .confedSequence => s.ases.length
  | .set | .confedSet => 1

/-- The weight of a list of segments. -/
def weightOf (segs : List AsPathSegment) : Nat := (segs.map weight).sum

@[simp] theorem weightOf_nil : weightOf [] = 0 := rfl

@[simp] theorem weightOf_cons (segs : List AsPathSegment) :
    weightOf (s :: segs) = weight s + weightOf segs := by
  simp [weightOf]

@[simp] theorem weightOf_append (segs' : List AsPathSegment) :
    weightOf (segs ++ segs') = weightOf segs + weightOf segs' := by
  simp [weightOf]

/-- No hop of the segments is inside a confederation. -/
def Plain (segs : List AsPathSegment) : Prop := ∀ s ∈ segs, s.kind.isConfed = true → s.hops = []

theorem segmentLength_le_weight : segmentLength s ≤ weight s := by
  obtain ⟨kind, ases⟩ := s
  cases kind <;> simp [segmentLength, weight]

theorem segmentLength_eq_weight_iff :
    segmentLength s = weight s ↔ (s.kind.isConfed = true → s.hops = []) := by
  obtain ⟨kind, ases⟩ := s
  cases kind with
  | sequence | set | confedSet =>
      simp [segmentLength, weight, AsPathType.isConfed, AsPathSegment.hops]
  | confedSequence =>
    simp only [segmentLength, weight, AsPathType.isConfed, AsPathSegment.hops, forall_const,
      map_eq_nil_iff]
    rw [eq_comm, length_eq_zero_iff]

theorem countOf_le_weightOf : countOf segs ≤ weightOf segs := by
  induction segs with
  | nil => exact Nat.le_refl _
  | cons s segs ih =>
    have hs := segmentLength_le_weight s
    rw [countOf_cons, weightOf_cons]
    omega

theorem countOf_eq_weightOf_iff : countOf segs = weightOf segs ↔ Plain segs := by
  induction segs with
  | nil => simp [Plain]
  | cons s segs ih =>
    have hs := segmentLength_le_weight s
    have hsegs := countOf_le_weightOf segs
    have hboth : countOf (s :: segs) = weightOf (s :: segs) ↔
        segmentLength s = weight s ∧ countOf segs = weightOf segs := by
      rw [countOf_cons, weightOf_cons]
      omega
    rw [hboth, segmentLength_eq_weight_iff, ih]
    simp [Plain]

theorem takeSegments_cons (need : Nat) (s : AsPathSegment) (segs : List AsPathSegment)
    (count : Nat) :
    takeSegments need (s :: segs) count =
      if count ≥ need then ([], count)
      else if count + weight s > need then ([], count)
      else
        (s :: (takeSegments need segs (count + weight s)).1,
          (takeSegments need segs (count + weight s)).2) := by
  obtain ⟨kind, ases⟩ := s
  cases kind <;> rfl

/-- The loop takes the longest run of whole segments that fits. -/
theorem takeSegments_spec (need : Nat) (segs : List AsPathSegment) {count : Nat}
    (hcount : count ≤ need) :
    ∃ taken rest, takeSegments need segs count = (taken, count + weightOf taken) ∧
      segs = taken ++ rest ∧ count + weightOf taken ≤ need ∧
      (count + weightOf taken = need ∨ rest = [] ∨
        ∃ s rest', rest = s :: rest' ∧ need < count + weightOf taken + weight s) := by
  induction segs generalizing count with
  | nil => exact ⟨[], [], rfl, rfl, hcount, .inr (.inl rfl)⟩
  | cons s segs ih =>
    rw [takeSegments_cons]
    by_cases hfull : count ≥ need
    · rw [if_pos hfull]
      exact ⟨[], s :: segs, rfl, rfl, hcount, .inl (Nat.le_antisymm hcount hfull)⟩
    rw [if_neg hfull]
    by_cases hover : count + weight s > need
    · rw [if_pos hover]
      exact ⟨[], s :: segs, rfl, rfl, hcount, .inr (.inr ⟨s, segs, rfl, hover⟩)⟩
    rw [if_neg hover]
    obtain ⟨taken, rest, htake, hsegs, hle, hwhy⟩ := ih (Nat.not_lt.mp hover)
    have hsum : count + weight s + weightOf taken = count + weightOf (s :: taken) := by
      rw [weightOf_cons]
      omega
    rw [hsum] at htake hle hwhy
    refine ⟨s :: taken, rest, by rw [htake], by rw [hsegs, cons_append], hle, hwhy⟩

/-- The result begins with the surplus of leading hops and goes on with AS4_PATH, or is
AS_PATH where that counts fewer hops. -/
structure Reconciled (wire as4 result : AsPath) : Prop where
  surplus : asPathCount as4 ≤ asPathCount wire → ∃ lead, result.hops = lead ++ as4.hops ∧
    lead <+: wire.hops ∧ lead.countP AsHop.counted = asPathCount wire - asPathCount as4
  total : asPathCount as4 ≤ asPathCount wire → asPathCount result = asPathCount wire
  shorter : asPathCount wire < asPathCount as4 → result = wire

/-- The first `need` hops that count end before any hop inside a confederation; where they
end inside a sequence, the first sequence with members begins with the same AS numbers as
the part taken of that one. -/
def Divides (need : Nat) (segs : List AsPathSegment) : Prop :=
  ∃ pre post, segs = pre ++ post ∧ Plain pre ∧
    (countOf pre = need ∨
      ∃ s rest f, post = s :: rest ∧ s.kind = .sequence ∧ countOf pre < need ∧
        need < countOf pre + s.ases.length ∧
        segs.find? (fun t => t.kind = .sequence ∧ t.ases ≠ []) = some f ∧
        f.ases.take (need - countOf pre) = s.ases.take (need - countOf pre))

theorem asPathCount_eq (p : AsPath) : asPathCount p = countOf p.segments := rfl

/-- What a result that ends in AS4_PATH has to have in front. -/
theorem reconciled_append_iff (hle : asPathCount as4 ≤ asPathCount wire) (lead : List AsPathSegment)
    :
    Reconciled wire as4 ⟨lead ++ as4.segments⟩ ↔
      hopsOf lead <+: wire.hops ∧ countOf lead = asPathCount wire - asPathCount as4 := by
  have hhops : hops ⟨lead ++ as4.segments⟩ = hopsOf lead ++ as4.hops := hopsOf_append _ _
  constructor
  · intro h
    obtain ⟨lead', hlead, hfront, hcount⟩ := h.surplus hle
    rw [hhops] at hlead
    obtain rfl := append_cancel_right hlead
    rw [countP_hopsOf] at hcount
    exact ⟨hfront, hcount⟩
  · rintro ⟨hfront, hcount⟩
    refine ⟨fun _ => ⟨hopsOf lead, hhops, hfront, ?_⟩, fun _ => ?_, fun hlt => ?_⟩
    · rw [countP_hopsOf, hcount]
    · rw [asPathCount_eq, countOf_append, hcount, ← asPathCount_eq as4]
      omega
    · omega

section Surplus

variable {need : Nat} {segs taken rest : List AsPathSegment} {s : AsPathSegment}

theorem hopsOf_front (hsegs : segs = taken ++ rest) : hopsOf taken <+: hopsOf segs := by
  rw [hsegs, hopsOf_append]
  exact prefix_append _ _

theorem Plain.of_append (h : Plain (taken ++ rest)) : Plain taken :=
  fun s hs => h s (mem_append_left _ hs)

/-- Two ways to cut a list: the first cut is not behind the second, or it is at least one
element behind it. -/
theorem cut_cases {pre post : List AsPathSegment} (h : taken ++ rest = pre ++ post) :
    (∃ more, pre = taken ++ more) ∨
      ∃ s more, taken = pre ++ s :: more ∧ post = s :: more ++ rest := by
  obtain ⟨more, hpre, -⟩ | ⟨more, htaken, hpost⟩ := append_eq_append_iff.mp h
  · exact .inl ⟨more, hpre⟩
  · cases more with
    | nil => exact .inl ⟨[], by simpa using htaken.symm⟩
    | cons s more => exact .inr ⟨s, more, htaken, hpost⟩

theorem divides_iff_of_full (hsegs : segs = taken ++ rest) (hfull : weightOf taken = need) :
    countOf taken = need ↔ Divides need segs := by
  constructor
  · intro hcount
    have hplain := (countOf_eq_weightOf_iff taken).mp (hcount.trans hfull.symm)
    exact ⟨taken, rest, hsegs, hplain, .inl hcount⟩
  · rintro ⟨pre, post, hpre, hplain, hdiv⟩
    have hsame := (countOf_eq_weightOf_iff pre).mpr hplain
    obtain ⟨more, rfl⟩ | ⟨s, more, rfl, rfl⟩ := cut_cases (hsegs.symm.trans hpre)
    · exact ((countOf_eq_weightOf_iff taken).mpr hplain.of_append).trans hfull
    obtain hcount | ⟨t, rest', f, hpost, hkind, -, hover, -⟩ := hdiv
    · have hle := countOf_le_weightOf (pre ++ s :: more)
      rw [hfull, countOf_append] at hle
      rw [countOf_append]
      omega
    -- the sequence would have been taken whole, and is too long for that
    obtain ⟨rfl, -⟩ := cons.inj hpost
    rw [weightOf_append, weightOf_cons, weight, hkind] at hfull
    simp only at hfull
    omega

theorem deficitSegment_eq {deficit : Nat} (hpos : 0 < deficit) (segs : List AsPathSegment) :
    deficitSegment deficit segs =
      match segs.find? fun t => t.kind = .sequence ∧ t.ases ≠ [] with
      | some f => [⟨.sequence, f.ases.take deficit⟩]
      | none => [] := by
  have hsame : (fun t : AsPathSegment =>
      decide (t.kind = .sequence ∧ 0 < min t.ases.length deficit)) =
      fun t => decide (t.kind = .sequence ∧ t.ases ≠ []) := by
    funext t
    rw [decide_eq_decide, Nat.lt_min, length_pos_iff]
    simp only [hpos, and_true]
  unfold deficitSegment
  rw [hsame]
  cases segs.find? fun t => decide (t.kind = .sequence ∧ t.ases ≠ []) with
  | none => rfl
  | some f =>
    have htake : f.ases.take (min f.ases.length deficit) = f.ases.take deficit := by
      rw [Nat.min_comm, ← take_eq_take_min]
    simp only [htake]

theorem hops_of_heavy (hs : 1 < weight s) :
    ∃ confed, s.hops = s.ases.map (.member confed) ∧ weight s = s.ases.length ∧
      (confed = false → s.kind = .sequence) := by
  obtain ⟨kind, ases⟩ := s
  cases kind with
  | sequence => exact ⟨false, rfl, rfl, fun _ => rfl⟩
  | confedSequence => exact ⟨true, rfl, rfl, nofun⟩
  | set | confedSet => exact absurd hs (Nat.lt_irrefl 1)

theorem take_eq_of_front {d : Nat} (hpos : 0 < d) {xs ys : List Asn} {confed : Bool}
    {more : List AsHop} (hxs : xs.length = d) (hys : d ≤ ys.length)
    (h : xs.map (AsHop.member false) <+: ys.map (AsHop.member confed) ++ more) :
    confed = false ∧ xs = ys.take d := by
  have htake := prefix_iff_eq_take.mp h
  rw [length_map, hxs, take_append_of_le_length (by simpa using hys),
    ← map_take] at htake
  obtain _ | ⟨x, xs⟩ := xs
  · simp only [length_nil] at hxs
    omega
  obtain _ | ⟨y, ys⟩ := ys
  · simp only [length_nil] at hys
    omega
  obtain ⟨d, rfl⟩ := Nat.exists_eq_add_of_lt hpos
  obtain rfl : confed = false := by
    simp only [Nat.zero_add, take_succ_cons, map_cons, cons.injEq,
      AsHop.member.injEq] at htake
    exact htake.1.1.symm
  refine ⟨rfl, ?_⟩
  exact map_injective_iff.mpr (fun _ _ heq => (AsHop.member.inj heq).2) htake

/-- The surplus ends inside a segment. -/
theorem divides_iff_of_partial (hsegs : segs = taken ++ s :: rest) (hshort : weightOf taken < need)
    (hover : need < weightOf taken + weight s) :
    (hopsOf (taken ++ deficitSegment (need - weightOf taken) segs) <+: hopsOf segs ∧
      countOf (taken ++ deficitSegment (need - weightOf taken) segs) = need) ↔
      Divides need segs := by
  have hpos : 0 < need - weightOf taken := by omega
  obtain ⟨confed, hhops, hweight, hkind⟩ := hops_of_heavy (s := s) (by omega)
  rw [deficitSegment_eq hpos]
  constructor
  · rintro ⟨hfront, hcount⟩
    have hle := countOf_le_weightOf taken
    cases hf : segs.find? fun t => decide (t.kind = .sequence ∧ t.ases ≠ []) with
    | none =>
      simp only [hf, append_nil] at hcount
      omega
    | some f =>
      simp only [hf] at hfront hcount
      have hmost := length_take_le (need - weightOf taken) f.ases
      rw [countOf_append, countOf_sequence] at hcount
      have hplain : countOf taken = weightOf taken := by omega
      have hfull : (f.ases.take (need - weightOf taken)).length = need - weightOf taken := by omega
      rw [hsegs, hopsOf_append, hopsOf_append, prefix_append_right_inj, hopsOf_cons,
        hopsOf_cons, hopsOf_nil, append_nil, hhops] at hfront
      obtain ⟨rfl, htake⟩ := take_eq_of_front hpos hfull (by omega) hfront
      refine ⟨taken, s :: rest, hsegs, (countOf_eq_weightOf_iff taken).mp hplain,
        .inr ⟨s, rest, f, rfl, hkind rfl, by omega, by omega, hf, ?_⟩⟩
      rw [hplain]
      exact htake
  · rintro ⟨pre, post, hpre, hplain, hdiv⟩
    have hsame := (countOf_eq_weightOf_iff pre).mpr hplain
    obtain ⟨more, rfl⟩ | ⟨t, more, rfl, rfl⟩ := cut_cases (hsegs.symm.trans hpre)
    · obtain _ | ⟨t, more⟩ := more
      · -- both cuts are the same
        rw [append_nil] at hpre hplain hsame hdiv
        obtain hcount | ⟨t, rest', f, rfl, hseq, -, -, hf, htake⟩ := hdiv
        · omega
        obtain ⟨rfl, -⟩ := cons.inj (append_cancel_left (hsegs.symm.trans hpre))
        have hplainHops : s.hops = s.ases.map (.member false) := by
          rw [AsPathSegment.hops, hseq]
        rw [hf, ← hsame]
        simp only
        rw [htake]
        constructor
        · rw [hsegs, hopsOf_append, hopsOf_append, prefix_append_right_inj, hopsOf_cons,
            hopsOf_cons, hopsOf_nil, append_nil, hplainHops]
          refine IsPrefix.trans ?_ (prefix_append _ _)
          exact ( take_prefix _ _).map _
        · rw [countOf_append, countOf_sequence, length_take]
          omega
      · -- the segment that is too heavy would lie before the cut
        rw [append_assoc] at hpre
        obtain ⟨rfl, -⟩ := cons.inj (append_cancel_left (hsegs.symm.trans hpre))
        rw [weightOf_append, weightOf_cons] at hsame
        obtain hcount | ⟨t, rest', f, -, -, hlt, -⟩ := hdiv <;> omega
    · rw [weightOf_append, weightOf_cons] at hshort
      obtain hcount | ⟨t', rest', f, hpost, hseq, -, hlong, -⟩ := hdiv
      · omega
      obtain ⟨rfl, -⟩ := cons.inj hpost
      have hlen : weight t = t.ases.length := by
        rw [weight, hseq]
      omega

end Surplus

/-- What the function returns when AS_PATH counts more hops. -/
theorem reconcileAs4_surplus (hsome : as4.segments ≠ []) (hlt : asPathCount as4 < asPathCount wire)
    :
    Reconciled wire as4 (reconcileAs4 wire (some as4)) ↔
      Divides (asPathCount wire - asPathCount as4) wire.segments := by
  obtain ⟨taken, rest, htake, hsegs, hle, hwhy⟩ := takeSegments_spec
    (asPathCount wire - asPathCount as4) wire.segments (Nat.zero_le _)
  simp only [Nat.zero_add] at htake hle hwhy
  have hresult : reconcileAs4 wire (some as4) =
      ⟨(taken ++ if weightOf taken < asPathCount wire - asPathCount as4 then
        deficitSegment (asPathCount wire - asPathCount as4 - weightOf taken) wire.segments
        else []) ++ as4.segments⟩ := by
    simp only [reconcileAs4, if_neg hsome, if_neg (Nat.not_lt.mpr (Nat.le_of_lt hlt)),
      if_neg (Nat.ne_of_gt hlt), htake]
  rw [hresult, reconciled_append_iff (Nat.le_of_lt hlt)]
  by_cases hfull : weightOf taken = asPathCount wire - asPathCount as4
  · rw [if_neg (by omega), append_nil, ← divides_iff_of_full hsegs hfull]
    exact ⟨And.right, fun hcount => ⟨hopsOf_front hsegs, hcount⟩⟩
  have hshort : weightOf taken < asPathCount wire - asPathCount as4 := by omega
  obtain hwhy | rfl | ⟨s, rest', rfl, hover⟩ := hwhy
  · exact absurd hwhy hfull
  · -- all of AS_PATH weighs at least what it counts
    have hweight := countOf_le_weightOf wire.segments
    rw [← asPathCount_eq, hsegs, append_nil] at hweight
    omega
  · rw [if_pos hshort]
    exact divides_iff_of_partial hsegs hshort hover

/-- The reconciled path is what RFC 6793 asks for exactly when the surplus hops can be taken
the way the function takes them. -/
theorem reconcileAs4_reconciled_iff (wire as4 : AsPath) :
    Reconciled wire as4 (reconcileAs4 wire (some as4)) ↔
      (as4.segments ≠ [] → asPathCount as4 < asPathCount wire →
        Divides (asPathCount wire - asPathCount as4) wire.segments) := by
  by_cases hsome : as4.segments = []
  · have hzero : asPathCount as4 = 0 := by rw [asPathCount_eq, hsome, countOf_nil]
    have hresult : reconcileAs4 wire (some as4) = ⟨wire.segments ++ as4.segments⟩ := by
      simp only [reconcileAs4, hsome, if_true, append_nil]
    rw [hresult, reconciled_append_iff (by omega)]
    constructor
    · intro _ hne
      exact absurd hsome hne
    · intro _
      refine ⟨prefix_refl _, ?_⟩
      rw [hzero, ← asPathCount_eq]
      rfl
  obtain hlt | heq | hgt := Nat.lt_trichotomy (asPathCount as4) (asPathCount wire)
  · rw [reconcileAs4_surplus hsome hlt]
    exact ⟨fun h _ _ => h, fun h => h hsome hlt⟩
  · have hresult : reconcileAs4 wire (some as4) = ⟨[] ++ as4.segments⟩ := by
      simp only [reconcileAs4, if_neg hsome, heq, Nat.lt_irrefl, if_false, if_true,
        nil_append]
    rw [hresult, reconciled_append_iff (Nat.le_of_eq heq)]
    constructor
    · intro _ _ hlt
      omega
    · intro _
      refine ⟨ nil_prefix, ?_⟩
      rw [countOf_nil]
      omega
  · have hresult : reconcileAs4 wire (some as4) = wire := by
      simp only [reconcileAs4, if_neg hsome, if_pos hgt]
    rw [hresult]
    constructor
    · intro _ _ hlt
      omega
    · intro _
      exact ⟨fun hle => by omega, fun _ => rfl, fun _ => rfl⟩

/-- In the first path the hops inside the confederation are taken for the surplus, in the
second the sequence that was taken already is taken again. -/
theorem reconcileAs4_misses :
    let as4 : AsPath := ⟨[⟨.sequence, [70000]⟩]⟩
    let inside : AsPath := ⟨[⟨.confedSequence, [65100, 65101]⟩, ⟨.sequence, [1, 2, 23456]⟩]⟩
    let divided : AsPath := ⟨[⟨.sequence, [1, 2]⟩, ⟨.set, [3]⟩, ⟨.sequence, [4, 5, 23456]⟩]⟩
    reconcileAs4 inside (some as4) = ⟨[⟨.confedSequence, [65100, 65101]⟩] ++ as4.segments⟩ ∧
      ¬ Reconciled inside as4 (reconcileAs4 inside (some as4)) ∧
      reconcileAs4 divided (some as4) =
        ⟨[⟨.sequence, [1, 2]⟩, ⟨.set, [3]⟩, ⟨.sequence, [1, 2]⟩] ++ as4.segments⟩ ∧
      ¬ Reconciled divided as4 (reconcileAs4 divided (some as4)) := by
  intro as4 inside divided
  have hinside : reconcileAs4 inside (some as4) =
      ⟨[⟨.confedSequence, [65100, 65101]⟩] ++ as4.segments⟩ := by decide +kernel
  have hdivided : reconcileAs4 divided (some as4) =
      ⟨[⟨.sequence, [1, 2]⟩, ⟨.set, [3]⟩, ⟨.sequence, [1, 2]⟩] ++ as4.segments⟩ := by
    decide +kernel
  refine ⟨hinside, ?_, hdivided, ?_⟩
  · rw [hinside, reconciled_append_iff (by decide)]
    decide
  · rw [hdivided, reconciled_append_iff (by decide)]
    decide

end AsPath

end LibRouting.Bgp
