/-
  Babel/Rtt.lean --- the round-trip time of a Babel neighbour
  (`lr-babel/src/neighbor.rs`).

  A sample is folded into the smoothed value in 32-bit arithmetic, scaled by 256.
  An overflow panics (a build without overflow checks wraps): `none` below.
-/
import LibRouting.Core.Addr
import LibRouting.Foundation.Run

set_option autoImplicit false

namespace LibRouting.Babel

open Foundation Core Option

/-! ## 32-bit arithmetic -/

/-- A result that has to fit. -/
def checkedU32 (n : Nat) : Option UInt32 := if n < 2 ^ 32 then some (.ofNat n) else none

section

variable (a b : UInt32)

/-- Checked `u32` addition. -/
def addU32 : Option UInt32 := checkedU32 (a.toNat + b.toNat)

/-- Checked `u32` multiplication. -/
def mulU32 : Option UInt32 := checkedU32 (a.toNat * b.toNat)

/-- `u32::saturating_sub`. -/
def saturatingSub : UInt32 := .ofNat (a.toNat - b.toNat)

/-- `u32::saturating_mul`. -/
def saturatingMul : UInt32 := .ofNat (min (a.toNat * b.toNat) (2 ^ 32 - 1))

/-- `div_ceil`. -/
def divCeil : UInt32 := .ofNat ((a.toNat + b.toNat - 1) / b.toNat)

end

theorem toNat_ofNat {n : Nat} (h : n < 2 ^ 32) : (UInt32.ofNat n).toNat = n :=
  UInt32.toNat_ofNat_of_lt' h

theorem checkedU32_eq_some {n : Nat} {c : UInt32} : checkedU32 n = some c ↔ c.toNat = n := by
  have hlt := c.toNat_lt
  unfold checkedU32
  split
  case isTrue h => rw [some.injEq, ← UInt32.toNat_inj, toNat_ofNat h, eq_comm]
  case isFalse h => exact iff_of_false (by simp) (by omega)

theorem exists_toNat_eq {n : Nat} (h : n < 2 ^ 32) : ∃ x : UInt32, x.toNat = n :=
  ⟨.ofNat n, toNat_ofNat h⟩

/-! ## The neighbour -/

/-- Weight, of 256, of a new sample. -/
def rttDecay : UInt32 := 42

/-- How long a Hello timestamp may be used. -/
def rttValidityMs : Nat := 180000

/-- A waiting time above this spoils the sample. -/
def rttSanityUs : UInt32 := 600000000

/-- What is kept per neighbour to measure round trips. -/
structure RttState where
  helloSendUs : UInt32
  helloReceiveUs : UInt32
  helloReceiveMs : UInt64
  rttUs : Option UInt32
  sampleMs : Option UInt64
  deriving DecidableEq, Repr

/-- `RttState::default`. -/
def RttState.default : RttState := ⟨0, 0, 0, none, none⟩

/-- A neighbour and the costs of the link to it. -/
structure BabelNeighbor where
  address : IpAddr
  helloHistory : List UInt16
  helloIntervalCs : UInt16
  lastHelloReceivedMs : UInt64
  rxcost : UInt32
  txcost : UInt32
  lastIhuReceivedMs : UInt64
  ihuIntervalCs : UInt16
  rtt : Option RttState
  deriving DecidableEq, Repr

namespace BabelNeighbor

section

variable (n : BabelNeighbor)

/-- `BabelNeighbor::new`. -/
def new (address : IpAddr) (nowMs : UInt64) : BabelNeighbor :=
  ⟨address, [], 0, nowMs, 0xffff, 0xffff, 0, 0, none⟩

/-- The Hellos missed between the oldest and the newest of the history. -/
def missedHellos (history : List UInt16) : UInt32 :=
  match history.head?, history.getLast? with
  | some first, some last =>
    if history.length ≤ 1 then 0
    else saturatingSub (last - first + 1).toUInt32 (UInt32.ofNat history.length)
  | _, _ => 0

/-- The cost of receiving, from the Hellos missed. -/
def computeRxcost (history : List UInt16) : Option UInt32 :=
  if 16 ≤ missedHellos history then some 0xffff
  else (mulU32 (missedHellos history) 50).bind (addU32 100)

/-- The last 16 sequence numbers. -/
def pushHello (history : List UInt16) (seqno : UInt16) : List UInt16 :=
  if 16 < (history ++ [seqno]).length then (history ++ [seqno]).tail else history ++ [seqno]

/-- A Hello without a timestamp. -/
def hello (seqno intervalCs : UInt16) (nowMs : UInt64) : Option BabelNeighbor :=
  (computeRxcost (pushHello n.helloHistory seqno)).map fun rxcost =>
    { n with
      helloIntervalCs := intervalCs
      lastHelloReceivedMs := nowMs
      helloHistory := pushHello n.helloHistory seqno
      rxcost := rxcost }

/-- A Hello that carries its send time. -/
def helloTimestamped (seqno intervalCs : UInt16) (peerTsUs : UInt32) (nowMs : UInt64)
    (nowUs : UInt32) : Option BabelNeighbor :=
  (n.hello seqno intervalCs nowMs).map fun n =>
    { n with rtt := some { n.rtt.getD .default with
      helloSendUs := peerTsUs
      helloReceiveUs := nowUs
      helloReceiveMs := nowMs } }

/-- An IHU without timestamps. -/
def ihu (rxcost intervalCs : UInt16) (nowMs : UInt64) : BabelNeighbor :=
  { n with txcost := rxcost.toUInt32, ihuIntervalCs := intervalCs, lastIhuReceivedMs := nowMs }

/-- The sample an echo gives: what is left of the local waiting time, when both waiting
times are plausible. -/
def sample (rtt : RttState) (ts1 ts2 : UInt32) : Option UInt32 :=
  let remoteWaitingUs := rtt.helloSendUs - ts2
  let localWaitingUs := rtt.helloReceiveUs - ts1
  if remoteWaitingUs > rttSanityUs ∨ localWaitingUs > rttSanityUs then none
  else some (saturatingSub localWaitingUs remoteWaitingUs)

/-- The running average, rounded towards the sample. -/
def smooth (prev sample : UInt32) : Option UInt32 := do
  let smoothed ← addU32 (← mulU32 rttDecay sample) (← mulU32 (256 - rttDecay) prev)
  if sample ≤ prev then some (smoothed / 256) else some (divCeil smoothed 256)

/-- The new smoothed value.  Without a valid previous value, or with the value zero, the
sample counts double. -/
def fold (state : RttState) (sample : UInt32) (nowMs : UInt64) : Option UInt32 :=
  match state.rttUs, state.sampleMs with
  | some prev, some t =>
    if 0 < prev ∧ nowMs.toNat - t.toNat < rttValidityMs then smooth prev sample
    else some (saturatingMul sample 2)
  | _, _ => some (saturatingMul sample 2)

/-- An IHU that echoes our send time, which completes a sample. -/
def ihuEcho (rxcost intervalCs : UInt16) (ts1 ts2 : UInt32) (nowMs : UInt64) :
    Option BabelNeighbor :=
  let n := n.ihu rxcost intervalCs nowMs
  match n.rtt with
  | none => some n
  | some state =>
    match sample state ts1 ts2 with
    | none => some n
    | some s =>
      (fold state s nowMs).map fun v =>
        { n with rtt := some { state with rttUs := some v, sampleMs := some nowMs } }

/-- `rtt_valid`. -/
def rttValid (nowMs : UInt64) : Bool :=
  n.rtt.any fun r => r.sampleMs.any fun t => nowMs.toNat - t.toNat < rttValidityMs

/-- `rtt_us`: the smoothed value while it is valid. -/
def rttUs (nowMs : UInt64) : Option UInt32 :=
  if n.rttValid nowMs then n.rtt.bind RttState.rttUs else none

end

/-! ## Calls -/

end BabelNeighbor

/-- The calls that may touch the measurement. -/
inductive NeighborCall where
  | helloTimestamped (seqno intervalCs : UInt16) (peerTsUs : UInt32) (nowMs : UInt64)
      (nowUs : UInt32)
  | ihuEcho (rxcost intervalCs : UInt16) (ts1 ts2 : UInt32) (nowMs : UInt64)
  deriving DecidableEq, Repr

/-- `v` lies between the previous value and the sample. -/
def Between (prev s v : UInt32) : Prop := prev ≤ v ∧ v ≤ s ∨ s ≤ v ∧ v ≤ prev

theorem Between.trans {prev s v w : UInt32} (h : Between prev s v) (h' : Between v s w) :
    Between prev s w := by
  simp only [Between, UInt32.le_iff_toNat_le] at *
  omega

namespace BabelNeighbor
variable {prev s : UInt32} {state : RttState} {n : BabelNeighbor} {v : UInt32} {c : NeighborCall}

section

variable (n : BabelNeighbor)

/-- One call on the neighbour. -/
def call : NeighborCall → Option BabelNeighbor
  | .helloTimestamped seqno intervalCs peerTsUs nowMs nowUs =>
    n.helloTimestamped seqno intervalCs peerTsUs nowMs nowUs
  | .ihuEcho rxcost intervalCs ts1 ts2 nowMs => n.ihuEcho rxcost intervalCs ts1 ts2 nowMs

/-- The sample the call takes, and the value that is still valid then. -/
def measures : NeighborCall → Option (UInt32 × Option UInt32)
  | .helloTimestamped .. => none
  | .ihuEcho _ _ ts1 ts2 nowMs => (n.rtt.bind (sample · ts1 ts2)).map (·, n.rttUs nowMs)

/-- The smoothed round-trip time, if any sample was taken. -/
def smoothed : Option UInt32 := n.rtt.bind RttState.rttUs

/-- The call computes without an overflow, and moves a valid value towards its sample. -/
def Smooths (c : NeighborCall) : Prop :=
  ∃ n', n.call c = some n' ∧
    ∀ m ∈ n.measures c, ∀ prev ∈ m.2, ∃ v ∈ n'.smoothed, Between prev m.1 v

/-- A sample that meets a valid value fits the arithmetic; one that meets the value zero is
zero. -/
def InRange (c : NeighborCall) : Prop :=
  ∀ m ∈ n.measures c, ∀ prev ∈ m.2,
    if prev = 0 then m.1 = 0 else 42 * m.1.toNat + 214 * prev.toNat < 2 ^ 32

end

theorem computeRxcost_returns (history : List UInt16) :
    ∃ cost, computeRxcost history = some cost := by
  rw [computeRxcost]
  generalize missedHellos history = missed
  split
  case isTrue => exact ⟨_, rfl⟩
  case isFalse h =>
    have h16 : missed.toNat < 16 := by simpa [UInt32.le_iff_toNat_le] using h
    have h50 : UInt32.toNat 50 = 50 ∧ UInt32.toNat 100 = 100 := ⟨rfl, rfl⟩
    obtain ⟨x, hx⟩ := exists_toNat_eq (n := missed.toNat * 50) (by omega)
    obtain ⟨y, hy⟩ := exists_toNat_eq (n := 100 + x.toNat) (by omega)
    refine ⟨y, bind_eq_some_iff.mpr ⟨x, checkedU32_eq_some.mpr ?_, checkedU32_eq_some.mpr ?_⟩⟩
    · rw [hx, h50.1]
    · rw [hy, h50.2]

theorem divCeil_toNat (x : UInt32) : (divCeil x 256).toNat = (x.toNat + 255) / 256 := by
  have hlt := x.toNat_lt
  have hscale : UInt32.toNat 256 = 256 := rfl
  rw [divCeil, hscale, toNat_ofNat (by omega)]
  rfl

theorem smooth_eq_some :
    smooth prev s = some v ↔ ∃ x : UInt32, x.toNat = 42 * s.toNat + 214 * prev.toNat ∧
      v = if s ≤ prev then x / 256 else divCeil x 256 := by
  have hdecay : rttDecay.toNat = 42 ∧ (256 - rttDecay).toNat = 214 := ⟨rfl, rfl⟩
  simp only [smooth, bind_eq_bind, bind_eq_some_iff, mulU32, addU32,
    checkedU32_eq_some, hdecay]
  constructor
  · rintro ⟨a, ha, b, hb, x, hx, hv⟩
    refine ⟨x, by omega, ?_⟩
    split at hv <;> simp_all
  · rintro ⟨x, hx, rfl⟩
    have hlt := x.toNat_lt
    obtain ⟨a, ha⟩ := exists_toNat_eq (n := 42 * s.toNat) (by omega)
    obtain ⟨b, hb⟩ := exists_toNat_eq (n := 214 * prev.toNat) (by omega)
    refine ⟨a, ha, b, hb, x, by rw [hx, ha, hb], ?_⟩
    split <;> rfl

theorem smooth_between (h : smooth prev s = some v) : Between prev s v := by
  obtain ⟨x, hx, rfl⟩ := smooth_eq_some.mp h
  simp only [Between, UInt32.le_iff_toNat_le]
  split
  case isTrue hle =>
    have hdiv : (x / 256).toNat = x.toNat / 256 := by simp
    rw [hdiv, hx]
    omega
  case isFalse hle =>
    rw [divCeil_toNat, hx]
    omega

theorem smooth_returns :
    (∃ v, smooth prev s = some v) ↔ 42 * s.toNat + 214 * prev.toNat < 2 ^ 32 := by
  simp only [smooth_eq_some]
  constructor
  · rintro ⟨-, x, hx, -⟩
    exact hx ▸ x.toNat_lt
  · intro h
    obtain ⟨x, hx⟩ := exists_toNat_eq h
    exact ⟨_, x, hx, rfl⟩

/-! ## One call -/

theorem sample_le {ts1 ts2 : UInt32} (h : sample state ts1 ts2 = some s) : s.toNat ≤ 600000000 := by
  rw [sample] at h
  split at h
  case isTrue => cases h
  case isFalse hsane =>
    cases h
    have hlocal : (state.helloReceiveUs - ts1).toNat ≤ rttSanityUs.toNat := by
      rw [← UInt32.le_iff_toNat_le]
      exact UInt32.not_lt.mp fun h => hsane (.inr h)
    have hsanity : rttSanityUs.toNat = 600000000 := rfl
    rw [saturatingSub, toNat_ofNat (by omega)]
    omega

/-- An echo averages over a valid value, or takes twice the sample. -/
theorem fold_cases (hn : n.rtt = some state) (s : UInt32) (nowMs : UInt64) :
    (∃ prev, n.rttUs nowMs = some prev ∧ prev ≠ 0 ∧ fold state s nowMs = smooth prev s) ∨
      (∀ prev, n.rttUs nowMs = some prev → prev = 0) ∧
        fold state s nowMs = some (saturatingMul s 2) := by
  have hpos : ∀ x : UInt32, 0 < x ↔ x ≠ 0 := fun x => by
    rw [UInt32.lt_iff_toNat_lt, ne_eq, ← UInt32.toNat_inj, UInt32.toNat_zero, Nat.pos_iff_ne_zero]
  simp only [rttUs, rttValid, hn, any_some, bind_some, fold, hpos]
  cases state.rttUs with
  | none => simp
  | some prev =>
    cases state.sampleMs with
    | none => simp
    | some t =>
      by_cases hp : prev = 0
      · simp [hp]
      · by_cases ht : nowMs.toNat - t.toNat < rttValidityMs
        · exact .inl ⟨prev, by simp [ht], hp, if_pos ⟨hp, ht⟩⟩
        · exact .inr ⟨by simp [ht], if_neg fun h => ht h.2⟩

theorem between_double (hs : s.toNat ≤ 600000000) : Between 0 s (saturatingMul s 2) ↔ s = 0 := by
  have hdouble : (saturatingMul s 2).toNat = 2 * s.toNat := by
    have htwo : UInt32.toNat 2 = 2 := rfl
    rw [saturatingMul, htwo, toNat_ofNat (by omega)]
    omega
  rw [Between, ← UInt32.toNat_inj]
  simp only [UInt32.le_iff_toNat_le, hdouble, UInt32.toNat_zero]
  omega

theorem fold_between_iff {nowMs : UInt64} (hn : n.rtt = some state) (hs : s.toNat ≤ 600000000) :
    (∃ v, fold state s nowMs = some v ∧ ∀ prev ∈ n.rttUs nowMs, Between prev s v) ↔
      ∀ prev ∈ n.rttUs nowMs,
        if prev = 0 then s = 0 else 42 * s.toNat + 214 * prev.toNat < 2 ^ 32 := by
  obtain ⟨prev, hprev, hpos, hfold⟩ | ⟨hzero, hfold⟩ := fold_cases hn s nowMs
  · simp only [hprev, hfold, mem_def, some.injEq, forall_eq', if_neg hpos,
      ← smooth_returns]
    exact exists_congr fun v => and_iff_left_of_imp smooth_between
  simp only [hfold, some.injEq, exists_eq_left']
  refine forall₂_congr fun prev hprev => ?_
  obtain rfl := hzero prev hprev
  rw [if_pos rfl, between_double hs]

theorem smooths_iff (n : BabelNeighbor) (c : NeighborCall) : n.Smooths c ↔ n.InRange c := by
  cases c with
  | helloTimestamped seqno intervalCs peerTsUs nowMs nowUs =>
    obtain ⟨cost, hcost⟩ := computeRxcost_returns (pushHello n.helloHistory seqno)
    simp [Smooths, InRange, measures, call, helloTimestamped, hello, hcost]
  | ihuEcho rxcost intervalCs ts1 ts2 nowMs =>
    have hn : (n.ihu rxcost intervalCs nowMs).rtt = n.rtt := rfl
    rw [Smooths, InRange, call, ihuEcho, measures, hn]
    cases hstate : n.rtt with
    | none => simp
    | some state =>
      cases hs : sample state ts1 ts2 with
      | none => simp [hs]
      | some s =>
        simp only [hs, bind_some, map_some, mem_some, forall_eq',
          ← fold_between_iff hstate (sample_le hs)]
        cases fold state s nowMs <;> simp [smoothed]

/-! ## Runs -/

/-- The call takes no sample, or takes `s` while a value is valid. -/
def Steady (s : UInt32) (n : BabelNeighbor) (c : NeighborCall) : Prop :=
  ∀ m ∈ n.measures c, m.1 = s ∧ m.2.isSome = true

theorem smoothed_of_measures_none {n' : BabelNeighbor} (h : n.call c = some n')
    (hc : n.measures c = none) : n'.smoothed = n.smoothed := by
  cases c with
  | helloTimestamped seqno intervalCs peerTsUs nowMs nowUs =>
    simp only [call, helloTimestamped, hello, map_map, map_eq_some_iff] at h
    obtain ⟨cost, -, rfl⟩ := h
    cases hstate : n.rtt <;> simp [smoothed, hstate, RttState.default]
  | ihuEcho rxcost intervalCs ts1 ts2 nowMs =>
    rw [call, ihuEcho] at h
    rw [measures, map_eq_none_iff] at hc
    have hn : (n.ihu rxcost intervalCs nowMs).rtt = n.rtt := rfl
    rw [hn] at h
    cases hstate : n.rtt with
    | none =>
      rw [hstate] at h
      cases h
      rfl
    | some state =>
      simp only [hstate, bind_some] at h hc
      rw [hc] at h
      cases h
      rfl

theorem smoothed_of_measures (h : n.measures c = some (s, some prev)) : n.smoothed = some prev := by
  cases c with
  | helloTimestamped => cases h
  | ihuEcho rxcost intervalCs ts1 ts2 nowMs =>
    obtain ⟨x, -, hx⟩ := map_eq_some_iff.mp h
    obtain ⟨-, hprev⟩ := Prod.mk.inj hx
    rw [rttUs] at hprev
    split at hprev
    · exact hprev
    · cases hprev

/-- **RTT smoothing.**  A run computes without an overflow, and moves every valid value
towards the sample, exactly as long as each sample that meets a valid value fits the
arithmetic; a constant sample is then approached monotonically. -/
theorem rttSmoothing_iff (n : BabelNeighbor) (cs : List NeighborCall) :
    (Along call Smooths n cs ↔ Along call InRange n cs) ∧
    (Along call InRange n cs → (exec call n cs).isSome = true) ∧
    ∀ s v n', n.smoothed = some v → Along call (fun n c => n.InRange c ∧ n.Steady s c) n cs →
      exec call n cs = some n' → ∃ w, n'.smoothed = some w ∧ Between v s w := by
  refine ⟨⟨.mono fun n c => (smooths_iff n c).mp, .mono fun n c => (smooths_iff n c).mpr⟩, ?_,
    fun s v n' hv hsteady hrun => ?_⟩
  · induction cs generalizing n with
    | nil => exact fun _ => rfl
    | cons c cs ih =>
      rintro ⟨hc, hrange⟩
      obtain ⟨n', hcall, -⟩ := (smooths_iff n c).mpr hc
      rw [hcall] at hrange
      rw [exec, hcall]
      exact ih n' hrange
  · have hstart : Between v s v := by
      simp only [Between, UInt32.le_iff_toNat_le]
      omega
    refine exec_invariant (P := fun n => ∃ w, n.smoothed = some w ∧ Between v s w) ?_
      ⟨v, hv, hstart⟩ hsteady hrun
    rintro n c n' ⟨w, hw, hbetween⟩ ⟨hin, hst⟩ hcall
    obtain ⟨n₁, hcall₁, hmoves⟩ := (smooths_iff n c).mpr hin
    obtain rfl : n' = n₁ := some.inj (hcall.symm.trans hcall₁)
    cases hm : n.measures c with
    | none => exact ⟨w, (smoothed_of_measures_none hcall hm).trans hw, hbetween⟩
    | some m =>
      obtain ⟨x, prev⟩ := m
      obtain ⟨rfl, hprev⟩ := hst (x, prev) hm
      obtain ⟨prev, rfl⟩ := isSome_iff_exists.mp hprev
      obtain ⟨u, hu, hmoved⟩ := hmoves (x, some prev) hm prev rfl
      obtain rfl : w = prev := some.inj (hw.symm.trans (smoothed_of_measures hm))
      exact ⟨u, hu, hbetween.trans hmoved⟩

/-- Two echoes of 200 seconds overflow the second average. -/
theorem rtt_overflows : exec call (new (.v4 (.zero 4)) 0)
    [.helloTimestamped 1 400 0 0 200000000, .ihuEcho 96 1200 0 0 0, .ihuEcho 96 1200 0 0 1000] =
      none := by
  decide +kernel

end BabelNeighbor

end LibRouting.Babel
