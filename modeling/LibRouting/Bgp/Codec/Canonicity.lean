/-
  Bgp/Codec/Canonicity.lean --- bits of an NLRI that carry no meaning.

  The bits of the last address octet behind the prefix length "are irrelevant"
  (RFC 4271 4.3), and the three bits between a label and its bottom-of-stack bit
  are reserved (RFC 8277 2.2).  The encoders write both as zero.  None of the
  decoders clears them: the padding ends up in the prefix, the reserved bits in the
  traffic class.  This module says for which inputs that makes no difference, and
  which label lists survive a trip over the wire.
-/
import LibRouting.Bgp.Codec.MpRoundTrip
import LibRouting.Rib.AdjRib

set_option autoImplicit false

namespace LibRouting.Bgp

open Foundation Core Rib Outcome LabeledNlri Prefix List

variable {family : NlriFamily} {pl : UInt8} {body : Bytes} {addPath : Bool} {form : AddressForm}
  {ε : Type} {id : UInt32} {body' octets : Bytes} {n : Nat}

/-! ## One entry -/

theorem mpAddress_of_carried (h : Carried family pl) :
    ∃ width address, mpAddress family = some (width, address) ∧
      octetCount pl ≤ width ∧ ∀ body, address body pl = prefixOf family body pl := by
  unfold mpAddress prefixOf
  rcases h with ⟨hafi, hle⟩ | ⟨hafi, hle⟩
  · refine ⟨4, _, if_pos hafi, ?_, fun body => by rw [if_pos hafi]⟩
    simp only [octetCount]; omega
  · have hne : ¬ family.afi = 1 := by rw [hafi]; decide
    refine ⟨16, _, by rw [if_neg hne, if_pos hafi], ?_, fun body => by rw [if_neg hne]⟩
    simp only [octetCount]; omega

theorem not_fits_of_not_carried (h : ¬ Carried family pl) (tail : Bytes) :
    ¬ EntryFits (mpAddress family) pl tail := by
  rintro ⟨⟨width, address, hform, hle⟩, -⟩
  apply h
  unfold mpAddress at hform
  simp only [octetCount] at hle
  by_cases h1 : family.afi = 1
  · simp only [h1, if_true, Option.some.injEq, Prod.mk.injEq] at hform
    exact .inl ⟨h1, by omega⟩
  by_cases h2 : family.afi = 2
  · rw [if_neg h1, if_pos h2, Option.some.injEq, Prod.mk.injEq] at hform
    exact .inr ⟨h2, by omega⟩
  · simp [h1, h2] at hform

/-- The octets of one entry. -/
def entryWire (addPath : Bool) (id : UInt32) (pl : UInt8) (body : Bytes) : Bytes :=
  (if addPath then toBe32 id else []) ++ pl :: body

theorem nlriEntry_entryWire {width : Nat} {address : Bytes → UInt8 → Prefix} (addPath : Bool)
    (id : UInt32) (hform : form = some (width, address))
    (hbody : body.length = octetCount pl) (hle : octetCount pl ≤ width) :
    NlriEntry form addPath (entryWire addPath id pl body)
      ⟨if addPath then id else 0, address body pl⟩ :=
  .intro (.wire addPath id) hform hbody hle

theorem nlriSection_one {wire : Bytes} {n : Nlri} (h : NlriEntry form addPath wire n) :
    NlriSection form addPath wire [n] := by
  have hone : NlriSection form addPath (wire ++ []) ([] ++ [n]) :=
    Turns.cons ⟨n, h, rfl⟩ (.nil _)
  rwa [append_nil] at hone

theorem scan_entryWire (family : NlriFamily) (addPath : Bool) (id : UInt32) (pl : UInt8)
    (hbody : body.length = octetCount pl) (i : Nat) :
    scan (decodeMpNlriTurn family addPath) [] i (entryWire addPath id pl body) =
      if Carried family pl then ok [⟨if addPath then id else 0, prefixOf family body pl⟩]
      else err () := by
  have hturn := isNlriTurn_decodeMpNlriTurn family addPath
  by_cases h : Carried family pl
  · rw [if_pos h]
    obtain ⟨width, address, hform, hle, haddr⟩ := mpAddress_of_carried h
    refine (hturn.scan_ok_iff i _ _).mpr ?_
    rw [← haddr]
    exact nlriSection_one (nlriEntry_entryWire addPath id hform hbody hle)
  · rw [if_neg h]
    obtain ⟨⟨⟩, he⟩ := hturn.front_err (.wire addPath id) [] i pl body
      (not_fits_of_not_carried h body)
    exact scan_of_err (by simp [entryWire]) he

/-- The plain IPv4 sections: a length beyond 32 is refused before an octet of the
address is looked at. -/
theorem decodeNlriSet_entryWire (addPath : Bool) (id : UInt32) (pl : UInt8)
    (hbody : body.length = octetCount pl) :
    decodeNlriSet (entryWire addPath id pl body) addPath =
      if pl.toNat ≤ 32 then
        ok [⟨if addPath then id else 0, prefixOf .ipv4Unicast body pl⟩]
      else decodeNlriSet (entryWire addPath id pl []) addPath := by
  have hlt : (32 < pl) ↔ ¬ pl.toNat ≤ 32 := by
    rw [UInt8.lt_iff_toNat_lt]
    exact Nat.not_le.symm
  by_cases h : pl.toNat ≤ 32
  · rw [if_pos h]
    have hle : octetCount pl ≤ 4 := by simp only [octetCount]; omega
    exact (decodeNlriSet_ok_iff _ _ _).mpr
      (nlriSection_one (nlriEntry_entryWire addPath id rfl hbody hle))
  rw [if_neg h]
  -- the turn stops at the length octet, whatever follows it
  have hsame : ∀ tail, decodeNlriTurn addPath [] 0 (entryWire addPath id pl tail) =
      decodeNlriTurn addPath [] 0 (entryWire addPath id pl []) := by
    intro tail
    simp only [decodeNlriTurn, entryWire, readPathId_front (PathIdOctets.wire addPath id), ok_bind,
      index_behind, if_pos (hlt.mpr h)]
  have hnot : ¬ Carried .ipv4Unicast pl := by simp [Carried, NlriFamily.ipv4Unicast, h]
  obtain ⟨e, he⟩ := (isNlriTurn_decodeNlriTurn addPath).front_err (.wire addPath id) [] 0 pl []
    (not_fits_of_not_carried hnot [])
  have hscan : ∀ tail, decodeNlriSet (entryWire addPath id pl tail) addPath = err e :=
    fun tail => scan_of_err (by simp [entryWire]) ((hsame tail).trans he)
  rw [hscan, hscan]

/-! ## Padding bits -/

/-- Two spellings of one prefix: the address octets agree in the first `pl` bits, so
they differ in the padding of the last octet only. -/
structure DifferInPadding (pl : UInt8) (body body' : Bytes) : Prop where
  left : body.length = octetCount pl
  right : body'.length = octetCount pl
  bits : keepBits pl.toNat body = keepBits pl.toNat body'

/-- The withdrawals of an UPDATE, one after the other. -/
def withdrawAll (rib : AdjRibIn) (origin : RouteOrigin) (family : NlriFamily)
    (withdrawn : List Nlri) : AdjRibIn :=
  withdrawn.foldl (fun rib n => rib.withdraw origin (.new n.pfx family) n.pathId) rib

/-- Withdrawing the entries `withdrawn` takes out every route filed for one of
`announced`. -/
def Removes (family : NlriFamily) (announced withdrawn : List Nlri) : Prop :=
  ∀ n ∈ announced, ∀ (rib : AdjRibIn) (origin : RouteOrigin) (route : Route),
    route.key = .new n.pfx family → route.pathId = n.pathId →
    (withdrawAll (rib.feedPrePolicy origin route) origin family withdrawn).get origin route.key
      route.pathId = none

/-- No decoder tells the two spellings apart, and a withdrawal in one spelling
removes the route announced in the other. -/
structure ReadAlike (family : NlriFamily) (addPath : Bool) (id : UInt32) (pl : UInt8)
    (body body' : Bytes) : Prop where
  plain : family = .ipv4Unicast →
    decodeNlriSet (entryWire addPath id pl body) addPath =
        decodeNlriSet (entryWire addPath id pl body') addPath ∧
      ∀ announced withdrawn, decodeNlriSet (entryWire addPath id pl body) addPath = ok announced →
        decodeNlriSet (entryWire addPath id pl body') addPath = ok withdrawn →
        Removes family announced withdrawn
  unreach :
    MpUnreach.decodeEx (toBe16 family.afi ++ [family.safi] ++ entryWire addPath id pl body)
        addPath =
      MpUnreach.decodeEx (toBe16 family.afi ++ [family.safi] ++ entryWire addPath id pl body')
        addPath
  reach : ∀ (octets : Bytes) (reserved : UInt8), octets.length ≤ 255 →
    MpReach.decodeEx (toBe16 family.afi ++ [family.safi] ++ [UInt8.ofNat octets.length] ++ octets ++
        [reserved] ++ entryWire addPath id pl body) addPath =
        MpReach.decodeEx (toBe16 family.afi ++ [family.safi] ++ [UInt8.ofNat octets.length] ++
          octets ++ [reserved] ++ entryWire addPath id pl body') addPath ∧
      ∀ announced withdrawn,
        MpReach.decodeEx (toBe16 family.afi ++ [family.safi] ++ [UInt8.ofNat octets.length] ++
          octets ++ [reserved] ++ entryWire addPath id pl body) addPath = ok announced →
        MpUnreach.decodeEx (toBe16 family.afi ++ [family.safi] ++ entryWire addPath id pl body')
          addPath = ok withdrawn →
        Removes family announced.nlri withdrawn.nlri
  labelled : ∀ labels, LabelOctets labels → labels.length * 8 + pl.toNat ≤ 255 →
    decode family ((if addPath then toBe32 id else []) ++
        UInt8.ofNat (labels.length * 8 + pl.toNat) :: (labels ++ body)) addPath =
      decode family ((if addPath then toBe32 id else []) ++
        UInt8.ofNat (labels.length * 8 + pl.toNat) :: (labels ++ body')) addPath

theorem withdrawAll_get_of_none {rib : AdjRibIn} {origin : RouteOrigin} {key : RouteKey}
    (h : rib.get origin key id = none) (family : NlriFamily) (withdrawn : List Nlri) :
    (withdrawAll rib origin family withdrawn).get origin key id = none := by
  induction withdrawn generalizing rib with
  | nil => exact h
  | cons n withdrawn ih => exact ih (by rw [AdjRibIn.get_withdraw, h, ite_self])

theorem removes_self (family : NlriFamily) (ns : List Nlri) : Removes family ns ns := by
  intro n hn rib origin route hkey hid
  generalize rib.feedPrePolicy origin route = table
  induction ns generalizing table with
  | nil => cases hn
  | cons m ns ih =>
    rcases mem_cons.mp hn with rfl | hn
    · exact withdrawAll_get_of_none (by simp [hkey, hid]) family ns
    · exact ih hn _

theorem prefixOf_injective (h : Carried family pl) (hbody : body.length = octetCount pl)
    (hbody' : body'.length = octetCount pl)
    (heq : prefixOf family body pl = prefixOf family body' pl) : body = body' := by
  have hbytes : ∀ {n : Nat}, octetCount pl ≤ n →
      Octets.padded n body = Octets.padded n body' → body = body' := by
    intro n hle hb
    rw [← Octets.take_padded (n := n) (b := body) (by omega), hb, hbody, ← hbody',
      Octets.take_padded (by omega)]
  unfold prefixOf at heq
  rcases h with ⟨hafi, hle⟩ | ⟨hafi, hle⟩
  · rw [if_pos hafi, if_pos hafi] at heq
    refine hbytes (n := 4) (by simp only [octetCount]; omega) ?_
    simpa [Prefix.newV4] using heq
  have hne : ¬ family.afi = 1 := by rw [hafi]; decide
  rw [if_neg hne, if_neg hne] at heq
  refine hbytes (n := 16) (by simp only [octetCount]; omega) ?_
  simpa [Prefix.newV6] using heq

theorem keepBits_of_le {b : Bytes} (h : 8 * b.length ≤ n) : keepBits n b = b := by
  induction b generalizing n with
  | nil => rfl
  | cons x b ih =>
    simp only [length_cons] at h
    rw [keepBits, if_pos (by omega), ih (by omega)]

theorem keepBits_zeros (n k : Nat) :
    keepBits n (replicate k 0) = replicate k 0 := by
  induction k generalizing n with
  | zero => rfl
  | succ k ih =>
    rw [replicate_succ, keepBits, ih]
    simp

theorem keepBits_lastBit {k : Nat} (hlow : 8 * k < n) (hhigh : n < 8 * k + 8) :
    keepBits n (replicate k 0 ++ [1]) = replicate (k + 1) 0 := by
  induction k generalizing n with
  | zero =>
    have hall : ∀ m : Fin 8, 0 < m.val → keepBits m.val [1] = [0] := by decide
    exact hall ⟨n, by omega⟩ (by simpa using hlow)
  | succ k ih =>
    rw [replicate_succ, cons_append, keepBits, if_pos (by omega),
      ih (by omega) (by omega)]
    rfl

theorem exists_differInPadding (h : pl.toNat % 8 ≠ 0) :
    ∃ body body', DifferInPadding pl body body' ∧ body ≠ body' := by
  have hcount : octetCount pl = pl.toNat / 8 + 1 := by
    simp only [octetCount]; omega
  refine ⟨replicate (pl.toNat / 8 + 1) 0, replicate (pl.toNat / 8) 0 ++ [1],
    ⟨by simp [hcount], by simp [hcount], ?_⟩, ?_⟩
  · rw [keepBits_zeros, keepBits_lastBit (by omega) (by omega)]
  · rw [replicate_succ']
    simp

theorem readAlike_of_same (h : DifferInPadding pl body body')
    (hsame : body = body' ∨ ¬ Carried family pl) : ReadAlike family addPath id pl body body' := by
  have hscan : ∀ i, scan (decodeMpNlriTurn family addPath) [] i (entryWire addPath id pl body) =
      scan (decodeMpNlriTurn family addPath) [] i (entryWire addPath id pl body') := by
    intro i
    rcases hsame with rfl | hc
    · rfl
    · rw [scan_entryWire family addPath id pl h.left, scan_entryWire family addPath id pl h.right,
        if_neg hc, if_neg hc]
  refine ⟨fun hfamily => ?_, ?_, fun octets reserved hoctets => ?_, fun labels hlabels hbits => ?_⟩
  · have heq : decodeNlriSet (entryWire addPath id pl body) addPath =
        decodeNlriSet (entryWire addPath id pl body') addPath := by
      rcases hsame with rfl | hc
      · rfl
      · have hlong : ¬ pl.toNat ≤ 32 := fun hle => hc (.inl ⟨by rw [hfamily]; rfl, hle⟩)
        rw [decodeNlriSet_entryWire addPath id pl h.left, if_neg hlong,
          decodeNlriSet_entryWire addPath id pl h.right, if_neg hlong]
    refine ⟨heq, fun announced withdrawn ha hw => ?_⟩
    obtain rfl : announced = withdrawn := ok.inj (ha.symm.trans (heq.trans hw))
    exact removes_self family announced
  · rw [MpUnreach.decodeEx_section, MpUnreach.decodeEx_section, hscan]
  · simp only [MpReach.decodeEx_section _ _ _ _ _ hoctets, MpUnreach.decodeEx_section, hscan,
      true_and]
    intro announced withdrawn ha hw
    obtain ⟨nextHop, -, ha⟩ := bind_eq_ok.mp ha
    obtain ⟨ns, hns, ha⟩ := bind_eq_ok.mp ha
    obtain ⟨ms, hms, hw⟩ := bind_eq_ok.mp hw
    cases ha
    cases hw
    -- both sections hold the one entry that is also at offset zero
    have hentry : ∀ {i xs}, scan (decodeMpNlriTurn family addPath) [] i
        (entryWire addPath id pl body') = ok xs →
        xs = [⟨if addPath then id else 0, prefixOf family body' pl⟩] := by
      intro i xs hxs
      rw [scan_entryWire family addPath id pl h.right] at hxs
      split at hxs
      · exact (ok.inj hxs).symm
      · cases hxs
    rw [hentry hns, hentry hms]
    exact removes_self family _
  · have hdec : ∀ {b : Bytes}, b.length = octetCount pl → _ := fun {b} hb =>
      decode_octets hlabels hb hbits family id addPath []
    simp only [append_nil] at hdec
    rcases hsame with rfl | hc
    · rfl
    have hnone : ∀ {b : Bytes}, b.length = octetCount pl →
        readPrefix family pl.toNat b = none := by
      intro b hb
      rw [← append_nil b, readPrefix_body family hb, if_neg hc]
    rw [hdec h.left, hdec h.right, hnone h.left, hnone h.right]

/-- The decoders and a withdrawal treat two spellings of one prefix alike exactly
when the spellings are the same or the entry is refused; so all spellings of a prefix
length are alike exactly when the length has no padding or is refused. -/
theorem readAlike_iff (family : NlriFamily) (addPath : Bool) (id : UInt32) (pl : UInt8) :
    (∀ body body', DifferInPadding pl body body' →
      (ReadAlike family addPath id pl body body' ↔ body = body' ∨ ¬ Carried family pl)) ∧
    ((∀ body body', DifferInPadding pl body body' →
      ReadAlike family addPath id pl body body') ↔ pl.toNat % 8 = 0 ∨ ¬ Carried family pl) := by
  have hpair : ∀ body body', DifferInPadding pl body body' →
      (ReadAlike family addPath id pl body body' ↔ body = body' ∨ ¬ Carried family pl) := by
    intro body body' h
    constructor
    · intro halike
      by_cases hc : Carried family pl
      · left
        have hun := halike.unreach
        rw [MpUnreach.decodeEx_section, MpUnreach.decodeEx_section,
          scan_entryWire family addPath id pl h.left, scan_entryWire family addPath id pl h.right,
          if_pos hc, if_pos hc] at hun
        simp only [ok_bind, ok.injEq, MpUnreach.mk.injEq, true_and, cons.injEq, Nlri.mk.injEq,
          and_true] at hun
        exact prefixOf_injective hc h.left h.right hun
      · exact .inr hc
    · exact readAlike_of_same h
  refine ⟨hpair, fun hall => ?_, fun hcond body body' h => ?_⟩
  · by_contra hno
    obtain ⟨hmod, hc⟩ := not_or.mp hno
    obtain ⟨body, body', h, hne⟩ := exists_differInPadding hmod
    rcases (hpair body body' h).mp (hall body body' h) with heq | hnc
    · exact hne heq
    · exact hc hnc
  · refine (hpair body body' h).mpr (hcond.imp (fun hmod => ?_) fun hnc => hnc)
    have hlen : 8 * octetCount pl ≤ pl.toNat := by simp only [octetCount]; omega
    rw [← keepBits_of_le (n := pl.toNat) (b := body) (by rw [h.left]; exact hlen), h.bits,
      keepBits_of_le (by rw [h.right]; exact hlen)]

/-- The two spellings of 10.128/9 with the padding clear and set: the withdrawal in
the second one does not remove the route announced in the first. -/
theorem withdrawal_misses_padding :
    DifferInPadding 9 [10, 128] [10, 255] ∧
      ¬ ReadAlike .ipv4Unicast false 0 9 [10, 128] [10, 255] ∧
      ∃ n m, decodeNlriSet [9, 10, 128] false = ok [n] ∧
        decodeNlriSet [9, 10, 255] false = ok [m] ∧ ¬ Removes .ipv4Unicast [n] [m] := by
  have hpad : DifferInPadding 9 [10, 128] [10, 255] := ⟨by decide, by decide, by decide⟩
  have hdec : ∀ b : UInt8, decodeNlriSet [9, 10, b] false =
      ok [⟨0, .newV4 (.padded 4 [10, b]) 9⟩] := by
    intro b
    have hlen : ([10, b] : Bytes).length = octetCount 9 := show 2 = _ by decide
    have h := decodeNlriSet_entryWire false 0 9 hlen
    rw [if_pos (by decide)] at h
    exact h
  refine ⟨hpad, fun halike => ?_, _, _, hdec 128, hdec 255, fun hremoves => ?_⟩
  · have heq := (halike.plain rfl).1
    have hneq : (ok [⟨0, .newV4 (.padded 4 [10, 128]) 9⟩] : Outcome String (List Nlri)) ≠
        ok [⟨0, .newV4 (.padded 4 [10, 255]) 9⟩] := by decide
    exact hneq ((hdec 128).symm.trans (heq.trans (hdec 255)))
  · have hgone := hremoves ⟨0, .newV4 (.padded 4 [10, 128]) 9⟩ (by simp) ∅ ⟨0, 1⟩
      { key := .new (.newV4 (.padded 4 [10, 128]) 9) .ipv4Unicast, origin := ⟨0, 1⟩
        protocol := .bgp, preference := ⟨20, 0⟩, nextHop := none, attributes := ∅, ageMs := 0
        pathId := 0, tag := none } rfl rfl
    have hother : (RouteKey.new (.newV4 (.padded 4 [10, 255]) 9) .ipv4Unicast) ≠
        .new (.newV4 (.padded 4 [10, 128]) 9) .ipv4Unicast := by decide
    simp [withdrawAll, hother] at hgone

/-! ## Reserved bits of a label -/

/-- The label field with the reserved bits of every group cleared. -/
def clearReserved : Bytes → Bytes
  | a :: b :: c :: rest => a :: b :: (c &&& 0xf1) :: clearReserved rest
  | rest => rest

@[simp] theorem clearReserved_length : ∀ octets : Bytes,
    (clearReserved octets).length = octets.length
  | a :: b :: c :: rest => by simp [clearReserved, clearReserved_length rest]
  | [] | [_] | [_, _] => rfl

/-- What clearing the reserved bits of an octet leaves: the nibble of the label and the
bottom bit; the class the decoder makes of those bits tells whether there were any. -/
theorem reserved_octet (c : UInt8) :
    (c &&& 0xf1) &&& 0x01 = c &&& 0x01 ∧ (c &&& 0xf1).toUInt32 >>> 4 = c.toUInt32 >>> 4 ∧
      ((c >>> 1) &&& (0x07 : UInt8) = ((c &&& 0xf1) >>> 1) &&& (0x07 : UInt8) ↔
        c = c &&& 0xf1) := by
  have hall : ∀ n : Fin 256, (UInt8.ofFin n &&& 0xf1) &&& 0x01 = UInt8.ofFin n &&& 0x01 ∧
      (UInt8.ofFin n &&& 0xf1).toUInt32 >>> 4 = (UInt8.ofFin n).toUInt32 >>> 4 ∧
      ((UInt8.ofFin n >>> 1) &&& (0x07 : UInt8) =
        ((UInt8.ofFin n &&& 0xf1) >>> 1) &&& (0x07 : UInt8) ↔
          UInt8.ofFin n = UInt8.ofFin n &&& 0xf1) := by decide +kernel
  exact hall c.toFin

theorem LabelOctets.clearReserved (h : LabelOctets octets) :
    LabelOctets (clearReserved octets) := by
  induction h with
  | @bottom a b c hc => exact .bottom (by rwa [(reserved_octet c).1])
  | @above a b c rest hc _ ih => exact .above (by rwa [(reserved_octet c).1]) ih

/-- The decoder makes the same labels of both fields exactly when no reserved bit was
set. -/
theorem labelsOf_clearReserved_iff (h : LabelOctets octets) :
    labelsOf octets = labelsOf (Bgp.clearReserved octets) ↔ octets = Bgp.clearReserved octets := by
  induction h with
  | @bottom a b c hc =>
    obtain ⟨-, hvalue, htc⟩ := reserved_octet c
    simp only [labelsOf, Bgp.clearReserved, hvalue, cons.injEq, Label.mk.injEq, true_and,
      and_true, htc]
  | @above a b c rest hc _ ih =>
    obtain ⟨-, hvalue, htc⟩ := reserved_octet c
    simp only [labelsOf, Bgp.clearReserved, hvalue, cons.injEq, Label.mk.injEq, true_and,
      and_true, htc, ih]

/-- A labelled entry reads the same with its reserved bits cleared exactly when they
were clear or the entry is refused. -/
theorem decode_clearReserved_iff {labels : Bytes} (hlabels : LabelOctets labels)
    (hbody : body.length = octetCount pl) (hbits : labels.length * 8 + pl.toNat ≤ 255)
    (family : NlriFamily) (id : UInt32) (addPath : Bool) (rest : Bytes) :
    (decode family ((if addPath then toBe32 id else []) ++
        UInt8.ofNat (labels.length * 8 + pl.toNat) :: (labels ++ body) ++ rest) addPath =
      decode family ((if addPath then toBe32 id else []) ++
        UInt8.ofNat (labels.length * 8 + pl.toNat) :: (clearReserved labels ++ body) ++ rest)
        addPath) ↔ labels = clearReserved labels ∨ ¬ Carried family pl := by
  have hcleared := decode_octets hlabels.clearReserved hbody
    (by rwa [clearReserved_length]) family id addPath rest
  rw [clearReserved_length] at hcleared
  rw [decode_octets hlabels hbody hbits, hcleared, readPrefix_body family hbody]
  by_cases hc : Carried family pl
  · simp [hc, labelsOf_clearReserved_iff hlabels]
  · simp [hc]

/-! ## Label lists -/

/-- An entry for a list of the family: a canonical prefix, and a path identifier only
where the encoding has room for one. -/
def Listed (family : NlriFamily) (addPath : Bool) (e : LabeledNlri) : Prop :=
  NetworkPrefix family e.pfx ∧ (addPath = false → e.pathId = 0)

/-- An entry without the class and TTL of its labels. -/
def LabeledNlri.bare (e : LabeledNlri) : UInt32 × List UInt32 × Prefix :=
  (e.pathId, e.labelStack.map Label.value, e.pfx)

/-- The list comes back with every entry, up to class and TTL. -/
def ListRoundTrips (family : NlriFamily) (addPath : Bool) (entries : List LabeledNlri) : Prop :=
  (decodeList family (encodeList entries addPath) addPath).map
    (map LabeledNlri.bare) = some (entries.map LabeledNlri.bare)

theorem encodeList_filter (addPath : Bool) (entries : List LabeledNlri) :
    encodeList entries addPath =
      encodeList (entries.filter fun e => decide e.Fits) addPath := by
  have hdropped : ∀ e : LabeledNlri, ¬ e.Fits → e.encode addPath = none := by
    intro e h
    unfold encode
    by_cases hne : e.labelStack = []
    · rw [if_pos hne]
    rw [if_neg hne]
    have hlen := encode3octet_length e.labelStack
    have hlong : 255 < e.labelStack.encode3octet.length * 8 + e.pfx.prefixLen.toNat := by
      by_contra hle
      exact h ⟨hne, by omega⟩
    exact if_pos hlong
  induction entries with
  | nil => rfl
  | cons e entries ih =>
    unfold encodeList at ih ⊢
    by_cases h : e.Fits
    · rw [filter_cons_of_pos (by simpa using h), flatMap_cons, flatMap_cons, ih]
    · rw [filter_cons_of_neg (by simpa using h), flatMap_cons, hdropped e h, ih]
      rfl

/-- The entries that fit come back, their label values cut to 20 bits. -/
theorem decodeList_encodeList_filter (addPath : Bool) (entries : List LabeledNlri)
    (h : ∀ e ∈ entries, NetworkPrefix family e.pfx) :
    decodeList family (encodeList entries addPath) addPath =
      some ((entries.filter fun e => decide e.Fits).map (received addPath)) := by
  rw [encodeList_filter]
  refine decodeList_encodeList addPath _ fun e he => ?_
  obtain ⟨hmem, hfits⟩ := mem_filter.mp he
  exact ⟨h e hmem, by simpa using hfits⟩

theorem bare_received_iff {e : LabeledNlri} (h : Listed family addPath e) :
    (e.received addPath).bare = e.bare ↔ ∀ l ∈ e.labelStack, l.value < 0x100000 := by
  have hid : (if addPath then e.pathId else 0) = e.pathId := by
    cases addPath with
    | false => exact (h.2 rfl).symm
    | true => rfl
  have hvalue : ∀ v : UInt32, v % 0x100000 = v ↔ v < 0x100000 := by
    intro v
    rw [← UInt32.toNat_inj, UInt32.toNat_mod, UInt32.lt_iff_toNat_lt]
    have h20 : (0x100000 : UInt32).toNat = 0x100000 := rfl
    rw [h20]
    omega
  simp only [LabeledNlri.bare, received, hid, Prod.mk.injEq, true_and, and_true,
    map_map]
  rw [map_inj_left]
  exact forall₂_congr fun l _ => hvalue l.value

/-- Label lists come back in full exactly when every entry has labels, fits the length
octet and uses 20-bit labels; a received label field is read without regard to its
reserved bits exactly when they are zero or the entry is refused anyway. -/
theorem labelList_roundTrip_iff (family : NlriFamily) (addPath : Bool) :
    (∀ entries, (∀ e ∈ entries, Listed family addPath e) →
      (ListRoundTrips family addPath entries ↔
        ∀ e ∈ entries, e.Fits ∧ ∀ l ∈ e.labelStack, l.value < 0x100000)) ∧
    ∀ (id : UInt32) (labels : Bytes) (pl : UInt8) (body rest : Bytes), LabelOctets labels →
      body.length = octetCount pl → labels.length * 8 + pl.toNat ≤ 255 →
      ((decode family ((if addPath then toBe32 id else []) ++
          UInt8.ofNat (labels.length * 8 + pl.toNat) :: (labels ++ body) ++ rest) addPath =
        decode family ((if addPath then toBe32 id else []) ++
          UInt8.ofNat (labels.length * 8 + pl.toNat) :: (clearReserved labels ++ body) ++ rest)
          addPath) ↔ labels = clearReserved labels ∨ ¬ Carried family pl) := by
  refine ⟨fun entries hlisted => ?_, fun id labels pl body rest hlabels hbody hbits =>
    decode_clearReserved_iff hlabels hbody hbits family id addPath rest⟩
  unfold ListRoundTrips
  rw [decodeList_encodeList_filter addPath entries fun e he => (hlisted e he).1, Option.map_some,
    Option.some.injEq, map_map]
  constructor
  · intro h
    -- nothing was passed over, since the lists have the same length
    have hlen : (entries.filter fun e => decide e.Fits).length = entries.length := by
      simpa using congrArg length h
    have hall : ∀ e ∈ entries, e.Fits := by
      simpa using length_filter_eq_length_iff.mp hlen
    rw [filter_eq_self.mpr (by simpa using hall)] at h
    exact fun e he => ⟨hall e he,
      (bare_received_iff (hlisted e he)).mp (map_inj_left.mp h e he)⟩
  · intro h
    rw [filter_eq_self.mpr fun e he => by simpa using (h e he).1]
    exact map_inj_left.mpr fun e he => (bare_received_iff (hlisted e he)).mpr (h e he).2

/-- Ten labels over a /16 need 256 bits: the entry vanishes from its list.  And a label
received with reserved bits set is read with a class of its own. -/
theorem labelList_drops_deep :
    (let deep : LabeledNlri :=
      ⟨0, replicate 10 (.newValue 16), .newV4 (.padded 4 [10, 1]) 16⟩
     Listed .ipv4LabeledUnicast false deep ∧
       encodeList [deep] false = [] ∧
       ¬ ListRoundTrips .ipv4LabeledUnicast false [deep]) ∧
    decode .ipv4LabeledUnicast [32, 0, 1, 0x0f, 10] false ≠
      decode .ipv4LabeledUnicast [32, 0, 1, 0x01, 10] false := by
  have hempty : encodeList [⟨0, replicate 10 (.newValue 16),
      .newV4 (.padded 4 [10, 1]) 16⟩] false = [] := by decide
  refine ⟨⟨⟨by decide, fun _ => rfl⟩, hempty, ?_⟩, by decide⟩
  unfold ListRoundTrips
  rw [hempty]
  simp [decodeList]

end LibRouting.Bgp
