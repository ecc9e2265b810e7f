/-
  Policy/PrefixSetTrie.lean --- the prefix trie of a compiled `~` set literal
  (`lr-policy`, `filter/bytecode.rs`) against the interpreter's scan of the literal
  (`filter/eval.rs`).

  The trie is a Patricia trie over the prefixes of the literal (`Patricia.Trie`); a node
  keeps the length ranges of the patterns that end there.  `build_represents` follows an
  insertion sequence of any length; what the finished arena stores is the list of patterns,
  whatever their order.  The two engines then differ on one kind of pattern only: one that
  is longer than the addresses of its family.  Node indices are natural numbers: an insertion
  adds at most two nodes, so the `u32` of the code holds them below 2 ^ 31 patterns.
-/
import LibRouting.Core.PrefixKey

set_option autoImplicit false

namespace LibRouting.Policy.Filter

open Foundation Foundation.Patricia Core List

/-! ## Prefix patterns and the linear scan -/

/-- `MatchItem`: an element of a set literal.  Values and dynamic expressions are not
looked into here. -/
inductive MatchItem (ν ε : Type) where
  | value (v : ν)
  | prefixSet (pfx : Prefix) (ge le : Option UInt8)
  | expr (e : ε)

/-- The `(ge, le)` constraint of a pattern. -/
abbrev Bounds : Type := Option UInt8 × Option UInt8

/-- `prefix_set_matches`. -/
def prefixSetMatches (set : Prefix) (ge le : Option UInt8) (p : Prefix) : Bool :=
  if !set.containsPrefix p then false
  else
    let pl := p.prefixLen.toNat
    let familyMax := if set.isIpv4 then 32 else 128
    let lo := max ((ge.map UInt8.toNat).getD set.prefixLen.toNat) set.prefixLen.toNat
    let hi := (le.map UInt8.toNat).getD familyMax
    decide (lo ≤ pl) && decide (pl ≤ hi)

/-- The item is a prefix pattern that matches. -/
def MatchItem.matchesPrefix {ν ε : Type} (p : Prefix) : MatchItem ν ε → Bool
  | .prefixSet pfx ge le => prefixSetMatches pfx ge le p
  | _ => false

/-! ## The trie -/

/-- `PrefixSetTrie`.  The items of a node are its `patterns`. -/
abbrev PrefixSetTrie : Type := Trie (Fin 2) Bounds

namespace PrefixSetTrie

/-- One turn of the loop of `build`: an item that is no prefix pattern is passed over. -/
def insertItem {ν ε : Type} (t : PrefixSetTrie) : MatchItem ν ε → Option PrefixSetTrie
  | .prefixSet pfx ge le =>
    let (key, len, family) := encodePrefix pfx
    t.insert key len family (ge, le)
  | _ => some t

/-- `build`. -/
def build {ν ε : Type} (items : List (MatchItem ν ε)) : Option PrefixSetTrie :=
  items.foldlM insertItem .new

/-- `len` lies in the range of a pattern whose prefix has length `setLen`. -/
def inRange (len familyMax setLen : Nat) (bounds : Bounds) : Bool :=
  let lo := max ((bounds.1.map UInt8.toNat).getD setLen) setLen
  let hi := (bounds.2.map UInt8.toNat).getD familyMax
  decide (lo ≤ len) && decide (len ≤ hi)

/-- The loop of `matches`. -/
def matchesLoop (key : Key) (len familyMax : Nat) (t : PrefixSetTrie) :
    Nat → Nat → Nat → Option Bool
  | 0, _, _ => none
  | fuel + 1, cur, pos =>
    match t.nodes[cur]? with
    | none => none
    | some node =>
      let seg := node.segment
      let skip := node.skip
      let remaining := len - pos
      let cmp := min skip remaining
      let xor := (seg ^^^ (key <<< pos)) &&& highBitsMask cmp
      if xor ≠ 0 ∨ remaining < skip then some false
      else if node.items.any (inRange len familyMax (pos + skip)) then some true
      else if remaining = skip then some false
      else
        match node.children (bitAt key (pos + skip)) with
        | some child => matchesLoop key len familyMax t fuel child (pos + skip)
        | none => some false

/-- `matches` (a keyword of the host language, hence the longer name). -/
def matchesPrefix (t : PrefixSetTrie) (p : Prefix) : Option Bool :=
  let (key, len, family) := encodePrefix p
  match t.roots family with
  | none => some false
  | some root => matchesLoop key len (if family.val = 0 then 32 else 128) t (len + 2) root 0

end PrefixSetTrie

open PrefixSetTrie

variable {ν ε : Type} {t : PrefixSetTrie} {items : List (MatchItem ν ε)} {set p pfx : Prefix}

/-! ## Building the trie -/

/-- What a list of items puts into the trie. -/
def Listed {ν ε : Type} (items : List (MatchItem ν ε)) (pfx : Prefix) (bounds : Bounds) : Prop :=
  .prefixSet pfx bounds.1 bounds.2 ∈ items

theorem represents_insertItem (h : Represents t (Listed items)) (item : MatchItem ν ε) :
    ∃ t', t.insertItem item = some t' ∧ Represents t' (Listed (items ++ [item])) := by
  cases item with
  | value v =>
    have hsame : Listed (items ++ [.value v]) = Listed items := by
      funext pfx bounds
      simp [Listed]
    exact ⟨t, rfl, hsame ▸ h⟩
  | expr e =>
    have hsame : Listed (items ++ [.expr e]) = Listed items := by
      funext pfx bounds
      simp [Listed]
    exact ⟨t, rfl, hsame ▸ h⟩
  | prefixSet pfx ge le =>
    obtain ⟨t', ht', hrep⟩ := h.insert pfx (ge, le)
    have hmore : Listed (items ++ [.prefixSet pfx ge le]) =
        fun q b => Listed items q b ∨ q = pfx ∧ b = (ge, le) := by
      funext q b
      simp [Listed, Prod.ext_iff]
    exact ⟨t', ht', hmore ▸ hrep⟩

theorem build_represents (items : List (MatchItem ν ε)) :
    ∃ t, PrefixSetTrie.build items = some t ∧ Represents t (Listed items) := by
  have hrun : ∀ (t : PrefixSetTrie) (done : List (MatchItem ν ε)), Represents t (Listed done) →
      ∃ t', items.foldlM insertItem t = some t' ∧
        Represents t' (Listed (done ++ items)) := by
    induction items with
    | nil => exact fun t done h => ⟨t, rfl, by rwa [append_nil]⟩
    | cons item items ih =>
      intro t done h
      obtain ⟨t₁, ht₁, h₁⟩ := represents_insertItem h item
      obtain ⟨t₂, ht₂, h₂⟩ := ih t₁ _ h₁
      refine ⟨t₂, ?_, by simpa using h₂⟩
      rw [foldlM_cons, ht₁]
      exact ht₂
  have hnone : Listed ([] : List (MatchItem ν ε)) = fun _ _ => False := by
    funext pfx bounds
    simp [Listed]
  exact hrun .new [] (hnone ▸ represents_new)

/-- The loop of `matches` is the walk that tests the ranges. -/
theorem matchesLoop_eq_walkLoop (key : Key) (len familyMax : Nat) (t : PrefixSetTrie)
    (fuel cur pos : Nat) (covered : Bool) :
    matchesLoop key len familyMax t fuel cur pos =
      (Trie.walkLoop key len (fun setLen b => some (inRange len familyMax setLen b))
        t fuel cur pos covered).map Prod.snd := by
  induction fuel generalizing cur pos covered with
  | zero => rfl
  | succ fuel ih =>
    rw [matchesLoop, Trie.walkLoop]
    cases t.nodes[cur]? with
    | none => rfl
    | some node =>
      have hany : node.items.anyM
          (fun b => some (inRange len familyMax (pos + node.skip) b)) =
            some (node.items.any (inRange len familyMax (pos + node.skip))) :=
        anyM_eq_some fun _ _ => rfl
      simp only [hany]
      by_cases hstop : (node.segment ^^^ key <<< pos) &&&
          highBitsMask (min node.skip (len - pos)) ≠ 0 ∨ len - pos < node.skip
      · rw [if_pos hstop, if_pos hstop]
        rfl
      · rw [if_neg hstop, if_neg hstop]
        cases node.items.any (inRange len familyMax (pos + node.skip)) with
        | true => rfl
        | false =>
          dsimp only
          rw [if_neg Bool.false_ne_true]
          by_cases hend : len - pos = node.skip
          · rw [if_pos hend, if_pos hend]
            rfl
          rw [if_neg hend, if_neg hend]
          cases node.children (bitAt key (pos + node.skip)) with
          | none => rfl
          | some child => exact ih child _ _

theorem matchesPrefix_eq_walk (t : PrefixSetTrie) (p : Prefix) :
    t.matchesPrefix p =
      (t.walk (encodePrefix p).1 (encodePrefix p).2.1 (encodePrefix p).2.2 fun setLen b =>
        some (inRange (encodePrefix p).2.1
          (if (encodePrefix p).2.2.val = 0 then 32 else 128) setLen b)).map Prod.snd := by
  obtain ⟨key, henc, -⟩ := encodePrefix_spec p
  simp only [matchesPrefix, Trie.walk, henc]
  cases t.roots (familyOf p.addr) with
  | none => rfl
  | some root => exact matchesLoop_eq_walkLoop _ _ _ t _ root 0 false

theorem matchesPrefix_eq (h : Represents t (Listed items)) (p : Prefix) (hp : p.Fits) :
    ∃ answer, t.matchesPrefix p = some answer ∧ (answer = true ↔
      ∃ pfx ge le, .prefixSet pfx ge le ∈ items ∧ pfx.addr.isIpv4 = p.addr.isIpv4 ∧
        pfx.fixedBits <+: p.fixedBits ∧
        inRange p.prefixLen.toNat p.addr.width pfx.fixedBits.length (ge, le) = true) := by
  obtain ⟨_, answer, hwalk, -, hiff⟩ := h.walk p (fun setLen b => some (inRange
    (encodePrefix p).2.1 (if (encodePrefix p).2.2.val = 0 then 32 else 128) setLen b)) _
    fun _ _ _ => rfl
  rw [matchesPrefix_eq_walk, hwalk]
  refine ⟨answer, rfl, hiff.trans ?_⟩
  obtain ⟨key, henc, -⟩ := encodePrefix_spec p
  have hmax : (if (familyOf p.addr).val = 0 then 32 else 128) = p.addr.width := by
    rw [IpAddr.width_eq, familyOf]
    cases p.addr.isIpv4 <;> rfl
  simp only [henc, hmax, Nat.min_eq_left hp]
  constructor
  · rintro ⟨pfx, ⟨ge, le⟩, hin, hcover⟩
    exact ⟨pfx, ge, le, hin, hcover⟩
  · rintro ⟨pfx, ge, le, hin, hcover⟩
    exact ⟨pfx, (ge, le), hin, hcover⟩

/-! ## Against the linear scan -/

theorem prefixSetMatches_iff (set : Prefix) (ge le : Option UInt8) (p : Prefix) :
    prefixSetMatches set ge le p = true ↔ set.containsPrefix p = true ∧
      inRange p.prefixLen.toNat set.addr.width set.prefixLen.toNat (ge, le) = true := by
  rw [IpAddr.width_eq]
  unfold prefixSetMatches inRange Prefix.isIpv4
  cases set.containsPrefix p with
  | false | true => simp

/-- A pattern with a length of its family: the scan tests what the walk tests. -/
theorem prefixSetMatches_of_fits (hset : set.Fits) (hp : p.Fits) (ge le : Option UInt8) :
    prefixSetMatches set ge le p = true ↔ set.addr.isIpv4 = p.addr.isIpv4 ∧
      set.fixedBits <+: p.fixedBits ∧
      inRange p.prefixLen.toNat p.addr.width set.fixedBits.length (ge, le) = true := by
  rw [prefixSetMatches_iff, Prefix.containsPrefix_iff_isPrefix hset hp, and_assoc,
    Prefix.length_fixedBits hset]
  refine and_congr_right fun hfam => ?_
  rw [IpAddr.width_eq, IpAddr.width_eq, hfam]

/-- A longer pattern matches nothing in the scan. -/
theorem not_prefixSetMatches_of_not_fits (hset : ¬ set.Fits) (hp : p.Fits) (ge le : Option UInt8) :
    ¬ prefixSetMatches set ge le p = true := by
  rw [prefixSetMatches_iff, Prefix.containsPrefix_iff]
  rintro ⟨⟨hfam, hle, -⟩, -⟩
  have hw : set.addr.width = p.addr.width := by rw [IpAddr.width_eq, IpAddr.width_eq, hfam]
  unfold Prefix.Fits at hset hp
  omega

/-- The item is a pattern longer than any address of its family, and the trie, which
files it under the whole address, takes it for a host pattern that admits `p`. -/
def MatchItem.HitsCutDown {ν ε : Type} (p : Prefix) : MatchItem ν ε → Prop
  | .prefixSet pfx ge le =>
    ¬ pfx.Fits ∧ pfx.addr = p.addr ∧ p.prefixLen.toNat = p.addr.width ∧
      (∀ g ∈ ge, g.toNat ≤ p.addr.width) ∧ ∀ l ∈ le, p.addr.width ≤ l.toNat
  | _ => False

theorem fixedBits_of_not_fits (h : ¬ pfx.Fits) : pfx.fixedBits = bits pfx.addr.octets := by
  refine take_of_length_le ?_
  rw [bits_length]
  exact (Nat.lt_of_not_le h).le

theorem inRange_full {w : Nat} (ge le : Option UInt8) :
    inRange w w w (ge, le) = true ↔
      (∀ g ∈ ge, g.toNat ≤ w) ∧ ∀ l ∈ le, w ≤ l.toNat := by
  cases ge <;> cases le <;> simp [inRange]

theorem hitsCutDown_iff (hpfx : ¬ pfx.Fits) (hp : p.Fits) (ge le : Option UInt8) :
    MatchItem.HitsCutDown p (.prefixSet pfx ge le : MatchItem ν ε) ↔
      pfx.addr.isIpv4 = p.addr.isIpv4 ∧ pfx.fixedBits <+: p.fixedBits ∧
        inRange p.prefixLen.toNat p.addr.width pfx.fixedBits.length (ge, le) =
          true := by
  have hbits := fixedBits_of_not_fits hpfx
  have hplen := Prefix.length_fixedBits hp
  unfold Prefix.Fits at hp
  constructor
  · rintro ⟨-, haddr, hlen, hge, hle⟩
    have hp' : p.fixedBits = bits p.addr.octets :=
      take_of_length_le (by rw [bits_length]; exact hlen.ge)
    have hw : (bits p.addr.octets).length = p.addr.width := bits_length _
    rw [hbits, haddr, hp', hw, hlen]
    exact ⟨rfl, prefix_rfl, (inRange_full ge le).mpr ⟨hge, hle⟩⟩
  · rintro ⟨hfam, hpre, hrange⟩
    have hw : (bits pfx.addr.octets).length = p.addr.width := by
      rw [bits_length]
      exact (congrArg (8 * ·) (IpAddr.length_octets_eq hfam))
    rw [hbits] at hpre hrange
    have hlen : p.prefixLen.toNat = p.addr.width := by
      have hle := hpre.length_le
      omega
    -- the whole address is fixed on both sides
    have heq : bits pfx.addr.octets = p.fixedBits := hpre.eq_of_length (by omega)
    have hp' : p.fixedBits = bits p.addr.octets :=
      take_of_length_le (by rw [bits_length]; exact hlen.ge)
    refine ⟨hpfx, IpAddr.eq_of_octets_eq hfam (bits_inj (heq.trans hp')), hlen, ?_⟩
    rw [hw, hlen] at hrange
    exact (inRange_full ge le).mp hrange

/-- The compiled set literal answers as the interpreter's scan does exactly when no
pattern that is too long is taken for a host pattern, or another pattern matches as well. -/
theorem build_matchesPrefix_iff {ν ε : Type} (items : List (MatchItem ν ε)) (p : Prefix)
    (hp : p.Fits) :
    (PrefixSetTrie.build items).bind (·.matchesPrefix p) =
        some (items.any (MatchItem.matchesPrefix p)) ↔
      ((∃ item ∈ items, item.HitsCutDown p) →
        ∃ item ∈ items, item.matchesPrefix p = true) := by
  obtain ⟨t, hbuild, hrep⟩ := build_represents items
  obtain ⟨answer, hanswer, hiff⟩ := matchesPrefix_eq hrep p hp
  rw [hbuild, Option.bind_some, hanswer, Option.some.injEq, Bool.eq_iff_iff, any_eq_true, hiff]
  constructor
  · rintro h ⟨item, hin, hcut⟩
    cases item with
    | value v | expr e => exact hcut.elim
    | prefixSet pfx ge le =>
      exact h.mp ⟨pfx, ge, le, hin, (hitsCutDown_iff hcut.1 hp ge le).mp hcut⟩
  · intro h
    constructor
    · rintro ⟨pfx, ge, le, hin, hcover⟩
      by_cases hfits : pfx.Fits
      · exact ⟨_, hin, (prefixSetMatches_of_fits hfits hp ge le).mpr hcover⟩
      · exact h ⟨_, hin, (hitsCutDown_iff hfits hp ge le).mpr hcover⟩
    · rintro ⟨item, hin, hm⟩
      cases item with
      | value v | expr e => exact (Bool.false_ne_true hm).elim
      | prefixSet pfx ge le =>
        by_cases hfits : pfx.Fits
        · exact ⟨pfx, ge, le, hin, (prefixSetMatches_of_fits hfits hp ge le).mp hm⟩
        · exact (not_prefixSetMatches_of_not_fits hfits hp ge le hm).elim

/-- A set with two ranges over one prefix, host bits, the default prefix and both families,
and a query that its first pattern covers. -/
theorem build_matchesPrefix_mixed :
    (PrefixSetTrie.build (ν := Unit) (ε := Unit)
      [.prefixSet ⟨.v4 ⟨[10, 1, 2, 3], rfl⟩, 8⟩ (some 16) (some 24), .value (),
       .prefixSet ⟨.v4 ⟨[10, 0, 0, 0], rfl⟩, 8⟩ (some 28) none,
       .prefixSet ⟨.v6 ⟨[0, 0, 0, 0, 0, 0, 0, 0, 0, 0, 0, 0, 0, 0, 0, 1], rfl⟩, 0⟩ none (some 48),
       .prefixSet ⟨.v4 ⟨[10, 128, 0, 0], rfl⟩, 9⟩ none none]).bind
      (·.matchesPrefix ⟨.v4 ⟨[10, 1, 2, 0], rfl⟩, 24⟩) = some true :=
  (build_matchesPrefix_iff _ ⟨.v4 ⟨[10, 1, 2, 0], rfl⟩, 24⟩ (by decide)).mpr
    fun _ => ⟨_, mem_cons_self, by decide⟩

/-- `10.0.0.1/33`, which the scan never matches, is taken for `10.0.0.1/32`. -/
theorem build_matchesPrefix_cutDown :
    (PrefixSetTrie.build (ν := Unit) (ε := Unit)
      [.prefixSet ⟨.v4 ⟨[10, 0, 0, 1], rfl⟩, 33⟩ none none]).bind
      (·.matchesPrefix ⟨.v4 ⟨[10, 0, 0, 1], rfl⟩, 32⟩) = some true ∧
    prefixSetMatches ⟨.v4 ⟨[10, 0, 0, 1], rfl⟩, 33⟩ none none ⟨.v4 ⟨[10, 0, 0, 1], rfl⟩, 32⟩ =
      false := by
  decide +kernel

end LibRouting.Policy.Filter
