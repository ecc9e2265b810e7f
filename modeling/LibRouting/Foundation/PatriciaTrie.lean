/-
  Foundation/PatriciaTrie.lean --- binary Patricia tries kept in an arena.

  Nodes refer to each other by index; segments are high-aligned 128-bit words that are
  compared under a mask.  One arena keeps several tries, one for each value of `ι`, over
  items of any type.  The second half of the file reads the words as strings of bits, so
  that the four outcomes of comparing a segment with the key are the four ways in which
  two strings of bits can overlap.
-/
import LibRouting.Foundation.RadixTrie
import Mathlib.Algebra.Order.Ring.Nat

set_option autoImplicit false

namespace LibRouting.Foundation.Patricia

open List

/-! ## High-aligned keys -/

/-- High-aligned: bit `i` of a key is its `i`-th most significant bit. -/
abbrev Key : Type := BitVec 128

/-- The mask with the top `n` bits set. -/
def highBitsMask (n : Nat) : Key :=
  if n = 0 then 0 else BitVec.allOnes 128 <<< (128 - n)

/-- Bit `i` from the most significant one. -/
def bitAt (key : Key) (i : Nat) : Bool := ((key <<< i) >>> 127).getLsbD 0

/-- How many zeros a word starts with. -/
def leadingZeros (x : Key) : Nat := (range 128).findIdx x.getMsbD

/-! ## The arena -/

/-- A node: `skip` bits of the key, the items stored under the key that ends here, and one
child slot for each value of the next bit. -/
structure TrieNode (α : Type) where
  segment : Key
  skip : Nat
  items : List α
  children : Bool → Option Nat

/-- The arena, with a root for each family of keys. -/
structure Trie (ι α : Type) where
  nodes : List (TrieNode α)
  roots : ι → Option Nat

/-- Where the node under consideration hangs. -/
inductive Attach (ι : Type) where
  | root (family : ι)
  | child (parent : Nat) (slot : Bool)

namespace Trie

variable {ι α : Type}

/-- The empty arena. -/
def new : Trie ι α := ⟨[], fun _ => none⟩

/-- A new node at the end of the arena. -/
def push (t : Trie ι α) (n : TrieNode α) : Trie ι α := { t with nodes := t.nodes ++ [n] }

/-- An update of node `i`. -/
def modify (t : Trie ι α) (i : Nat) (f : TrieNode α → TrieNode α) : Trie ι α :=
  { t with nodes := t.nodes.modify i f }

/-- `target` becomes the child of node `i` in the slot. -/
def setChild (t : Trie ι α) (i : Nat) (slot : Bool) (target : Nat) : Trie ι α :=
  t.modify i fun n => { n with children := Function.update n.children slot (some target) }

/-- Hang `target` where the node hung. -/
def setAttach [DecidableEq ι] (t : Trie ι α) : Attach ι → Nat → Trie ι α
  | .root f, target => { t with roots := Function.update t.roots f (some target) }
  | .child parent slot, target => t.setChild parent slot target

/-- Divergence inside the segment, after `j` bits: the shared part becomes a branch node
over the old node and the new leaf. -/
def branchAt [DecidableEq ι] (t : Trie ι α) (cur : Nat) (attach : Attach ι) (seg : Key)
    (skip j : Nat)
    (leaf : TrieNode α) : Trie ι α :=
  let branchIdx := t.nodes.length
  let leafIdx := branchIdx + 1
  let t := t.push ⟨seg &&& highBitsMask j, j, [], fun _ => none⟩
  let t := t.push leaf
  let oldBit := bitAt seg j
  let t := t.modify cur fun n => { n with segment := seg <<< j, skip := skip - j }
  let t := t.setChild branchIdx oldBit cur
  let t := t.setChild branchIdx (!oldBit) leafIdx
  t.setAttach attach branchIdx

/-- The key is a strict ancestor of the node: the new node is spliced in above it. -/
def spliceAbove [DecidableEq ι] (t : Trie ι α) (cur : Nat) (attach : Attach ι) (seg : Key)
    (skip remaining : Nat) (node : TrieNode α) : Trie ι α :=
  let newIdx := t.nodes.length
  let oldBit := bitAt seg remaining
  let t := t.push node
  let t := t.modify cur fun n =>
    { n with segment := seg <<< remaining, skip := skip - remaining }
  let t := t.setChild newIdx oldBit cur
  t.setAttach attach newIdx

/-- The loop of an insertion.  `none` is an index outside the arena, or fuel that ran out
before the loop returned. -/
def insertLoop [DecidableEq ι] (key : Key) (len : Nat) (item : α) :
    Nat → Trie ι α → Nat → Nat → Attach ι → Option (Trie ι α)
  | 0, _, _, _, _ => none
  | fuel + 1, t, cur, pos, attach =>
    match t.nodes[cur]? with
    | none => none
    | some node =>
      let seg := node.segment
      let skip := node.skip
      let remaining := len - pos
      let cmp := min skip remaining
      let xor := (seg ^^^ (key <<< pos)) &&& highBitsMask cmp
      if xor ≠ 0 then
        let j := leadingZeros xor
        some (t.branchAt cur attach seg skip j
          ⟨key <<< (pos + j), remaining - j, [item], fun _ => none⟩)
      else if remaining < skip then
        some (t.spliceAbove cur attach seg skip remaining
          ⟨if remaining = 0 then 0 else key <<< pos, remaining, [item], fun _ => none⟩)
      else if remaining = skip then
        -- the key ends exactly here
        some (t.modify cur fun n => { n with items := n.items ++ [item] })
      else
        let slot := bitAt key (pos + skip)
        match node.children slot with
        | some child => insertLoop key len item fuel t child (pos + skip) (.child cur slot)
        | none =>
          let idx := t.nodes.length
          let t := t.push ⟨key <<< (pos + skip), remaining - skip, [item], fun _ => none⟩
          some (t.setChild cur slot idx)

/-- Store an item under a key of `len` bits. -/
def insert [DecidableEq ι] (t : Trie ι α) (key : Key) (len : Nat) (family : ι) (item : α) :
    Option (Trie ι α) :=
  match t.roots family with
  | none =>
    let idx := t.nodes.length
    let t := t.push ⟨if len = 0 then 0 else key, len, [item], fun _ => none⟩
    some { t with roots := Function.update t.roots family (some idx) }
  | some root => insertLoop key len item (len + 2) t root 0 (.root family)

/-- The walk down the nodes whose segments the key matches in full.  It reports whether one
of them keeps an item and whether the test accepts one, and ends at the first item that
is accepted.  `none` is a failed test, an index outside the arena, or fuel that ran out. -/
def walkLoop (key : Key) (len : Nat) (test : Nat → α → Option Bool) (t : Trie ι α) :
    Nat → Nat → Nat → Bool → Option (Bool × Bool)
  | 0, _, _, _ => none
  | fuel + 1, cur, pos, covered =>
    match t.nodes[cur]? with
    | none => none
    | some node =>
      let seg := node.segment
      let skip := node.skip
      let remaining := len - pos
      let cmp := min skip remaining
      let xor := (seg ^^^ (key <<< pos)) &&& highBitsMask cmp
      if xor ≠ 0 ∨ remaining < skip then some (covered, false)
      else
        let covered := covered || !node.items.isEmpty
        match node.items.anyM (test (pos + skip)) with
        | none => none
        | some true => some (true, true)
        | some false =>
          if remaining = skip then some (covered, false)
          else
            match node.children (bitAt key (pos + skip)) with
            | some child => walkLoop key len test t fuel child (pos + skip) covered
            | none => some (covered, false)

/-- The walk from the root of a family. -/
def walk (t : Trie ι α) (key : Key) (len : Nat) (family : ι) (test : Nat → α → Option Bool) :
    Option (Bool × Bool) :=
  match t.roots family with
  | none => some (false, false)
  | some root => walkLoop key len test t (len + 2) root 0 false

end Trie
variable {x y : Key} {n : Nat} {j : Nat}

/-! ## Keys as strings of bits -/

/-- The top `n` bits of a key. -/
def topBits (x : Key) (n : Nat) : List Bool := (range n).map x.getMsbD

@[simp] theorem topBits_length (x : Key) (n : Nat) : (topBits x n).length = n := by
  simp [topBits]

@[simp] theorem topBits_zero (x : Key) : topBits x 0 = [] := rfl

theorem topBits_ite (x : Key) (n : Nat) : topBits (if n = 0 then 0 else x) n = topBits x n := by
  cases n <;> rfl

theorem topBits_eq_iff : topBits x n = topBits y n ↔ ∀ i < n, x.getMsbD i = y.getMsbD i := by
  simp [topBits, map_inj_left]

theorem topBits_take (x : Key) (h : j ≤ n) : (topBits x n).take j = topBits x j := by
  rw [topBits, ← map_take, take_range, Nat.min_eq_left h, topBits]

theorem topBits_drop (x : Key) (j n : Nat) : (topBits x n).drop j = topBits (x <<< j) (n - j) := by
  refine ext_getElem (by simp) fun i hi _ => ?_
  simp only [topBits, getElem_drop, getElem_map, getElem_range,
    BitVec.getMsbD_shiftLeft]
  rw [Nat.add_comm]

/-- Reading a key up to a bit and from that bit on. -/
theorem topBits_eq_append {p : List Bool} {c : Bool} {rest : List Bool}
    (h : topBits x n = p ++ c :: rest) :
    p.length < n ∧ p = topBits x p.length ∧ c = x.getMsbD p.length ∧
      c :: rest = topBits (x <<< p.length) (n - p.length) := by
  have hlen : n = p.length + (rest.length + 1) := by
    simpa using congrArg length h
  have htake := congrArg (take p.length) h
  have hdrop := congrArg (drop p.length) h
  have hbit := congrArg (fun l => l[p.length]?) h
  rw [topBits_take x (by omega), take_left] at htake
  rw [topBits_drop, drop_left] at hdrop
  simp only [topBits, getElem?_map, getElem?_append_right (Nat.le_refl _),
    Nat.sub_self, getElem?_cons_zero] at hbit
  rw [getElem?_range (by omega), Option.map_some, Option.some.injEq] at hbit
  exact ⟨by omega, htake.symm, hbit.symm, hdrop.symm⟩

theorem bitAt_eq (key : Key) (i : Nat) : bitAt key i = key.getMsbD i := by
  simp only [bitAt, BitVec.getLsbD_ushiftRight, BitVec.getMsbD_eq_getLsbD, BitVec.getLsbD_shiftLeft]
  by_cases hi : i < 128
  · simp [hi]
    omega
  · have hbig : ¬ i ≤ 127 := by omega
    simp [hi, hbig]

theorem getMsbD_highBitsMask (hn : n ≤ 128) (i : Nat) :
    (highBitsMask n).getMsbD i = decide (i < n) := by
  unfold highBitsMask
  by_cases hz : n = 0
  · simp [hz]
  · rw [if_neg hz, BitVec.getMsbD_shiftLeft, BitVec.getMsbD_allOnes, decide_eq_decide]
    omega

theorem topBits_and_highBitsMask (x : Key) (hn : n ≤ 128) :
    topBits (x &&& highBitsMask n) n = topBits x n := by
  rw [topBits_eq_iff]
  intro i hi
  simp [getMsbD_highBitsMask hn, hi]

theorem getMsbD_masked_xor (hn : n ≤ 128) (i : Nat) :
    ((x ^^^ y) &&& highBitsMask n).getMsbD i =
      ((x.getMsbD i != y.getMsbD i) && decide (i < n)) := by
  rw [BitVec.getMsbD_and, BitVec.getMsbD_xor, getMsbD_highBitsMask hn]

/-- The masked difference vanishes when the top bits are the same. -/
theorem masked_xor_eq_zero_iff (hn : n ≤ 128) :
    (x ^^^ y) &&& highBitsMask n = 0 ↔ topBits x n = topBits y n := by
  rw [topBits_eq_iff]
  constructor
  · intro h i hi
    have hbit := getMsbD_masked_xor (x := x) (y := y) hn i
    rw [h] at hbit
    simpa [hi] using hbit
  · intro h
    apply BitVec.eq_of_getMsbD_eq
    intro i _
    rw [getMsbD_masked_xor hn]
    by_cases hi : i < n
    · simp [h i hi]
    · simp [hi]

/-- Otherwise its leading zeros count the bits before the first difference. -/
theorem leadingZeros_masked_xor (hn : n ≤ 128) (hj : j < n) (hsame : topBits x j = topBits y j)
    (hdiff : x.getMsbD j ≠ y.getMsbD j) :
    leadingZeros ((x ^^^ y) &&& highBitsMask n) = j := by
  rw [leadingZeros, findIdx_eq (by simp; omega)]
  rw [topBits_eq_iff] at hsame
  refine ⟨?_, ?_⟩
  · simp only [getElem_range, getMsbD_masked_xor hn]
    simp [hdiff, hj]
  · intro i hi
    simp only [getElem_range, getMsbD_masked_xor hn]
    simp [hsame i hi]

/-! ## What the comparison of a segment with the key shows -/

section Compare

variable {seg key : Key} {skip remaining : Nat} (hrem : remaining ≤ 128) {c b : Bool}
  {rest : List Bool} {s k : List Bool}

include hrem

theorem xor_eq_zero_of_take {j : Nat} (hj : j = min skip remaining)
    (h : topBits seg j = topBits key j) :
    (seg ^^^ key) &&& highBitsMask (min skip remaining) = 0 := by
  subst hj
  exact (masked_xor_eq_zero_iff (by omega)).mpr h

theorem compare_same (h : topBits key remaining = topBits seg skip) :
    (seg ^^^ key) &&& highBitsMask (min skip remaining) = 0 ∧ remaining = skip := by
  have hlen : remaining = skip := by simpa using congrArg length h
  subst hlen
  exact ⟨xor_eq_zero_of_take hrem (Nat.min_self _).symm h.symm, rfl⟩

theorem compare_longer {pos : Nat} (hseg : topBits seg skip = s)
    (hkey : topBits (key <<< pos) remaining = s ++ c :: rest) :
    (seg ^^^ (key <<< pos)) &&& highBitsMask (min skip remaining) = 0 ∧ skip < remaining ∧
      bitAt key (pos + skip) = c ∧
      topBits (key <<< (pos + skip)) (remaining - skip) = c :: rest := by
  subst hseg
  obtain ⟨hlt, hseg, hc, hrest⟩ := topBits_eq_append hkey
  rw [topBits_length] at hlt hseg hc hrest
  refine ⟨xor_eq_zero_of_take hrem (Nat.min_eq_left hlt.le).symm hseg, hlt, ?_, ?_⟩
  · rw [bitAt_eq, hc, BitVec.getMsbD_shiftLeft, Nat.add_comm]
  · rw [BitVec.shiftLeft_add, hrest]

theorem compare_shorter (hseg : topBits seg skip = k ++ b :: rest)
    (hkey : topBits key remaining = k) :
    (seg ^^^ key) &&& highBitsMask (min skip remaining) = 0 ∧ remaining < skip := by
  subst hkey
  obtain ⟨hlt, hkey, -, -⟩ := topBits_eq_append hseg
  rw [topBits_length] at hlt hkey
  exact ⟨xor_eq_zero_of_take hrem (Nat.min_eq_right hlt.le).symm hkey.symm, hlt⟩

theorem compare_apart {p : List Bool} (hne : b ≠ c) (hseg : topBits seg skip = p ++ b :: s)
    (hkey : topBits key remaining = p ++ c :: k) :
    (seg ^^^ key) &&& highBitsMask (min skip remaining) ≠ 0 ∧
      leadingZeros ((seg ^^^ key) &&& highBitsMask (min skip remaining)) = p.length ∧
      topBits (key <<< p.length) (remaining - p.length) = c :: k ∧ p.length < 128 := by
  obtain ⟨hlt, hp, hb, -⟩ := topBits_eq_append hseg
  obtain ⟨hlt', hp', hc, hrest⟩ := topBits_eq_append hkey
  have hdiff : seg.getMsbD p.length ≠ key.getMsbD p.length := by rwa [← hb, ← hc]
  refine ⟨?_, ?_, hrest.symm, by omega⟩
  · rw [Ne, masked_xor_eq_zero_iff (by omega), topBits_eq_iff]
    intro hall
    exact hdiff (hall p.length (by omega))
  · exact leadingZeros_masked_xor (by omega) (by omega) (hp.symm.trans hp') hdiff

end Compare

end LibRouting.Foundation.Patricia
