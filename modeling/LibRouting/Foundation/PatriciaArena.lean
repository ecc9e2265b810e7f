/-
  Foundation/PatriciaArena.lean --- the arena keeps radix tries.

  `Holds` says that the arena keeps a trie under an index, within a region of its own.
  `insertLoop_spec` is the step that every insertion sequence repeats: the loop hangs the
  enlarged trie where the old one hung and changes nothing outside its region.
  `walkLoop_spec` reads the walk over the arena as the walk of the trie.
-/
import LibRouting.Foundation.PatriciaTrie
import Mathlib.Data.Set.Lattice
import Mathlib.Order.CompletePartialOrder

set_option autoImplicit false

namespace LibRouting.Foundation.Patricia

open Function Trie RadixTrie List Option

variable {ι α : Type} {region : Set Nat} {c : Bool} {trie : RadixTrie Bool α}
  {child : Bool → RadixTrie Bool α} {t : Trie ι α} {g : α → Bool}

/-! ## What the arena keeps -/

/-- The arena keeps the trie under the index, in nodes that lie in the region; the two
subtrees lie in separate parts of it. -/
inductive Holds (nodes : List (TrieNode α)) : RadixTrie Bool α → Option Nat → Set Nat → Prop
  | empty (region : Set Nat) : Holds nodes .empty none region
  | node {region : Set Nat} {i : Nat} {n : TrieNode α} {child : Bool → RadixTrie Bool α}
      {part : Bool → Set Nat} (hget : nodes[i]? = some n) (hmem : i ∈ region)
      (hsub : ∀ b, part b ⊆ region \ {i}) (hdisj : Disjoint (part false) (part true))
      (hchild : ∀ b, Holds nodes (child b) (n.children b) (part b)) :
      Holds nodes (.node (topBits n.segment n.skip) n.items child) (some i) region

namespace Holds

variable {nodes nodes' : List (TrieNode α)} {trie : RadixTrie Bool α} {ptr : Option Nat}
  {region region' : Set Nat}

theorem mono (h : Holds nodes trie ptr region) (hsub : region ⊆ region') :
    Holds nodes trie ptr region' := by
  cases h with
  | empty => exact .empty _
  | node hget hmem hpart hdisj hchild =>
    exact .node hget (hsub hmem) (fun b => (hpart b).trans (Set.sdiff_subset_sdiff_left hsub))
      hdisj hchild

theorem eq_empty (h : Holds nodes trie none region) : trie = .empty := by
  cases h
  rfl

theorem frame (h : Holds nodes trie ptr region)
    (hsame : ∀ k ∈ region, nodes'[k]? = nodes[k]?) : Holds nodes' trie ptr region := by
  induction h with
  | empty => exact .empty _
  | node hget hmem hpart hdisj hchild ih =>
    refine .node (by rw [hsame _ hmem, hget]) hmem hpart hdisj fun b => ih b ?_
    intro k hk
    exact hsame k (hpart b hk).1

/-- The nodes of a trie are nodes of the arena. -/
theorem bounded (h : Holds nodes trie ptr region) :
    Holds nodes trie ptr (region ∩ {k | k < nodes.length}) := by
  induction h with
  | empty => exact .empty _
  | @node region i n child part hget hmem hpart hdisj hchild ih =>
    have hi : i < nodes.length := (List.getElem?_eq_some_iff.mp hget).1
    refine @Holds.node _ nodes _ i n child (fun b => part b ∩ {k | k < nodes.length}) hget
      ⟨hmem, hi⟩ ?_ ?_ ih
    · intro b k hk
      exact ⟨⟨(hpart b hk.1).1, hk.2⟩, (hpart b hk.1).2⟩
    · exact hdisj.mono Set.inter_subset_left Set.inter_subset_left

theorem leaf {i : Nat} {n : TrieNode α} {key : List Bool} {item : α} (hget : nodes[i]? = some n)
    (hmem : i ∈ region) (hkey : topBits n.segment n.skip = key) (hpat : n.items = [item])
    (hnone : n.children = fun _ => none) : Holds nodes (.leaf key item) (some i) region := by
  rw [RadixTrie.leaf, ← hkey, ← hpat]
  refine @Holds.node _ nodes _ i n _ (fun _ => ∅) hget hmem (fun _ => Set.empty_subset _)
    (Set.disjoint_empty _) fun b => ?_
  rw [hnone]
  exact .empty _

/-- A node from the tries in its two slots. -/
theorem of_slots {i : Nat} {n : TrieNode α} {segment : List Bool} {items : List α}
    {child : Bool → RadixTrie Bool α} {own rest : Set Nat} (b : Bool) (hget : nodes[i]? = some n)
    (hseg : topBits n.segment n.skip = segment) (hitems : n.items = items) (hmem : i ∈ region)
    (hown : own ⊆ region \ {i}) (hrest : rest ⊆ region \ {i}) (hdisj : Disjoint own rest)
    (hchild : Holds nodes (child b) (n.children b) own)
    (hother : Holds nodes (child !b) (n.children !b) rest) :
    Holds nodes (.node segment items child) (some i) region := by
  rw [← hseg, ← hitems]
  refine @Holds.node _ nodes _ i n child (fun x => if x = b then own else rest) hget hmem ?_ ?_ ?_
  · intro x
    split
    case isTrue => exact hown
    case isFalse => exact hrest
  · cases b with
    | false => simpa using hdisj
    | true => simpa using hdisj.symm
  · intro x
    split
    case isTrue hx => exact hx ▸ hchild
    case isFalse hx => exact Bool.eq_not.mpr hx ▸ hother

end Holds

/-! ## Reading an arena after an update -/

namespace Trie
variable (t : Trie ι α)

section

variable (i : Nat) (n : TrieNode α) (f : TrieNode α → TrieNode α)

theorem push_getElem? (k : Nat) :
    (t.push n).nodes[k]? = if k = t.nodes.length then some n else t.nodes[k]? := by
  rw [push, getElem?_append, getElem?_singleton]
  grind

@[simp] theorem push_length : (t.push n).nodes.length = t.nodes.length + 1 := by
  simp [push]

@[simp] theorem push_roots : (t.push n).roots = t.roots := rfl

theorem modify_getElem? (k : Nat) :
    (t.modify i f).nodes[k]? = if i = k then t.nodes[k]?.map f else t.nodes[k]? := by
  rw [modify, getElem?_modify]
  by_cases hik : i = k <;> simp [hik]

@[simp] theorem modify_length : (t.modify i f).nodes.length = t.nodes.length := by
  simp [modify]

@[simp] theorem modify_roots : (t.modify i f).roots = t.roots := rfl

@[simp] theorem setChild_length (slot : Bool) (target : Nat) :
    (t.setChild i slot target).nodes.length = t.nodes.length := by
  simp [setChild]

end

variable [DecidableEq ι] {t u : Trie ι α}

@[simp] theorem setAttach_length (attach : Attach ι) (target : Nat) :
    (t.setAttach attach target).nodes.length = t.nodes.length := by
  cases attach with
  | root f => rfl
  | child parent slot => simp [setAttach]

theorem setAttach_getElem?_congr {k : Nat} (h : t.nodes[k]? = u.nodes[k]?) (attach : Attach ι)
    (target : Nat) :
    (t.setAttach attach target).nodes[k]? = (u.setAttach attach target).nodes[k]? := by
  cases attach with
  | root f => exact h
  | child parent slot => simp only [setAttach, setChild, modify_getElem?, h]

theorem setAttach_roots_congr (h : t.roots = u.roots) (attach : Attach ι) (target : Nat) :
    (t.setAttach attach target).roots = (u.setAttach attach target).roots := by
  cases attach with
  | root f => simp only [setAttach, h]
  | child parent slot => exact h

end Trie

/-- The cell that refers to the node lies outside the region, among the first `size`. -/
def Attach.Clear (region : Set Nat) (size : Nat) : Attach ι → Prop
  | .root _ => True
  | .child parent _ => parent ∉ region ∧ parent < size

theorem Attach.Clear.getElem? [DecidableEq ι] {size : Nat} {attach : Attach ι}
    (h : attach.Clear region size) (t : Trie ι α) (target : Nat) {k : Nat}
    (hk : k ∈ region ∨ size ≤ k) : (t.setAttach attach target).nodes[k]? = t.nodes[k]? := by
  cases attach with
  | root f => rfl
  | child parent slot =>
    have hne : parent ≠ k := by
      rintro rfl
      rcases hk with hk | hk
      · exact h.1 hk
      · exact absurd h.2 (Nat.not_lt.mpr hk)
    rw [setAttach, setChild, modify_getElem?,
      if_neg hne]

/-- One arena comes from another by changes inside a region and by new nodes. -/
structure Extends (region : Set Nat) (before after : Trie ι α) : Prop where
  roots_eq : after.roots = before.roots
  length_le : before.nodes.length ≤ after.nodes.length
  nodes_eq : ∀ k < before.nodes.length, k ∉ region → after.nodes[k]? = before.nodes[k]?

/-- The region together with the nodes still to be made. -/
def withFresh (region : Set Nat) (size : Nat) : Set Nat := region ∪ {k | size ≤ k}

/-! ## Restructuring around one node -/

section Restructure

variable {t : Trie ι α} {cur : Nat} {n : TrieNode α} {region : Set Nat}
  {child : Bool → RadixTrie Bool α} {part : Bool → Set Nat} {item : α} {attach : Attach ι}

/-- What is known of the node the loop has reached. -/
structure Reached (t : Trie ι α) (cur : Nat) (n : TrieNode α) (region : Set Nat)
    (child : Bool → RadixTrie Bool α) (part : Bool → Set Nat) : Prop where
  get : t.nodes[cur]? = some n
  mem : cur ∈ region
  sub : ∀ b, part b ⊆ region \ {cur}
  disj : Disjoint (part false) (part true)
  child : ∀ b, Holds t.nodes (child b) (n.children b) (part b)
  bound : ∀ k ∈ region, k < t.nodes.length

/-- The node keeps its subtrees when only its own data change. -/
theorem Reached.rewrite (h : Reached t cur n region child part) {nodes : List (TrieNode α)}
    {n' : TrieNode α} (hget : nodes[cur]? = some n') (hchildren : n'.children = n.children)
    (hsame : ∀ k ∈ region, k ≠ cur → nodes[k]? = t.nodes[k]?) :
    Holds nodes (.node (topBits n'.segment n'.skip) n'.items child) (some cur) region := by
  refine .node hget h.mem h.sub h.disj fun b => ?_
  rw [hchildren]
  refine (h.child b).frame fun k hk => ?_
  exact hsame k (h.sub b hk).1 (h.sub b hk).2

theorem Reached.not_mem (h : Reached t cur n region child part) {k : Nat}
    (hk : t.nodes.length ≤ k) : k ∉ region := by
  intro hr
  exact absurd (h.bound k hr) (Nat.not_lt.mpr hk)

theorem Reached.subset_fresh (h : Reached t cur n region child part) :
    region ⊆ withFresh region t.nodes.length \ {t.nodes.length} := by
  intro k hk
  refine ⟨.inl hk, ?_⟩
  rintro rfl
  exact h.not_mem (Nat.le_refl _) hk

section Update

variable [DecidableEq ι]

section

variable (h : Reached t cur n region child part) {b : Bool} {s : List Bool} {l : TrieNode α}
include h

/-- What is hung up next to the node goes among the new nodes. -/
theorem Reached.setAttach_extends {u : Trie ι α} (hroots : u.roots = t.roots)
    (hlen : t.nodes.length ≤ u.nodes.length)
    (huo : ∀ k < t.nodes.length, k ≠ cur → u.nodes[k]? = t.nodes[k]?) (attach : Attach ι)
    (top : Nat) : Extends region (t.setAttach attach top) (u.setAttach attach top) := by
  refine ⟨setAttach_roots_congr hroots attach _, by simpa using hlen, fun k hk hkr => ?_⟩
  rw [setAttach_length] at hk
  refine setAttach_getElem?_congr (huo k hk ?_) attach _
  rintro rfl
  exact hkr h.mem

/-- The arena after the branch node and the leaf are in place, before the branch node is
hung up. -/
theorem branchAt_nodes (attach : Attach ι) (j : Nat) (l : TrieNode α) :
    ∃ u : Trie ι α, t.branchAt cur attach n.segment n.skip j l =
        u.setAttach attach t.nodes.length ∧
      u.roots = t.roots ∧ u.nodes.length = t.nodes.length + 2 ∧
      u.nodes[cur]? = some { n with segment := n.segment <<< j, skip := n.skip - j } ∧
      u.nodes[t.nodes.length]? = some ⟨n.segment &&& highBitsMask j, j, [],
        update (update (fun _ => none) (bitAt n.segment j) (some cur))
          (!bitAt n.segment j) (some (t.nodes.length + 1))⟩ ∧
      u.nodes[t.nodes.length + 1]? = some l ∧
      ∀ k < t.nodes.length, k ≠ cur → u.nodes[k]? = t.nodes[k]? := by
  have hcur := h.bound cur h.mem
  have hget := h.get
  refine ⟨_, rfl, rfl, by simp, ?_, ?_, ?_, fun k hk hkc => ?_⟩
  all_goals
    simp only [setChild, modify_getElem?, push_getElem?, push_length]
    grind

theorem branchAt_spec (hclear : attach.Clear region t.nodes.length) {p : List Bool} {c : Bool}
    {k : List Bool} (hne : b ≠ c) (hseg : topBits n.segment n.skip = p ++ b :: s)
    (hl : topBits l.segment l.skip = c :: k) (hpat : l.items = [item])
    (hnone : l.children = fun _ => none) (hp : p.length ≤ 128) :
    Extends region (t.setAttach attach t.nodes.length)
        (t.branchAt cur attach n.segment n.skip p.length l) ∧
      Holds (t.branchAt cur attach n.segment n.skip p.length l).nodes
        (.node p [] (update (update (fun _ => .empty) c (.leaf (c :: k) item)) b
          (.node (b :: s) n.items child)))
        (some t.nodes.length) (withFresh region t.nodes.length) := by
  obtain ⟨u, hu, hroots, hlen, hucur, huN, huN1, huo⟩ := branchAt_nodes h attach p.length l
  obtain ⟨-, hpbits, hbbit, hold⟩ := topBits_eq_append hseg
  rw [hu]
  refine ⟨h.setAttach_extends hroots (by omega) huo attach _, ?_⟩
  -- the old node sits under its own bit, the leaf under the other
  have hbit : bitAt n.segment p.length = b := by rw [bitAt_eq, hbbit]
  have hnot : (!b) = c := (Bool.eq_not.mpr hne.symm).symm
  rw [hbit, hnot] at huN
  have hpnode : topBits (n.segment &&& highBitsMask p.length) p.length = p := by
    rw [topBits_and_highBitsMask _ hp, ← hpbits]
  rw [← hclear.getElem? u t.nodes.length (.inr (Nat.le_refl _))] at huN
  rw [← hclear.getElem? u t.nodes.length (.inr (Nat.le_succ _))] at huN1
  rw [← hclear.getElem? u t.nodes.length (.inl h.mem)] at hucur
  have hcut := h.rewrite hucur rfl fun k hk hkc =>
    (hclear.getElem? u _ (.inl hk)).trans (huo k (h.bound k hk) hkc)
  have hnew : Disjoint region {t.nodes.length + 1} := by simpa using h.not_mem (Nat.le_succ _)
  rw [← hold] at hcut
  refine .of_slots b huN hpnode rfl (.inr (Nat.le_refl _)) h.subset_fresh (by simp [withFresh])
    hnew (by simpa [hne] using hcut) ?_
  simpa [hnot, hne.symm] using .leaf huN1 rfl hl hpat hnone

/-- The arena after the new node is spliced in, before it is hung up. -/
theorem spliceAbove_nodes (attach : Attach ι) (j : Nat) (l : TrieNode α) :
    ∃ u : Trie ι α, t.spliceAbove cur attach n.segment n.skip j l =
        u.setAttach attach t.nodes.length ∧
      u.roots = t.roots ∧ u.nodes.length = t.nodes.length + 1 ∧
      u.nodes[cur]? = some { n with segment := n.segment <<< j, skip := n.skip - j } ∧
      u.nodes[t.nodes.length]? = some { l with
        children := update l.children (bitAt n.segment j) (some cur) } ∧
      ∀ k < t.nodes.length, k ≠ cur → u.nodes[k]? = t.nodes[k]? := by
  have hcur := h.bound cur h.mem
  have hget := h.get
  refine ⟨_, rfl, rfl, by simp, ?_, ?_, fun k hk hkc => ?_⟩
  all_goals
    simp only [setChild, modify_getElem?, push_getElem?]
    grind

theorem spliceAbove_spec (hclear : attach.Clear region t.nodes.length) {key : List Bool}
    (hseg : topBits n.segment n.skip = key ++ b :: s) (hl : topBits l.segment l.skip = key)
    (hpat : l.items = [item]) (hnone : l.children = fun _ => none) :
    Extends region (t.setAttach attach t.nodes.length)
        (t.spliceAbove cur attach n.segment n.skip key.length l) ∧
      Holds (t.spliceAbove cur attach n.segment n.skip key.length l).nodes
        (.node key [item] (update (fun _ => .empty) b
          (.node (b :: s) n.items child)))
        (some t.nodes.length) (withFresh region t.nodes.length) := by
  obtain ⟨u, hu, hroots, hlen, hucur, huN, huo⟩ := spliceAbove_nodes h attach key.length l
  obtain ⟨-, -, hbbit, hold⟩ := topBits_eq_append hseg
  rw [hu]
  refine ⟨h.setAttach_extends hroots (by omega) huo attach _, ?_⟩
  rw [bitAt_eq, ← hbbit, hnone] at huN
  rw [← hclear.getElem? u t.nodes.length (.inr (Nat.le_refl _))] at huN
  rw [← hclear.getElem? u t.nodes.length (.inl h.mem)] at hucur
  have hcut := h.rewrite hucur rfl fun k hk hkc =>
    (hclear.getElem? u _ (.inl hk)).trans (huo k (h.bound k hk) hkc)
  rw [← hold] at hcut
  exact .of_slots b huN hl hpat (.inr (Nat.le_refl _)) h.subset_fresh (Set.empty_subset _)
    (Set.disjoint_empty _) (by simpa using hcut) (by simpa using .empty _)

end

end Update
variable {slot : Bool} {top : Nat}

section

variable (h : Reached t cur n region child part) {trie : RadixTrie Bool α}
include h

theorem addItem_spec (item : α) :
    Extends region t (t.modify cur fun n => { n with items := n.items ++ [item] }) ∧
      Holds (t.modify cur fun n => { n with items := n.items ++ [item] }).nodes
        (.node (topBits n.segment n.skip) (n.items ++ [item]) child) (some cur) region := by
  have hget : (t.modify cur fun n => { n with items := n.items ++ [item] }).nodes[cur]? =
      some { n with items := n.items ++ [item] } := by
    rw [modify_getElem?, if_pos rfl, h.get, map_some]
  have hother : ∀ k, k ≠ cur →
      (t.modify cur fun n => { n with items := n.items ++ [item] }).nodes[k]? =
        t.nodes[k]? := by
    intro k hk
    rw [modify_getElem?, if_neg hk.symm]
  constructor
  · refine ⟨rfl, by simp, fun k _ hkr => hother k ?_⟩
    rintro rfl
    exact hkr h.mem
  · exact h.rewrite hget rfl fun k _ hk => hother k hk

theorem Reached.disjoint (slot : Bool) : Disjoint (part slot) (part !slot) := by
  cases slot with
  | false => exact h.disj
  | true => exact h.disj.symm

/-- One subtree is replaced by another, which may use new nodes. -/
theorem Reached.replace {nodes : List (TrieNode α)}
    (hget : nodes[cur]? = some { n with children := update n.children slot (some top) })
    (hsame : ∀ k ∈ part (!slot), nodes[k]? = t.nodes[k]?)
    (hnew : Holds nodes trie (some top) (withFresh (part slot) t.nodes.length)) :
    Holds nodes (.node (topBits n.segment n.skip) n.items (update child slot trie))
      (some cur) (withFresh region t.nodes.length) := by
  have hcur := h.bound cur h.mem
  have hother : ∀ k ∈ part (!slot), k < t.nodes.length := fun k hk => h.bound k (h.sub _ hk).1
  have hsub (b : Bool) {k : Nat} (hk : k ∈ part b) : k ∈ withFresh region t.nodes.length \ {cur} :=
    ⟨.inl (h.sub b hk).1, (h.sub b hk).2⟩
  refine .of_slots slot hget rfl rfl (.inl h.mem) ?_ (fun k => hsub _) ?_ (by simpa using hnew)
    (by simpa using (h.child _).frame hsame)
  · rintro k (hk | hk)
    · exact hsub slot hk
    · refine ⟨.inr hk, ?_⟩
      rintro rfl
      exact absurd hcur (Nat.not_lt.mpr hk)
  · rw [Set.disjoint_left]
    rintro k (hk | hk) hk'
    · exact Set.disjoint_left.mp (h.disjoint slot) hk hk'
    · exact absurd (hother k hk') (Nat.not_lt.mpr hk)

/-- A change below one slot, as it is seen from the node. -/
theorem Reached.descend {t' : Trie ι α} (hext : Extends (part slot) (t.setChild cur slot top) t')
    (hnew : Holds t'.nodes trie (some top) (withFresh (part slot) t.nodes.length)) :
    Extends region t t' ∧
      Holds t'.nodes
        (.node (topBits n.segment n.skip) n.items (update child slot trie))
        (some cur) (withFresh region t.nodes.length) := by
  have hcur := h.bound cur h.mem
  have hlen := hext.length_le
  have hnodes := hext.nodes_eq
  rw [setChild_length] at hlen hnodes
  have hother : ∀ k < t.nodes.length, k ∉ part slot → cur ≠ k → t'.nodes[k]? = t.nodes[k]? := by
    intro k hk hkp hkc
    rw [hnodes k hk hkp, setChild, modify_getElem?, if_neg hkc]
  constructor
  · refine ⟨hext.roots_eq, hlen, fun k hk hkr => hother k hk (fun hp => hkr (h.sub slot hp).1) ?_⟩
    rintro rfl
    exact hkr h.mem
  · refine h.replace ?_ ?_ hnew
    · rw [hnodes cur hcur (fun hp => (h.sub slot hp).2 rfl), setChild,
        modify_getElem?, if_pos rfl, h.get, map_some]
    · intro k hk
      exact hother k (h.bound k (h.sub _ hk).1)
        (Set.disjoint_right.mp (h.disjoint slot) hk) fun he => (h.sub _ hk).2 he.symm

theorem newLeaf_spec (slot : Bool) {l : TrieNode α} {key : List Bool}
    (hl : topBits l.segment l.skip = key) (hpat : l.items = [item])
    (hnone : l.children = fun _ => none) :
    Extends region t ((t.push l).setChild cur slot t.nodes.length) ∧
      Holds ((t.push l).setChild cur slot t.nodes.length).nodes
        (.node (topBits n.segment n.skip) n.items
          (update child slot (.leaf key item)))
        (some cur) (withFresh region t.nodes.length) := by
  have hcur : cur ≠ t.nodes.length := (h.bound cur h.mem).ne
  refine h.descend ⟨rfl, by simp, fun k hk _ => ?_⟩ (.leaf ?_ (.inr (Nat.le_refl _)) hl hpat hnone)
  · rw [setChild_length] at hk
    simp only [setChild, modify_getElem?, push_getElem?,
      hk.ne, ↓reduceIte]
  · simp only [setChild, modify_getElem?, push_getElem?,
      hcur, ↓reduceIte]

end

end Restructure
variable {len : Nat} {items : List α} {tries : ι → RadixTrie Bool α}

/-! ## Insertion -/

/-- An empty segment costs the loop a turn in which the key does not get shorter. -/
def idle : RadixTrie Bool α → Nat
  | .node [] _ _ => 1
  | _ => 0

theorem idle_fuel (trie : RadixTrie Bool α) (len : Nat) : len - 0 + idle trie < len + 2 := by
  unfold idle
  split <;> omega

theorem idle_eq_zero (h : trie.Begins c) : idle trie = 0 := by
  cases trie with
  | empty => rfl
  | node segment items child =>
    cases segment with
    | nil => simp [Begins] at h
    | cons b s => rfl

theorem descend_fuel {seg : Key} {pos skip fuel : Nat} (hbegins : (child c).Begins c)
    (hlt : skip < len - pos)
    (hfuel : len - pos + idle (.node (topBits seg skip) items child) < fuel + 1) :
    len - (pos + skip) + idle (child c) < fuel := by
  rw [idle_eq_zero hbegins]
  cases skip with
  | zero =>
    have hidle : idle (.node (topBits seg 0) items child) = 1 := rfl
    omega
  | succ k => omega

theorem Holds.reached {segment : List Bool} {cur : Nat}
    (h : Holds t.nodes (.node segment items child) (some cur) region)
    (hbound : ∀ k ∈ region, k < t.nodes.length) :
    ∃ n part, segment = topBits n.segment n.skip ∧ items = n.items ∧
      Reached t cur n region child part := by
  cases h with
  | @node _ _ n _ part hget hmem hsub hdisj hchild =>
    exact ⟨n, part, rfl, rfl, hget, hmem, hsub, hdisj, hchild, hbound⟩

theorem Trie.setChild_self {i : Nat} {n : TrieNode α} {slot : Bool} {target : Nat}
    (hget : t.nodes[i]? = some n) (h : n.children slot = some target) :
    t.setChild i slot target = t := by
  have hnodes : (t.setChild i slot target).nodes = t.nodes := by
    apply ext_getElem?
    intro k
    rw [setChild, modify_getElem?]
    by_cases hik : i = k
    · subst hik
      rw [if_pos rfl, hget, map_some, ← h, update_eq_self]
    · rw [if_neg hik]
  cases t
  exact congrArg (Trie.mk · _) hnodes

/-- The loop hangs the enlarged trie where the trie it was started on hung, and changes
nothing outside. -/
theorem insertLoop_spec [DecidableEq ι] (key : Key) (len : Nat) (item : α) (hlen : len ≤ 128)
    (trie : RadixTrie Bool α) (fuel : Nat) (t : Trie ι α) (cur pos : Nat)
    (attach : Attach ι) (region : Set Nat) (hholds : Holds t.nodes trie (some cur) region)
    (hbound : ∀ k ∈ region, k < t.nodes.length) (hroot : trie.WellRooted)
    (hclear : attach.Clear region t.nodes.length) (hptr : t.setAttach attach cur = t)
    (hfuel : len - pos + idle trie < fuel) :
    ∃ t' top, insertLoop key len item fuel t cur pos attach = some t' ∧
      Extends region (t.setAttach attach top) t' ∧
      Holds t'.nodes (trie.insert (topBits (key <<< pos) (len - pos)) item) (some top)
        (withFresh region t.nodes.length) := by
  induction trie generalizing fuel t cur pos attach region with
  | empty => cases hholds
  | node segment items child ih =>
    obtain ⟨fuel, rfl⟩ : ∃ f, fuel = f + 1 := ⟨fuel - 1, by omega⟩
    obtain ⟨n, part, rfl, rfl, hr⟩ := hholds.reached hbound
    have hrem : len - pos ≤ 128 := by omega
    rw [insertLoop]
    simp only [hr.get]
    generalize hs : topBits n.segment n.skip = sb
    generalize hk : topBits (key <<< pos) (len - pos) = kb
    cases Overlap.total sb kb with
    | same =>
      obtain ⟨hxor, heq⟩ := compare_same hrem (hk.trans hs.symm)
      obtain ⟨hext, hh⟩ := addItem_spec hr item
      rw [if_neg (not_not_intro hxor), if_neg (by omega), if_pos heq]
      refine ⟨_, cur, rfl, hptr.symm ▸ hext, ?_⟩
      rw [insert_same, ← hs]
      exact hh.mono Set.subset_union_left
    | shorter _ b rest =>
      obtain ⟨hxor, hlt⟩ := compare_shorter hrem hs hk
      have hkblen : kb.length = len - pos := by rw [← hk, topBits_length]
      obtain ⟨hext, hh⟩ := spliceAbove_spec hr hclear hs
        (l := ⟨if len - pos = 0 then 0 else key <<< pos, len - pos, [item], fun _ => none⟩)
        ((topBits_ite _ _).trans hk) rfl rfl
      rw [hkblen] at hext hh
      rw [if_neg (not_not_intro hxor), if_pos hlt]
      refine ⟨_, _, rfl, hext, ?_⟩
      rw [insert_shorter]
      exact hh
    | apart p b c hne s k =>
      obtain ⟨hxor, hj, hleaf, hp⟩ := compare_apart hrem hne hs hk
      rw [← BitVec.shiftLeft_add] at hleaf
      obtain ⟨hext, hh⟩ := branchAt_spec hr hclear hne hs
        (l := ⟨key <<< (pos + p.length), len - pos - p.length, [item], fun _ => none⟩)
        hleaf rfl rfl hp.le
      rw [if_pos hxor, hj]
      refine ⟨_, _, rfl, hext, ?_⟩
      rw [insert_apart _ _ _ _ hne]
      exact hh
    | longer _ c rest =>
      obtain ⟨hxor, hlt, hslot, hrest⟩ := compare_longer hrem hs hk
      rw [if_neg (not_not_intro hxor), if_neg (by omega), if_neg (by omega), hslot,
        insert_longer]
      obtain ⟨hbegins, hbelow⟩ := hroot c
      have hcur := hr.bound cur hr.mem
      have hcurpart : cur ∉ part c := fun hmem => (hr.sub c hmem).2 rfl
      cases hchildren : n.children c with
      | some child' =>
        -- the child hangs in the slot of this node
        obtain ⟨t', top, hloop, hext, hh⟩ := ih c fuel t child' (pos + n.skip)
          (.child cur c) (part c) (hchildren ▸ hr.child c)
          (fun k hk => hr.bound k (hr.sub c hk).1) hbelow ⟨hcurpart, hcur⟩
          (setChild_self hr.get hchildren)
          (descend_fuel hbegins hlt hfuel)
        obtain ⟨hext', hh'⟩ := hr.descend hext hh
        refine ⟨t', cur, hloop, hptr.symm ▸ hext', ?_⟩
        rwa [← hs, ← hrest, Nat.sub_sub]
      | none =>
        have hempty : child c = .empty := (hchildren ▸ hr.child c).eq_empty
        obtain ⟨hext, hh⟩ := newLeaf_spec hr c
          (l := ⟨key <<< (pos + n.skip), len - pos - n.skip, [item], fun _ => none⟩)
          hrest rfl rfl
        refine ⟨_, cur, rfl, hptr.symm ▸ hext, ?_⟩
        rw [hempty, ← hs]
        exact hh

/-! ## Two families in one arena -/

/-- The arena keeps one trie per family, in separate regions. -/
structure Indexes (t : Trie ι α) (tries : ι → RadixTrie Bool α) : Prop where
  wellRooted : ∀ f, (tries f).WellRooted
  holds : ∃ part : ι → Set Nat, (∀ f g, f ≠ g → Disjoint (part f) (part g)) ∧
    (∀ f, ∀ k ∈ part f, k < t.nodes.length) ∧ ∀ f, Holds t.nodes (tries f) (t.roots f) (part f)

theorem Indexes.new : Indexes (.new : Trie ι α) fun _ => .empty where
  wellRooted _ := trivial
  holds := ⟨fun _ => ∅, fun _ _ _ => Set.disjoint_empty _, fun _ _ hk => hk.elim, fun _ => .empty _⟩

/-- Replacing the trie of one family leaves the other where it is. -/
theorem Indexes.replace [DecidableEq ι] {t' : Trie ι α} {family : ι} {top : Nat}
    {part : ι → Set Nat} (hroot : ∀ f, (tries f).WellRooted)
    (hdisj : ∀ f g, f ≠ g → Disjoint (part f) (part g))
    (hbound : ∀ f, ∀ k ∈ part f, k < t.nodes.length)
    (hholds : ∀ f, Holds t.nodes (tries f) (t.roots f) (part f))
    (hext : Extends (part family) (t.setAttach (.root family) top) t') (htrie : trie.WellRooted)
    (hnew : Holds t'.nodes trie (some top) (withFresh (part family) t.nodes.length)) :
    Indexes t' (update tries family trie) := by
  have hlen : t.nodes.length ≤ t'.nodes.length := hext.length_le
  constructor
  · exact (forall_update_iff tries fun _ trie => trie.WellRooted).mpr ⟨htrie, fun f _ => hroot f⟩
  · -- the new nodes go to the family, as far as the arena reaches
    refine ⟨update part family
      (withFresh (part family) t.nodes.length ∩ {k | k < t'.nodes.length}), ?_, ?_, ?_⟩
    · have hfresh : ∀ f, f ≠ family →
          Disjoint (withFresh (part family) t.nodes.length ∩ {k | k < t'.nodes.length})
            (part f) := by
        intro f hf
        rw [Set.disjoint_left]
        rintro k ⟨hk | hk, -⟩ hkf
        · exact Set.disjoint_left.mp (hdisj f family hf) hkf hk
        · exact absurd (hbound f k hkf) (Nat.not_lt.mpr hk)
      intro f g hfg
      by_cases hf : f = family
      · subst hf
        rw [update_self, update_of_ne hfg.symm]
        exact hfresh g hfg.symm
      rw [update_of_ne hf]
      by_cases hg : g = family
      · subst hg
        rw [update_self]
        exact (hfresh f hf).symm
      · rw [update_of_ne hg]
        exact hdisj f g hfg
    · exact (forall_update_iff part fun _ s => ∀ k ∈ s, k < t'.nodes.length).mpr
        ⟨fun k hk => hk.2, fun f _ k hk => (hbound f k hk).trans_le hlen⟩
    · intro f
      rw [hext.roots_eq]
      change Holds t'.nodes _ (update t.roots family (some top) f) _
      by_cases hf : f = family
      · subst hf
        rw [update_self, update_self, update_self]
        exact hnew.bounded
      · rw [update_of_ne hf, update_of_ne hf, update_of_ne hf]
        refine (hholds f).frame fun k hk => ?_
        exact hext.nodes_eq k (hbound f k hk) (Set.disjoint_left.mp (hdisj f family hf) hk)

/-- Insertion into the arena is insertion into the family's trie. -/
theorem Indexes.insert [DecidableEq ι] (h : Indexes t tries) (key : Key) (hlen : len ≤ 128)
    (family : ι) (item : α) :
    ∃ t', t.insert key len family item = some t' ∧
      Indexes t' (update tries family ((tries family).insert (topBits key len) item)) := by
  obtain ⟨part, hdisj, hbound, hholds⟩ := h.holds
  have hroot := h.wellRooted family
  rw [Trie.insert]
  cases hr : t.roots family with
  | none =>
    have hempty : tries family = .empty := (hr ▸ hholds family).eq_empty
    have hext : Extends (part family) (t.setAttach (.root family) t.nodes.length)
        ((t.push ⟨if len = 0 then 0 else key, len, [item], fun _ => none⟩).setAttach
          (.root family) t.nodes.length) := by
      refine ⟨rfl, by simp, fun k hk _ => ?_⟩
      rw [setAttach_length] at hk
      exact (push_getElem? t _ k).trans (if_neg hk.ne)
    refine ⟨_, rfl, Indexes.replace h.wellRooted hdisj hbound hholds hext (hroot.insert _ _) ?_⟩
    rw [hempty]
    have hget := (push_getElem? t
      ⟨if len = 0 then 0 else key, len, [item], fun _ => none⟩ t.nodes.length).trans (if_pos rfl)
    exact .leaf hget (.inr (Nat.le_refl _)) (topBits_ite _ _) rfl rfl
  | some root =>
    have hptr : t.setAttach (.root family) root = t := by
      rw [setAttach, ← hr, update_eq_self]
    obtain ⟨t', top, hloop, hext, hh⟩ := insertLoop_spec key len item hlen (tries family)
      (len + 2) t root 0 (.root family) (part family) (hr ▸ hholds family) (hbound family) hroot
      trivial hptr (idle_fuel _ _)
    rw [BitVec.shiftLeft_zero, Nat.sub_zero] at hh
    exact ⟨t', hloop, Indexes.replace h.wellRooted hdisj hbound hholds hext (hroot.insert _ _) hh⟩

/-! ## The walk -/

theorem anyM_eq_some {test : α → Option Bool} (h : ∀ x ∈ items, test x = some (g x)) :
    items.anyM test = some (items.any g) := by
  induction items with
  | nil => rfl
  | cons x items ih =>
    rw [anyM, h x mem_cons_self, any_cons]
    cases hx : g x with
    | true => rfl
    | false => exact ih fun y hy => h y (mem_cons_of_mem x hy)

theorem any_const_true (items : List α) : items.any (fun _ => true) = !items.isEmpty := by
  cases items <;> rfl

theorem isEmpty_of_any (h : items.any g = true) : items.isEmpty = false := by
  cases items with
  | nil => simp at h
  | cons x items => rfl

/-- The walk over the arena is the walk over the trie it keeps, once for the items as
such and once for the test. -/
theorem walkLoop_spec (key : Key) (len : Nat) (hlen : len ≤ 128) (t : Trie ι α)
    (test : Nat → α → Option Bool) (g : Nat → α → Bool) (trie : RadixTrie Bool α)
    (fuel cur pos : Nat) (covered : Bool) (region : Set Nat)
    (hholds : Holds t.nodes trie (some cur) region) (hroot : trie.WellRooted)
    (htest : ∀ path x, trie.Mem path x →
      test (pos + path.length) x = some (g (pos + path.length) x))
    (hfuel : len - pos + idle trie < fuel) :
    walkLoop key len test t fuel cur pos covered =
      some (covered || trie.covers (fun _ _ => true) pos (topBits (key <<< pos) (len - pos)),
        trie.covers g pos (topBits (key <<< pos) (len - pos))) := by
  induction trie generalizing fuel cur pos covered region with
  | empty => cases hholds
  | node segment items child ih =>
    obtain ⟨fuel, rfl⟩ : ∃ f, fuel = f + 1 := ⟨fuel - 1, by omega⟩
    obtain ⟨n, part, rfl, rfl, hr⟩ := hholds.bounded.reached fun k hk => hk.2
    have hrem : len - pos ≤ 128 := by omega
    have hany : n.items.anyM (test (pos + n.skip)) = some (n.items.any (g (pos + n.skip))) := by
      refine anyM_eq_some fun x hx => ?_
      have h := htest _ x (.inl ⟨rfl, hx⟩)
      rwa [topBits_length] at h
    rw [walkLoop]
    simp only [hr.get, hany]
    generalize hs : topBits n.segment n.skip = sb
    generalize hk : topBits (key <<< pos) (len - pos) = kb
    have hsblen : sb.length = n.skip := by rw [← hs, topBits_length]
    cases Overlap.total sb kb with
    | same =>
      obtain ⟨hxor, heq⟩ := compare_same hrem (hk.trans hs.symm)
      rw [covers_same, covers_same, hsblen, any_const_true,
        if_neg (by rw [hxor]; simp; omega)]
      cases hacc : n.items.any (g (pos + n.skip)) with
      | true =>
        simp [isEmpty_of_any hacc]
      | false => simp [heq]
    | shorter _ b rest =>
      obtain ⟨-, hlt⟩ := compare_shorter hrem hs hk
      rw [covers_shorter, covers_shorter, if_pos (.inr hlt), Bool.or_false]
    | apart p b c hne s k =>
      obtain ⟨hxor, -⟩ := compare_apart hrem hne hs hk
      rw [covers_apart _ _ _ _ _ hne, covers_apart _ _ _ _ _ hne,
        if_pos (.inl hxor), Bool.or_false]
    | longer _ c rest =>
      obtain ⟨hxor, hlt, hslot, hrest⟩ := compare_longer hrem hs hk
      rw [covers_longer, covers_longer, hsblen, any_const_true,
        if_neg (by rw [hxor]; simp; omega), hslot]
      obtain ⟨hbegins, hbelow⟩ := hroot c
      cases hacc : n.items.any (g (pos + n.skip)) with
      | true =>
        simp [isEmpty_of_any hacc]
      | false =>
        dsimp only
        rw [if_neg (by omega), Bool.false_or, ← Bool.or_assoc]
        cases hchildren : n.children c with
        | none =>
          have hempty : child c = .empty := (hchildren ▸ hr.child c).eq_empty
          rw [hempty, covers, covers, Bool.or_false]
        | some child' =>
          rw [← hrest, Nat.sub_sub]
          refine ih c fuel child' (pos + n.skip) _ (part c) (hchildren ▸ hr.child c) hbelow
            (fun path x hm => ?_) (descend_fuel hbegins hlt hfuel)
          have h := htest _ x (hroot.mem_child hm)
          rwa [length_append, topBits_length, ← Nat.add_assoc] at h

theorem Indexes.walk (h : Indexes t tries) (key : Key) (hlen : len ≤ 128) (family : ι)
    (test : Nat → α → Option Bool) (g : Nat → α → Bool)
    (htest : ∀ path x, (tries family).Mem path x → test path.length x = some (g path.length x)) :
    t.walk key len family test =
      some ((tries family).covers (fun _ _ => true) 0 (topBits key len),
        (tries family).covers g 0 (topBits key len)) := by
  obtain ⟨part, -, -, hholds⟩ := h.holds
  rw [Trie.walk]
  cases hr : t.roots family with
  | none =>
    have hempty : tries family = .empty := (hr ▸ hholds family).eq_empty
    rw [hempty]
    rfl
  | some root =>
    have hloop := walkLoop_spec key len hlen t test g (tries family) (len + 2) root 0 false
      (part family) (hr ▸ hholds family) (h.wellRooted family)
      (fun path x hm => by rw [Nat.zero_add]; exact htest path x hm) (idle_fuel _ _)
    rwa [BitVec.shiftLeft_zero, Nat.sub_zero, Bool.false_or] at hloop

end LibRouting.Foundation.Patricia
