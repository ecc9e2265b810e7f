/-
  Rib/ChangeFeed.lean --- the generations of the Loc-RIB and `diff_since`
  (`lr-rib/src/loc_rib.rs`).

  Every operation that changes the table raises the generation by one and records what
  happened to the best route of its key; the last sixteen records are kept.
  `diff_since` collects the records behind a generation into three lists, newest
  first, and has no way to say that older ones are gone.  `diffSince_replays_iff` says
  for which runs the three lists still lead from the best routes of that generation to
  the present ones.

  `u64` generations are natural numbers here, which is the code for the first 2 ^ 64 - 1
  changes.
-/
import LibRouting.Rib.LocRib
import Mathlib.Data.List.TakeWhile

set_option autoImplicit false

namespace LibRouting.Rib

open Core Foundation List

/-! ## Tables with non-empty sets -/

/-- A key that is present has a path, and all its paths are routes for it. -/
def LocRib.Sound (rib : LocRib) : Prop :=
  ∀ (key : RouteKey) (set : List Route), rib[key]? = some set → set ≠ [] ∧ ∀ r ∈ set, r.key = key

namespace LocRib

variable {rib : LocRib}

theorem mem_replacePath {route r : Route} {set : List Route} (h : r ∈ replacePath route set) :
    r = route ∨ r ∈ set := by
  induction set with
  | nil => exact .inl (mem_singleton.mp h)
  | cons a set ih =>
    rw [replacePath] at h
    split at h
    · rcases mem_cons.mp h with rfl | h
      · exact .inl rfl
      · exact .inr (by simp [h])
    · rcases mem_cons.mp h with rfl | h
      · exact .inr (by simp)
      · exact (ih h).imp_right fun h => by simp [h]

theorem replacePath_ne_nil (route : Route) (set : List Route) : replacePath route set ≠ [] := by
  cases set with
  | nil => simp [replacePath]
  | cons a set =>
    rw [replacePath]
    split <;> simp

namespace Sound
variable {key : RouteKey} {r : Route}

section

variable (h : rib.Sound)
include h

theorem paths_keyed (hr : r ∈ rib.paths key) : r.key = key := by
  unfold paths at hr
  cases hset : rib[key]? with
  | none => simp [hset] at hr
  | some set =>
    rw [hset] at hr
    exact (h key set hset).2 r hr

theorem best_keyed (hr : rib.best key = some r) : r.key = key :=
  h.paths_keyed (mem_of_mem_head? hr)

theorem contains_iff (key : RouteKey) : rib.contains key = true ↔ (rib.best key).isSome = true := by
  unfold best paths
  rw [Std.ExtTreeMap.contains_eq_isSome_getElem?]
  cases hset : rib[key]? with
  | none => simp
  | some set =>
    cases set with
    | nil => exact absurd rfl (h key [] hset).1
    | cons a set => simp

theorem uninstall (key : RouteKey) : (rib.uninstall key).Sound := by
  intro k set hset
  rw [LocRib.uninstall, lookup_erase] at hset
  split at hset
  · cases hset
  · exact h k set hset

theorem installSet (key : RouteKey) {ranked : List Route} (hkeyed : ∀ r ∈ ranked, r.key = key) :
    (rib.installSet key ranked).Sound := by
  unfold LocRib.installSet
  split
  · exact h.uninstall key
  rename_i hne
  intro k set hset
  rw [lookup_insert] at hset
  split at hset
  · rename_i heq
    subst heq
    cases hset
    exact ⟨hne, hkeyed⟩
  · exact h k set hset

theorem install (route : Route) : (rib.install route).Sound := by
  intro k set hset
  rw [LocRib.install, lookup_insert] at hset
  split at hset
  · rename_i heq
    subst heq
    cases hset
    refine ⟨replacePath_ne_nil _ _, fun r hr => ?_⟩
    rcases mem_replacePath hr with rfl | hr
    · rfl
    · exact h.paths_keyed hr
  · exact h k set hset

end

end Sound

end LocRib

/-! ## The recorded table -/

/-- `RibDiff`. -/
structure RibDiff where
  added : List Route := []
  removed : List RouteKey := []
  modified : List Route := []
  deriving DecidableEq

/-- `LocRib` with its generation and its history, oldest record first. -/
structure RecordedRib where
  table : LocRib
  gen : Nat
  history : List (Nat × RibDiff)
  sound : table.Sound

/-- The best route of every key. -/
abbrev BestMap : Type := RouteKey → Option Route

namespace RecordedRib

/-- An empty table with an empty feed. -/
def new : RecordedRib := ⟨∅, 0, [], fun key set h => by simp at h⟩

section

variable (s : RecordedRib)

/-- The best route of every key. -/
def best : BestMap := s.table.best

/-- `push_history`. -/
def pushHistory (diff : RibDiff) : RecordedRib :=
  { s with history :=
      (if 16 ≤ s.history.length then s.history.drop 1 else s.history) ++ [(s.gen, diff)] }

/-- `install`. -/
def install (s : RecordedRib) (route : Route) : RecordedRib :=
  let wasPresent := s.table.contains route.key
  -- a re-install of the identical route changes nothing
  if (s.table.paths route.key).find? (fun r => r.pathId = route.pathId) = some route then s
  else
    let s' : RecordedRib :=
      { s with table := s.table.install route, gen := s.gen + 1, sound := s.sound.install route }
    let best := (s'.best route.key).toList
    s'.pushHistory (if wasPresent then { modified := best } else { added := best })

/-- `uninstall`. -/
def uninstall (key : RouteKey) : RecordedRib :=
  if s.table.contains key then
    pushHistory { s with table := s.table.uninstall key, gen := s.gen + 1
                         sound := s.sound.uninstall key } { removed := [key] }
  else s

/-- `install_set`; that every route is one for the key is asserted there. -/
def installSet (key : RouteKey) (ranked : List Route) (keyed : ∀ r ∈ ranked, r.key = key) :
    RecordedRib :=
  match ranked with
  | [] => s.uninstall key
  | newBest :: rest =>
    if s.table[key]? = some (newBest :: rest) then s
    else
      pushHistory { s with table := s.table.installSet key (newBest :: rest), gen := s.gen + 1
                           sound := s.sound.installSet key keyed }
        (match s.best key with
        | none => { added := [newBest] }
        | some old =>
          if old.pathId = newBest.pathId then { modified := [newBest] }
          else { added := [newBest], removed := [key] })

/-- `diff_since`: the records behind a generation, newest first. -/
def diffSince (gen : Nat) : RibDiff :=
  (s.history.reverse.takeWhile fun e => gen < e.1).foldl
    (fun out e =>
      ⟨out.added ++ e.2.added, out.removed ++ e.2.removed, out.modified ++ e.2.modified⟩)
    {}

end

end RecordedRib

/-- The operations of a Loc-RIB. -/
inductive RibOp where
  | install (route : Route)
  | installSet (key : RouteKey) (ranked : List Route) (keyed : ∀ r ∈ ranked, r.key = key)
  | uninstall (key : RouteKey)

namespace RecordedRib

/-- One operation on the table. -/
def step (s : RecordedRib) : RibOp → RecordedRib
  | .install route => s.install route
  | .installSet key ranked keyed => s.installSet key ranked keyed
  | .uninstall key => s.uninstall key

/-- A sequence of operations. -/
def run (s : RecordedRib) (ops : List RibOp) : RecordedRib := ops.foldl step s

end RecordedRib

/-! ## Applying a diff -/

/-- A route of a diff becomes the best one of its key. -/
def BestMap.put (m : BestMap) (route : Route) : BestMap :=
  fun key => if route.key = key then some route else m key

/-- The map without one key. -/
def BestMap.drop (m : BestMap) (gone : RouteKey) : BestMap :=
  fun key => if gone = key then none else m key

/-- Apply the changes of a diff in the order it lists them. -/
def RibDiff.replay (d : RibDiff) (m : BestMap) : BestMap :=
  d.modified.foldl BestMap.put (d.removed.foldl BestMap.drop (d.added.foldl BestMap.put m))

/-! ## Changes -/

/-- What an operation did to the best route of one key.  A `modified` route may be the one
that was there before, a `replaced` one has another path identifier. -/
inductive Change where
  | added (route : Route)
  | modified (route : Route)
  | replaced (route : Route)
  | removed (key : RouteKey)
  deriving DecidableEq

namespace Change

/-- The key the change is about. -/
def key : Change → RouteKey
  | added route | modified route | replaced route => route.key
  | removed key => key

/-- The best route of the key afterwards. -/
def now : Change → Option Route
  | added route | modified route | replaced route => some route
  | removed _ => none

/-- The record of the change. -/
def diff : Change → RibDiff
  | added route => { added := [route] }
  | modified route => { modified := [route] }
  | replaced route => { added := [route], removed := [route.key] }
  | removed key => { removed := [key] }

/-- The map after the change. -/
def apply (c : Change) (m : BestMap) : BestMap :=
  fun key => if c.key = key then c.now else m key

/-- Only an absent key is added, and only a present one undergoes another change. -/
def Fits (m : BestMap) : Change → Prop
  | added route => m route.key = none
  | c => (m c.key).isSome = true

end Change

namespace RecordedRib
variable (s : RecordedRib)

/-- The change `install` makes, if it makes one. -/
def installChange (s : RecordedRib) (route : Route) : Option Change :=
  if (s.table.paths route.key).find? (fun r => r.pathId = route.pathId) = some route then none
  else
    ((s.table.install route).best route.key).map fun best =>
      if s.table.contains route.key then .modified best else .added best

/-- The change `uninstall` makes. -/
def uninstallChange (s : RecordedRib) (key : RouteKey) : Option Change :=
  if s.table.contains key then some (.removed key) else none

/-- The change `install_set` makes. -/
def installSetChange (s : RecordedRib) (key : RouteKey) : List Route → Option Change
  | [] => s.uninstallChange key
  | newBest :: rest =>
    if s.table[key]? = some (newBest :: rest) then none
    else
      some (match s.best key with
        | none => .added newBest
        | some old => if old.pathId = newBest.pathId then .modified newBest else .replaced newBest)

/-- The change an operation makes, if it makes one. -/
def change (s : RecordedRib) : RibOp → Option Change
  | .install route => s.installChange route
  | .installSet key ranked _ => s.installSetChange key ranked
  | .uninstall key => s.uninstallChange key

/-- The change is made and recorded. -/
structure Records (s s' : RecordedRib) (c : Change) : Prop where
  fits : c.Fits s.best
  best : s'.best = c.apply s.best
  gen : s'.gen = s.gen + 1
  history : s'.history =
    (if 16 ≤ s.history.length then s.history.drop 1 else s.history) ++ [(s.gen + 1, c.diff)]

/-- An operation makes its change and records it, or leaves everything as it is. -/
def Follows (s s' : RecordedRib) : Option Change → Prop
  | none => s' = s
  | some c => Records s s' c

theorem follows_uninstall (key : RouteKey) :
    Follows s (s.uninstall key) (s.uninstallChange key) := by
  unfold uninstall uninstallChange
  by_cases h : s.table.contains key = true
  · rw [if_pos h, if_pos h]
    refine ⟨(s.sound.contains_iff key).mp h, ?_, rfl, rfl⟩
    funext k
    show (LocRib.paths (s.table.uninstall key) k).head? = if key = k then none else s.best k
    rw [LocRib.paths_uninstall]
    exact apply_ite List.head? ..
  · rw [if_neg h, if_neg h]
    rfl

theorem follows_install (route : Route) : Follows s (s.install route) (s.installChange route) := by
  unfold install installChange
  by_cases hsame : (s.table.paths route.key).find? (fun r => r.pathId = route.pathId) = some route
  · simp only [hsame, if_true]
    rfl
  simp only [hsame, if_false]
  obtain ⟨best, hbest⟩ : ∃ best, (s.table.install route).best route.key = some best := by
    refine Option.isSome_iff_exists.mp (((s.sound.install route).contains_iff route.key).mp ?_)
    simp [LocRib.install]
  have hkey : best.key = route.key := (s.sound.install route).best_keyed hbest
  have hmap : (s.table.install route).best = fun key =>
      if best.key = key then some best else s.best key := by
    funext k
    by_cases hk : route.key = k
    · rw [if_pos (hkey.trans hk), ← hk, hbest]
    rw [if_neg (fun h => hk (hkey.symm.trans h))]
    show (LocRib.paths (s.table.install route) k).head? = _
    rw [LocRib.paths_install, if_neg hk]
    rfl
  have hbest' : ∀ hs, (RecordedRib.mk (s.table.install route) (s.gen + 1) s.history hs).best
      route.key = some best := fun _ => hbest
  simp only [hbest', hbest, Option.toList_some, Option.map_some]
  by_cases hpresent : s.table.contains route.key = true
  · simp only [hpresent, if_true]
    refine ⟨?_, hmap, rfl, rfl⟩
    show (s.table.best best.key).isSome = true
    rw [hkey]
    exact (s.sound.contains_iff _).mp hpresent
  · simp only [hpresent]
    refine ⟨?_, hmap, rfl, rfl⟩
    rw [s.sound.contains_iff] at hpresent
    show s.table.best best.key = none
    rw [hkey]
    exact Option.not_isSome_iff_eq_none.mp hpresent

theorem follows_installSet (key : RouteKey) (ranked : List Route)
    (keyed : ∀ r ∈ ranked, r.key = key) :
    Follows s (s.installSet key ranked keyed) (s.installSetChange key ranked) := by
  cases ranked with
  | nil => exact s.follows_uninstall key
  | cons newBest rest =>
    have hkey : newBest.key = key := keyed newBest (by simp)
    unfold installSet installSetChange
    dsimp only
    by_cases hsame : s.table[key]? = some (newBest :: rest)
    · rw [if_pos hsame, if_pos hsame]
      rfl
    rw [if_neg hsame, if_neg hsame]
    have hmap : (s.table.installSet key (newBest :: rest)).best = fun k =>
        if newBest.key = k then some newBest else s.best k := by
      funext k
      show (LocRib.paths (s.table.installSet key (newBest :: rest)) k).head? = _
      rw [LocRib.paths_installSet, hkey]
      exact apply_ite List.head? ..
    cases hprev : s.best key with
    | none => exact ⟨by rw [Change.Fits, hkey]; exact hprev, hmap, rfl, rfl⟩
    | some old =>
      have hsome : (s.best newBest.key).isSome = true := by rw [hkey, hprev]; rfl
      by_cases hid : old.pathId = newBest.pathId
      · simp only [hid, if_true]
        exact ⟨hsome, hmap, rfl, rfl⟩
      · simp only [hid, if_false]
        exact ⟨hsome, hmap, rfl, by rw [Change.diff, hkey]; rfl⟩

theorem follows_step (op : RibOp) : Follows s (s.step op) (s.change op) := by
  cases op with
  | install route => exact s.follows_install route
  | installSet key ranked keyed => exact s.follows_installSet key ranked keyed
  | uninstall key => exact s.follows_uninstall key

/-! ## Runs -/

/-- The changes of a run, oldest first. -/
def changes : RecordedRib → List RibOp → List Change
  | _, [] => []
  | s, op :: ops => (s.change op).toList ++ changes (s.step op) ops

end RecordedRib
variable {cs : List Change} {k : Nat} {e : Nat × RibDiff}

/-- A sequence of changes, each of which fits the best routes it meets. -/
def Chain (m : BestMap) : List Change → Prop
  | [] => True
  | c :: cs => c.Fits m ∧ Chain (c.apply m) cs

/-- The best routes after a sequence of changes. -/
def applyAll (m : BestMap) (cs : List Change) : BestMap := cs.foldl (fun m c => c.apply m) m

theorem applyAll_append (m : BestMap) (cs ds : List Change) :
    applyAll m (cs ++ ds) = applyAll (applyAll m cs) ds := foldl_append

theorem chain_append {m : BestMap} {ds : List Change} :
    Chain m (cs ++ ds) ↔ Chain m cs ∧ Chain (applyAll m cs) ds := by
  induction cs generalizing m with
  | nil => simp [Chain, applyAll]
  | cons c cs ih =>
    simp only [cons_append, Chain, ih, and_assoc]
    rfl

/-- The records of a sequence of changes, numbered from one. -/
def entries (cs : List Change) : List (Nat × RibDiff) :=
  cs.zipIdx.map fun e => (e.2 + 1, e.1.diff)

@[simp] theorem entries_length (cs : List Change) : (entries cs).length = cs.length := by
  simp [entries]

theorem entries_concat (cs : List Change) (c : Change) :
    entries (cs ++ [c]) = entries cs ++ [(cs.length + 1, c.diff)] := by
  simp [entries, zipIdx_append]

theorem entries_drop_diffs (cs : List Change) (k : Nat) :
    ((entries cs).drop k).map Prod.snd = (cs.drop k).map Change.diff := by
  rw [map_drop, map_drop]
  congr 1
  unfold entries
  rw [map_map]
  show cs.zipIdx.map (Change.diff ∘ Prod.fst) = _
  rw [← map_map, zipIdx_map_fst]

theorem lt_of_mem_drop_entries (h : e ∈ (entries cs).drop k) : k < e.1 := by
  obtain ⟨i, hi, rfl⟩ := mem_iff_getElem.mp h
  have hnumber : ((entries cs).drop k)[i].1 = k + i + 1 := by
    simp [entries]
  omega

theorem le_of_mem_take_entries (h : e ∈ (entries cs).take k) : e.1 ≤ k := by
  obtain ⟨i, hi, rfl⟩ := mem_iff_getElem.mp h
  have hlt : i < k := by
    rw [length_take] at hi
    omega
  have hnumber : ((entries cs).take k)[i].1 = i + 1 := by
    simp [entries]
  omega

namespace RecordedRib

variable {s : RecordedRib} {cs : List Change}

/-- The generation counts the changes, and the history holds the last sixteen. -/
structure Logged (s : RecordedRib) (cs : List Change) : Prop where
  gen : s.gen = cs.length
  history : s.history = (entries cs).drop (cs.length - 16)

theorem Logged.record {s' : RecordedRib} {c : Change} (h : Logged s cs) (hc : Records s s' c) :
    Logged s' (cs ++ [c]) := by
  refine ⟨by rw [hc.gen, h.gen, length_append]; rfl, ?_⟩
  rw [hc.history, h.history, h.gen, entries_concat, length_append, length_cons,
    length_nil]
  by_cases hfull : 16 ≤ cs.length
  · rw [if_pos (by simp; omega), drop_drop, drop_append_of_le_length (by simp),
      show cs.length - 16 + 1 = cs.length + (0 + 1) - 16 by omega]
  · have h0 : cs.length - 16 = 0 := by omega
    have h1 : cs.length + (0 + 1) - 16 = 0 := by omega
    rw [h0, h1, drop_zero, drop_zero, if_neg (by simpa using hfull)]

theorem logged_new : Logged new [] := ⟨rfl, rfl⟩

/-- A run makes its changes, each where it fits, and records them. -/
theorem Logged.run (h : Logged s cs) (ops : List RibOp) :
    Logged (s.run ops) (cs ++ s.changes ops) ∧
      (s.run ops).best = applyAll s.best (s.changes ops) ∧ Chain s.best (s.changes ops) := by
  induction ops generalizing s cs with
  | nil => exact ⟨by rwa [changes, append_nil], rfl, trivial⟩
  | cons op ops ih =>
    have hstep := s.follows_step op
    rw [changes, show s.run (op :: ops) = (s.step op).run ops from rfl]
    cases hc : s.change op with
    | none =>
      rw [hc] at hstep
      rw [Option.toList_none, nil_append, show s.step op = s from hstep]
      exact ih h
    | some c =>
      rw [hc] at hstep
      obtain ⟨hlogged, hbest, hchain⟩ := ih (h.record hstep)
      rw [append_assoc] at hlogged
      rw [hstep.best] at hbest hchain
      exact ⟨hlogged, hbest, hstep.fits, hchain⟩

/-- The history holds the last sixteen generations, or all, numbered without a gap. -/
theorem run_history (ops : List RibOp) :
    let s := new.run ops
    s.history.map Prod.fst = range' (s.gen + 1 - min s.gen 16) (min s.gen 16) := by
  have hnum (cs : List Change) : (entries cs).map Prod.fst = range' 1 cs.length :=
    ext_getElem (by simp) fun i _ _ => by simp [entries, Nat.add_comm]
  have h := (logged_new.run ops).1
  simp only [h.history, h.gen, nil_append, map_drop, hnum, drop_range']
  congr 1 <;> omega

/-! ## The diff -/

/-- The changes whose records are still there. -/
def recent (since : List Change) : List Change := since.drop (since.length - 16)

/-- The diff that lists changes in the given order. -/
def merged (cs : List Change) : RibDiff :=
  ⟨cs.flatMap fun c => c.diff.added, cs.flatMap fun c => c.diff.removed,
    cs.flatMap fun c => c.diff.modified⟩

theorem foldl_merge (es : List (Nat × RibDiff)) (out : RibDiff) :
    es.foldl (fun out e => ⟨out.added ++ e.2.added, out.removed ++ e.2.removed,
      out.modified ++ e.2.modified⟩) out =
    ⟨out.added ++ (es.map Prod.snd).flatMap RibDiff.added,
      out.removed ++ (es.map Prod.snd).flatMap RibDiff.removed,
      out.modified ++ (es.map Prod.snd).flatMap RibDiff.modified⟩ := by
  induction es generalizing out with
  | nil => simp
  | cons e es ih => simp [ih]

theorem takeWhile_reverse_append {α : Type} {p : α → Bool} {xs ys : List α}
    (hxs : ∀ x ∈ xs, p x = false) (hys : ∀ y ∈ ys, p y = true) :
    (xs ++ ys).reverse.takeWhile p = ys.reverse := by
  rw [reverse_append, takeWhile_append_of_pos (by simpa using hys)]
  rw [takeWhile_eq_nil_iff.mpr, append_nil]
  intro hlt hp
  rw [hxs _ (mem_reverse.mp (get_mem ..))] at hp
  cases hp

/-- `diff_since` lists what is left of the changes since a generation, newest first. -/
theorem Logged.diffSince_eq (h : Logged s cs) {g : Nat} (hg : g ≤ cs.length) :
    s.diffSince g = merged (recent (cs.drop g)).reverse := by
  set k := max g (cs.length - 16) with hk
  have hrecent : recent (cs.drop g) = cs.drop k := by
    rw [recent, drop_drop, length_drop]
    congr 1
    omega
  -- the kept records split at the generation asked for
  have hsplit : s.history = ((entries cs).take k).drop (cs.length - 16) ++ (entries cs).drop k := by
    rw [h.history]
    have hle : cs.length - 16 ≤ ((entries cs).take k).length := by
      rw [length_take, entries_length]; omega
    rw [← drop_append_of_le_length hle, take_append_drop]
  have hold : ∀ e ∈ ((entries cs).take k).drop (cs.length - 16), decide (g < e.1) = false := by
    intro e he
    have hek := le_of_mem_take_entries (mem_of_mem_drop he)
    by_cases hgk : k = g
    · simp; omega
    -- everything kept is behind the generation
    have hnone : ((entries cs).take k).drop (cs.length - 16) = [] := by
      rw [drop_eq_nil_iff, length_take, entries_length]; omega
    rw [hnone] at he
    cases he
  have hnew : ∀ e ∈ (entries cs).drop k, decide (g < e.1) = true := by
    intro e he
    have hek := lt_of_mem_drop_entries he
    simp; omega
  unfold diffSince
  rw [hsplit, takeWhile_reverse_append hold hnew, foldl_merge, map_reverse,
    entries_drop_diffs, hrecent, ← map_reverse]
  simp only [merged, nil_append, flatMap_map]

end RecordedRib

/-! ## What a replay leaves -/

theorem foldl_put (m : BestMap) (routes : List Route) (key : RouteKey) :
    routes.foldl BestMap.put m key = ((routes.reverse.find? fun r => r.key = key).or (m key)) := by
  induction routes generalizing m with
  | nil => rfl
  | cons r routes ih =>
    rw [foldl_cons, ih, reverse_cons, find?_append, Option.or_assoc]
    congr 1
    by_cases hr : r.key = key
    · simp [BestMap.put, hr]
    · simp [BestMap.put, hr]

theorem foldl_drop (m : BestMap) (gone : List RouteKey) (key : RouteKey) :
    gone.foldl BestMap.drop m key = if key ∈ gone then none else m key := by
  induction gone generalizing m with
  | nil => rfl
  | cons k gone ih =>
    rw [foldl_cons, ih]
    by_cases hk : k = key
    · simp [BestMap.drop, hk]
    · simp [BestMap.drop, hk, Ne.symm hk]

section

variable (cs : List Change) (key : RouteKey)

/-- The oldest modification of a key. -/
def firstModified : Option Route :=
  cs.findSome? fun
    | .modified route => if route.key = key then some route else none
    | _ => none

/-- The oldest addition of a key. -/
def firstAdded : Option Route :=
  cs.findSome? fun
    | .added route | .replaced route => if route.key = key then some route else none
    | _ => none

/-- The key is removed, possibly on the way to another best route. -/
def Gone : Prop :=
  .removed key ∈ cs ∨ ∃ route, .replaced route ∈ cs ∧ route.key = key

theorem gone_iff : Gone cs key ↔ ∃ c ∈ cs, key ∈ c.diff.removed := by
  constructor
  · rintro (h | ⟨route, h, rfl⟩)
    · exact ⟨_, h, by simp [Change.diff]⟩
    · exact ⟨_, h, by simp [Change.diff]⟩
  · rintro ⟨c, hc, h⟩
    cases c with
    | removed k => exact .inl (mem_singleton.mp h ▸ hc)
    | replaced route => exact .inr ⟨route, hc, (mem_singleton.mp h).symm⟩
    | added | modified => cases h

instance (cs : List Change) (key : RouteKey) : Decidable (Gone cs key) :=
  decidable_of_iff (cs.any fun
    | .removed k => k = key
    | .replaced route => route.key = key
    | _ => false) (by
      rw [any_eq_true, gone_iff]
      refine exists_congr fun c => and_congr_right fun _ => ?_
      cases c <;> simp [Change.diff, eq_comm])

theorem find?_reverse_flatMap (f : Change → List Route) (cs : List Change) (key : RouteKey) :
    ((cs.reverse.flatMap f).reverse.find? fun r => r.key = key) =
      cs.findSome? fun c => (f c).reverse.find? fun r => r.key = key := by
  rw [reverse_flatMap, reverse_reverse, find?_flatMap]
  rfl

/-- Replaying changes newest first, the oldest of each kind is applied last. -/
theorem replay_merged (m : BestMap) (key : RouteKey) :
    (RecordedRib.merged cs.reverse).replay m key =
      (firstModified cs key).or (if Gone cs key then none else (firstAdded cs key).or (m key)) := by
  have hmodified : (cs.findSome? fun c => c.diff.modified.reverse.find? fun r => r.key = key) =
      firstModified cs key := by
    unfold firstModified
    congr 1
    funext c
    cases c with
    | modified route => by_cases h : route.key = key <;> simp [Change.diff, h]
    | _ => rfl
  have hadded : (cs.findSome? fun c => c.diff.added.reverse.find? fun r => r.key = key) =
      firstAdded cs key := by
    unfold firstAdded
    congr 1
    funext c
    cases c with
    | added route | replaced route => by_cases h : route.key = key <;> simp [Change.diff, h]
    | _ => rfl
  have hgone : key ∈ cs.reverse.flatMap (fun c => c.diff.removed) ↔ Gone cs key := by
    simp only [mem_flatMap, mem_reverse, gone_iff]
  unfold RibDiff.replay RecordedRib.merged
  simp only [foldl_put, foldl_drop, find?_reverse_flatMap, hmodified, hadded, hgone]

end

/-! ## When the replay is right -/

/-- The changes of a key that are left tell its present best route: the oldest modification
already had it; or without one, the key was removed and is gone; or it was only added; or
nothing is left and nothing changed. -/
def Replayable (before now : BestMap) (cs : List Change) (key : RouteKey) : Prop :=
  match firstModified cs key with
  | some route => now key = some route
  | none =>
    if Gone cs key then now key = none
    else (firstAdded cs key).isSome = true ∨ now key = before key

/-- A key that is neither modified nor removed keeps the route it is added with. -/
theorem applyAll_of_firstAdded {m : BestMap} {cs : List Change} (hchain : Chain m cs)
    {key : RouteKey} (hmod : firstModified cs key = none) (hgone : ¬ Gone cs key) :
    applyAll m cs key = (firstAdded cs key).or (m key) ∧
      ((m key).isSome = true → firstAdded cs key = none) := by
  induction cs generalizing m with
  | nil => exact ⟨rfl, fun _ => rfl⟩
  | cons c cs ih =>
    obtain ⟨hfits, hrest⟩ := hchain
    have hgone' : ¬ Gone cs key := by
      rw [gone_iff] at hgone ⊢
      exact fun ⟨d, hd, h⟩ => hgone ⟨d, mem_cons_of_mem c hd, h⟩
    have hmod' : firstModified cs key = none := by
      unfold firstModified at hmod ⊢
      rw [findSome?_cons] at hmod
      split at hmod
      · cases hmod
      · exact hmod
    obtain ⟨happly, honce⟩ := ih hrest hmod' hgone'
    have hcons : applyAll m (c :: cs) = applyAll (c.apply m) cs := rfl
    by_cases hkey : c.key = key
    · cases c with
      | added route =>
        have hr : route.key = key := hkey
        have hnow : Change.apply (.added route) m key = some route := by
          simp [Change.apply, Change.key, Change.now, hr]
        have hfirst : firstAdded (.added route :: cs) key = some route := by
          simp [firstAdded, hr]
        have habsent : m key = none := hr ▸ hfits
        rw [hcons, happly, hfirst, honce (by rw [hnow]; rfl), hnow]
        exact ⟨rfl, fun hsome => by simp [habsent] at hsome⟩
      | modified route =>
        have hr : route.key = key := hkey
        simp [firstModified, hr] at hmod
      | replaced route => exact absurd (.inr ⟨route, by simp, hkey⟩) hgone
      | removed k =>
        obtain rfl : k = key := hkey
        exact absurd (.inl (by simp)) hgone
    · have hsame : c.apply m key = m key := if_neg hkey
      have hfirst : firstAdded (c :: cs) key = firstAdded cs key := by
        cases c with
        | added route | replaced route =>
          have hr : ¬ route.key = key := hkey
          simp [firstAdded, hr]
        | _ => rfl
      rw [hcons, happly, hfirst, hsame]
      exact ⟨rfl, fun hsome => honce (by rw [hsame]; exact hsome)⟩

namespace RecordedRib

/-- For every run and every generation on the way: applying the changes `diff_since` returns
leads from the best routes of that generation to the present ones exactly when the changes
of each key that are still recorded tell its present best route. -/
theorem diffSince_replays_iff (ops since : List RibOp) :
    (((new.run ops).run since).diffSince (new.run ops).gen).replay (new.run ops).best =
        ((new.run ops).run since).best ↔
      ∀ key, Replayable (new.run ops).best ((new.run ops).run since).best
        (recent ((new.run ops).changes since)) key := by
  set s := new.run ops
  set cs := s.changes since with hcs
  have hlogged : Logged s (new.changes ops) := by simpa using (logged_new.run ops).1
  obtain ⟨hafter, hbest, hchain⟩ := hlogged.run since
  have hdiff : (s.run since).diffSince s.gen = merged (recent cs).reverse := by
    rw [hlogged.gen, hafter.diffSince_eq (by simp), drop_left]
  -- the changes that are left fit the best routes at which they begin
  rw [← hcs, ← take_append_drop (cs.length - 16) cs] at hbest hchain
  rw [applyAll_append] at hbest
  have hrecent := (chain_append.mp hchain).2
  rw [hdiff, funext_iff]
  refine forall_congr' fun key => ?_
  rw [replay_merged]
  unfold Replayable
  cases hmod : firstModified (recent cs) key with
  | some route => exact ⟨fun h => h.symm, fun h => h.symm⟩
  | none =>
    rw [Option.none_or]
    dsimp only
    by_cases hgone : Gone (recent cs) key
    · rw [if_pos hgone, if_pos hgone]
      exact ⟨fun h => h.symm, fun h => h.symm⟩
    rw [if_neg hgone, if_neg hgone]
    obtain ⟨happly, -⟩ := applyAll_of_firstAdded hrecent hmod hgone
    rw [← hbest] at happly
    cases hadd : firstAdded (recent cs) key with
    | some route =>
      have hnow : (s.run since).best key = some route := by
        rw [happly, show firstAdded (cs.drop (cs.length - 16)) key = some route from hadd]
        rfl
      rw [hnow]
      exact ⟨fun _ => .inl rfl, fun _ => rfl⟩
    | none =>
      rw [Option.none_or]
      exact ⟨fun h => .inr h.symm, fun h => (h.resolve_left (by simp)).symm⟩

/-- A route for 10.`net`/16. -/
def routeTo (net : UInt8) (metric : UInt32) : Route where
  key := .new (.newV4 (.padded 4 [10, net]) 16) .ipv4Unicast
  origin := ⟨0, 1⟩
  protocol := .bgp
  preference := ⟨20, metric⟩
  nextHop := none
  attributes := ∅
  ageMs := 0
  pathId := 0
  tag := none

/-- Two modifications of one route come back newest first, so that the older one is applied
last; and of seventeen additions the first is lost, with nothing to tell. -/
theorem diffSince_misreplays :
    (let s := new.run [.install (routeTo 0 0)]
     let s' := s.run [.install (routeTo 0 1), .install (routeTo 0 2)]
     s'.diffSince s.gen = { modified := [routeTo 0 2, routeTo 0 1] } ∧
       (s'.diffSince s.gen).replay s.best (routeTo 0 0).key = some (routeTo 0 1) ∧
       s'.best (routeTo 0 0).key = some (routeTo 0 2)) ∧
    (let s' := new.run ((List.range 17).map fun n => .install (routeTo (UInt8.ofNat n) 0))
     (s'.diffSince new.gen).replay new.best (routeTo 0 0).key = none ∧
       s'.best (routeTo 0 0).key = some (routeTo 0 0)) := by
  decide +kernel

end RecordedRib

end LibRouting.Rib
