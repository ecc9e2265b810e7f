/-
  Foundation/DbSync.lean --- two parties bring their databases together.

  Each party describes the keys of its database page by page, queues what the other has newer,
  floods back what it has newer itself, and when the descriptions are through requests what it
  queued.  Instances are ranked; a party wants an instance of the other that outranks its own.
-/
import Mathlib.Algebra.Order.Ring.Nat
import Mathlib.Logic.Relation
import Mathlib.Order.Defs.LinearOrder

set_option autoImplicit false

namespace LibRouting.Foundation.DbSync

open List Option

universe u v w

/-! ## Parties and ledgers -/

/-- The two ends. -/
inductive Party where
  | high
  | low
  deriving DecidableEq, Repr

namespace Party

/-- The other end. -/
def other : Party → Party
  | high => low
  | low => high

@[simp] theorem other_other (p : Party) : p.other.other = p := by cases p <;> rfl

@[simp] theorem other_ne (p : Party) : p.other ≠ p := by cases p <;> decide

theorem eq_or_other (p r : Party) : r = p ∨ r = p.other := by
  cases p <;> cases r <;> decide

end Party

/-- How far an end has come. -/
inductive Stage where
  | describing
  | loading
  | done
  deriving DecidableEq, Repr

/-- Pages of headers, requests for items and items. -/
inductive Msg (κ : Type u) (ι : Type v) (ρ : Type w) where
  | describe (page : List (κ × ρ))
  | request (keys : List κ)
  | update (items : List ι)

/-- What one party holds and has still to do.  `received` waits to be stored. -/
structure Ledger (κ : Type u) (ι : Type v) (ρ : Type w) where
  stage : Stage
  store : κ → Option ι
  received : List ι
  queue : List κ
  undescribed : List κ
  inbox : List (Msg κ ι ρ)

/-- Both parties. -/
abbrev Ledgers (κ : Type u) (ι : Type v) (ρ : Type w) := Party → Ledger κ ι ρ

variable {κ : Type u} {ι : Type v} {ρ : Type w}

/-- One party goes on with a new ledger and sends messages to the other. -/
def Ledgers.put (L : Ledgers κ ι ρ) (p : Party) (l : Ledger κ ι ρ) (msgs : List (Msg κ ι ρ)) :
    Ledgers κ ι ρ :=
  fun r => if r = p then l else { L r with inbox := (L r).inbox ++ msgs }

namespace Ledgers

variable (L : Ledgers κ ι ρ) (p : Party) (l : Ledger κ ι ρ) (msgs : List (Msg κ ι ρ))

@[simp] theorem put_self : L.put p l msgs p = l := if_pos rfl

@[simp] theorem put_other :
    L.put p l msgs p.other = { L p.other with inbox := (L p.other).inbox ++ msgs } :=
  if_neg p.other_ne

@[simp] theorem put_put (l' : Ledger κ ι ρ) (msgs' : List (Msg κ ι ρ)) :
    (L.put p l msgs).put p l' msgs' = L.put p l' (msgs ++ msgs') := by
  funext r
  rcases p.eq_or_other r with rfl | rfl
  · simp
  · simp

end Ledgers
variable {rest : List (Msg κ ι ρ)} {f : κ → Option ι} {queue keys : List κ} {L' : Ledgers κ ι ρ}

/-! ## Steps -/

variable [LinearOrder ρ] (key : ι → κ) (rank : ι → ρ)

/-- The higher ranked of two instances, the first if neither outranks the other. -/
def latest : Option ι → Option ι → Option ι
  | none, b => b
  | some a, none => some a
  | some a, some b => if rank a < rank b then some b else some a

/-- The instance a description announces outranks what is stored. -/
def Missing (store : κ → Option ι) (h : κ × ρ) : Prop :=
  ∀ l, store h.1 = some l → rank l < h.2

/-- The stored instance, if it outranks the one a description announces. -/
def newerCopy (store : κ → Option ι) (h : κ × ρ) : Option ι :=
  (store h.1).filter fun l => decide (h.2 < rank l)

/-- The description of the stored instances of some keys. -/
def pageOf (store : κ → Option ι) (keys : List κ) : List (κ × ρ) :=
  keys.filterMap fun k => (store k).map fun l => (k, rank l)

variable [DecidableEq κ]

/-- The store with one more instance, if it outranks the one there. -/
def storeItem (store : κ → Option ι) (l : ι) : κ → Option ι :=
  fun k => if key l = k then latest rank (store k) (some l) else store k

/-- One step of one of the parties. -/
inductive Step (L : Ledgers κ ι ρ) : Ledgers κ ι ρ → Prop where
  | describe {p : Party} {page : List (κ × ρ)} {rest : List (Msg κ ι ρ)} {queue : List κ} :
      (L p).stage = .describing → (L p).inbox = .describe page :: rest →
      (∀ k, k ∈ queue ↔ k ∈ (L p).queue ∨ ∃ h ∈ page, h.1 = k ∧ Missing rank (L p).store h) →
      Step L (L.put p { L p with queue, inbox := rest }
        ((page.filterMap (newerCopy rank (L p).store)).map fun l => .update [l]))
  | page {p : Party} {keys later : List κ} :
      (L p).stage = .describing → (L p).undescribed = keys ++ later →
      Step L (L.put p { L p with undescribed := later } [.describe (pageOf rank (L p).store keys)])
  | finishDone {p : Party} :
      (L p).stage = .describing → (L p).queue = [] → Step L (L.put p { L p with stage := .done } [])
  | finishLoading {p : Party} :
      (L p).stage = .describing → (L p).queue ≠ [] →
      Step L (L.put p { L p with stage := .loading } [.request (L p).queue])
  | serve {p : Party} {keys : List κ} {rest : List (Msg κ ι ρ)} {batches : List (List ι)} :
      (L p).inbox = .request keys :: rest → keys.mapM (L p).store = some batches.flatten →
      Step L (L.put p { L p with inbox := rest } (batches.map .update))
  | accept {p : Party} {items : List ι} {rest : List (Msg κ ι ρ)} {queue : List κ}
      {stage : Stage} :
      (L p).inbox = .update items :: rest →
      (∀ k, k ∈ queue ↔ k ∈ (L p).queue ∧ ∀ l ∈ items, key l ≠ k) →
      (stage = (L p).stage ∧ ((L p).stage = .loading → queue ≠ []) ∨
        (L p).stage = .loading ∧ queue = [] ∧ stage = .done) →
      Step L (L.put p
        { L p with stage, queue, received := (L p).received ++ items, inbox := rest } [])
  | install {p : Party} {l : ι} {later : List ι} :
      (L p).received = l :: later →
      Step L (L.put p
        { L p with received := later, store := storeItem key rank (L p).store l } [])

/-! ## What is wanted

`X` holds the two databases at the start. -/

variable (X : Party → κ → Option ι)

omit [DecidableEq κ]

/-- The other party's instance outranks the party's own. -/
def Wants (p : Party) (k : κ) (l : ι) : Prop :=
  X p.other k = some l ∧ ∀ l', X p k = some l' → rank l' < rank l

/-- What a store may hold under a key: the instance of the start, or the wanted one. -/
def StoreOk (p : Party) (store : κ → Option ι) : Prop :=
  ∀ k, store k = X p k ∨ ∃ l, Wants rank X p k l ∧ store k = some l

/-- What a party may say of a key it had at the start. -/
def Describes (p : Party) (h : κ × ρ) : Prop :=
  ∃ l, rank l = h.2 ∧ (X p h.1 = some l ∨ Wants rank X p h.1 l ∧ (X p h.1).isSome)

/-- An instance sent to a party.  As long as the party describes its database, the instance
is of a key that it had at the start. -/
def Offered (D : Party → Prop) (p : Party) (l : ι) : Prop :=
  Wants rank X p (key l) l ∧ (D p → (X p (key l)).isSome)

/-- What may be on the way to a party, where `D` are the parties that describe. -/
def Sound (D : Party → Prop) (p : Party) : Msg κ ι ρ → Prop
  | .describe page => ∀ h ∈ page, Describes rank X p.other h
  | .request keys => ¬D p.other ∧ ∀ k ∈ keys, ∃ l, Wants rank X p.other k l
  | .update items => ∀ l ∈ items, Offered key rank X D p l

variable {key rank X} {p : Party} {k : κ} {l l' : ι} {h : κ × ρ} {store : κ → Option ι}

theorem Wants.unique (hw : Wants rank X p k l) (hw' : Wants rank X p k l') : l = l' :=
  some.inj (hw.1.symm.trans hw'.1)

theorem Wants.not_other (hw : Wants rank X p k l) : ¬Wants rank X p.other k l' := by
  rintro ⟨hp, hlt'⟩
  rw [Party.other_other] at hp
  exact lt_asymm (hw.2 l' hp) (hlt' l hw.1)

theorem latest_eq_of_wants (hw : Wants rank X p k l) :
    latest rank (X p k) (X p.other k) = some l := by
  rw [hw.1]
  cases hp : X p k with
  | none => rfl
  | some own => simp [latest, hw.2 own hp]

/-- Where nothing is wanted the higher ranked instance is the own one. -/
theorem latest_eq_of_not_wants (hw : ∀ l, ¬Wants rank X p k l) :
    latest rank (X p k) (X p.other k) = X p k := by
  cases hq : X p.other k with
  | none => cases X p k <;> rfl
  | some l =>
    have hnot := hw l
    cases hp : X p k with
    | none => simp [Wants, hp, hq] at hnot
    | some own =>
      have hle : ¬rank own < rank l := fun hlt => hnot ⟨hq, by simpa [hp] using hlt⟩
      simp [latest, hle]

section

variable (hs : StoreOk rank X p store)
include hs

theorem StoreOk.isSome (hk : (X p k).isSome) : (store k).isSome := by
  rcases hs k with heq | ⟨l, -, heq⟩
  · rwa [heq]
  · simp [heq]

/-- What the other party wants is the own instance of the start, and still stored. -/
theorem StoreOk.of_other_wants (hw : Wants rank X p.other k l) :
    X p k = some l ∧ store k = some l := by
  have hown : X p k = some l := by simpa using hw.1
  rcases hs k with heq | ⟨l', hw', -⟩
  · exact ⟨hown, heq.trans hown⟩
  · exact absurd hw hw'.not_other

/-- What is stored is not below the own instance of the start, so a description of the other's
own instance that outranks it announces something wanted. -/
theorem StoreOk.wants_of_missing (hd : Describes rank X p.other h) (hm : Missing rank store h) :
    ∃ l, Wants rank X p h.1 l := by
  obtain ⟨l, hrank, hl | ⟨hl, -⟩⟩ := hd
  · rcases hs h.1 with heq | ⟨l', hw, -⟩
    · refine ⟨l, hl, ?_⟩
      intro own hown
      rw [hrank]
      exact hm own (heq.trans hown)
    · exact ⟨l', hw⟩
  · -- The other describes the instance it took over from this party: nothing is missing.
    exact absurd (hm l (hs.of_other_wants hl).2) (by simp [hrank])

/-- A wanted instance is stored or its description finds it missing. -/
theorem StoreOk.missing_of_wants (hd : Describes rank X p.other h) (hw : Wants rank X p h.1 l) :
    store h.1 = some l ∨ Missing rank store h := by
  obtain ⟨l₁, hrank, hl | ⟨hl, -⟩⟩ := hd
  · obtain rfl : l = l₁ := some.inj (hw.1.symm.trans hl)
    rcases hs h.1 with heq | ⟨l', hw', heq⟩
    · right
      intro own hown
      rw [← hrank]
      exact hw.2 own (heq.symm.trans hown)
    · left
      rw [heq, hw'.unique hw]
  · exact absurd hl hw.not_other

/-- What is flooded back is wanted by the other party, of a key that it had at the start. -/
theorem StoreOk.offered_of_newerCopy (hkey : ∀ p k l, X p k = some l → key l = k)
    (hd : Describes rank X p.other h) (hn : newerCopy rank store h = some l) (D : Party → Prop) :
    Offered key rank X D p.other l := by
  obtain ⟨hstore, hlt⟩ := filter_eq_some_iff.mp hn
  have hlt : h.2 < rank l := of_decide_eq_true hlt
  obtain ⟨l₁, hrank, hl | ⟨hl, hsome⟩⟩ := hd
  · rcases hs h.1 with heq | ⟨l', hw, heq⟩
    · have hp : X p h.1 = some l := heq.symm.trans hstore
      rw [Offered, hkey p h.1 l hp]
      refine ⟨⟨by simpa using hp, ?_⟩, fun _ => by simp [hl]⟩
      intro own hown
      obtain rfl : l₁ = own := some.inj (hl.symm.trans hown)
      rwa [hrank]
    · -- The wanted instance is the one described, and does not outrank itself.
      obtain rfl : l = l' := some.inj (hstore.symm.trans heq)
      obtain rfl : l = l₁ := some.inj (hw.1.symm.trans hl)
      exact absurd hlt (by simp [hrank])
  · obtain rfl : l₁ = l := some.inj ((hs.of_other_wants hl).2.symm.trans hstore)
    exact absurd hlt (by simp [hrank])

end

theorem Sound.mono {D D' : Party → Prop} (hD : ∀ r, D' r → D r) {m : Msg κ ι ρ}
    (hm : Sound key rank X D p m) : Sound key rank X D' p m := by
  cases m with
  | describe page => exact hm
  | request keys => exact ⟨fun hd => hm.1 (hD _ hd), hm.2⟩
  | update items => exact fun l hl => ⟨(hm l hl).1, fun hd => (hm l hl).2 (hD _ hd)⟩

/-! ## The invariant -/

/-- The parties that still describe. -/
def Ledgers.Describing (L : Ledgers κ ι ρ) (p : Party) : Prop := (L p).stage = .describing

/-- A wanted instance is stored, about to be stored, queued, or still to be described. -/
def Covered (L : Ledgers κ ι ρ) (p : Party) (k : κ) (l : ι) : Prop :=
  (L p).store k = some l ∨ l ∈ (L p).received ∨ k ∈ (L p).queue ∨ k ∈ (L p.other).undescribed ∨
    ∃ page, .describe page ∈ (L p).inbox ∧ ∃ h ∈ page, h.1 = k

variable (key rank X)

/-- A queued key is in a request to the other party or in an update on its way back. -/
def Awaited (L : Ledgers κ ι ρ) (p : Party) (k : κ) : Prop :=
  (∃ keys, .request keys ∈ (L p.other).inbox ∧ k ∈ keys) ∨
    ∃ items, .update items ∈ (L p).inbox ∧ ∃ l ∈ items, key l = k

/-- What holds of one party in every state of a run. -/
structure Consistent (L : Ledgers κ ι ρ) (p : Party) : Prop where
  store : StoreOk rank X p (L p).store
  known : L.Describing p → ∀ k, ((L p).store k).isSome → (X p k).isSome
  undescribed : ∀ k ∈ (L p).undescribed, (X p k).isSome
  inbox : ∀ m ∈ (L p).inbox, Sound key rank X L.Describing p m
  received : ∀ l ∈ (L p).received, Offered key rank X L.Describing p l
  queue : ∀ k ∈ (L p).queue, ∃ l, Wants rank X p k l
  covered : ∀ k l, Wants rank X p k l → Covered L p k l
  loading : (L p).stage = .loading → (L p).queue ≠ [] ∧ ∀ k ∈ (L p).queue, Awaited key L p k
  done : (L p).stage = .done → (L p).queue = []

/-- Both parties are consistent, and every instance of the start is filed under its key. -/
structure Synchronising (key : ι → κ) (rank : ι → ρ) (X : Party → κ → Option ι)
    (L : Ledgers κ ι ρ) : Prop where
  keyed : ∀ p k l, X p k = some l → key l = k
  consistent : ∀ p, Consistent key rank X L p

variable {key rank X} {L : Ledgers κ ι ρ} {new : Ledger κ ι ρ} {msgs : List (Msg κ ι ρ)}

omit [LinearOrder ρ] in
theorem describing_put (hmono : new.stage = .describing → L.Describing p) {r : Party}
    (hr : (L.put p new msgs).Describing r) : L.Describing r := by
  rcases p.eq_or_other r with rfl | rfl
  · exact hmono (by simpa [Ledgers.Describing] using hr)
  · simpa [Ledgers.Describing] using hr

section

variable (hs : Synchronising key rank X L) (hself : Consistent key rank X (L.put p new msgs) p)
  (hmono : new.stage = .describing → L.Describing p)
  (hmsgs : ∀ m ∈ msgs, Sound key rank X (L.put p new msgs).Describing p.other m)
  (hundescribed : ∀ k ∈ (L p).undescribed,
    k ∈ new.undescribed ∨ ∃ page, .describe page ∈ msgs ∧ ∃ h ∈ page, h.1 = k)
  (hrequest : ∀ keys, .request keys ∈ (L p).inbox → ∀ k ∈ keys,
    (∃ keys, .request keys ∈ new.inbox ∧ k ∈ keys) ∨
      ∃ items, .update items ∈ msgs ∧ ∃ l ∈ items, key l = k)

include hmono hmsgs hundescribed hrequest

/-- The party that does not move only gets messages: those have to be sound, and what it waits
for from the party that moves must not get lost. -/
theorem Consistent.put_other (hc : Consistent key rank X L p.other) :
    Consistent key rank X (L.put p new msgs) p.other where
  store := by simpa using hc.store
  known := by simpa [Ledgers.Describing] using hc.known
  undescribed := by simpa using hc.undescribed
  inbox := by
    rw [Ledgers.put_other]
    exact forall_mem_append.mpr
      ⟨fun m hm => (hc.inbox m hm).mono fun r => describing_put hmono, hmsgs⟩
  received := by
    intro l hl
    rw [Ledgers.put_other] at hl
    exact ⟨(hc.received l hl).1, fun hd => (hc.received l hl).2 (describing_put hmono hd)⟩
  queue := by simpa using hc.queue
  covered := by
    intro k l hw
    simp only [Covered, Ledgers.put_other, Party.other_other, Ledgers.put_self, mem_append]
    rcases hc.covered k l hw with h | h | h | h | ⟨page, hpage, hh⟩
    · exact .inl h
    · exact .inr (.inl h)
    · exact .inr (.inr (.inl h))
    · rw [Party.other_other] at h
      rcases hundescribed k h with h | ⟨page, hpage, hh⟩
      · exact .inr (.inr (.inr (.inl h)))
      · exact .inr (.inr (.inr (.inr ⟨page, .inr hpage, hh⟩)))
    · exact .inr (.inr (.inr (.inr ⟨page, .inl hpage, hh⟩)))
  loading := by
    intro hstage
    rw [Ledgers.put_other] at hstage
    obtain ⟨hne, hall⟩ := hc.loading hstage
    rw [Ledgers.put_other]
    refine ⟨hne, fun k hk => ?_⟩
    simp only [Awaited, Ledgers.put_other, Party.other_other, Ledgers.put_self, mem_append]
    rcases hall k hk with ⟨keys, hreq, hmem⟩ | ⟨items, hup, hmem⟩
    · rw [Party.other_other] at hreq
      rcases hrequest keys hreq k hmem with h | ⟨items, hup, hmem⟩
      · exact .inl h
      · exact .inr ⟨items, .inr hup, hmem⟩
    · exact .inr ⟨items, .inl hup, hmem⟩
  done := by simpa using hc.done

include hs hself in
theorem Synchronising.put : Synchronising key rank X (L.put p new msgs) where
  keyed := hs.keyed
  consistent r := by
    rcases p.eq_or_other r with rfl | rfl
    · exact hself
    · exact (hs.consistent p.other).put_other hmono hmsgs hundescribed hrequest

end

/-- The party that moves keeps what its new ledger keeps. -/
theorem Consistent.put_self (hc : Consistent key rank X L p)
    (hmono : new.stage = .describing → L.Describing p) (hstore : StoreOk rank X p new.store)
    (hknown : new.stage = .describing → ∀ k, (new.store k).isSome → (X p k).isSome)
    (hundescribed : ∀ k ∈ new.undescribed, k ∈ (L p).undescribed)
    (hinbox : ∀ m ∈ new.inbox, m ∈ (L p).inbox)
    (hreceived : ∀ l ∈ new.received, Offered key rank X L.Describing p l)
    (hqueue : ∀ k ∈ new.queue, ∃ l, Wants rank X p k l)
    (hcovered : ∀ k l, Wants rank X p k l →
      new.store k = some l ∨ l ∈ new.received ∨ k ∈ new.queue ∨ k ∈ (L p.other).undescribed ∨
        ∃ page, .describe page ∈ new.inbox ∧ ∃ h ∈ page, h.1 = k)
    (hloading : new.stage = .loading → new.queue ≠ [] ∧ ∀ k ∈ new.queue,
      (∃ keys, .request keys ∈ (L p.other).inbox ++ msgs ∧ k ∈ keys) ∨
        ∃ items, .update items ∈ new.inbox ∧ ∃ l ∈ items, key l = k)
    (hdone : new.stage = .done → new.queue = []) :
    Consistent key rank X (L.put p new msgs) p where
  store := by simpa using hstore
  known := by simpa [Ledgers.Describing] using hknown
  undescribed := by
    intro k hk
    rw [Ledgers.put_self] at hk
    exact hc.undescribed k (hundescribed k hk)
  inbox := by
    intro m hm
    rw [Ledgers.put_self] at hm
    exact (hc.inbox m (hinbox m hm)).mono fun r => describing_put hmono
  received := by
    intro l hl
    rw [Ledgers.put_self] at hl
    exact ⟨(hreceived l hl).1, fun hd => (hreceived l hl).2 (describing_put hmono hd)⟩
  queue := by simpa using hqueue
  covered := by simpa [Covered] using hcovered
  loading := by simpa only [Awaited, Ledgers.put_self, Ledgers.put_other] using hloading
  done := by simpa using hdone

/-! ## Every step keeps the invariant -/

omit [LinearOrder ρ] in
theorem mem_of_mapM :
    ∀ {keys : List κ} {items : List ι}, keys.mapM f = some items →
      (∀ l ∈ items, ∃ k ∈ keys, f k = some l) ∧ ∀ k ∈ keys, ∃ l ∈ items, f k = some l
  | [], items, h => by
      obtain rfl : items = [] := by simpa using h.symm
      simp
  | k :: keys, items, h => by
      simp only [mapM_cons, Option.pure_def, Option.bind_eq_bind, bind_eq_some_iff,
        some.injEq] at h
      obtain ⟨l, hl, later, hlater, rfl⟩ := h
      obtain ⟨h₁, h₂⟩ := mem_of_mapM hlater
      simp only [mem_cons, forall_eq_or_imp, exists_eq_or_imp]
      exact ⟨⟨.inl hl, fun l' hl' => .inr (h₁ l' hl')⟩, .inl hl, fun k' hk' => .inr (h₂ k' hk')⟩

omit [LinearOrder ρ] in
theorem exists_mapM :
    ∀ {keys : List κ}, (∀ k ∈ keys, (f k).isSome) → ∃ items, keys.mapM f = some items
  | [], _ => ⟨[], rfl⟩
  | k :: keys, h => by
      obtain ⟨l, hl⟩ := isSome_iff_exists.mp (h k mem_cons_self)
      obtain ⟨later, hlater⟩ := exists_mapM fun k hk => h k (mem_cons_of_mem _ hk)
      exact ⟨l :: later, by simp [mapM_cons, hl, hlater]⟩

theorem StoreOk.storeItem_eq [DecidableEq κ] (hs : StoreOk rank X p store)
    (hw : Wants rank X p (key l) l) :
    storeItem key rank store l (key l) = some l := by
  rw [storeItem, if_pos rfl]
  rcases hs (key l) with heq | ⟨l', hw', heq⟩
  · rw [heq]
    cases hown : X p (key l) with
    | none => rfl
    | some own => simp [latest, hw.2 own hown]
  · rw [heq, hw'.unique hw]
    simp [latest]

/-- At the start nothing is on its way and all keys are to be described. -/
theorem Synchronising.start (hkey : ∀ p k l, X p k = some l → key l = k)
    (hstage : ∀ p, (L p).stage = .describing) (hstore : ∀ p, (L p).store = X p)
    (hreceived : ∀ p, (L p).received = []) (hqueue : ∀ p, (L p).queue = [])
    (hund : ∀ p k, k ∈ (L p).undescribed ↔ (X p k).isSome) (hinbox : ∀ p, (L p).inbox = []) :
    Synchronising key rank X L where
  keyed := hkey
  consistent p :=
    { store := fun k => .inl (by rw [hstore])
      known := fun _ k hk => by rwa [hstore] at hk
      undescribed := fun k hk => (hund p k).mp hk
      inbox := by simp [hinbox]
      received := by simp [hreceived]
      queue := by simp [hqueue]
      covered := fun k l hw => .inr (.inr (.inr (.inl ((hund p.other k).mpr (by simp [hw.1])))))
      loading := by simp [hstage]
      done := by simp [hstage] }

section

variable (hs : Synchronising key rank X L)
include hs

theorem Synchronising.describe {page : List (κ × ρ)} (hstage : (L p).stage = .describing)
    (hinbox : (L p).inbox = .describe page :: rest)
    (hqueue : ∀ k, k ∈ queue ↔ k ∈ (L p).queue ∨ ∃ h ∈ page, h.1 = k ∧ Missing rank (L p).store h) :
    Synchronising key rank X (L.put p { L p with queue, inbox := rest }
      ((page.filterMap (newerCopy rank (L p).store)).map fun l => .update [l])) := by
  have hc := hs.consistent p
  have hpage : ∀ h ∈ page, Describes rank X p.other h :=
    hc.inbox (.describe page) (by simp [hinbox])
  have hrest : ∀ m ∈ rest, m ∈ (L p).inbox := fun m hm => by simp [hinbox, hm]
  refine hs.put ?_ (fun _ => hstage) ?_ (fun k hk => .inl hk) ?_
  · refine hc.put_self (fun _ => hstage) hc.store (fun _ => hc.known hstage) (fun k hk => hk) hrest
      hc.received ?_ ?_ (by simp [hstage]) (by simp [hstage])
    · intro k hk
      rcases (hqueue k).mp hk with hk | ⟨h, hh, rfl, hm⟩
      · exact hc.queue k hk
      · exact hc.store.wants_of_missing (hpage h hh) hm
    · intro k l hw
      rcases hc.covered k l hw with h | h | h | h | ⟨page', hpage', h, hh, rfl⟩
      · exact .inl h
      · exact .inr (.inl h)
      · exact .inr (.inr (.inl ((hqueue k).mpr (.inl h))))
      · exact .inr (.inr (.inr (.inl h)))
      · rw [hinbox, mem_cons] at hpage'
        rcases hpage' with hpage' | hpage'
        · -- The description that is consumed here.
          cases hpage'
          rcases hc.store.missing_of_wants (hpage h hh) hw with hst | hm
          · exact .inl hst
          · exact .inr (.inr (.inl ((hqueue h.1).mpr (.inr ⟨h, hh, rfl, hm⟩))))
        · exact .inr (.inr (.inr (.inr ⟨page', hpage', h, hh, rfl⟩)))
  · intro m hm
    obtain ⟨l, hl, rfl⟩ := mem_map.mp hm
    obtain ⟨h, hh, hn⟩ := mem_filterMap.mp hl
    intro l' hl'
    obtain rfl : l' = l := by simpa using hl'
    exact hc.store.offered_of_newerCopy hs.keyed (hpage h hh) hn _
  · intro keys hkeys k hk
    rw [hinbox] at hkeys
    exact .inl ⟨keys, by simpa using hkeys, hk⟩

theorem Synchronising.page {later : List κ} (hstage : (L p).stage = .describing)
    (hund : (L p).undescribed = keys ++ later) :
    Synchronising key rank X
      (L.put p { L p with undescribed := later } [.describe (pageOf rank (L p).store keys)]) := by
  have hc := hs.consistent p
  have hown : ∀ k ∈ keys, (X p k).isSome := fun k hk => hc.undescribed k (by simp [hund, hk])
  refine hs.put ?_ (fun _ => hstage) ?_ ?_ ?_
  · refine hc.put_self (fun _ => hstage) hc.store (fun _ => hc.known hstage) ?_ (fun m hm => hm)
      hc.received hc.queue hc.covered (by simp [hstage]) (by simp [hstage])
    intro k hk
    simp [hund, hk]
  · intro m hm
    obtain rfl : m = _ := by simpa using hm
    intro h hh
    obtain ⟨k, hk, hkl⟩ := mem_filterMap.mp hh
    obtain ⟨l, hl, rfl⟩ := map_eq_some_iff.mp hkl
    rw [Party.other_other]
    refine ⟨l, rfl, ?_⟩
    rcases hc.store k with heq | ⟨l', hw, heq⟩
    · exact .inl (heq.symm.trans hl)
    · obtain rfl : l' = l := some.inj (heq.symm.trans hl)
      exact .inr ⟨hw, hown k hk⟩
  · intro k hk
    rw [hund, mem_append] at hk
    rcases hk with hk | hk
    · obtain ⟨l, hl⟩ := isSome_iff_exists.mp (hc.store.isSome (hown k hk))
      refine .inr ⟨_, mem_singleton_self _, (k, rank l), ?_, rfl⟩
      exact mem_filterMap.mpr ⟨k, hk, by simp [hl]⟩
    · exact .inl hk
  · intro reqs hreqs k hk
    exact .inl ⟨reqs, hreqs, hk⟩

theorem Synchronising.finishDone (hempty : (L p).queue = []) :
    Synchronising key rank X (L.put p { L p with stage := .done } []) := by
  have hc := hs.consistent p
  refine hs.put ?_ (by simp) (by simp) (fun k hk => .inl hk)
    (fun keys hkeys k hk => .inl ⟨keys, hkeys, hk⟩)
  exact hc.put_self (by simp) hc.store (by simp) (fun k hk => hk) (fun m hm => hm) hc.received
    hc.queue hc.covered (by simp) (fun _ => hempty)

theorem Synchronising.finishLoading (hne : (L p).queue ≠ []) :
    Synchronising key rank X (L.put p { L p with stage := .loading } [.request (L p).queue]) := by
  have hc := hs.consistent p
  refine hs.put ?_ (by simp) ?_ (fun k hk => .inl hk)
    (fun keys hkeys k hk => .inl ⟨keys, hkeys, hk⟩)
  · refine hc.put_self (by simp) hc.store (by simp) (fun k hk => hk) (fun m hm => hm) hc.received
      hc.queue hc.covered (fun _ => ⟨hne, fun k hk => .inl ⟨(L p).queue, by simp, hk⟩⟩) (by simp)
  · intro m hm
    obtain rfl : m = .request (L p).queue := by simpa using hm
    refine ⟨by simp [Ledgers.Describing], ?_⟩
    rw [Party.other_other]
    exact hc.queue

theorem Synchronising.serve {batches : List (List ι)} (hinbox : (L p).inbox = .request keys :: rest)
    (hbatches : keys.mapM (L p).store = some batches.flatten) :
    Synchronising key rank X (L.put p { L p with inbox := rest } (batches.map .update)) := by
  have hc := hs.consistent p
  obtain ⟨hrequester, hwanted⟩ : Sound key rank X L.Describing p (.request keys) :=
    hc.inbox (.request keys) (by simp [hinbox])
  obtain ⟨hsent, hanswered⟩ := mem_of_mapM hbatches
  -- A wanted instance is the server's own of the start, and that is what its store holds.
  have hitem : ∀ k ∈ keys, ∀ l, (L p).store k = some l → key l = k ∧ Wants rank X p.other k l := by
    intro k hk l hl
    obtain ⟨l₀, hw⟩ := hwanted k hk
    obtain ⟨hown, hstored⟩ := hc.store.of_other_wants hw
    obtain rfl : l₀ = l := some.inj (hstored.symm.trans hl)
    exact ⟨hs.keyed p k l₀ hown, hw⟩
  refine hs.put ?_ id ?_ (fun k hk => .inl hk) ?_
  · refine hc.put_self id hc.store hc.known (fun k hk => hk) (fun m hm => by simp [hinbox, hm])
      hc.received hc.queue ?_ ?_ hc.done
    · simpa [Covered, hinbox] using hc.covered
    · intro hload
      obtain ⟨hne, hall⟩ := hc.loading hload
      refine ⟨hne, fun k hk => ?_⟩
      rcases hall k hk with ⟨reqs, hreqs, hk⟩ | ⟨items, hitems, hk⟩
      · exact .inl ⟨reqs, by simp [hreqs], hk⟩
      · exact .inr ⟨items, by simpa [hinbox] using hitems, hk⟩
  · intro m hm
    obtain ⟨batch, hbatch, rfl⟩ := mem_map.mp hm
    intro l hl
    obtain ⟨k, hk, hkl⟩ := hsent l (mem_flatten.mpr ⟨batch, hbatch, hl⟩)
    obtain ⟨rfl, hw⟩ := hitem k hk l hkl
    exact ⟨hw, fun hd => absurd (by simpa [Ledgers.Describing] using hd) hrequester⟩
  · intro reqs hreqs k hk
    rw [hinbox, mem_cons] at hreqs
    rcases hreqs with hreqs | hreqs
    · cases hreqs
      obtain ⟨l, hl, hkl⟩ := hanswered k hk
      obtain ⟨batch, hbatch, hl⟩ := mem_flatten.mp hl
      exact .inr ⟨batch, mem_map.mpr ⟨batch, hbatch, rfl⟩, l, hl, (hitem k hk l hkl).1⟩
    · exact .inl ⟨reqs, hreqs, hk⟩

theorem Synchronising.accept {items : List ι} {stage : Stage}
    (hinbox : (L p).inbox = .update items :: rest)
    (hqueue : ∀ k, k ∈ queue ↔ k ∈ (L p).queue ∧ ∀ l ∈ items, key l ≠ k)
    (hstage : stage = (L p).stage ∧ ((L p).stage = .loading →
      queue ≠ []) ∨ (L p).stage = .loading ∧ queue = [] ∧ stage = .done) :
    Synchronising key rank X (L.put p
      { L p with stage, queue, received := (L p).received ++ items, inbox := rest } []) := by
  have hc := hs.consistent p
  have hitems : ∀ l ∈ items, Offered key rank X L.Describing p l :=
    hc.inbox (.update items) (by simp [hinbox])
  have hmono : stage = .describing → L.Describing p := by
    rintro rfl
    rcases hstage with ⟨heq, -⟩ | ⟨-, -, heq⟩
    · exact heq.symm
    · cases heq
  refine hs.put ?_ hmono (by simp) (fun k hk => .inl hk) ?_
  · refine hc.put_self hmono hc.store (fun hd => hc.known (hmono hd)) (fun k hk => hk)
      (fun m hm => by simp [hinbox, hm]) ?_ (fun k hk => hc.queue k ((hqueue k).mp hk).1) ?_ ?_ ?_
    · exact forall_mem_append.mpr ⟨hc.received, hitems⟩
    · intro k l hw
      rcases hc.covered k l hw with h | h | h | h | ⟨page, hpage, hh⟩
      · exact .inl h
      · exact .inr (.inl (mem_append_left _ h))
      · -- A key leaves the queue when its instance has been received.
        by_cases hall : ∀ l' ∈ items, key l' ≠ k
        · exact .inr (.inr (.inl ((hqueue k).mpr ⟨h, hall⟩)))
        · obtain ⟨l', hl', rfl⟩ : ∃ l' ∈ items, key l' = k := by simpa using hall
          obtain rfl : l = l' := hw.unique (hitems l' hl').1
          exact .inr (.inl (mem_append_right _ hl'))
      · exact .inr (.inr (.inr (.inl h)))
      · exact .inr (.inr (.inr (.inr ⟨page, by simpa [hinbox] using hpage, hh⟩)))
    · intro hload
      rcases hstage with ⟨heq, hne⟩ | ⟨-, -, heq⟩
      · have hload : (L p).stage = .loading := heq.symm.trans hload
        refine ⟨hne hload, fun k hk => ?_⟩
        obtain ⟨hk, hnot⟩ := (hqueue k).mp hk
        rcases (hc.loading hload).2 k hk with ⟨reqs, hreqs, hmem⟩ | ⟨items', hup, l, hl, hlk⟩
        · exact .inl ⟨reqs, by simpa using hreqs, hmem⟩
        rw [hinbox, mem_cons] at hup
        rcases hup with hup | hup
        · cases hup
          exact absurd hlk (hnot l hl)
        · exact .inr ⟨items', hup, l, hl, hlk⟩
      · exact absurd (heq.symm.trans hload) (by decide)
    · intro hd
      rcases hstage with ⟨heq, -⟩ | ⟨-, hempty, -⟩
      · have hempty := hc.done (heq.symm.trans hd)
        exact eq_nil_iff_forall_not_mem.mpr fun k hk => by
          simpa [hempty] using ((hqueue k).mp hk).1
      · exact hempty
  · intro reqs hreqs k hk
    exact .inl ⟨reqs, by simpa [hinbox] using hreqs, hk⟩

variable [DecidableEq κ]

theorem Synchronising.install {later : List ι} (hreceived : (L p).received = l :: later) :
    Synchronising key rank X (L.put p
      { L p with received := later, store := storeItem key rank (L p).store l } []) := by
  have hc := hs.consistent p
  obtain ⟨hw, hknown⟩ := hc.received l (by simp [hreceived])
  have hsame : ∀ k, key l ≠ k → storeItem key rank (L p).store l k = (L p).store k :=
    fun k hk => if_neg hk
  refine hs.put ?_ id (by simp) (fun k hk => .inl hk)
    (fun keys hkeys k hk => .inl ⟨keys, hkeys, hk⟩)
  refine hc.put_self id ?_ ?_ (fun k hk => hk) (fun m hm => hm)
    (fun l' hl' => hc.received l' (by simp [hreceived, hl'])) hc.queue ?_ ?_ hc.done
  · intro k
    by_cases hk : key l = k
    · subst hk
      exact .inr ⟨l, hw, hc.store.storeItem_eq hw⟩
    · simpa only [hsame k hk] using hc.store k
  · intro hd k hk
    by_cases hkl : key l = k
    · subst hkl
      exact hknown hd
    · exact hc.known hd k (by simpa only [hsame k hkl] using hk)
  · intro k l' hw'
    by_cases hk : key l = k
    · subst hk
      rw [hw'.unique hw]
      exact .inl (hc.store.storeItem_eq hw)
    rcases hc.covered k l' hw' with h | h | h
    · exact .inl ((hsame k hk).trans h)
    · rw [hreceived, mem_cons] at h
      rcases h with rfl | h
      · exact absurd (hs.keyed _ _ _ hw'.1) hk
      · exact .inr (.inl h)
    · exact .inr (.inr h)
  · simpa [Awaited] using hc.loading

theorem Synchronising.step (h : Step key rank L L') : Synchronising key rank X L' := by
  cases h with
  | describe hstage hinbox hqueue => exact hs.describe hstage hinbox hqueue
  | page hstage hund => exact hs.page hstage hund
  | finishDone _ hempty => exact hs.finishDone hempty
  | finishLoading _ hne => exact hs.finishLoading hne
  | serve hinbox hbatches => exact hs.serve hinbox hbatches
  | accept hinbox hqueue hstage => exact hs.accept hinbox hqueue hstage
  | install hreceived => exact hs.install hreceived

theorem Synchronising.steps (h : Relation.ReflTransGen (Step key rank) L L') :
    Synchronising key rank X L' := by
  induction h with
  | refl => exact hs
  | tail _ hstep ih => exact ih.step hstep

/-! ## Where a run ends -/

omit [DecidableEq κ]

/-- A party that is done, with nothing left to store or to hear of, holds the higher ranked
instance of every key. -/
theorem Synchronising.store_eq_latest (hdone : (L p).stage = .done)
    (hreceived : (L p).received = [])
    (hund : (L p.other).undescribed = [])
    (hinbox : ∀ page, .describe page ∈ (L p).inbox → page = []) (k : κ) :
    (L p).store k = latest rank (X p k) (X p.other k) := by
  have hc := hs.consistent p
  by_cases hw : ∃ l, Wants rank X p k l
  · obtain ⟨l, hw⟩ := hw
    rw [latest_eq_of_wants hw]
    rcases hc.covered k l hw with h | h | h | h | ⟨page, hpage, h, hh, -⟩
    · exact h
    · simp [hreceived] at h
    · simp [hc.done hdone] at h
    · simp [hund] at h
    · simp [hinbox page hpage] at hh
  · rw [latest_eq_of_not_wants fun l hl => hw ⟨l, hl⟩]
    rcases hc.store k with heq | ⟨l, hl, -⟩
    · exact heq
    · exact absurd ⟨l, hl⟩ hw

/-- A party that loads waits for a message that is on its way. -/
theorem Synchronising.inbox_ne_nil (hload : (L p).stage = .loading) :
    (L p).inbox ≠ [] ∨ (L p.other).inbox ≠ [] := by
  obtain ⟨hne, hall⟩ := (hs.consistent p).loading hload
  obtain ⟨k, hk⟩ := exists_mem_of_ne_nil _ hne
  rcases hall k hk with ⟨keys, hkeys, -⟩ | ⟨items, hitems, -⟩
  · exact .inr (ne_nil_of_mem hkeys)
  · exact .inl (ne_nil_of_mem hitems)

end

end LibRouting.Foundation.DbSync
