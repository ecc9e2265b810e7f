/-
  Bgp/Rtr/Sync.lean --- the RTR client against an honest cache.

  The cache publishes databases under a session id and a serial and answers queries
  from what it published (RFC 8210 §8).  Connections come and go at any point; what is
  in flight when one ends is lost.
-/
import LibRouting.Bgp.Rtr.Client
import LibRouting.Foundation.Run

set_option autoImplicit false

namespace LibRouting.Bgp.Rtr

open Foundation Core RtrClient List Option

/-! ## Client, cache and transport -/

/-- PDUs in flight, each with its wire version. -/
structure Link where
  toCache : List (UInt8 × RtrPdu) := []
  toClient : List (UInt8 × RtrPdu) := []

/-- The client, the transport and the cache behind it. -/
structure World where
  client : RtrClient := .new
  link : Option Link := none
  /-- What the cache has published so far. -/
  published : UInt16 → UInt32 → Option RoaSet := fun _ _ => none
  /-- The session id and serial the cache is at. -/
  current : UInt16 × UInt32
  /-- All deltas the client has emitted. -/
  emitted : List RoaDelta := []
  /-- Session id and serial of the End of Data of the last sync the client reported. -/
  lastEnd : Option (UInt16 × UInt32) := none

/-- What a PDU of a payload means for a record set. -/
def RtrPdu.apply (s : RoaSet) : RtrPdu → RoaSet
  | .ipv4Prefix announce pfx maxLength asn | .ipv6Prefix announce pfx maxLength asn =>
    RoaDelta.apply s ⟨announce, ⟨pfx, maxLength, asn⟩⟩
  | _ => s

/-- The PDUs between Cache Response and End of Data: well-formed prefixes, records the
client has no use for, and notifications. -/
def RtrPdu.isPayload : RtrPdu → Bool
  | .ipv4Prefix _ pfx maxLength asn | .ipv6Prefix _ pfx maxLength asn =>
    (RoaEntry.withMaxLength pfx maxLength asn).isSome
  | .routerKey _ _ _ _ | .aspa _ _ _ | .serialNotify _ _ => true
  | _ => false

/-- The records after the payload PDUs. -/
def applyPayload (s : RoaSet) (payload : List (UInt8 × RtrPdu)) : RoaSet :=
  payload.foldl (fun s x => x.2.apply s) s

/-- How the cache answers a query. -/
inductive Reply where
  | reset
  | error (code : RtrErrorCode) (text : Option String)
  | data (payload : List (UInt8 × RtrPdu))
      (refreshInterval retryInterval expireInterval : Option UInt32)

namespace World

/-- The database an answer with data starts from: nothing for a Reset Query, the
database of the queried serial for a Serial Query of the current session. -/
def base (w : World) : RtrPdu → Option RoaSet
  | .resetQuery => some ∅
  | .serialQuery session serial =>
    if session = w.current.1 then w.published session serial else none
  | _ => none

/-- The PDUs of an answer at `version`; `none` when an honest cache does not answer the
query so. -/
def answer (w : World) (query : RtrPdu) (version : UInt8) : Reply → Option (List (UInt8 × RtrPdu))
  | .reset =>
    match query with
    | .serialQuery _ _ => some [(version, .cacheReset)]
    | _ => none
  | .error code text => some [(version, .errorReport code [] text)]
  | .data payload refresh retry expire =>
    match w.base query, w.published w.current.1 w.current.2 with
    | some base, some db =>
      if payload.all (·.2.isPayload) ∧ (applyPayload base payload).toList = db.toList then
        some ((version, .cacheResponse w.current.1) :: payload ++
          [(version, .endOfData w.current.1 w.current.2 refresh retry expire)])
      else none
    | _, _ => none

/-- The cache publishes a database. -/
def publish (w : World) (session : UInt16) (serial : UInt32) (db : RoaSet) : World :=
  { w with
    published := fun s n => if s = session ∧ n = serial then some db else w.published s n
    current := (session, serial) }

end World

/-- What may happen. -/
inductive Event where
  /-- The transport comes up. -/
  | connect
  /-- The transport is lost. -/
  | close
  /-- The cache moves on to a serial it has not used in the session. -/
  | update (serial : UInt32) (db : RoaSet)
  /-- The cache starts over under another session id. -/
  | restart (session : UInt16) (serial : UInt32) (db : RoaSet)
  /-- The cache announces its serial. -/
  | notify (version : UInt8)
  /-- The cache answers the first query it has received. -/
  | answer (version : UInt8) (reply : Reply)
  /-- The client takes the first PDU it has received. -/
  | deliver (now : UInt64)
  /-- The client's clock. -/
  | poll (now : UInt64)
  | configure (refresh retry expire : UInt32)

/-- The session and serial an End of Data closes. -/
def RtrPdu.ended : RtrPdu → Option (UInt16 × UInt32)
  | .endOfData session serial _ _ _ => some (session, serial)
  | _ => none

namespace World

/-- The client has consumed `pdu`. -/
def consume (w : World) (l : Link) (pdu : RtrPdu) (r : RtrClient × ClientStep) : World :=
  { w with
    client := r.1
    link := if r.2.drop then none else some { l with toCache := l.toCache ++ r.2.send }
    emitted := w.emitted ++ r.2.roaDeltas
    lastEnd := if r.2.synced then pdu.ended else w.lastEnd }

/-- One event; `none` where it cannot happen. -/
def step (w : World) : Event → Option World
  | .connect =>
    match w.link with
    | some _ => none
    | none =>
      let (c, query) := w.client.onConnect
      some { w with client := c, link := some { toCache := [query] } }
  | .close => some { w with link := none }
  | .update serial db =>
    match w.published w.current.1 serial with
    | some _ => none
    | none => some (w.publish w.current.1 serial db)
  | .restart session serial db =>
    match w.published session serial with
    | some _ => none
    | none => some (w.publish session serial db)
  | .notify version =>
    match w.link with
    | none => none
    | some l => some { w with link := some { l with
        toClient := l.toClient ++ [(version, .serialNotify w.current.1 w.current.2)] } }
  | .answer version reply =>
    match w.link with
    | some ⟨(_, query) :: queries, toClient⟩ =>
      match w.answer query version reply with
      | none => none
      | some pdus => some { w with link := some ⟨queries, toClient ++ pdus⟩ }
    | _ => none
  | .deliver now =>
    match w.link with
    | some ⟨toCache, (version, pdu) :: pdus⟩ =>
      some (w.consume ⟨toCache, pdus⟩ pdu (w.client.onPdu version pdu now))
    | _ => none
  | .poll now =>
    let (c, r) := w.client.poll now
    some { w with
      client := c
      link := w.link.map fun l => { l with toCache := l.toCache ++ r.send } }
  | .configure refresh retry expire =>
    some { w with client := w.client.setIntervals refresh retry expire }

end World

/-! ## What is in flight -/

/-- Only notifications. -/
def Notices (xs : List (UInt8 × RtrPdu)) : Prop :=
  ∀ x ∈ xs, ∃ session serial, x.2 = .serialNotify session serial

/-- The query the client is waiting on. -/
inductive Asks (c : RtrClient) (lastEnd : Option (UInt16 × UInt32)) : RtrPdu → Prop
  | reset (hphase : c.phase = .awaitingReset) : Asks c lastEnd .resetQuery
  | serial {session : UInt16} {n : UInt32} (hphase : c.phase = .awaitingSerial)
      (hid : c.sessionId = some session) (hserial : c.serial = some n)
      (hend : lastEnd = some (session, n)) : Asks c lastEnd (.serialQuery session n)

/-- An honest answer to a query of a client that holds `records`. -/
inductive Answers (published : UInt16 → UInt32 → Option RoaSet) (records : RoaSet) :
    RtrPdu → List (UInt8 × RtrPdu) → Prop
  | error (query : RtrPdu) (v : UInt8) (code : RtrErrorCode) (text : Option String) :
      Answers published records query [(v, .errorReport code [] text)]
  | reset (session : UInt16) (n : UInt32) (v : UInt8) :
      Answers published records (.serialQuery session n) [(v, .cacheReset)]
  | full {v : UInt8} {payload : List (UInt8 × RtrPdu)} {session : UInt16} {t : UInt32}
      {refresh retry expire : Option UInt32} (hpayload : ∀ x ∈ payload, x.2.isPayload = true)
      (hdb : published session t = some (applyPayload ∅ payload)) :
      Answers published records .resetQuery
        ((v, .cacheResponse session) ::
          (payload ++ [(v, .endOfData session t refresh retry expire)]))
  | difference {v : UInt8} {payload : List (UInt8 × RtrPdu)} {session : UInt16} {n t : UInt32}
      {refresh retry expire : Option UInt32} (hpayload : ∀ x ∈ payload, x.2.isPayload = true)
      (hdb : published session t = some (applyPayload records payload)) :
      Answers published records (.serialQuery session n)
        ((v, .cacheResponse session) ::
          (payload ++ [(v, .endOfData session t refresh retry expire)]))

/-- What can be in flight, by the phase of the client. -/
inductive InFlight (published : UInt16 → UInt32 → Option RoaSet) (c : RtrClient)
    (lastEnd : Option (UInt16 × UInt32)) : Link → Prop
  | idle {session : UInt16} {n : UInt32} {ns : List (UInt8 × RtrPdu)}
      (hphase : c.phase = .synced) (hid : c.sessionId = some session)
      (hserial : c.serial = some n) (hend : lastEnd = some (session, n)) (hns : Notices ns) :
      InFlight published c lastEnd ⟨[], ns⟩
  | asked {query : RtrPdu} {v : UInt8} {ns : List (UInt8 × RtrPdu)}
      (hasks : Asks c lastEnd query) (hns : Notices ns) :
      InFlight published c lastEnd ⟨[(v, query)], ns⟩
  | answered {query : RtrPdu} {ns₁ pdus ns₂ : List (UInt8 × RtrPdu)}
      (hasks : Asks c lastEnd query) (hns₁ : Notices ns₁)
      (hanswers : Answers published c.records query pdus) (hns₂ : Notices ns₂) :
      InFlight published c lastEnd ⟨[], ns₁ ++ (pdus ++ ns₂)⟩
  | receiving {session : UInt16} {v : UInt8} {t : UInt32} {refresh retry expire : Option UInt32}
      {payload ns : List (UInt8 × RtrPdu)} (hphase : c.phase = .receivingPayload)
      (hid : c.sessionId = some session) (hpayload : ∀ x ∈ payload, x.2.isPayload = true)
      (hdb : published session t = some (applyPayload c.batch payload)) (hns : Notices ns) :
      InFlight published c lastEnd
        ⟨[], payload ++ (v, .endOfData session t refresh retry expire) :: ns⟩

theorem Asks.phase_ne {c : RtrClient} {lastEnd : Option (UInt16 × UInt32)} {query : RtrPdu}
    (h : Asks c lastEnd query) : c.phase ≠ .synced := by
  cases h <;> simp [*]

theorem Notices.append {xs ys : List (UInt8 × RtrPdu)} (hxs : Notices xs) (hys : Notices ys) :
    Notices (xs ++ ys) :=
  forall_mem_append.mpr ⟨hxs, hys⟩

theorem Answers.mono {published published' : UInt16 → UInt32 → Option RoaSet}
    (hgrow : ∀ s n db, published s n = some db → published' s n = some db) {records : RoaSet}
    {query : RtrPdu} {pdus : List (UInt8 × RtrPdu)} (h : Answers published records query pdus) :
    Answers published' records query pdus := by
  cases h with
  | error query v code text => exact .error query v code text
  | reset session n v => exact .reset session n v
  | full hpayload hdb => exact .full hpayload (hgrow _ _ _ hdb)
  | difference hpayload hdb => exact .difference hpayload (hgrow _ _ _ hdb)

section InFlight

variable {published : UInt16 → UInt32 → Option RoaSet} {c : RtrClient}
  {lastEnd : Option (UInt16 × UInt32)} {l : Link}

theorem InFlight.mono {published' : UInt16 → UInt32 → Option RoaSet}
    (hgrow : ∀ s n db, published s n = some db → published' s n = some db)
    (h : InFlight published c lastEnd l) : InFlight published' c lastEnd l := by
  cases h with
  | idle hphase hid hserial hend hns => exact .idle hphase hid hserial hend hns
  | asked hasks hns => exact .asked hasks hns
  | answered hasks hns₁ hanswers hns₂ => exact .answered hasks hns₁ (hanswers.mono hgrow) hns₂
  | receiving hphase hid hpayload hdb hns =>
    exact .receiving hphase hid hpayload (hgrow _ _ _ hdb) hns

theorem InFlight.congr (h : InFlight published c lastEnd l) {c' : RtrClient}
    (hphase : c'.phase = c.phase) (hid : c'.sessionId = c.sessionId)
    (hserial : c'.serial = c.serial) (hrecords : c'.records = c.records)
    (hbatch : c'.batch = c.batch) : InFlight published c' lastEnd l := by
  have hasks' : ∀ {query}, Asks c lastEnd query → Asks c' lastEnd query := by
    intro query hasks
    cases hasks with
    | reset hp => exact .reset (hphase.trans hp)
    | serial hp hi hs hend => exact .serial (hphase.trans hp) (hid.trans hi) (hserial.trans hs) hend
  cases h with
  | idle hp hi hs hend hns =>
    exact .idle (hphase.trans hp) (hid.trans hi) (hserial.trans hs) hend hns
  | asked hasks hns => exact .asked (hasks' hasks) hns
  | answered hasks hns₁ hanswers hns₂ =>
    exact .answered (hasks' hasks) hns₁ (hrecords ▸ hanswers) hns₂
  | receiving hp hi hpayload hdb hns =>
    exact .receiving (hphase.trans hp) (hid.trans hi) hpayload (hbatch ▸ hdb) hns

theorem InFlight.notify (h : InFlight published c lastEnd l) (v : UInt8) (session : UInt16)
    (n : UInt32) :
    InFlight published c lastEnd
      { l with toClient := l.toClient ++ [(v, .serialNotify session n)] } := by
  have hone : Notices [(v, RtrPdu.serialNotify session n)] := by
    intro x hx
    rw [mem_singleton.mp hx]
    exact ⟨session, n, rfl⟩
  cases h with
  | idle hphase hid hserial hend hns => exact .idle hphase hid hserial hend (hns.append hone)
  | asked hasks hns => exact .asked hasks (hns.append hone)
  | answered hasks hns₁ hanswers hns₂ =>
    rw [append_assoc, append_assoc]
    exact .answered hasks hns₁ hanswers (hns₂.append hone)
  | receiving hphase hid hpayload hdb hns =>
    rw [append_assoc, cons_append]
    exact .receiving hphase hid hpayload hdb (hns.append hone)

theorem InFlight.skip {toCache pdus : List (UInt8 × RtrPdu)} {v : UInt8} {session : UInt16}
    {n : UInt32}
    (h : InFlight published c lastEnd ⟨toCache, (v, .serialNotify session n) :: pdus⟩) :
    InFlight published c lastEnd ⟨toCache, pdus⟩ := by
  generalize hl : (⟨toCache, (v, .serialNotify session n) :: pdus⟩ : Link) = l at h
  cases h with
  | idle hphase hid hserial hend hns =>
    cases hl
    exact .idle hphase hid hserial hend fun x hx => hns x (by simp [hx])
  | asked hasks hns =>
    cases hl
    exact .asked hasks fun x hx => hns x (by simp [hx])
  | @answered query ns₁ pdus' ns₂ hasks hns₁ hanswers hns₂ =>
    rw [Link.mk.injEq] at hl
    obtain ⟨rfl, hl⟩ := hl
    cases ns₁ with
    | nil => cases hanswers <;> simp at hl
    | cons x ns₁ =>
      obtain ⟨-, rfl⟩ := cons.inj hl
      exact .answered hasks (fun y hy => hns₁ y (by simp [hy])) hanswers hns₂
  | @receiving session' v' t refresh retry expire payload ns hphase hid hpayload hdb hns =>
    rw [Link.mk.injEq] at hl
    obtain ⟨rfl, hl⟩ := hl
    cases payload with
    | nil => simp at hl
    | cons x payload =>
      obtain ⟨rfl, rfl⟩ := cons.inj hl
      exact .receiving hphase hid (fun y hy => hpayload y (by simp [hy])) hdb hns

end InFlight

/-! ## The invariant -/

namespace World

/-- The session id the client remembers is the one of its last completed sync, if it
has completed any. -/
def Settled (w : World) : Prop :=
  w.client.serial = none ∨ w.client.sessionId = w.lastEnd.map (·.1)
  deriving Decidable

/-- What holds in every reachable world. -/
structure Inv (w : World) : Prop where
  sum : w.emitted.foldl RoaDelta.apply ∅ = w.client.records
  none : w.client.serial = none → w.lastEnd = none
  some : ∀ n, w.client.serial = some n →
    ∃ session, w.lastEnd = some (session, n) ∧ w.published session n = some w.client.records
  down : w.link = .none → w.Settled
  up : ∀ l, w.link = .some l → InFlight w.published w.client w.lastEnd l

/-- The world before the first connection. -/
def start (session : UInt16) (serial : UInt32) (db : RoaSet) : World :=
  publish { current := (session, serial) } session serial db

theorem inv_start (session : UInt16) (serial : UInt32) (db : RoaSet) :
    Inv (start session serial db) where
  sum := rfl
  none _ := rfl
  some _ h := nomatch h
  down _ := .inl rfl
  up _ h := nomatch h

variable {w : World}

theorem Inv.close (h : Inv w) (hsettled : w.Settled) :
    Inv { w with link := .none } :=
  { h with down := fun _ => hsettled, up := nofun }

/-- The client keeps its records and its serial. -/
theorem Inv.turn (h : Inv w) {c : RtrClient} {l : Link} (hrecords : c.records = w.client.records)
    (hserial : c.serial = w.client.serial) (hl : InFlight w.published c w.lastEnd l) :
    Inv { w with client := c, link := .some l } where
  sum := h.sum.trans hrecords.symm
  none hn := h.none (hserial ▸ hn)
  some n hn := hrecords ▸ h.some n (hserial ▸ hn)
  down hl := nomatch hl
  up l' hl' := by
    cases hl'
    exact hl

theorem Inv.publish (h : Inv w) {session : UInt16} {serial : UInt32}
    (hfresh : w.published session serial = .none) (db : RoaSet) :
    Inv (w.publish session serial db) := by
  have hgrow : ∀ s n d, w.published s n = .some d →
      (w.publish session serial db).published s n = .some d := by
    intro s n d hd
    have hne : ¬ (s = session ∧ n = serial) := by
      rintro ⟨rfl, rfl⟩
      cases hfresh.symm.trans hd
    exact (if_neg hne).trans hd
  refine ⟨h.sum, h.none, fun n hn => ?_, h.down, fun l hl => (h.up l hl).mono hgrow⟩
  obtain ⟨s, hend, hdb⟩ := h.some n hn
  exact ⟨s, hend, hgrow _ _ _ hdb⟩

/-! ## One lemma per event -/

section Steps

variable {w : World} {query pdu : RtrPdu} {v v' : UInt8} {pdus ns : List (UInt8 × RtrPdu)}
  {session : UInt16} {now : UInt64} {reply : Reply} {n asn : UInt32} {pfx : Prefix}
  {maxLength : UInt8} {l : Link}

theorem inv_connect (h : Inv w) (hlink : w.link = .none) :
    Inv { w with client := w.client.onConnect.1,
                 link := .some { toCache := [w.client.onConnect.2] } } := by
  have hnone : Notices [] := fun x hx => nomatch hx
  have hreset : Inv { w with client := { w.client with phase := .awaitingReset },
                             link := .some { toCache := [(w.client.version, .resetQuery)] } } :=
    h.turn rfl rfl (.asked (.reset rfl) hnone)
  unfold onConnect
  split
  · rename_i session n hid hserial
    obtain ⟨session', hend, hdb⟩ := h.some n hserial
    obtain rfl : session = session' := by
      rcases h.down hlink with hs | hs
      · cases hserial.symm.trans hs
      · rw [hid, hend] at hs
        exact some.inj hs
    exact h.turn rfl rfl (.asked (.serial rfl hid hserial hend) hnone)
  · exact hreset

theorem answers_of_answer (h : Inv w) (hasks : Asks w.client w.lastEnd query)
    (hanswer : w.answer query v reply = .some pdus) :
    Answers w.published w.client.records query pdus := by
  cases reply with
  | reset =>
    cases hasks with
    | reset => cases hanswer
    | serial =>
      cases hanswer
      exact .reset _ _ _
  | error code text =>
    cases hanswer
    exact .error _ _ _ _
  | data payload refresh retry expire =>
    simp only [answer] at hanswer
    split at hanswer
    · rename_i base db hbase hdb
      obtain ⟨⟨hvalid, hlist⟩, ⟨⟩⟩ := ite_none_right_eq_some.mp hanswer
      have hvalid' : ∀ x ∈ payload, x.2.isPayload = true := by simpa using hvalid
      obtain rfl : applyPayload base payload = db := Std.ExtTreeSet.toList_inj.mp hlist
      cases hasks with
      | reset =>
        cases hbase
        exact .full hvalid' hdb
      | serial hphase hid hserial hend =>
        obtain ⟨rfl, hbase⟩ := ite_none_right_eq_some.mp hbase
        obtain ⟨session', hend', hrec⟩ := h.some _ hserial
        cases hend.symm.trans hend'
        cases hbase.symm.trans hrec
        exact .difference hvalid' hdb
    · cases hanswer

theorem inv_answer (h : Inv w) {v₀ : UInt8} {queries : List (UInt8 × RtrPdu)}
    {toClient : List (UInt8 × RtrPdu)} (hlink : w.link = .some ⟨(v₀, query) :: queries, toClient⟩)
    (hanswer : w.answer query v reply = .some pdus) :
    Inv { w with link := .some ⟨queries, toClient ++ pdus⟩ } := by
  have hflight := h.up _ hlink
  cases hflight with
  | asked hasks hns =>
    have hanswered : InFlight w.published w.client w.lastEnd ⟨[], toClient ++ (pdus ++ [])⟩ :=
      .answered hasks hns (answers_of_answer h hasks hanswer) fun x hx => nomatch hx
    rw [append_nil] at hanswered
    exact h.turn rfl rfl hanswered

theorem inv_poll (h : Inv w) (now : UInt64) :
    Inv { w with
      client := (w.client.poll now).1
      link := w.link.map fun l =>
        { l with toCache := l.toCache ++ (w.client.poll now).2.send } } := by
  have hsame :
      Inv { w with link := w.link.map fun l => { l with toCache := l.toCache ++ [] } } := by
    refine ⟨h.sum, h.none, h.some, fun hl => h.down (map_eq_none_iff.mp hl), fun l hl => ?_⟩
    obtain ⟨l', hl', rfl⟩ := map_eq_some_iff.mp hl
    have := h.up l' hl'
    rwa [append_nil]
  unfold RtrClient.poll
  split
  · exact hsame
  dsimp only
  split
  · exact hsame
  split
  · rename_i hdue
    refine ⟨h.sum, h.none, h.some, fun hl => h.down (map_eq_none_iff.mp hl), fun l hl => ?_⟩
    obtain ⟨l', hl', rfl⟩ := map_eq_some_iff.mp hl
    -- the phase is `synced`, so nothing but notifications is in flight
    have hflight := h.up l' hl'
    cases hflight with
    | idle hphase hid hserial hend hns =>
      simp only [hid, hserial, getD_some, nil_append]
      exact .asked (.serial rfl rfl rfl hend) hns
    | asked hasks => cases hasks <;> simp_all
    | answered hasks => cases hasks <;> simp_all
    | receiving hphase => simp_all
  · exact hsame

theorem downgrade_eq (c : RtrClient) (v : UInt8) :
    ∃ v', (c.downgrade v).1 = { c with version := v' } := by
  unfold downgrade
  split
  · exact ⟨v, rfl⟩
  · exact ⟨c.version, rfl⟩

/-- The version checks in front of a PDU: the session is dropped, or a notification is
passed over, or the PDU is handled, perhaps at a lower version. -/
theorem consume_onPdu (w : World) (l : Link) (v : UInt8) (pdu : RtrPdu) (now : UInt64) :
    w.consume l pdu (w.client.onPdu v pdu now) = { w with link := .none } ∨
    ((∃ session n, pdu = .serialNotify session n) ∧ w.client.serial = .none ∧
      w.consume l pdu (w.client.onPdu v pdu now) = { w with link := .some l }) ∨
    (∀ session n, pdu = .serialNotify session n → w.client.serial ≠ .none) ∧
      ∃ v', w.consume l pdu (w.client.onPdu v pdu now) =
        w.consume l pdu ({ w.client with version := v' }.handlePdu pdu now) := by
  unfold RtrClient.onPdu
  split
  · left
    simp [consume]
  split
  · rename_i hnotify
    right; left
    unfold notifyAtStartup at hnotify
    rw [Bool.and_eq_true] at hnotify
    refine ⟨?_, by simpa using hnotify.1, by simp [consume]⟩
    cases pdu with
    | serialNotify session n => exact ⟨session, n, rfl⟩
    | _ => exact absurd hnotify.2 (by simp)
  · rename_i hnotify
    right; right
    refine ⟨fun session n hpdu hserial => hnotify ?_, ?_⟩
    · simp [notifyAtStartup, hserial, hpdu]
    · obtain ⟨v', hv'⟩ := downgrade_eq w.client v
      refine ⟨v', ?_⟩
      rcases hdown : w.client.downgrade v with ⟨c', lines⟩
      rw [hdown] at hv'
      subst hv'
      rfl

theorem consume_notify_quiet (hphase : w.client.phase ≠ .synced) :
    w.consume l (.serialNotify session n)
        ({ w.client with version := v }.handlePdu (.serialNotify session n) now) =
      { w with client := { w.client with version := v }, link := .some l } := by
  simp [consume, handlePdu, onSerialNotify, hphase]

/-- Idle: a notification makes the client ask again. -/
theorem inv_consume_idle (h : Inv w) {session' : UInt16} {n' : UInt32}
    (hphase : w.client.phase = .synced) (hid : w.client.sessionId = .some session)
    (hserial : w.client.serial = .some n) (hend : w.lastEnd = .some (session, n))
    (hns : Notices ns) :
    Inv (w.consume ⟨[], ns⟩ (.serialNotify session' n')
      ({ w.client with version := v' }.handlePdu (.serialNotify session' n') now)) := by
  by_cases hsame : session' = session
  · subst hsame
    have heq : w.consume ⟨[], ns⟩ (.serialNotify session' n')
        ({ w.client with version := v' }.handlePdu (.serialNotify session' n') now) =
        { w with client := { w.client with version := v', phase := .awaitingSerial },
                 link := .some ⟨[(v', .serialQuery session' n)], ns⟩ } := by
      simp [consume, handlePdu, onSerialNotify, hphase, hid, hserial]
    rw [heq]
    exact h.turn rfl rfl (.asked (.serial rfl hid hserial hend) hns)
  · have heq : w.consume ⟨[], ns⟩ (.serialNotify session' n')
        ({ w.client with version := v' }.handlePdu (.serialNotify session' n') now) =
        { w with client := { w.client with version := v', phase := .awaitingReset },
                 link := .some ⟨[(v', .resetQuery)], ns⟩ } := by
      simp [consume, handlePdu, onSerialNotify, hphase, hid, hsame]
    rw [heq]
    exact h.turn rfl rfl (.asked (.reset rfl) hns)

theorem inv_consume_answer (h : Inv w) (hasks : Asks w.client w.lastEnd query)
    (hanswers : Answers w.published w.client.records query ((v, pdu) :: pdus)) (hns : Notices ns)
    (hsettled : pdu matches .errorReport _ _ _ → w.Settled) :
    Inv (w.consume ⟨[], pdus ++ ns⟩ pdu ({ w.client with version := v' }.handlePdu pdu now)) := by
  cases hanswers with
  | error query v code text =>
    have heq : w.consume ⟨[], [] ++ ns⟩ (.errorReport code [] text)
        ({ w.client with version := v' }.handlePdu (.errorReport code [] text) now) =
        { w with client := { w.client with version := v' }, link := .none } := by
      simp [consume, handlePdu]
    rw [heq]
    have hs := hsettled rfl
    exact { h with down := fun _ => hs, up := nofun }
  | reset session n v =>
    have heq : w.consume ⟨[], [] ++ ns⟩ .cacheReset
        ({ w.client with version := v' }.handlePdu .cacheReset now) =
        { w with client := { w.client with version := v', phase := .awaitingReset, batch := ∅ },
                 link := .some ⟨[(v', .resetQuery)], ns⟩ } := by
      simp [consume, handlePdu]
    rw [heq]
    exact h.turn rfl rfl (.asked (.reset rfl) hns)
  | @full _ payload session t refresh retry expire hpayload hdb =>
    cases hasks with
    | reset hphase =>
      have heq : ∀ l, w.consume l (.cacheResponse session)
          ({ w.client with version := v' }.handlePdu (.cacheResponse session) now) =
          { w with client := { w.client with version := v', sessionId := .some session,
                                             batch := ∅, phase := .receivingPayload },
                   link := .some l } := by
        intro l
        simp [consume, handlePdu, onCacheResponse, hphase]
      rw [heq]
      rw [append_assoc, singleton_append]
      exact h.turn rfl rfl (.receiving rfl rfl hpayload hdb hns)
  | @difference _ payload session n t refresh retry expire hpayload hdb =>
    cases hasks with
    | serial hphase hid hserial hend =>
      have heq : ∀ l, w.consume l (.cacheResponse session)
          ({ w.client with version := v' }.handlePdu (.cacheResponse session) now) =
          { w with client := { w.client with version := v', batch := w.client.records,
                                             phase := .receivingPayload },
                   link := .some l } := by
        intro l
        simp [consume, handlePdu, onCacheResponse, hphase, hid]
      rw [heq]
      rw [append_assoc, singleton_append]
      exact h.turn rfl rfl (.receiving rfl hid hpayload hdb hns)

theorem withMaxLength_of_isSome (h : (RoaEntry.withMaxLength pfx maxLength asn).isSome = true) :
    RoaEntry.withMaxLength pfx maxLength asn = .some ⟨pfx, maxLength, asn⟩ := by
  simp only [RoaEntry.withMaxLength] at h ⊢
  grind

theorem consume_onPrefix {announce : Bool} (hphase : w.client.phase = .receivingPayload)
    (hvalid : (RoaEntry.withMaxLength pfx maxLength asn).isSome = true) :
    w.consume l pdu ({ w.client with version := v' }.onPrefix announce pfx maxLength asn) =
      { w with
        client := { w.client with
          version := v'
          batch := RoaDelta.apply w.client.batch ⟨announce, ⟨pfx, maxLength, asn⟩⟩ }
        link := .some l } := by
  have hentry := withMaxLength_of_isSome hvalid
  cases announce <;>
    simp [consume, onPrefix, hphase, hentry, RoaDelta.apply]

theorem consume_payload (hphase : w.client.phase = .receivingPayload)
    (hpayload : pdu.isPayload = true) :
    w.consume l pdu ({ w.client with version := v' }.handlePdu pdu now) =
      { w with client := { w.client with version := v', batch := pdu.apply w.client.batch },
               link := .some l } := by
  cases pdu with
  | ipv4Prefix announce pfx maxLength asn => exact consume_onPrefix hphase hpayload
  | ipv6Prefix announce pfx maxLength asn => exact consume_onPrefix hphase hpayload
  | routerKey => simp [consume, handlePdu, RtrPdu.apply]
  | aspa => simp [consume, handlePdu, RtrPdu.apply]
  | serialNotify =>
    simp [consume, handlePdu, RtrPdu.apply, onSerialNotify, hphase]
  | _ => cases hpayload

theorem inv_consume_end (h : Inv w) {t : UInt32} {refresh retry expire : Option UInt32}
    (hphase : w.client.phase = .receivingPayload) (hid : w.client.sessionId = .some session)
    (hdb : w.published session t = .some w.client.batch) (hns : Notices ns) :
    Inv (w.consume ⟨[], ns⟩ (.endOfData session t refresh retry expire)
      ({ w.client with version := v' }.handlePdu
        (.endOfData session t refresh retry expire) now)) := by
  have hstep : ({ w.client with version := v' } : RtrClient).handlePdu
      (.endOfData session t refresh retry expire) now =
      ({ w.client with version := v' } : RtrClient).onEndOfData session t
        refresh retry expire now :=
    rfl
  rw [hstep]
  unfold onEndOfData
  rw [if_neg (by simp [hphase]), if_neg (by simp [hid])]
  refine ⟨?_, fun hserial => (nomatch hserial), fun n hn => ?_, fun hl => (nomatch hl),
    fun l hl => ?_⟩
  · simp only [consume, foldl_append, h.sum, foldl_diffRecords]
  · cases hn
    exact ⟨session, rfl, hdb⟩
  · cases hl
    exact .idle rfl hid rfl rfl hns

/-- Every PDU the client takes keeps the invariant, as long as a connection that ends on
it ends in a settled state. -/
theorem inv_deliver (h : Inv w) {toCache : List (UInt8 × RtrPdu)}
    (hlink : w.link = .some ⟨toCache, (v, pdu) :: pdus⟩)
    (hend : (w.consume ⟨toCache, pdus⟩ pdu (w.client.onPdu v pdu now)).link = .none → w.Settled) :
    Inv (w.consume ⟨toCache, pdus⟩ pdu (w.client.onPdu v pdu now)) := by
  rcases consume_onPdu w ⟨toCache, pdus⟩ v pdu now with hdrop | ⟨hnotify, hserial, hquiet⟩ |
    ⟨hstarted, v', hhandled⟩
  · rw [hdrop] at hend ⊢
    exact h.close (hend rfl)
  · -- startup: the notification is passed over
    obtain ⟨session, n, rfl⟩ := hnotify
    rw [hquiet]
    exact h.turn rfl rfl (h.up _ hlink).skip
  · rw [hhandled] at hend ⊢
    have hquiet : w.client.phase ≠ .synced → (∃ session n, pdu = .serialNotify session n) →
        Inv (w.consume ⟨toCache, pdus⟩ pdu
          ({ w.client with version := v' }.handlePdu pdu now)) := by
      rintro hphase ⟨session, n, rfl⟩
      rw [consume_notify_quiet hphase]
      exact h.turn rfl rfl ((h.up _ hlink).skip.congr rfl rfl rfl rfl rfl)
    have hflight := h.up _ hlink
    generalize hl : (⟨toCache, (v, pdu) :: pdus⟩ : Link) = l at hflight
    cases hflight with
    | idle hphase hid hserial hlast hns =>
      cases hl
      obtain ⟨session, n, rfl⟩ := hns _ (mem_cons_self)
      exact inv_consume_idle h hphase hid hserial hlast fun x hx => hns x (by simp [hx])
    | asked hasks hns =>
      cases hl
      exact hquiet hasks.phase_ne (hns _ (mem_cons_self))
    | @answered query ns₁ pdus' ns₂ hasks hns₁ hanswers hns₂ =>
      rw [Link.mk.injEq] at hl
      obtain ⟨rfl, hl⟩ := hl
      cases ns₁ with
      | cons x ns₁ =>
        obtain ⟨rfl, -⟩ := cons.inj hl
        exact hquiet hasks.phase_ne (hns₁ _ (mem_cons_self))
      | nil =>
        obtain ⟨rest, rfl⟩ : ∃ rest, pdus' = (v, pdu) :: rest := by
          cases hanswers <;> cases hl <;> exact ⟨_, rfl⟩
        obtain ⟨-, rfl⟩ := cons.inj hl
        refine inv_consume_answer h hasks hanswers hns₂ fun herror => hend ?_
        cases pdu with
        | errorReport code bytes text => simp [consume, handlePdu]
        | _ => cases herror
    | @receiving session' _ t refresh retry expire payload ns hphase hid hpayload hdb hns =>
      rw [Link.mk.injEq] at hl
      obtain ⟨rfl, hl⟩ := hl
      cases payload with
      | nil =>
        cases hl
        exact inv_consume_end h hphase hid hdb hns
      | cons x payload =>
        obtain ⟨rfl, rfl⟩ := cons.inj hl
        rw [consume_payload hphase (hpayload _ (mem_cons_self))]
        exact h.turn rfl rfl (.receiving hphase hid (fun y hy => hpayload y (by simp [hy])) hdb hns)

/-- A connection that ends with this event ends in a settled state: not between a Cache
Response of another session and its End of Data, once a sync has completed. -/
def EndsSettled (w : World) (e : Event) : Prop :=
  w.link.isSome = true → (∃ w' ∈ w.step e, w'.link.isNone = true) → w.Settled

theorem inv_step {e : Event} {w' : World} (h : Inv w) (hends : w.EndsSettled e)
    (hstep : w.step e = .some w') : Inv w' := by
  revert hends hstep
  fun_cases step w e with
  | case1 | case4 | case6 | case8 | case10 | case12 | case14 => exact fun _ => nofun
  | case2 hlink c query hconnect =>
    rintro - ⟨⟩
    simpa only [hconnect] using inv_connect h hlink
  | case3 =>
    rintro hends ⟨⟩
    refine h.close ?_
    cases hlink : w.link with
    | none => exact h.down hlink
    | some l => exact hends (by simp [hlink]) ⟨_, rfl, rfl⟩
  | case5 serial db hfresh | case7 session serial db hfresh =>
    rintro - ⟨⟩
    exact h.publish hfresh db
  | case9 version l hlink =>
    rintro - ⟨⟩
    exact h.turn rfl rfl ((h.up l hlink).notify version _ _)
  | case11 version reply v query queries toClient hlink pdus hanswer =>
    rintro - ⟨⟩
    exact inv_answer h hlink hanswer
  | case13 now toCache version pdu pdus hlink =>
    rintro hends ⟨⟩
    refine inv_deliver h hlink fun hdown =>
      hends (by simp [hlink]) ⟨_, by rw [step, hlink]; rfl, ?_⟩
    rw [hdown]
    rfl
  | case15 now c r hpoll =>
    rintro - ⟨⟩
    simpa only [hpoll] using inv_poll h now
  | case16 =>
    rintro - ⟨⟩
    exact { h with up := fun l hl => (h.up l hl).congr rfl rfl rfl rfl rfl }

end Steps

instance (w : World) (e : Event) : Decidable (w.EndsSettled e) :=
  match h : w.step e with
  | .none => .isTrue fun _ ⟨w', hw', _⟩ => by simp [h] at hw'
  | .some w' =>
    decidable_of_iff (w.link.isSome = true → w'.link.isNone = true → w.Settled)
      (by simp [EndsSettled, h])

/-- The client agrees with an honest cache: at the session id and serial of the last End
of Data it reported as a sync, the cache published exactly the records the client
holds, and the deltas emitted so far add up to them.  Connections may end at any point,
except between a Cache Response of another session and its End of Data once a sync has
completed. -/
theorem records_agree (session : UInt16) (serial : UInt32) (db : RoaSet) (es : List Event)
    (hsettled : Along step EndsSettled (start session serial db) es) (w : World)
    (hrun : exec step (start session serial db) es = .some w) :
    (∀ s n, w.lastEnd = .some (s, n) → w.published s n = .some w.client.records) ∧
      w.emitted.foldl RoaDelta.apply ∅ = w.client.records := by
  have hinv : Inv w :=
    exec_invariant (fun s e s' hs hQ he => inv_step hs hQ he) (inv_start session serial db)
      hsettled hrun
  refine ⟨fun s n hlast => ?_, hinv.sum⟩
  cases hserial : w.client.serial with
  | none =>
    cases (hinv.none hserial).symm.trans hlast
  | some m =>
    obtain ⟨s', hlast', hdb⟩ := hinv.some m hserial
    cases hlast.symm.trans hlast'
    exact hdb

end World

/-- Three records of AS 65001. -/
def roaA : RoaEntry := ⟨.newV4 (.padded 4 [10]) 8, 8, 65001⟩

/-- The records of the runs below. -/
def roaB : RoaEntry := ⟨.newV4 (.padded 4 [192, 0, 2]) 24, 24, 65001⟩

def roaC : RoaEntry := ⟨.newV4 (.padded 4 [198, 51, 100]) 24, 24, 65001⟩

/-- The announcement of a record. -/
def announcing (e : RoaEntry) : UInt8 × RtrPdu := (2, .ipv4Prefix true e.pfx e.maxLength e.asn)

/-- First synchronization with a cache that holds one record. -/
def firstSync : List Event :=
  [.connect, .answer 2 (.data [announcing roaA] none none none), .deliver 0, .deliver 0, .deliver 0]

/-- Two connections after the first: one ends inside an answer of the same session, and
on the other the cache has restarted under session 2. -/
def reconnects : List Event :=
  firstSync ++
    [.close, .update 6 (.ofList [roaA, roaC]), .connect,
      .answer 2 (.data [announcing roaC] none none none), .deliver 0, .close,
      .restart 2 4 (.ofList [roaB]), .connect, .answer 2 .reset, .deliver 0,
      .answer 2 (.data [announcing roaB] none none none), .deliver 0, .deliver 0, .deliver 0]

theorem records_agree_reconnects :
    ∃ w, exec World.step (World.start 1 5 (.ofList [roaA])) reconnects = some w ∧
      w.lastEnd = some (2, 4) ∧
      (∀ s n, w.lastEnd = some (s, n) → w.published s n = some w.client.records) ∧
      w.emitted.foldl RoaDelta.apply ∅ = w.client.records := by
  have hrun : (exec World.step (World.start 1 5 (.ofList [roaA])) reconnects).map (·.lastEnd) =
      some (some (2, 4)) := by decide +kernel
  obtain ⟨w, hw, hend⟩ := map_eq_some_iff.mp hrun
  exact ⟨w, hw, hend,
    World.records_agree 1 5 (.ofList [roaA]) reconnects (by decide +kernel) w hw⟩

/-- The cache restarts under session 2, the connection ends inside its full answer, and
the client asks session 2 for the changes since the serial of session 1: it ends up with
the old record and without the one the new session started with. -/
def restartRun : List Event :=
  firstSync ++
    [.close, .restart 2 4 (.ofList [roaB]), .connect, .answer 2 .reset, .deliver 0,
      .answer 2 (.data [announcing roaB] none none none), .deliver 0, .close,
      .update 5 (.ofList [roaB]), .update 6 (.ofList [roaB, roaC]), .connect,
      .answer 2 (.data [announcing roaC] none none none), .deliver 0, .deliver 0, .deliver 0]

theorem records_disagree_after_restart :
    (exec World.step (World.start 1 5 (.ofList [roaA])) restartRun).map
        (fun w => (w.lastEnd, w.client.records.toList, (w.published 2 6).map (·.toList))) =
      some (some (2, 6), [roaA, roaC], some [roaB, roaC]) := by
  decide +kernel

end LibRouting.Bgp.Rtr
