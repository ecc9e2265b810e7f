/-
  Ospf/Exchange.lean --- the database exchange with one neighbour (`lr-ospf/src/exchange.rs`).

  `DbExchange` consumes decoded packets together with a read-only view of the database and
  returns the packets to transmit.  The events it feeds to the neighbour state machine are
  returned instead of being run there: the exchange never reads the neighbour's state.
-/
import LibRouting.Ospf.Lsdb

set_option autoImplicit false

namespace LibRouting.Ospf

/-! ## Packets -/

/-- OSPFv2 or OSPFv3. -/
inductive OspfVersion where
  | v2
  | v3
  deriving DecidableEq, Repr

/-- Initial. -/
def ddI : UInt8 := 0x04
/-- More. -/
def ddM : UInt8 := 0x02
/-- Master/Slave. -/
def ddMS : UInt8 := 0x01

/-- Sizes that decide how many headers fit in a packet. -/
def lsaHeaderLen : Nat := 20
def ddOverheadV2 : Nat := 52
def ddOverheadV3 : Nat := 68

/-- The body of a Database Description. -/
structure DbDescBody where
  mtu : UInt16
  options : UInt32
  flags : UInt8
  ddSeq : UInt32
  lsaHeaders : List LsaHeader
  deriving DecidableEq, Repr

/-- The bodies the exchange sends and reads. -/
inductive OspfBody where
  | dbDesc (d : DbDescBody)
  | lsRequest (entries : List LsaKey)
  | lsUpdate (lsas : List Lsa)
  | lsAck (lsaHeaders : List LsaHeader)
  deriving DecidableEq, Repr

/-- A packet of the exchange. -/
structure OspfPacket where
  version : OspfVersion
  routerId : UInt32
  areaId : UInt32
  body : OspfBody
  deriving DecidableEq, Repr

/-! ## The driver -/

/-- The phases of the exchange. -/
inductive Phase where
  | exStart
  | exchange
  | loading
  | full
  deriving DecidableEq, Repr

/-- The events of the neighbour state machine that the exchange raises. -/
inductive NeighborEvent where
  | negotiationDone
  | exchangeDone
  | seqMismatch
  deriving DecidableEq, Repr

/-- What a call of the exchange hands back. -/
structure ExchangeStep where
  outbound : List OspfPacket
  lsas : List Lsa
  newlyFull : Bool
  events : List NeighborEvent
  deriving DecidableEq, Repr

namespace ExchangeStep

/-- Nothing to send or install. -/
def default : ExchangeStep := ⟨[], [], false, []⟩

/-- One more packet to send. -/
def push (step : ExchangeStep) (p : OspfPacket) : ExchangeStep :=
  { step with outbound := step.outbound ++ [p] }

/-- One more event for the neighbour machine. -/
def emit (step : ExchangeStep) (e : NeighborEvent) : ExchangeStep :=
  { step with events := step.events ++ [e] }

end ExchangeStep

/-- The exchange with one neighbour. -/
structure DbExchange where
  routerId : UInt32
  areaId : UInt32
  ifaceMtu : UInt16
  phase : Phase
  masterRole : Bool
  seq : UInt32
  started : Bool
  ourCursor : Nat
  ourMore : Bool
  theirMore : Bool
  lsrQueue : List LsaKey
  lastLsr : Option (List LsaKey)
  lastDd : Option (UInt8 × UInt32 × List LsaHeader)
  lastDdSentMs : Nat
  lastLsrSentMs : Nat
  version : OspfVersion
  options : UInt32
  ddOverhead : Nat
  deriving DecidableEq, Repr

namespace DbExchange
variable (x : DbExchange)

/-- `with_version`. -/
def withVersion (routerId areaId : UInt32) (ifaceMtu : UInt16) (version : OspfVersion) :
    DbExchange :=
  let ddOverhead := match version with
    | .v2 => ddOverheadV2
    | .v3 => ddOverheadV3
  { routerId, areaId
    ifaceMtu := max ifaceMtu (UInt16.ofNat ddOverhead)
    phase := .exStart
    masterRole := false
    seq := 0
    started := false
    ourCursor := 0
    ourMore := true
    theirMore := true
    lsrQueue := []
    lastLsr := none
    lastDd := none
    lastDdSentMs := 0
    lastLsrSentMs := 0
    version
    options := match version with
      | .v3 => 0x01 ||| 0x02 ||| 0x10
      | .v2 => 0x02 ||| 0x40
    ddOverhead }

section

variable (x : DbExchange)

/-- `restart`. -/
def restart (seq : UInt32) : DbExchange :=
  { x with
    phase := .exStart
    masterRole := false
    seq
    started := false
    ourCursor := 0
    ourMore := true
    theirMore := true
    lsrQueue := []
    lastLsr := none
    lastDd := none }

/-! ### Packet constructors -/

/-- Wraps a body for this neighbour. -/
def packet (body : OspfBody) : OspfPacket := ⟨x.version, x.routerId, x.areaId, body⟩

/-- A Database Description. -/
def dbDescPacket (flags : UInt8) (seq : UInt32) (headers : List LsaHeader) : OspfPacket :=
  x.packet (.dbDesc ⟨x.ifaceMtu, x.options, flags, seq, headers⟩)

/-- A Link State Request. -/
def lsRequestPacket (entries : List LsaKey) : OspfPacket :=
  x.packet (.lsRequest entries)

/-- A Link State Update. -/
def lsUpdatePacket (lsas : List Lsa) : OspfPacket := x.packet (.lsUpdate lsas)

/-- A Link State Acknowledgment. -/
def lsAckPacket (headers : List LsaHeader) : OspfPacket := x.packet (.lsAck headers)

/-! ### Internals -/

/-- Keeps the description last sent, for retransmission. -/
def rememberDd (flags : UInt8) (seq : UInt32) (headers : List LsaHeader) (nowMs : Nat) :
    DbExchange :=
  { x with lastDd := some (flags, seq, headers), lastDdSentMs := nowMs }

/-- `initial_db_desc`: the sequence number is taken once per negotiation round. -/
def initialDbDesc (seq : UInt32) (nowMs : Nat) : DbExchange × OspfPacket :=
  let x := if x.started then x else { x with seq, started := true }
  (x.rememberDd (ddI ||| ddM ||| ddMS) x.seq [] nowMs,
    x.dbDescPacket (ddI ||| ddM ||| ddMS) x.seq [])

/-- `sequence_mismatch`: the negotiation starts over. -/
def sequenceMismatch (nowMs : Nat) (step : ExchangeStep) : DbExchange × ExchangeStep :=
  let r := (x.restart (x.seq + 1)).initialDbDesc (x.seq + 1) nowMs
  (r.1, (step.emit .seqMismatch).push r.2)

/-- The LSA headers that fit one page. -/
def perPage : Nat := max ((x.ifaceMtu.toNat - x.ddOverhead) / lsaHeaderLen) 1

/-- The headers `next_our_chunk` returns. -/
def page (lsdb : Lsdb) : List LsaHeader :=
  (lsdb.headers.drop x.ourCursor).take x.perPage

/-- The state `next_our_chunk` leaves.  The flag it returns is the new `ourMore`. -/
def nextOurChunk (lsdb : Lsdb) : DbExchange :=
  let cursor := x.ourCursor + (x.page lsdb).length
  { x with ourCursor := cursor, ourMore := cursor < lsdb.len }

/-- `DD_M * u8::from(more)`. -/
def moreFlag (more : Bool) : UInt8 := if more then ddM else 0

/-- The next page goes out as a DBD, with the More bit and the role bit. -/
def sendPage (role : UInt8) (lsdb : Lsdb) (step : ExchangeStep) (nowMs : Nat) :
    DbExchange × ExchangeStep :=
  let headers := x.page lsdb
  let x := x.nextOurChunk lsdb
  let flags := role ||| moreFlag x.ourMore
  (x.rememberDd flags x.seq headers nowMs, step.push (x.dbDescPacket flags x.seq headers))

/-- `send_master_db_desc`. -/
def sendMasterDbDesc (lsdb : Lsdb) (step : ExchangeStep) (nowMs : Nat) :
    DbExchange × ExchangeStep :=
  x.sendPage ddMS lsdb step nowMs

end

section

variable (x : DbExchange) (d : DbDescBody)

/-- Queue a request unless it is queued already. -/
def request (key : LsaKey) : DbExchange :=
  if key ∈ x.lsrQueue then x else { x with lsrQueue := x.lsrQueue ++ [key] }

/-- One round of the loop of `process_their_headers`: request what is missing or newer, and
flood our instance back where ours is the newer one. -/
def processHeader (lsdb : Lsdb) (r : DbExchange × ExchangeStep) (h : LsaHeader) :
    DbExchange × ExchangeStep :=
  match lsdb.held h.key with
  | none => (r.1.request h.key, r.2)
  | some ours =>
    if h.signedSeq > ours.signedSeq then (r.1.request h.key, r.2)
    else if h.signedSeq < ours.signedSeq then (r.1, r.2.push (r.1.lsUpdatePacket [ours]))
    else r

/-- `process_their_headers`. -/
def processTheirHeaders (headers : List LsaHeader) (lsdb : Lsdb) (step : ExchangeStep) :
    DbExchange × ExchangeStep :=
  headers.foldl (processHeader lsdb) (x, step)

/-- `take_ls_request`. -/
def takeLsRequest (nowMs : Nat) : DbExchange × Option OspfPacket :=
  if x.lsrQueue.isEmpty then (x, none)
  else
    ({ x with lastLsr := some x.lsrQueue, lastLsrSentMs := nowMs },
      some (x.lsRequestPacket x.lsrQueue))

/-- `finish_exchange`. -/
def finishExchange (step : ExchangeStep) (nowMs : Nat) : DbExchange × ExchangeStep :=
  let step := step.emit .exchangeDone
  if x.lsrQueue.isEmpty then
    ({ x with phase := .full }, { step.emit .exchangeDone with newlyFull := true })
  else
    let r := { x with phase := .loading }.takeLsRequest nowMs
    match r.2 with
    | some pkt => (r.1, step.push pkt)
    | none => (r.1, step)

/-! ### Received packets -/

/-- All of I, M and MS. -/
def isInitial : Bool := d.flags &&& (ddI ||| ddM ||| ddMS) == (ddI ||| ddM ||| ddMS)

/-- `on_db_desc` in ExStart: the lower router id answers the initial DBD of the higher one as
its slave, and the higher one takes the echo of its own sequence number. -/
def onDbDescExStart (peerRid : UInt32) (lsdb : Lsdb) (nowMs : Nat) : DbExchange × ExchangeStep :=
  let step := ExchangeStep.default
  if isInitial d && d.lsaHeaders.isEmpty && peerRid > x.routerId then
    { x with started := true, masterRole := false, seq := d.ddSeq, phase := .exchange }.sendPage 0
      lsdb (step.emit .negotiationDone) nowMs
  else if !isInitial d && d.flags &&& ddI == 0 && d.flags &&& ddMS == 0 && peerRid < x.routerId &&
      d.ddSeq == x.seq then
    let r := { x with started := true, masterRole := true, phase := .exchange }.processTheirHeaders
      d.lsaHeaders lsdb (step.emit .negotiationDone)
    { r.1 with seq := r.1.seq + 1 }.sendMasterDbDesc lsdb r.2 nowMs
  else (x, step)

/-- `on_db_desc` in Exchange, as the master. -/
def onDbDescMaster (lsdb : Lsdb) (nowMs : Nat) : DbExchange × ExchangeStep :=
  let step := ExchangeStep.default
  if d.ddSeq != x.seq then x.sequenceMismatch nowMs step
  else
    let r := { x with theirMore := d.flags &&& ddM != 0 }.processTheirHeaders d.lsaHeaders lsdb step
    if !r.1.ourMore && !r.1.theirMore then r.1.finishExchange r.2 nowMs
    else { r.1 with seq := r.1.seq + 1 }.sendMasterDbDesc lsdb r.2 nowMs

/-- `on_db_desc` in Exchange, as the slave. -/
def onDbDescSlave (lsdb : Lsdb) (nowMs : Nat) : DbExchange × ExchangeStep :=
  let step := ExchangeStep.default
  if d.ddSeq != x.seq + 1 then x.sequenceMismatch nowMs step
  else
    let r := { x with seq := d.ddSeq, theirMore := d.flags &&& ddM != 0 }.processTheirHeaders
      d.lsaHeaders lsdb step
    let r := r.1.sendPage 0 lsdb r.2 nowMs
    if !r.1.ourMore && !r.1.theirMore then r.1.finishExchange r.2 nowMs else r

/-- `on_db_desc` in Loading or Full: a duplicate is answered by a slave, anything else is a
mismatch. -/
def onDbDescAdjacent (nowMs : Nat) : DbExchange × ExchangeStep :=
  let step := ExchangeStep.default
  match x.lastDd with
  | some (flags, seq, headers) =>
    if d.flags == flags && d.ddSeq == seq then
      (x, if x.masterRole then step else step.push (x.dbDescPacket flags seq headers))
    else x.sequenceMismatch nowMs step
  | none => x.sequenceMismatch nowMs step

/-- `on_db_desc`. -/
def onDbDesc (peerRid : UInt32) (lsdb : Lsdb) (nowMs : Nat) : DbExchange × ExchangeStep :=
  if d.mtu > x.ifaceMtu then (x, .default)
  else
    match x.phase with
    | .exStart => x.onDbDescExStart d peerRid lsdb nowMs
    | .exchange =>
      if d.flags &&& ddI != 0 || d.flags &&& ddMS != (if x.masterRole then 0 else ddMS) then
        x.sequenceMismatch nowMs .default
      else if x.masterRole then x.onDbDescMaster d lsdb nowMs
      else x.onDbDescSlave d lsdb nowMs
    | .loading | .full => x.onDbDescAdjacent d nowMs

/-- The batches `on_ls_request` cuts its answer into: a batch is closed when the next LSA
would take it beyond `maxBytes`. -/
def batches (maxBytes : Nat) : List Lsa → List Lsa → Nat → List (List Lsa)
  | [], batch, _ => if batch.isEmpty then [] else [batch]
  | l :: ls, batch, bytes =>
    let len := l.header.length.toNat
    if !batch.isEmpty && bytes + len > maxBytes then batch :: batches maxBytes ls [l] len
    else batches maxBytes ls (batch ++ [l]) (bytes + len)

/-- `on_ls_request`. -/
def onLsRequest (entries : List LsaKey) (lsdb : Lsdb) (nowMs : Nat) : DbExchange × ExchangeStep :=
  let step := ExchangeStep.default
  if x.phase = .exStart then (x, step)
  else
    match entries.mapM lsdb.held with
    | none => x.sequenceMismatch nowMs step
    | some lsas =>
      let maxBytes := x.ifaceMtu.toNat - x.ddOverhead
      (x, { step with outbound := (batches maxBytes lsas [] 0).map x.lsUpdatePacket })

/-- The queue without the requests that the LSAs answer. -/
def unanswered (queue : List LsaKey) (lsas : List Lsa) : List LsaKey :=
  lsas.foldl (fun queue l => queue.filter (· ≠ l.key)) queue

/-- `on_ls_update`. -/
def onLsUpdate (lsas : List Lsa) : DbExchange × ExchangeStep :=
  let step : ExchangeStep :=
    { ExchangeStep.default with lsas, outbound := [x.lsAckPacket (lsas.map (·.header))] }
  if x.phase = .exStart then (x, step)
  else
    let queue := unanswered x.lsrQueue lsas
    let satisfied := queue.length != x.lsrQueue.length
    if satisfied && queue.isEmpty && x.phase == .loading then
      ({ x with lsrQueue := queue, phase := .full },
        { step.emit .exchangeDone with newlyFull := true })
    else ({ x with lsrQueue := queue }, step)

end

/-! ## What the loops compute -/

open Foundation.DbSync LsaHeader List

theorem request_eq (key : LsaKey) :
    ∃ queue, x.request key = { x with lsrQueue := queue } ∧
      ∀ k, k ∈ queue ↔ k ∈ x.lsrQueue ∨ k = key := by
  rw [request]
  by_cases hmem : key ∈ x.lsrQueue
  · rw [if_pos hmem]
    refine ⟨x.lsrQueue, rfl, fun k => ⟨.inl, ?_⟩⟩
    rintro (hk | rfl)
    · exact hk
    · exact hmem
  · rw [if_neg hmem]
    exact ⟨_, rfl, fun k => by simp⟩

/-- A header is requested if its LSA is missing and answered by the stored instance if that
is newer. -/
theorem processHeader_eq (lsdb : Lsdb) (x : DbExchange) (step : ExchangeStep) (h : LsaHeader) :
    ∃ queue, processHeader lsdb (x, step) h =
        ({ x with lsrQueue := queue },
          { step with outbound := step.outbound ++
              ((newerCopy Lsa.signedSeq lsdb.held h.summary).map
                fun l => x.lsUpdatePacket [l]).toList }) ∧
      ∀ k, k ∈ queue ↔
        k ∈ x.lsrQueue ∨ h.key = k ∧ Missing Lsa.signedSeq lsdb.held h.summary := by
  obtain ⟨queue, hqueue, hmem⟩ := x.request_eq h.key
  cases hheld : lsdb.held h.key with
  | none =>
    refine ⟨queue, ?_, ?_⟩
    · simp [processHeader, newerCopy, summary, hheld, hqueue]
    · simp [hmem, Missing, summary, hheld, eq_comm]
  | some ours =>
    rcases lt_trichotomy ours.signedSeq h.signedSeq with hlt | heq | hgt
    · have hnot : ¬h.signedSeq < ours.signedSeq := by omega
      refine ⟨queue, ?_, ?_⟩
      · simp [processHeader, newerCopy, summary, hheld, hqueue, hlt, hnot, Option.filter]
      · simp [hmem, Missing, summary, hheld, hlt, eq_comm]
    · refine ⟨x.lsrQueue, ?_, ?_⟩
      · simp [processHeader, newerCopy, summary, hheld, heq, Option.filter]
      · simp [Missing, summary, hheld, heq]
    · have hnot : ¬ours.signedSeq < h.signedSeq := by omega
      refine ⟨x.lsrQueue, ?_, ?_⟩
      · simp [processHeader, newerCopy, summary, hheld, hgt, hnot, ExchangeStep.push,
          Option.filter]
      · simp [Missing, summary, hheld, hnot]

/-- The headers of a page are requested or answered one by one. -/
theorem processTheirHeaders_eq (headers : List LsaHeader) (lsdb : Lsdb) (x : DbExchange)
    (step : ExchangeStep) :
    ∃ queue, x.processTheirHeaders headers lsdb step =
        ({ x with lsrQueue := queue },
          { step with outbound := step.outbound ++
              ((headers.map summary).filterMap
                (newerCopy Lsa.signedSeq lsdb.held)).map fun l => x.lsUpdatePacket [l] }) ∧
      ∀ k, k ∈ queue ↔ k ∈ x.lsrQueue ∨
        ∃ s ∈ headers.map summary, s.1 = k ∧ Missing Lsa.signedSeq lsdb.held s := by
  induction headers generalizing x step with
  | nil => exact ⟨x.lsrQueue, by simp [processTheirHeaders], by simp⟩
  | cons h headers ih =>
    obtain ⟨queue₁, hone, hmem₁⟩ := processHeader_eq lsdb x step h
    obtain ⟨queue, hrest, hmem⟩ := ih { x with lsrQueue := queue₁ }
      { step with outbound := step.outbound ++
          ((newerCopy Lsa.signedSeq lsdb.held h.summary).map
            fun l => x.lsUpdatePacket [l]).toList }
    refine ⟨queue, ?_, ?_⟩
    · rw [processTheirHeaders, foldl_cons, hone]
      refine hrest.trans ?_
      cases hcopy : newerCopy Lsa.signedSeq lsdb.held h.summary <;>
        simp [lsUpdatePacket, packet, hcopy]
    · intro k
      rw [hmem, hmem₁]
      simp [summary, or_assoc]

theorem batches_flatten (maxBytes : Nat) (ls batch : List Lsa) (bytes : Nat) :
    (batches maxBytes ls batch bytes).flatten = batch ++ ls := by
  induction ls generalizing batch bytes with
  | nil => cases batch <;> simp [batches]
  | cons l ls ih =>
    rw [batches]
    split
    · simp [ih]
    · simp [ih]

theorem mem_unanswered {queue : List LsaKey} {lsas : List Lsa} {k : LsaKey} :
    k ∈ unanswered queue lsas ↔ k ∈ queue ∧ ∀ l ∈ lsas, l.key ≠ k := by
  induction lsas generalizing queue with
  | nil => simp [unanswered]
  | cons l ls ih =>
    rw [unanswered, foldl_cons]
    refine ih.trans ?_
    simp only [mem_filter, decide_eq_true_eq, mem_cons, forall_eq_or_imp, and_assoc,
      ne_comm]

/-- After an update the answered requests have left the queue, and the last one ends the
loading. -/
theorem onLsUpdate_eq (lsas : List Lsa) (hidle : x.phase = .exStart → x.lsrQueue = []) :
    ∃ phase newlyFull events,
      x.onLsUpdate lsas = ({ x with lsrQueue := unanswered x.lsrQueue lsas, phase },
        ⟨[x.lsAckPacket (lsas.map (·.header))], lsas, newlyFull, events⟩) ∧
      (phase = x.phase ∧
          (x.phase = .loading → x.lsrQueue ≠ [] → unanswered x.lsrQueue lsas ≠ []) ∨
        x.phase = .loading ∧ unanswered x.lsrQueue lsas = [] ∧ phase = .full) := by
  by_cases hstart : x.phase = .exStart
  · have hqueue : unanswered x.lsrQueue lsas = x.lsrQueue := by
      rw [hidle hstart]
      exact eq_nil_iff_forall_not_mem.mpr fun k hk => by simpa using (mem_unanswered.mp hk).1
    refine ⟨x.phase, false, [], ?_, .inl ⟨rfl, by simp [hstart]⟩⟩
    rw [onLsUpdate, if_pos hstart, hqueue]
    rfl
  · simp only [onLsUpdate, if_neg hstart]
    split
    case isTrue hlast =>
      simp only [Bool.and_eq_true, List.isEmpty_iff, beq_iff_eq] at hlast
      exact ⟨.full, true, [.exchangeDone], rfl, .inr ⟨hlast.2, hlast.1.2, rfl⟩⟩
    case isFalse hmore =>
      refine ⟨x.phase, false, [], rfl, .inl ⟨rfl, fun hload hne hempty => hmore ?_⟩⟩
      have hlen : 0 ≠ x.lsrQueue.length := by simpa [eq_comm] using hne
      simpa [hload, hempty] using hlen

theorem drop_nextOurChunk (lsdb : Lsdb) :
    lsdb.keys.drop (x.nextOurChunk lsdb).ourCursor =
      (lsdb.keys.drop x.ourCursor).drop x.perPage := by
  have hlen : (x.page lsdb).length = min x.perPage (lsdb.keys.drop x.ourCursor).length := by
    rw [page, ← lsdb.map_key_headers, ← map_drop, length_map, length_take]
  rw [nextOurChunk, hlen, ← drop_drop]
  rcases le_total x.perPage (lsdb.keys.drop x.ourCursor).length with hle | hle
  · rw [min_eq_left hle]
  · rw [min_eq_right hle, drop_length, drop_eq_nil_of_le hle]

/-- The headers of a page describe the stored instances of the next keys. -/
theorem map_summary_page (lsdb : Lsdb) :
    (x.page lsdb).map summary =
      pageOf Lsa.signedSeq lsdb.held ((lsdb.keys.drop x.ourCursor).take x.perPage) := by
  rw [← lsdb.map_key_headers, ← map_drop, ← map_take, pageOf, filterMap_map, page,
    ← filterMap_eq_map]
  apply filterMap_congr
  intro h hh
  obtain ⟨l, hl, rfl⟩ := lsdb.held_of_mem_headers (mem_of_mem_drop (mem_of_mem_take hh))
  simp [summary, hl, Lsa.signedSeq]

end DbExchange

end LibRouting.Ospf
