/-
  Ospf/ExchangeTurns.lean --- the turns of master and slave, and the end of the exchange.

  At any time at most one Database Description with headers is on its way: the slave echoes,
  the master goes on.  `Control` lists the states the two drivers go through together with the
  DBDs on their way.  In the end each side holds the instance with the larger sequence number and
  its own where the numbers are equal; RFC 2328 §13.1 may tell such instances apart.
-/
import LibRouting.Ospf.ExchangeSync
import LibRouting.Ospf.Recency

set_option autoImplicit false

namespace LibRouting.Ospf

open Foundation Foundation.DbSync DbExchange List

variable {pkt : OspfPacket}

/-! ## DBDs on their way -/

/-- The packet is a Database Description. -/
def OspfPacket.isDbDesc (pkt : OspfPacket) : Bool :=
  match pkt.body with
  | .dbDesc _ => true
  | _ => false

/-- The descriptions in an inbox. -/
def dbds (inbox : List OspfPacket) : List OspfPacket := inbox.filter OspfPacket.isDbDesc

theorem dbds_append (a b : List OspfPacket) : dbds (a ++ b) = dbds a ++ dbds b :=
  filter_append ..

theorem dbds_cons_dbDesc {d : DbDescBody} (h : pkt.body = .dbDesc d) (rest : List OspfPacket) :
    dbds (pkt :: rest) = pkt :: dbds rest :=
  filter_cons_of_pos (by simp [OspfPacket.isDbDesc, h])

theorem dbds_cons_other (h : ∀ d, pkt.body ≠ .dbDesc d) (rest : List OspfPacket) :
    dbds (pkt :: rest) = dbds rest := by
  refine filter_cons_of_neg ?_
  cases hb : pkt.body with
  | dbDesc d => exact absurd hb (h d)
  | lsRequest | lsUpdate | lsAck => simp [OspfPacket.isDbDesc, hb]

theorem dbds_eq_nil {pkts : List OspfPacket} (h : ∀ pkt ∈ pkts, ∀ d, pkt.body ≠ .dbDesc d) :
    dbds pkts = [] := by
  induction pkts with
  | nil => rfl
  | cons pkt rest ih =>
    rw [dbds_cons_other (h pkt mem_cons_self)]
    exact ih fun pkt hpkt => h pkt (mem_cons_of_mem _ hpkt)

/-- A DBD from a router, with its flags and sequence number. -/
def IsDbd (rid : UInt32) (mtu : UInt16) (flags : UInt8) (seq : UInt32) (pkt : OspfPacket) : Prop :=
  pkt.routerId = rid ∧
    ∃ d, pkt.body = .dbDesc d ∧ d.mtu = mtu ∧ d.flags = flags ∧ d.ddSeq = seq

/-- The initial DBD of a router. -/
def IsInitial (rid : UInt32) (mtu : UInt16) (seq : UInt32) (pkt : OspfPacket) : Prop :=
  pkt.routerId = rid ∧
    ∃ d, pkt.body = .dbDesc d ∧ d.mtu = mtu ∧ d.flags = ddI ||| ddM ||| ddMS ∧ d.ddSeq = seq ∧
      d.lsaHeaders = []

section

variable {rid rid' : UInt32} {mtu mtu' : UInt16} {flags : UInt8} {seq : UInt32} {d : DbDescBody}

theorem IsDbd.of_router (h : IsDbd rid mtu flags seq pkt) (hrid : rid = rid')
    (hmtu : mtu = mtu') : IsDbd rid' mtu' flags seq pkt := by
  subst hrid hmtu
  exact h

/-- What is known of the body of a DBD from a router. -/
theorem fields_of_body {P : DbDescBody → Prop}
    (h : pkt.routerId = rid ∧ ∃ d, pkt.body = .dbDesc d ∧ P d) (hbody : pkt.body = .dbDesc d) :
    pkt.routerId = rid ∧ P d := by
  obtain ⟨hrid, d', hbody', hd⟩ := h
  obtain rfl : d = d' := OspfBody.dbDesc.inj (hbody.symm.trans hbody')
  exact ⟨hrid, hd⟩

end

/-! ## What the driver does in its turn -/

namespace DbExchange

section Flags

variable (more : Bool)

@[simp] theorem moreFlag_and_ddI : moreFlag more &&& ddI = 0 := by cases more <;> decide
@[simp] theorem moreFlag_and_ddMS : moreFlag more &&& ddMS = 0 := by cases more <;> decide
@[simp] theorem moreFlag_and_ddM : (moreFlag more &&& ddM != 0) = more := by
  cases more <;> decide
@[simp] theorem masterFlag_and_ddI : (ddMS ||| moreFlag more) &&& ddI = 0 := by
  cases more <;> decide
@[simp] theorem masterFlag_and_ddMS : (ddMS ||| moreFlag more) &&& ddMS = ddMS := by
  cases more <;> decide
@[simp] theorem masterFlag_and_ddM : ((ddMS ||| moreFlag more) &&& ddM != 0) = more := by
  cases more <;> decide

theorem isInitial_moreFlag {d : DbDescBody} (h : d.flags = moreFlag more) :
    isInitial d = false := by
  rw [isInitial, h]
  cases more <;> decide

end Flags

theorem isInitial_initial {d : DbDescBody} (h : d.flags = ddI ||| ddM ||| ddMS) :
    isInitial d = true := by
  rw [isInitial, h]
  decide

variable {x : DbExchange} {d : DbDescBody} {rid : UInt32} {more : Bool}

section

variable (hphase : x.phase = .exStart) (hmtu : d.mtu = x.ifaceMtu)
include hphase hmtu

/-- The higher router id ignores the initial DBD of the lower one. -/
theorem onDbDesc_initial_low (hflags : d.flags = ddI ||| ddM ||| ddMS) (hrid : rid < x.routerId)
    (lsdb : Lsdb) (nowMs : Nat) : x.onDbDesc d rid lsdb nowMs = (x, .default) := by
  have hnot : ¬x.routerId < rid := UInt32.not_lt.mpr (UInt32.le_of_lt hrid)
  simp [onDbDesc, hmtu, hphase, onDbDescExStart, isInitial_initial hflags, hnot]

/-- The lower router id answers the initial DBD of the higher one with its first page. -/
theorem onDbDesc_initial_high (hflags : d.flags = ddI ||| ddM ||| ddMS) (hempty : d.lsaHeaders = [])
    (hrid : x.routerId < rid) (lsdb : Lsdb) (nowMs : Nat) :
    x.onDbDesc d rid lsdb nowMs =
      { x with started := true, masterRole := false, seq := d.ddSeq, phase := .exchange }.sendPage 0
        lsdb (ExchangeStep.default.emit .negotiationDone) nowMs := by
  simp [onDbDesc, hmtu, hphase, onDbDescExStart, isInitial_initial hflags, hempty, hrid]

/-- The higher router id takes the echo of its sequence number as the master. -/
theorem onDbDesc_echo (hflags : d.flags = moreFlag more) (hseq : d.ddSeq = x.seq)
    (hrid : rid < x.routerId) (lsdb : Lsdb) (nowMs : Nat) :
    x.onDbDesc d rid lsdb nowMs =
      let r := { x with
        started := true, masterRole := true, phase := .exchange }.processTheirHeaders
        d.lsaHeaders lsdb (ExchangeStep.default.emit .negotiationDone)
      { r.1 with seq := r.1.seq + 1 }.sendMasterDbDesc lsdb r.2 nowMs := by
  simp [onDbDesc, hmtu, hphase, onDbDescExStart, isInitial_moreFlag more hflags, hflags, hseq, hrid]

end

/-- The master takes the slave's answer to its sequence number. -/
theorem onDbDesc_master (hphase : x.phase = .exchange) (hrole : x.masterRole = true)
    (hmtu : d.mtu = x.ifaceMtu) (hflags : d.flags = moreFlag more) (hseq : d.ddSeq = x.seq)
    (rid : UInt32) (lsdb : Lsdb) (nowMs : Nat) :
    x.onDbDesc d rid lsdb nowMs =
      let r := { x with theirMore := more }.processTheirHeaders d.lsaHeaders lsdb .default
      if !r.1.ourMore && !r.1.theirMore then r.1.finishExchange r.2 nowMs
      else { r.1 with seq := r.1.seq + 1 }.sendMasterDbDesc lsdb r.2 nowMs := by
  simp [onDbDesc, hmtu, hphase, hrole, onDbDescMaster, hflags, hseq]

/-- The slave takes the master's next DBD. -/
theorem onDbDesc_slave (hphase : x.phase = .exchange) (hrole : x.masterRole = false)
    (hmtu : d.mtu = x.ifaceMtu) (hflags : d.flags = ddMS ||| moreFlag more)
    (hseq : d.ddSeq = x.seq + 1) (rid : UInt32) (lsdb : Lsdb) (nowMs : Nat) :
    x.onDbDesc d rid lsdb nowMs =
      let r := { x with seq := x.seq + 1, theirMore := more }.processTheirHeaders d.lsaHeaders lsdb
        .default
      let r := r.1.sendPage 0 lsdb r.2 nowMs
      if !r.1.ourMore && !r.1.theirMore then r.1.finishExchange r.2 nowMs else r := by
  simp [onDbDesc, hmtu, hphase, hrole, onDbDescSlave, hflags, hseq]

/-! ### The fields the turns depend on -/

/-- Sending a page adds one DBD, with the More bit that the driver remembers. -/
theorem sendPage_turn (x : DbExchange) (role : UInt8) (lsdb : Lsdb) (step : ExchangeStep)
    (nowMs : Nat) :
    ∃ pkt, dbds (x.sendPage role lsdb step nowMs).2.outbound = dbds step.outbound ++ [pkt] ∧
      IsDbd x.routerId x.ifaceMtu (role ||| moreFlag (x.sendPage role lsdb step nowMs).1.ourMore)
        x.seq pkt :=
  ⟨_, dbds_append .., rfl, _, rfl, rfl, rfl, rfl⟩

/-- Finishing leaves the driver in Loading or Full and sends no DBD. -/
theorem finishExchange_turn (x : DbExchange) (step : ExchangeStep) (nowMs : Nat) :
    (∃ phase lsr sent, (x.finishExchange step nowMs).1 =
        { x with phase, lastLsr := lsr, lastLsrSentMs := sent } ∧
      (phase = .loading ∨ phase = .full)) ∧
      dbds (x.finishExchange step nowMs).2.outbound = dbds step.outbound := by
  by_cases hempty : x.lsrQueue = []
  · refine ⟨⟨.full, x.lastLsr, x.lastLsrSentMs, ?_, .inr rfl⟩, ?_⟩
    · simp [finishExchange, hempty]
    · simp [finishExchange, hempty, ExchangeStep.emit]
  refine ⟨⟨.loading, some x.lsrQueue, nowMs, ?_, .inl rfl⟩, ?_⟩
  · simp [finishExchange, takeLsRequest, hempty]
  · simp only [finishExchange, takeLsRequest, List.isEmpty_iff, hempty, if_false,
      ExchangeStep.push, ExchangeStep.emit, dbds_append]
    exact List.append_nil _

end DbExchange

/-! ## The turns -/

section Turns

variable (x : DbExchange)

/-- The states of one end, by phase and role. -/
def Waiting : Prop := x.phase = .exStart ∧ x.lsrQueue = []
def Master : Prop := x.phase = .exchange ∧ x.masterRole = true ∧ x.started = true
def Slave : Prop := x.phase = .exchange ∧ x.masterRole = false ∧ x.started = true
def Finished : Prop := (x.phase = .loading ∨ x.phase = .full) ∧ x.ourMore = false ∧ x.started = true

end Turns

/-- The drivers `M` of the higher and `S` of the lower router id, with the DBDs on their way to
either. -/
inductive Control (rid : Party → UInt32) (mtu : UInt16) (M S : DbExchange)
    (toM toS : List OspfPacket) : Prop where
  | idle (hM : Waiting M) (hS : Waiting S)
      (hfromM : M.started = false ∧ toS = [] ∨
        M.started = true ∧ ∃ pkt, toS = [pkt] ∧ IsInitial (rid .high) mtu M.seq pkt)
      (hfromS : toM = [] ∨
        S.started = true ∧ ∃ pkt seq, toM = [pkt] ∧ IsInitial (rid .low) mtu seq pkt)
  | echoed {early : List OspfPacket} {pkt : OspfPacket} (hM : Waiting M)
      (hstarted : M.started = true) (hS : Slave S) (hseq : S.seq = M.seq) (hfromM : toS = [])
      (hfromS : toM = early ++ [pkt])
      (hearly : early = [] ∨ ∃ i seq, early = [i] ∧ IsInitial (rid .low) mtu seq i)
      (hpkt : IsDbd (rid .low) mtu (moreFlag S.ourMore) M.seq pkt)
  | masterTurn {pkt : OspfPacket} (hM : Master M) (hS : Slave S) (hseq : M.seq = S.seq + 1)
      (hfromS : toM = []) (hfromM : toS = [pkt])
      (hpkt : IsDbd (rid .high) mtu (ddMS ||| moreFlag M.ourMore) M.seq pkt)
  | slaveTurn {pkt : OspfPacket} (hM : Master M) (hS : Slave S) (hseq : S.seq = M.seq)
      (hmore : S.ourMore = true ∨ M.ourMore = true) (hfromM : toS = []) (hfromS : toM = [pkt])
      (hpkt : IsDbd (rid .low) mtu (moreFlag S.ourMore) M.seq pkt)
  | slaveDone {pkt : OspfPacket} (hM : Master M) (hmore : M.ourMore = false) (hS : Finished S)
      (hfromM : toS = []) (hfromS : toM = [pkt])
      (hpkt : IsDbd (rid .low) mtu (moreFlag false) M.seq pkt)
  | done (hM : Finished M) (hS : Finished S) (hfromM : toS = []) (hfromS : toM = [])

/-- A driver is still where it was in its turns. -/
structure SameTurn (x y : DbExchange) : Prop where
  routerId : y.routerId = x.routerId
  ifaceMtu : y.ifaceMtu = x.ifaceMtu
  ourCursor : y.ourCursor = x.ourCursor
  seq : y.seq = x.seq
  started : y.started = x.started
  ourMore : y.ourMore = x.ourMore
  waiting : Waiting x → Waiting y
  master : Master x → Master y
  slave : Slave x → Slave y
  finished : Finished x → Finished y

theorem SameTurn.refl (x : DbExchange) : SameTurn x x :=
  ⟨rfl, rfl, rfl, rfl, rfl, rfl, id, id, id, id⟩

namespace Control

variable {rid : Party → UInt32} {mtu : UInt16} {M M' S S' : DbExchange} {toM toS : List OspfPacket}

section

variable (hc : Control rid mtu M S toM toS)
include hc

theorem congr (hM : SameTurn M M') (hS : SameTurn S S') : Control rid mtu M' S' toM toS := by
  cases hc with
  | idle h h' hfromM hfromS =>
    exact .idle (hM.waiting h) (hS.waiting h') (by rwa [hM.started, hM.seq]) (by rwa [hS.started])
  | echoed h hstarted h' hseq hfromM hfromS hearly hpkt =>
    exact .echoed (hM.waiting h) (hM.started.trans hstarted) (hS.slave h')
      (by rw [hS.seq, hM.seq, hseq]) hfromM hfromS hearly (by rwa [hM.seq, hS.ourMore])
  | masterTurn h h' hseq hfromS hfromM hpkt =>
    exact .masterTurn (hM.master h) (hS.slave h') (by rw [hM.seq, hS.seq, hseq]) hfromS hfromM
      (by rwa [hM.seq, hM.ourMore])
  | slaveTurn h h' hseq hmore hfromM hfromS hpkt =>
    exact .slaveTurn (hM.master h) (hS.slave h') (by rw [hS.seq, hM.seq, hseq])
      (by rwa [hS.ourMore, hM.ourMore]) hfromM hfromS (by rwa [hM.seq, hS.ourMore])
  | slaveDone h hmore h' hfromM hfromS hpkt =>
    exact .slaveDone (hM.master h) (hM.ourMore.trans hmore) (hS.finished h') hfromM hfromS
      (by rwa [hM.seq])
  | done h h' hfromM hfromS => exact .done (hM.finished h) (hS.finished h') hfromM hfromS

/-- The master has not started: nothing has happened but the slave's initial DBD. -/
theorem not_started_high (h : M.started = false) :
    Waiting M ∧ Waiting S ∧ toS = [] ∧ (toM = [] ∨
      S.started = true ∧ ∃ pkt seq, toM = [pkt] ∧ IsInitial (rid .low) mtu seq pkt) := by
  cases hc with
  | idle hM hS hfromM hfromS => exact ⟨hM, hS, by simpa [h] using hfromM, hfromS⟩
  | echoed hM hstarted => simp [h] at hstarted
  | masterTurn hM | slaveTurn hM | slaveDone hM => simp [Master, h] at hM
  | done hM => simp [Finished, h] at hM

theorem not_started_low (h : S.started = false) :
    Waiting M ∧ Waiting S ∧ toM = [] ∧ (M.started = false ∧ toS = [] ∨
      M.started = true ∧ ∃ pkt, toS = [pkt] ∧ IsInitial (rid .high) mtu M.seq pkt) := by
  cases hc with
  | idle hM hS hfromM hfromS => exact ⟨hM, hS, by simpa [h] using hfromS, hfromM⟩
  | echoed _ _ hS | masterTurn _ hS | slaveTurn _ hS => simp [Slave, h] at hS
  | slaveDone _ _ hS | done _ hS => simp [Finished, h] at hS

/-- A driver in ExStart has asked for nothing, and the other one has not finished the
exchange. -/
theorem exStart :
    (M.phase = .exStart → M.lsrQueue = [] ∧ S.phase.stage = .describing) ∧
      (S.phase = .exStart → S.lsrQueue = [] ∧ M.phase.stage = .describing) := by
  cases hc with
  | idle hM hS => simp [hM.1, hM.2, hS.1, hS.2, Phase.stage]
  | echoed hM _ hS => simp [hM.1, hM.2, hS.1, Phase.stage]
  | masterTurn hM hS | slaveTurn hM hS => simp [hM.1, hS.1]
  | slaveDone hM _ hS => rcases hS.1 with h | h <;> simp [hM.1, h]
  | done hM hS => rcases hM.1 with h | h <;> rcases hS.1 with h' | h' <;> simp [h, h']

/-- Only in the last turn the master is beyond Exchange. -/
theorem finished (hstart : M.phase ≠ .exStart) (hexchange : M.phase ≠ .exchange) :
    Finished M ∧ Finished S ∧ toS = [] ∧ toM = [] := by
  cases hc with
  | idle hM | echoed hM => exact absurd hM.1 hstart
  | masterTurn hM | slaveTurn hM | slaveDone hM => exact absurd hM.1 hexchange
  | done hM hS hfromM hfromS => exact ⟨hM, hS, hfromM, hfromS⟩

end

end Control

/-! ## Every event keeps the turns and the ledgers -/

namespace Link

variable (rid : Party → UInt32) (mtu : UInt16) (X : Party → Lsdb)

/-- A neighbour commits what its driver answers. -/
abbrev answer (n : Link) (p : Party) (r : DbExchange × ExchangeStep) (rest : List OspfPacket) :
    Link :=
  n.commit p r.1 r.2 rest

/-- The two drivers are in one of their turns. -/
def InTurn (n : Link) : Prop :=
  Control rid mtu (n .high).exchange (n .low).exchange (dbds (n .high).inbox)
    (dbds (n .low).inbox)

/-- The driver of a router that started with the given database. -/
structure Drives (rid : UInt32) (mtu : UInt16) (start : Lsdb) (x : DbExchange) : Prop where
  routerId : x.routerId = rid
  ifaceMtu : x.ifaceMtu = mtu
  paged : x.ourMore = false → start.len ≤ x.ourCursor

/-- The invariant of the link. -/
structure Exchanging (n : Link) : Prop where
  drives : ∀ p, Drives (rid p) mtu (X p) (n p).exchange
  control : n.InTurn rid mtu
  inSync : InSync X n

variable {rid mtu X} {n : Link} {p : Party} {x : DbExchange} {step : ExchangeStep}
  {pkt : OspfPacket} {rest : List OspfPacket} {nowMs : Nat}

theorem inTurn_commit_high :
    (n.commit .high x step rest).InTurn rid mtu ↔
      Control rid mtu x (n .low).exchange (dbds rest)
        (dbds (n .low).inbox ++ dbds step.outbound) := by
  simp [InTurn, Link.commit, dbds_append]

theorem inTurn_commit_low :
    (n.commit .low x step rest).InTurn rid mtu ↔
      Control rid mtu (n .high).exchange x (dbds (n .high).inbox ++ dbds step.outbound)
        (dbds rest) := by
  simp [InTurn, Link.commit, dbds_append]

theorem Exchanging.commit (h : Exchanging rid mtu X n) (hx : Drives (rid p) mtu (X p) x)
    (hcontrol : (n.commit p x step rest).InTurn rid mtu)
    (hreach : Reaches X n p rest x step) : Exchanging rid mtu X (n.commit p x step rest) where
  drives r := by
    rcases p.eq_or_other r with rfl | rfl
    · simpa using hx
    · simpa using h.drives p.other
  control := hcontrol
  inSync := h.inSync.steps hreach

theorem Exchanging.exStart (h : Exchanging rid mtu X n) (hp : (n p).exchange.phase = .exStart) :
    (n p).exchange.lsrQueue = [] ∧ (n p.other).exchange.phase.stage = .describing := by
  cases p with
  | high => exact h.control.exStart.1 hp
  | low => exact h.control.exStart.2 hp

section

variable (h : Exchanging rid mtu X n) (hinbox : (n p).inbox = pkt :: rest) {entries : List LsaKey}
include h hinbox

/-- A packet that is no DBD and is answered by none leaves the turns alone. -/
theorem Exchanging.commit_sameTurn (hpkt : ∀ d, pkt.body ≠ .dbDesc d)
    (hout : ∀ pkt ∈ step.outbound, ∀ d, pkt.body ≠ .dbDesc d) (hturn : SameTurn (n p).exchange x)
    (hreach : Reaches X n p rest x step) : Exchanging rid mtu X (n.commit p x step rest) := by
  obtain ⟨hrid, hmtu, hpaged⟩ := h.drives p
  refine h.commit ⟨hturn.routerId.trans hrid, hturn.ifaceMtu.trans hmtu, ?_⟩ ?_ hreach
  · rwa [hturn.ourMore, hturn.ourCursor]
  · have hrest : dbds rest = dbds (n p).inbox := by rw [hinbox, dbds_cons_other hpkt]
    have hnone := dbds_eq_nil hout
    cases p with
    | high =>
      rw [inTurn_commit_high, hrest, hnone, append_nil]
      exact h.control.congr hturn (.refl _)
    | low =>
      rw [inTurn_commit_low, hrest, hnone, append_nil]
      exact h.control.congr (.refl _) hturn

theorem Exchanging.lsAck {headers : List LsaHeader} (hbody : pkt.body = .lsAck headers) :
    Exchanging rid mtu X (n.commit p (n p).exchange .default rest) :=
  h.commit_sameTurn hinbox (by simp [hbody]) (by simp [ExchangeStep.default]) (.refl _)
    (reaches_lsAck hinbox hbody)

/-- A request only arrives from a neighbour that has finished the exchange. -/
theorem Exchanging.ne_exStart_of_lsRequest (hbody : pkt.body = .lsRequest entries) :
    (n p).exchange.phase ≠ .exStart := by
  have hmem : Msg.request entries ∈ (n.ledgers X p).inbox := by
    simp [ledgers, Neighbour.ledger, hinbox, OspfPacket.msg, hbody]
  have hsender : ¬(n.ledgers X).Describing p.other := ((h.inSync.consistent p).inbox _ hmem).1
  exact fun hp => hsender (h.exStart hp).2

theorem Exchanging.lsRequest (hbody : pkt.body = .lsRequest entries) (nowMs : Nat) :
    Exchanging rid mtu X
      (n.answer p ((n p).exchange.onLsRequest entries (n p).lsdb nowMs) rest) := by
  obtain ⟨packets, heq, hpackets, hreach⟩ := reaches_lsRequest h.inSync hinbox hbody
    (h.ne_exStart_of_lsRequest hinbox hbody) nowMs
  rw [heq]
  refine h.commit_sameTurn hinbox (by simp [hbody]) ?_ (.refl _) hreach
  intro pkt hpkt d
  obtain ⟨lsas, hlsas⟩ := hpackets pkt hpkt
  simp [hlsas]

theorem Exchanging.lsUpdate {lsas : List Lsa} (hbody : pkt.body = .lsUpdate lsas) :
    Exchanging rid mtu X (n.answer p ((n p).exchange.onLsUpdate lsas) rest) := by
  have hidle (hp : (n p).exchange.phase = .exStart) := (h.exStart hp).1
  have hreach := reaches_lsUpdate h.inSync hinbox hbody hidle
  obtain ⟨phase, newlyFull, events, heq, hphase⟩ := (n p).exchange.onLsUpdate_eq lsas hidle
  rw [heq] at hreach ⊢
  refine h.commit_sameTurn hinbox (by simp [hbody]) (by simp [lsAckPacket, packet]) ?_ hreach
  rcases hphase with ⟨rfl, -⟩ | ⟨hload, -, rfl⟩
  · refine ⟨rfl, rfl, rfl, rfl, rfl, rfl, fun hw => ⟨hw.1, ?_⟩, id, id, id⟩
    exact eq_nil_iff_forall_not_mem.mpr fun k hk => by
      simpa [hw.2] using (mem_unanswered.mp hk).1
  refine ⟨rfl, rfl, rfl, rfl, rfl, rfl, ?_, ?_, ?_, fun hf => ⟨.inr rfl, hf.2⟩⟩
  · exact fun hw => absurd (hload.symm.trans hw.1) (by decide)
  · exact fun hm => absurd (hload.symm.trans hm.1) (by decide)
  · exact fun hs => absurd (hload.symm.trans hs.1) (by decide)

end

theorem Exchanging.install {lsa : Lsa} {later : List Lsa} (h : Exchanging rid mtu X n)
    (hreceived : (n p).received = lsa :: later) (nowMs : Nat) :
    Exchanging rid mtu X fun r =>
      if r = p then { n r with lsdb := ((n r).lsdb.install lsa nowMs).1, received := later }
      else n r := by
  have hsync := h.inSync.step (reaches_install h.inSync hreceived nowMs)
  generalize hn : (fun r => if r = p then
    { n r with lsdb := ((n r).lsdb.install lsa nowMs).1, received := later }
    else n r) = n' at hsync ⊢
  have hsame (r : Party) : (n' r).exchange = (n r).exchange ∧ (n' r).inbox = (n r).inbox := by
    subst hn
    dsimp only
    split <;> exact ⟨rfl, rfl⟩
  refine ⟨?_, ?_, hsync⟩
  · simpa only [hsame] using h.drives
  · simpa only [InTurn, hsame] using h.control

/-- A page that was the last one has described all keys of the start. -/
theorem Exchanging.paged_sendPage (h : Exchanging rid mtu X n)
    (hstage : (n p).exchange.phase.stage = .describing) (x : DbExchange) (role : UInt8)
    (step : ExchangeStep) (nowMs : Nat)
    (hlast : (x.sendPage role (n p).lsdb step nowMs).1.ourMore = false) :
    (X p).len ≤ (x.sendPage role (n p).lsdb step nowMs).1.ourCursor := by
  have hlen : (n p).lsdb.len = (X p).len := by
    rw [← Lsdb.length_keys, ← Lsdb.length_keys, h.inSync.keys_eq hstage]
  have hnot : ¬(x.sendPage role (n p).lsdb step nowMs).1.ourCursor < (n p).lsdb.len :=
    of_decide_eq_false hlast
  omega

theorem Exchanging.start (h : Exchanging rid mtu X n) (hnot : (n p).exchange.started = false)
    (seq : UInt32) (nowMs : Nat) :
    Exchanging rid mtu X (n.commit p ((n p).exchange.initialDbDesc seq nowMs).1
      (ExchangeStep.default.push ((n p).exchange.initialDbDesc seq nowMs).2) (n p).inbox) := by
  have heq : (n p).exchange.initialDbDesc seq nowMs =
      ({ (n p).exchange with
          seq, started := true, lastDd := some (ddI ||| ddM ||| ddMS, seq, []),
          lastDdSentMs := nowMs },
        (n p).exchange.dbDescPacket (ddI ||| ddM ||| ddMS) seq []) := by
    simp [initialDbDesc, hnot, rememberDd, dbDescPacket,
      packet]
  have hpkt : IsInitial (rid p) mtu seq
      ((n p).exchange.dbDescPacket (ddI ||| ddM ||| ddMS) seq []) :=
    ⟨(h.drives p).routerId, _, rfl, (h.drives p).ifaceMtu, rfl, rfl, rfl⟩
  have houtbound : dbds (ExchangeStep.default.push
      ((n p).exchange.dbDescPacket (ddI ||| ddM ||| ddMS) seq [])).outbound =
      [(n p).exchange.dbDescPacket (ddI ||| ddM ||| ddMS) seq []] := rfl
  have hphase : (n p).exchange.phase = .exStart := by
    cases p with
    | high => exact (h.control.not_started_high hnot).1.1
    | low => exact (h.control.not_started_low hnot).2.1.1
  have hreach : Reaches X n p (n p).inbox _ _ := reaches_start (by rw [hphase]; rfl) seq nowMs
  rw [heq] at hreach ⊢
  refine h.commit { h.drives p with } ?_ hreach
  cases p with
  | high =>
    obtain ⟨hM, hS, hfromM, hfromS⟩ := h.control.not_started_high hnot
    rw [inTurn_commit_high, houtbound, hfromM]
    exact .idle hM hS (.inr ⟨rfl, _, rfl, hpkt⟩) hfromS
  | low =>
    obtain ⟨hM, hS, hfromS, hfromM⟩ := h.control.not_started_low hnot
    rw [inTurn_commit_low, houtbound, hfromS]
    exact .idle hM hS hfromM (.inr ⟨rfl, _, seq, rfl, hpkt⟩)

/-! ### Database Descriptions

In each case the ledgers take the steps of the functions that the driver runs, and the next
turn comes from the fields that they set. -/

variable {d : DbDescBody} {r : DbExchange × ExchangeStep}

theorem reaches_empty (hinbox : (n p).inbox = pkt :: rest) (hbody : pkt.body = .dbDesc d)
    (hempty : d.lsaHeaders = []) (hstage : (n p).exchange.phase.stage = .describing)
    (hx : x.phase.stage = .describing) (hqueue : x.lsrQueue = (n p).exchange.lsrQueue)
    (hcursor : x.ourCursor = (n p).exchange.ourCursor) (hout : step.outbound = [])
    (hlsas : step.lsas = []) : Reaches X n p rest x step := by
  have h : Reaches X n p rest _ _ :=
    reaches_describe hinbox hbody hstage hx hqueue hcursor hout hlsas
  rwa [hempty] at h

/-- The headers of a DBD are processed: only the queue changes, and no DBD is sent. -/
theorem processed (x : DbExchange) (step : ExchangeStep) (hinbox : (n p).inbox = pkt :: rest)
    (hbody : pkt.body = .dbDesc d)
    (hstage : (n p).exchange.phase.stage = .describing) (hx : x.phase.stage = .describing)
    (hqueue : x.lsrQueue = (n p).exchange.lsrQueue)
    (hcursor : x.ourCursor = (n p).exchange.ourCursor) (hout : step.outbound = [])
    (hlsas : step.lsas = []) :
    ∃ queue step', x.processTheirHeaders d.lsaHeaders (n p).lsdb step =
        ({ x with lsrQueue := queue }, step') ∧
      dbds step'.outbound = [] ∧ Reaches X n p rest { x with lsrQueue := queue } step' := by
  have hreach : Reaches X n p rest _ _ :=
    reaches_describe hinbox hbody hstage hx hqueue hcursor hout hlsas
  obtain ⟨queue, heq, -⟩ := x.processTheirHeaders_eq d.lsaHeaders (n p).lsdb step
  rw [heq] at hreach
  refine ⟨queue, _, heq, dbds_eq_nil fun pkt hpkt d => ?_, hreach⟩
  simp only [hout, nil_append] at hpkt
  obtain ⟨l, -, rfl⟩ := mem_map.mp hpkt
  simp [lsUpdatePacket, packet]

section

variable (h : Exchanging rid mtu X n)
include h

/-- The master has processed the slave's headers and sends its next page. -/
theorem Exchanging.master_page (hreach : Reaches X n .high rest x step)
    (hdbds : dbds step.outbound = []) (hstage : (n .high).exchange.phase.stage = .describing)
    (hS : Slave (n .low).exchange) (hfromM : dbds (n .low).inbox = []) (hrest : dbds rest = [])
    (hx : Master x) (hdrives : Drives (rid .high) mtu (X .high) x)
    (hseq : x.seq = (n .low).exchange.seq) (nowMs : Nat) :
    Exchanging rid mtu X (n.answer .high
      ({ x with seq := x.seq + 1 }.sendMasterDbDesc (n .high).lsdb step nowMs) rest) := by
  have hxstage : x.phase.stage = .describing := by rw [hx.1]; rfl
  have hreach : Reaches X n .high rest { x with seq := x.seq + 1 } step :=
    hreach.congr rfl rfl rfl rfl rfl
  obtain ⟨pkt', hpkt', hdbd⟩ := { x with seq := x.seq + 1 }.sendPage_turn ddMS (n .high).lsdb
    step nowMs
  refine h.commit ⟨hdrives.routerId, hdrives.ifaceMtu, h.paged_sendPage hstage _ _ _ _⟩ ?_
    (hreach.page h.inSync hstage hxstage ddMS nowMs)
  rw [inTurn_commit_high, DbExchange.sendMasterDbDesc, hpkt', hdbds, hfromM, hrest]
  exact .masterTurn hx hS (hseq ▸ rfl) rfl rfl (hdbd.of_router hdrives.routerId hdrives.ifaceMtu)

/-- The master has processed the slave's last headers and is through itself. -/
theorem Exchanging.master_finish (hreach : Reaches X n .high rest x step)
    (hdbds : dbds step.outbound = []) (hx : Master x)
    (hdrives : Drives (rid .high) mtu (X .high) x) (hmore : x.ourMore = false)
    (hS : Finished (n .low).exchange) (hfromM : dbds (n .low).inbox = []) (hrest : dbds rest = [])
    (nowMs : Nat) :
    Exchanging rid mtu X (n.answer .high (x.finishExchange step nowMs) rest) := by
  obtain ⟨⟨phase, lsr, sent, hfin, hphase⟩, hout⟩ := x.finishExchange_turn step nowMs
  have hcontrol : (n.answer .high (x.finishExchange step nowMs) rest).InTurn rid mtu := by
    rw [inTurn_commit_high, hout, hdbds, hfromM, hrest, hfin]
    exact .done ⟨hphase, hmore, hx.2.2⟩ hS rfl rfl
  refine h.commit ?_ hcontrol (hreach.finish (by rw [hx.1]; rfl) nowMs)
  rw [hfin]
  exact { hdrives with }

/-- The slave answers the initial DBD with its first page. -/
theorem Exchanging.slave_start (hinbox : (n .low).inbox = pkt :: rest)
    (hbody : pkt.body = .dbDesc d) (hempty : d.lsaHeaders = []) (hM : Waiting (n .high).exchange)
    (hstarted : (n .high).exchange.started = true) (hS : Waiting (n .low).exchange)
    (hseq : d.ddSeq = (n .high).exchange.seq) (hrest : dbds rest = [])
    (hfromS : dbds (n .high).inbox = [] ∨ (n .low).exchange.started = true ∧
      ∃ pkt seq, dbds (n .high).inbox = [pkt] ∧ IsInitial (rid .low) mtu seq pkt)
    (hx : { (n .low).exchange with
      started := true, masterRole := false, seq := d.ddSeq, phase := .exchange } = x)
    (hout : step.outbound = []) (hlsas : step.lsas = []) (nowMs : Nat) :
    Exchanging rid mtu X (n.answer .low (x.sendPage 0 (n .low).lsdb step nowMs) rest) := by
  have hstage : (n .low).exchange.phase.stage = .describing := by rw [hS.1]; rfl
  obtain ⟨pkt', hpkt', hdbd⟩ := x.sendPage_turn 0 (n .low).lsdb step nowMs
  have hcontrol (hslave : Slave x) (hxseq : x.seq = (n .high).exchange.seq)
      (hdrives : Drives (rid .low) mtu (X .low) x) :
      (n.answer .low (x.sendPage 0 (n .low).lsdb step nowMs) rest).InTurn rid mtu := by
    rw [inTurn_commit_low, hpkt', hout, hrest]
    rw [UInt8.zero_or, hxseq] at hdbd
    exact .echoed hM hstarted hslave hxseq rfl rfl (hfromS.imp_right And.right)
      (hdbd.of_router hdrives.routerId hdrives.ifaceMtu)
  have hreach : Reaches X n .low rest x step := by
    subst hx
    exact reaches_empty hinbox hbody hempty hstage rfl rfl rfl hout hlsas
  subst hx
  exact h.commit { h.drives .low with paged := h.paged_sendPage hstage _ _ _ _ }
    (hcontrol ⟨rfl, rfl, rfl⟩ hseq { h.drives .low with })
    (hreach.page h.inSync hstage rfl 0 nowMs)

/-- The slave has processed the master's headers, answers with its next page, and is through
if neither has more. -/
theorem Exchanging.slave_answer {queue : List LsaKey} {r : DbExchange × ExchangeStep}
    (hreach : Reaches X n .low rest x step) (hdbds : dbds step.outbound = [])
    (hM : Master (n .high).exchange) (hS : Slave (n .low).exchange)
    (hseq : (n .high).exchange.seq = (n .low).exchange.seq + 1) (hfromS : dbds (n .high).inbox = [])
    (hrest : dbds rest = [])
    (hx : { (n .low).exchange with
      seq := (n .low).exchange.seq + 1, theirMore := (n .high).exchange.ourMore
      lsrQueue := queue } = x)
    (hr : x.sendPage 0 (n .low).lsdb step nowMs = r) :
    Exchanging rid mtu X (n.answer .low
      (if !r.1.ourMore && !r.1.theirMore then r.1.finishExchange r.2 nowMs else r) rest) := by
  have hstage : (n .low).exchange.phase.stage = .describing := by rw [hS.1]; rfl
  obtain ⟨pkt', hpkt', hdbd⟩ := x.sendPage_turn 0 (n .low).lsdb step nowMs
  rw [hr, hdbds] at hpkt'
  rw [hr, UInt8.zero_or] at hdbd
  have hpaged : r.1.ourMore = false → (X .low).len ≤ r.1.ourCursor := by
    rw [← hr]
    exact h.paged_sendPage hstage _ _ _ _
  have hlow := h.drives .low
  subst hx
  have hreach : Reaches X n .low rest r.1 r.2 := by
    rw [← hr]
    exact hreach.page h.inSync hstage hstage 0 nowMs
  -- The fields of the slave after its page, and its DBD.
  obtain ⟨hdrives, hseq', htheir, hslave⟩ : Drives (rid .low) mtu (X .low) r.1 ∧
      r.1.seq = (n .high).exchange.seq ∧ r.1.theirMore = (n .high).exchange.ourMore ∧
      Slave r.1 := by
    rw [← hr] at hpaged ⊢
    exact ⟨⟨hlow.routerId, hlow.ifaceMtu, hpaged⟩, hseq.symm, rfl, hS⟩
  have hanswer : IsDbd (rid .low) mtu (moreFlag r.1.ourMore) (n .high).exchange.seq pkt' := by
    rw [hseq]
    exact hdbd.of_router hlow.routerId hlow.ifaceMtu
  by_cases hlast : (!r.1.ourMore && !r.1.theirMore) = true
  · rw [if_pos hlast]
    obtain ⟨hours, htheirs⟩ : r.1.ourMore = false ∧ r.1.theirMore = false := by simpa using hlast
    obtain ⟨⟨phase, lsr, sent, hfin, hphase⟩, hout⟩ := r.1.finishExchange_turn r.2 nowMs
    have hcontrol : (n.answer .low (r.1.finishExchange r.2 nowMs) rest).InTurn rid mtu := by
      rw [inTurn_commit_low, hout, hpkt', hfromS, hrest, hfin]
      exact .slaveDone hM (htheir.symm.trans htheirs) ⟨hphase, hours, hslave.2.2⟩ rfl rfl
        (hours ▸ hanswer)
    refine h.commit ?_ hcontrol (hreach.finish (by rw [hslave.1]; rfl) nowMs)
    rw [hfin]
    exact { hdrives with }
  · rw [if_neg hlast]
    refine h.commit hdrives ?_ hreach
    rw [inTurn_commit_low, hpkt', hfromS, hrest]
    refine .slaveTurn hM hslave hseq' ?_ rfl rfl hanswer
    rw [← htheir]
    by_contra hnone
    exact hlast (by simpa using hnone)

theorem Exchanging.dbDesc_high (hids : rid .low < rid .high)
    (hinbox : (n .high).inbox = pkt :: rest) (hbody : pkt.body = .dbDesc d) (nowMs : Nat) :
    Exchanging rid mtu X (n.answer .high
      ((n .high).exchange.onDbDesc d pkt.routerId (n .high).lsdb nowMs) rest) := by
  have hdbds : dbds (n .high).inbox = pkt :: dbds rest := by rw [hinbox, dbds_cons_dbDesc hbody]
  have hlow (hrid : pkt.routerId = rid .low) : pkt.routerId < (n .high).exchange.routerId := by
    rw [hrid, (h.drives .high).routerId]
    exact hids
  have hmtu' (hmtu : d.mtu = mtu) : d.mtu = (n .high).exchange.ifaceMtu :=
    hmtu.trans (h.drives .high).ifaceMtu.symm
  have hprocessed (hM : Master (n .high).exchange) (theirMore : Bool) :=
    have hstage : (n .high).exchange.phase.stage = .describing := by rw [hM.1]; rfl
    processed (X := X) { (n .high).exchange with theirMore } .default hinbox hbody hstage hstage
      rfl rfl rfl rfl
  -- The initial DBD of the lower router id is dropped.
  have hdrop {seq : UInt32} (hM : Waiting (n .high).exchange)
      (hi : IsInitial (rid .low) mtu seq pkt)
      (hcontrol : (n.commit .high (n .high).exchange .default rest).InTurn rid mtu) :
      Exchanging rid mtu X (n.answer .high
        ((n .high).exchange.onDbDesc d pkt.routerId (n .high).lsdb nowMs) rest) := by
    obtain ⟨hrid, hmtu, hflags, -, hempty⟩ := fields_of_body hi hbody
    have hstage : (n .high).exchange.phase.stage = .describing := by rw [hM.1]; rfl
    rw [onDbDesc_initial_low hM.1 (hmtu' hmtu) hflags (hlow hrid)]
    exact h.commit (h.drives .high) hcontrol
      (reaches_empty hinbox hbody hempty hstage hstage rfl rfl rfl rfl)
  cases h.control with
  | idle hM hS hfromM hfromS =>
    rcases hfromS with hnil | ⟨hstarted, i, seq, hone, hi⟩
    · simp [hdbds] at hnil
    obtain ⟨rfl, hrest⟩ := cons.inj (hdbds.symm.trans hone)
    refine hdrop hM hi ?_
    rw [inTurn_commit_high, hrest]
    exact .idle hM hS (by simpa [ExchangeStep.default, dbds] using hfromM) (.inl rfl)
  | echoed hM hstarted hS hseq hfromM hfromS hearly hpkt =>
    rcases hearly with rfl | ⟨i, seq, rfl, hi⟩
    · obtain ⟨rfl, hrest⟩ := cons.inj (hdbds.symm.trans hfromS)
      obtain ⟨hrid, hmtu, hflags, hdseq⟩ := fields_of_body hpkt hbody
      have hstage : (n .high).exchange.phase.stage = .describing := by rw [hM.1]; rfl
      obtain ⟨queue, step, heq, hout, hreach⟩ := processed { (n .high).exchange with
        started := true, masterRole := true, phase := .exchange }
        (ExchangeStep.default.emit .negotiationDone) hinbox hbody hstage rfl rfl rfl rfl rfl
      rw [onDbDesc_echo hM.1 (hmtu' hmtu) hflags hdseq (hlow hrid), heq]
      exact h.master_page hreach hout hstage hS hfromM hrest ⟨rfl, rfl, rfl⟩
        { h.drives .high with } hseq.symm nowMs
    · obtain ⟨rfl, hrest⟩ := cons.inj (hdbds.symm.trans hfromS)
      refine hdrop hM hi ?_
      rw [inTurn_commit_high, hrest]
      exact .echoed hM hstarted hS hseq (by simpa [ExchangeStep.default, dbds] using hfromM) rfl
        (.inl rfl) hpkt
  | masterTurn hM hS hseq hfromS => simp [hdbds] at hfromS
  | slaveTurn hM hS hseq hmore hfromM hfromS hpkt =>
    obtain ⟨rfl, hrest⟩ := cons.inj (hdbds.symm.trans hfromS)
    obtain ⟨-, hmtu, hflags, hdseq⟩ := fields_of_body hpkt hbody
    obtain ⟨queue, step, heq, hout, hreach⟩ := hprocessed hM (n .low).exchange.ourMore
    rw [onDbDesc_master hM.1 hM.2.1 (hmtu' hmtu) hflags hdseq, heq]
    dsimp only
    rw [if_neg (by rcases hmore with hmore | hmore <;> simp [hmore])]
    exact h.master_page hreach hout (by rw [hM.1]; rfl) hS hfromM hrest hM { h.drives .high with }
      hseq.symm nowMs
  | slaveDone hM hmore hS hfromM hfromS hpkt =>
    obtain ⟨rfl, hrest⟩ := cons.inj (hdbds.symm.trans hfromS)
    obtain ⟨-, hmtu, hflags, hdseq⟩ := fields_of_body hpkt hbody
    obtain ⟨queue, step, heq, hout, hreach⟩ := hprocessed hM false
    rw [onDbDesc_master hM.1 hM.2.1 (hmtu' hmtu) hflags hdseq, heq]
    dsimp only
    rw [if_pos (by simp [hmore])]
    exact h.master_finish hreach hout hM { h.drives .high with } hmore hS hfromM hrest nowMs
  | done hM hS hfromM hfromS => simp [hdbds] at hfromS

theorem Exchanging.dbDesc_low (hids : rid .low < rid .high) (hinbox : (n .low).inbox = pkt :: rest)
    (hbody : pkt.body = .dbDesc d) (nowMs : Nat) :
    Exchanging rid mtu X (n.answer .low
      ((n .low).exchange.onDbDesc d pkt.routerId (n .low).lsdb nowMs) rest) := by
  have hdbds : dbds (n .low).inbox = pkt :: dbds rest := by rw [hinbox, dbds_cons_dbDesc hbody]
  have hmtu' (hmtu : d.mtu = mtu) : d.mtu = (n .low).exchange.ifaceMtu :=
    hmtu.trans (h.drives .low).ifaceMtu.symm
  cases h.control with
  | idle hM hS hfromM hfromS =>
    rcases hfromM with ⟨-, hnil⟩ | ⟨hstarted, i, hone, hi⟩
    · simp [hdbds] at hnil
    obtain ⟨rfl, hrest⟩ := cons.inj (hdbds.symm.trans hone)
    obtain ⟨hrid, hmtu, hflags, hseq, hempty⟩ := fields_of_body hi hbody
    have hhigh : (n .low).exchange.routerId < pkt.routerId := by
      rw [hrid, (h.drives .low).routerId]
      exact hids
    rw [onDbDesc_initial_high hS.1 (hmtu' hmtu) hflags hempty hhigh]
    exact h.slave_start hinbox hbody hempty hM hstarted hS hseq hrest hfromS rfl rfl rfl nowMs
  | echoed hM hstarted hS hseq hfromM => simp [hdbds] at hfromM
  | masterTurn hM hS hseq hfromS hfromM hpkt =>
    obtain ⟨rfl, hrest⟩ := cons.inj (hdbds.symm.trans hfromM)
    obtain ⟨-, hmtu, hflags, hdseq⟩ := fields_of_body hpkt hbody
    have hstage : (n .low).exchange.phase.stage = .describing := by rw [hS.1]; rfl
    obtain ⟨queue, step, heq, hout, hreach⟩ := processed { (n .low).exchange with
      seq := (n .low).exchange.seq + 1, theirMore := (n .high).exchange.ourMore } .default hinbox
      hbody hstage hstage rfl rfl rfl rfl
    rw [onDbDesc_slave hS.1 hS.2.1 (hmtu' hmtu) hflags (hdseq.trans hseq), heq]
    exact h.slave_answer hreach hout hM hS hseq hfromS hrest rfl rfl
  | slaveTurn _ _ _ _ hfromM | slaveDone _ _ _ hfromM | done _ _ hfromM =>
    simp [hdbds] at hfromM

end

/-! ## Runs -/

theorem Exchanging.event {n' : Link} {e : LinkEvent} (hids : rid .low < rid .high)
    (h : Exchanging rid mtu X n) (hstep : n.step e = some n') : Exchanging rid mtu X n' := by
  cases e with
  | start p seq nowMs =>
    obtain ⟨hnot, ⟨⟩⟩ := Option.ite_none_left_eq_some.mp hstep
    exact h.start (by simpa using hnot) seq nowMs
  | deliver p nowMs =>
    simp only [Link.step] at hstep
    split at hstep
    case h_1 => cases hstep
    case h_2 pkt rest hinbox =>
      cases hstep
      unfold handlePacket
      cases hbody : pkt.body with
      | dbDesc d =>
        cases p with
        | high => exact h.dbDesc_high hids hinbox hbody nowMs
        | low => exact h.dbDesc_low hids hinbox hbody nowMs
      | lsRequest entries => exact h.lsRequest hinbox hbody nowMs
      | lsUpdate lsas => exact h.lsUpdate hinbox hbody
      | lsAck headers => exact h.lsAck hinbox hbody
  | install p nowMs =>
    simp only [Link.step] at hstep
    split at hstep
    case h_1 => cases hstep
    case h_2 lsa later hreceived =>
      cases hstep
      exact h.install hreceived nowMs

theorem exchanging_init (version : OspfVersion) (areaId : UInt32) (mtu : UInt16)
    (rid : Party → UInt32) (X : Party → Lsdb) :
    Exchanging rid (withVersion 0 areaId mtu version).ifaceMtu X
      (Link.init version areaId mtu rid X) where
  drives _ := ⟨rfl, rfl, fun h => by simp [Link.init, withVersion] at h⟩
  control := .idle ⟨rfl, rfl⟩ ⟨rfl, rfl⟩ (.inl ⟨rfl, rfl⟩) (.inl rfl)
  inSync := by
    refine Synchronising.start (fun p k l hl => Lsdb.key_of_held hl) (fun _ => rfl) (fun _ => rfl)
      (fun _ => rfl) (fun _ => rfl) (fun p k => ?_) (fun _ => rfl)
    exact Lsdb.mem_keys

theorem exchanging_of_run {version : OspfVersion} {areaId : UInt32} {events : List LinkEvent}
    (hids : rid .low < rid .high)
    (hrun : exec Link.step (Link.init version areaId mtu rid X) events = some n) :
    Exchanging rid (withVersion 0 areaId mtu version).ifaceMtu X n :=
  exec_invariant' (fun _ _ _ hs => hs.event hids) (exchanging_init version areaId mtu rid X) hrun

/-- Both neighbours are Full. -/
def Full (n : Link) : Prop := ∀ p, (n p).exchange.phase = .full

/-- Nothing is left to happen but installations: every driver has started and no packet is on
its way. -/
def Quiet (n : Link) : Prop := ∀ p, (n p).exchange.started = true ∧ (n p).inbox = []

/-- A link where nothing is left to happen is Full on both sides. -/
theorem Exchanging.full_of_quiet (h : Exchanging rid mtu X n) (hquiet : n.Quiet) : n.Full := by
  have hnone (p : Party) : dbds (n p).inbox = [] := by rw [(hquiet p).2]; rfl
  have hfinished : Finished (n .high).exchange ∧ Finished (n .low).exchange := by
    cases h.control with
    | idle hM hS hfromM =>
      rcases hfromM with ⟨hnot, -⟩ | ⟨-, pkt, hpkt, -⟩
      · simp [(hquiet .high).1] at hnot
      · simp [hnone] at hpkt
    | echoed _ _ _ _ _ hfromS => simp [hnone] at hfromS
    | masterTurn _ _ _ _ hfromM => simp [hnone] at hfromM
    | slaveTurn _ _ _ _ _ hfromS | slaveDone _ _ _ _ hfromS => simp [hnone] at hfromS
    | done hM hS => exact ⟨hM, hS⟩
  have hempty (p : Party) : (n.ledgers X p).inbox = [] := by
    simp [ledgers, Neighbour.ledger, (hquiet p).2]
  intro p
  have hphase : (n p).exchange.phase = .loading ∨ (n p).exchange.phase = .full := by
    cases p with
    | high => exact hfinished.1.1
    | low => exact hfinished.2.1
  rcases hphase with hload | hfull
  · -- A neighbour that loads waits for a packet.
    have hwait : (n.ledgers X p).inbox ≠ [] ∨ (n.ledgers X p.other).inbox ≠ [] :=
      h.inSync.inbox_ne_nil (Phase.stage_eq_loading.mpr hload)
    simp [hempty] at hwait
  · exact hfull

/-- When both are Full and everything received is installed, either database holds the more
recent instance of every key. -/
theorem Exchanging.held_of_full (h : Exchanging rid mtu X n) (hfull : n.Full)
    (hreceived : ∀ p, (n p).received = []) (p : Party) (k : LsaKey) :
    (n p).lsdb.held k = moreRecent ((X p).held k) ((X p.other).held k) := by
  obtain ⟨hM, hS, hfromM, hfromS⟩ := h.control.finished (by simp [hfull .high])
    (by simp [hfull .high])
  have hdbds (p : Party) : dbds (n p).inbox = [] := by
    cases p with
    | high => exact hfromS
    | low => exact hfromM
  have hmore (p : Party) : (n p).exchange.ourMore = false := by
    cases p with
    | high => exact hM.2.1
    | low => exact hS.2.1
  refine h.inSync.store_eq_latest ?_ (hreceived p) ?_ ?_ k
  · simp [ledgers, Neighbour.ledger, hfull p, Phase.stage]
  · refine drop_eq_nil_of_le ?_
    rw [Lsdb.length_keys]
    exact (h.drives p.other).paged (hmore p.other)
  · intro page hpage
    obtain ⟨pkt, hpkt, hmsg⟩ := mem_filterMap.mp hpage
    cases hbody : pkt.body with
    | dbDesc d =>
      have hmem : pkt ∈ dbds (n p).inbox :=
        mem_filter.mpr ⟨hpkt, by simp [OspfPacket.isDbDesc, hbody]⟩
      simp [hdbds] at hmem
    | lsRequest | lsUpdate | lsAck => simp [OspfPacket.msg, hbody] at hmsg

/-- The instances of a key that the two routers start with. -/
def initialInstances (X : Party → Lsdb) (k : LsaKey) : List Lsa :=
  ((X .high).held k).toList ++ ((X .low).held k).toList

/-- Either database holds the most recent of the initial instances of every key, by RFC 2328
§13.1. -/
def Synchronised (X : Party → Lsdb) (n : Link) : Prop :=
  ∀ p k, Lsa.Newest (initialInstances X k) ((n p).lsdb.held k)

/-- No key is held on both sides at one sequence number by instances that §13.1 tells apart. -/
def TiesSettled (X : Party → Lsdb) : Prop :=
  ∀ p k a b, (X p).held k = some a → (X p.other).held k = some b →
    a.signedSeq = b.signedSeq → ¬ b.Newer a

theorem mem_initialInstances {k : LsaKey} {x : Lsa} (p : Party) :
    x ∈ initialInstances X k ↔ (X p).held k = some x ∨ (X p.other).held k = some x := by
  cases p with
  | high => simp [initialInstances, Party.other]
  | low => simp [initialInstances, Party.other, or_comm]

/-- An initial instance that none of the others exceeds is the most recent one. -/
theorem newest_some {k : LsaKey} {l : Lsa} (hl : l ∈ initialInstances X k)
    (hmax : ∀ x ∈ initialInstances X k, l = x ∨ x.signedSeq < l.signedSeq ∨ ¬ x.Newer l) :
    Lsa.Newest (initialInstances X k) (some l) := by
  refine ⟨⟨hl, fun x hx => ?_⟩, ?_⟩
  · rcases hmax x hx with rfl | hlt | hnot
    · exact fun h => Int.lt_irrefl _ h.rank_lt
    · rintro (h | ⟨h, -⟩) <;> omega
    · exact hnot
  · rcases (mem_initialInstances .high).mp hl with hl | hl <;>
      exact UInt16.not_le.mpr (Lsdb.storable_of_held hl).1

/-- The instance with the larger sequence number, the own one of two equal, is the most recent
one where §13.1 does not prefer the other of two equal ones. -/
theorem newest_moreRecent (p : Party) (k : LsaKey) (hties : ∀ a b, (X p).held k = some a →
    (X p.other).held k = some b → a.signedSeq = b.signedSeq → ¬ b.Newer a) :
    Lsa.Newest (initialInstances X k) (moreRecent ((X p).held k) ((X p.other).held k)) := by
  have hmem (x : Lsa) := mem_initialInstances (X := X) (k := k) (x := x) p
  cases hown : (X p).held k with
  | none =>
    cases hother : (X p.other).held k with
    | none =>
      refine .inl (eq_nil_iff_forall_not_mem.mpr fun x hx => ?_)
      simp [hmem, hown, hother] at hx
    | some b =>
      refine newest_some ((hmem b).mpr (.inr hother)) fun x hx => .inl ?_
      simpa [hmem, hown, hother] using hx
  | some a =>
    cases hother : (X p.other).held k with
    | none =>
      refine newest_some ((hmem a).mpr (.inl hown)) fun x hx => .inl ?_
      simpa [hmem, hown, hother] using hx
    | some b =>
      simp only [hown, hother, Option.some.injEq] at hmem
      rw [moreRecent, latest]
      split
      · rename_i hlt
        refine newest_some ((hmem b).mpr (.inr rfl)) fun x hx => ?_
        exact ((hmem x).mp hx).symm.imp_right fun h : a = x => .inl (h ▸ hlt)
      · rename_i hle
        refine newest_some ((hmem a).mpr (.inl rfl)) fun x hx => ((hmem x).mp hx).imp_right ?_
        rintro rfl
        rcases Int.lt_or_eq_of_le (Int.not_lt.mp hle) with hlt | heq
        · exact .inl hlt
        · exact .inr (hties a b hown hother heq.symm)

/-- **Two neighbours synchronise.**  Whatever the order of the events, as long as the
neighbours are not both Full one of them can start or receive a packet.  When they are and
all that was received is installed, either database holds the instance with the larger
sequence number, its own of two equal ones; and that is the most recent one of §13.1 for every
key exactly when §13.1 does not tell two equal ones apart. -/
theorem exchange_synchronises (version : OspfVersion) (areaId : UInt32) (mtu : UInt16)
    (rid : Party → UInt32) (hids : rid .low < rid .high) (X : Party → Lsdb)
    (events : List LinkEvent) (n : Link)
    (hrun : exec Link.step (Link.init version areaId mtu rid X) events = some n) :
    (¬n.Full → ∀ seq nowMs, ∃ p,
        (n.step (.start p seq nowMs)).isSome ∨ (n.step (.deliver p nowMs)).isSome) ∧
      (n.Full → (∀ p, (n p).received = []) →
        (∀ p k, (n p).lsdb.held k = moreRecent ((X p).held k) ((X p.other).held k)) ∧
        (Synchronised X n ↔ TiesSettled X)) := by
  have h := exchanging_of_run hids hrun
  refine ⟨fun hnot seq nowMs => ?_, fun hfull hreceived => ?_⟩
  · by_contra hstuck
    refine hnot (h.full_of_quiet fun p => ?_)
    obtain ⟨hstart, hdeliver⟩ := not_or.mp (not_exists.mp hstuck p)
    constructor
    · by_contra hns
      exact hstart (by simp [Link.step, hns])
    · cases hin : (n p).inbox with
      | nil => rfl
      | cons pkt rest => exact absurd (by simp [Link.step, hin]) hdeliver
  · have hheld := h.held_of_full hfull hreceived
    refine ⟨hheld, fun hsync p k a b hown hother heq hnewer => ?_, fun hties p k => ?_⟩
    · -- the side with the older of two equal instances keeps it
      have hkept := hsync p k
      rw [hheld, hown, hother, moreRecent, latest, if_neg (by omega)] at hkept
      exact hkept.1.2 b ((mem_initialInstances p).mpr (.inr hother)) hnewer
    · rw [hheld]
      exact newest_moreRecent p k (hties p k)

/-- In every run only the router with the higher id is master, and while both exchange, one
Database Description is on its way. -/
theorem exchange_takes_turns {version : OspfVersion} {areaId : UInt32} {events : List LinkEvent}
    (hids : rid .low < rid .high)
    (hrun : exec Link.step (Link.init version areaId mtu rid X) events = some n) :
    (∀ p, (n p).exchange.phase = .exchange → ((n p).exchange.masterRole = true ↔ p = .high)) ∧
      ((∀ p, (n p).exchange.phase = .exchange) →
        (dbds (n .high).inbox ++ dbds (n .low).inbox).length = 1) := by
  have h := exchanging_of_run hids hrun
  constructor
  · intro p hp
    cases h.control <;> cases p <;> simp_all [Waiting, Master, Slave, Finished]
  · intro hboth
    have hM := hboth .high
    have hS := hboth .low
    cases h.control <;> simp_all [Waiting, Master, Slave, Finished]

/-! A run between two routers, each with one LSA that the other lacks and with different
instances of a third. -/

/-- A router LSA without links. -/
def routerLsa (router seq : UInt32) : Lsa := ⟨⟨1, 0, 1, router, router, seq, 0, 20⟩, []⟩

/-- Databases that differ in both directions. -/
def databases : Party → Lsdb
  | .high =>
    ((Lsdb.empty.install (routerLsa 1 0x80000001) 0).1.install (routerLsa 2 0x80000002) 0).1
  | .low =>
    ((Lsdb.empty.install (routerLsa 2 0x80000001) 0).1.install (routerLsa 3 0x80000001) 0).1

/-- The router ids of the run. -/
def routerIds : Party → UInt32
  | .high => 2
  | .low => 1

/-- A run in which both ends reach Full. -/
def adjacency : List LinkEvent :=
  [.start .high 7 0, .deliver .low 0, .deliver .high 0, .deliver .low 0, .deliver .low 0,
    .deliver .high 0, .deliver .high 0, .deliver .high 0, .deliver .low 0, .deliver .low 0,
    .deliver .high 0, .deliver .high 0, .deliver .low 0, .install .high 0, .install .low 0,
    .install .low 0, .install .low 0]

/-- An end in which both are Full and all is installed, read off a run. -/
theorem full_of_phases {n : Link} (h : ((n .high).exchange.phase, (n .low).exchange.phase,
    (n .high).received, (n .low).received) = (.full, .full, [], [])) :
    n.Full ∧ ∀ p, (n p).received = [] := by
  simp only [Prod.mk.injEq] at h
  exact ⟨fun | .high => h.1 | .low => h.2.1, fun | .high => h.2.2.1 | .low => h.2.2.2⟩

/-- Both end with the newer instance of the third LSA, and synchronised. -/
theorem exchange_synchronises_adjacency :
    ∃ n, exec Link.step (Link.init .v2 0 1500 routerIds databases) adjacency = some n ∧ n.Full ∧
      (∀ p, (n p).lsdb.held ⟨1, 2, 2⟩ = some (routerLsa 2 0x80000002)) ∧
      Synchronised databases n := by
  have hend : (exec Link.step (Link.init .v2 0 1500 routerIds databases) adjacency).map
      (fun n => ((n .high).exchange.phase, (n .low).exchange.phase, (n .high).received,
        (n .low).received)) = some (.full, .full, [], []) := by decide +kernel
  obtain ⟨n, hrun, hn⟩ := Option.map_eq_some_iff.mp hend
  obtain ⟨hfull, hreceived⟩ := full_of_phases hn
  obtain ⟨hheld, hsync⟩ := (exchange_synchronises .v2 0 1500 routerIds (by decide) databases
    adjacency n hrun).2 hfull hreceived
  refine ⟨n, hrun, hfull, fun p => ?_, hsync.mpr ?_⟩
  · rw [hheld]
    cases p with
    | high | low => decide +kernel
  · intro p k a b hown hother heq
    have hdiffer : ∀ p, ∀ k ∈ (databases p).keys, ((databases p).held k).all fun a =>
        ((databases p.other).held k).all fun b => a.signedSeq ≠ b.signedSeq := by
      rintro (_ | _) <;> decide +kernel
    have hk : k ∈ (databases p).keys := Lsdb.mem_keys.mpr (by rw [hown]; rfl)
    simpa [hown, hother, heq] using hdiffer p k hk

/-- The instance of one LSA at one sequence number, with a checksum. -/
def tiedLsa (checksum : UInt16) : Lsa := ⟨⟨1, 0, 1, 3, 3, 0x80000005, checksum, 20⟩, []⟩

/-- Each router holds its own version of the LSA. -/
def tiedDatabases : Party → Lsdb
  | .high => (Lsdb.empty.install (tiedLsa 1) 0).1
  | .low => (Lsdb.empty.install (tiedLsa 9) 0).1

/-- Two versions of an LSA at one sequence number: both routers become Full, each with its own,
and §13.1 prefers the one with the larger checksum. -/
theorem exchange_keeps_versions :
    ∃ n, exec Link.step (Link.init .v2 0 1500 routerIds tiedDatabases)
        [.start .high 7 0, .deliver .low 0, .deliver .high 0, .deliver .low 0, .deliver .high 0] =
          some n ∧
      n.Full ∧ (∀ p, (n p).received = []) ∧ (n .high).lsdb.held ⟨1, 3, 3⟩ = some (tiedLsa 1) ∧
      (n .low).lsdb.held ⟨1, 3, 3⟩ = some (tiedLsa 9) ∧ (tiedLsa 9).Newer (tiedLsa 1) ∧
      ¬ Synchronised tiedDatabases n := by
  have hend : (exec Link.step (Link.init .v2 0 1500 routerIds tiedDatabases)
      [.start .high 7 0, .deliver .low 0, .deliver .high 0, .deliver .low 0, .deliver .high 0]).map
      (fun n => (((n .high).exchange.phase, (n .low).exchange.phase, (n .high).received,
        (n .low).received), (n .high).lsdb.held ⟨1, 3, 3⟩, (n .low).lsdb.held ⟨1, 3, 3⟩)) =
        some ((.full, .full, [], []), some (tiedLsa 1), some (tiedLsa 9)) := by decide +kernel
  obtain ⟨n, hrun, hn⟩ := Option.map_eq_some_iff.mp hend
  obtain ⟨hphases, hheld⟩ := Prod.mk.inj hn
  obtain ⟨hhigh, hlow⟩ := Prod.mk.inj hheld
  obtain ⟨hfull, hreceived⟩ := full_of_phases hphases
  have hnewer : (tiedLsa 9).Newer (tiedLsa 1) := by decide
  refine ⟨n, hrun, hfull, hreceived, hhigh, hlow, hnewer, fun hsync => ?_⟩
  have hnewest := hsync .high ⟨1, 3, 3⟩
  rw [hhigh] at hnewest
  exact hnewest.1.2 (tiedLsa 9) (by decide +kernel) hnewer

theorem exchange_takes_turns_adjacency :
    ∃ n, exec Link.step (Link.init .v2 0 1500 routerIds databases) (adjacency.take 3) = some n ∧
      (dbds (n .high).inbox ++ dbds (n .low).inbox).length = 1 := by
  have hphase : (exec Link.step (Link.init .v2 0 1500 routerIds databases) (adjacency.take 3)).map
      (fun n => ((n .high).exchange.phase, (n .low).exchange.phase)) =
        some (.exchange, .exchange) := by decide +kernel
  obtain ⟨n, hrun, hn⟩ := Option.map_eq_some_iff.mp hphase
  rw [Prod.mk.injEq] at hn
  exact ⟨n, hrun, (exchange_takes_turns (by decide) hrun).2 fun | .high => hn.1 | .low => hn.2⟩

end Link

end LibRouting.Ospf
