/-
  Ospf/ExchangeSync.lean --- two neighbours synchronise their databases.

  Two exchanges run against each other over lossless FIFO channels, in any interleaving and
  without retransmissions.  The Database Descriptions on their way and the two drivers go
  through a fixed sequence of turns (`Control`); what they say and what is requested moves the
  ledgers of the abstract synchronisation (`Foundation/DbSync.lean`).
-/
import LibRouting.Foundation.Run
import LibRouting.Ospf.Exchange

set_option autoImplicit false

namespace LibRouting.Ospf

open Foundation Foundation.DbSync DbExchange List

/-! ## The link -/

/-- One neighbour: its driver, its database, the LSAs the driver handed over that are still to
be installed, and the packets on their way to it. -/
structure Neighbour where
  exchange : DbExchange
  lsdb : Lsdb
  received : List Lsa
  inbox : List OspfPacket

/-- Both ends of the adjacency. -/
def Link := Party → Neighbour

/-- What may happen on the link. -/
inductive LinkEvent where
  /-- A Hello finds the neighbour in ExStart and no initial DBD sent yet. -/
  | start (p : Party) (seq : UInt32) (nowMs : Nat)
  | deliver (p : Party) (nowMs : Nat)
  | install (p : Party) (nowMs : Nat)
  deriving DecidableEq, Repr

/-- `handle_packet` for the packets of the exchange.  An acknowledgment only concerns the
retransmission list. -/
def handlePacket (x : DbExchange) (pkt : OspfPacket) (lsdb : Lsdb) (nowMs : Nat) :
    DbExchange × ExchangeStep :=
  match pkt.body with
  | .dbDesc d => x.onDbDesc d pkt.routerId lsdb nowMs
  | .lsRequest entries => x.onLsRequest entries lsdb nowMs
  | .lsUpdate lsas => x.onLsUpdate lsas
  | .lsAck _ => (x, .default)

namespace Link

section

variable (n : Link) (p : Party) (x : DbExchange)

/-- A neighbour's driver has made a step. -/
def commit (step : ExchangeStep) (inbox : List OspfPacket) : Link :=
  fun r =>
    if r = p then { n r with exchange := x, received := (n r).received ++ step.lsas, inbox }
    else { n r with inbox := (n r).inbox ++ step.outbound }

/-- One event, if it can happen. -/
def step : LinkEvent → Option Link
  | .start p seq nowMs =>
    if (n p).exchange.started then none
    else
      let r := (n p).exchange.initialDbDesc seq nowMs
      some (n.commit p r.1 (ExchangeStep.default.push r.2) (n p).inbox)
  | .deliver p nowMs =>
    match (n p).inbox with
    | [] => none
    | pkt :: rest =>
      let r := handlePacket (n p).exchange pkt (n p).lsdb nowMs
      some (n.commit p r.1 r.2 rest)
  | .install p nowMs =>
    match (n p).received with
    | [] => none
    | lsa :: later =>
      some fun r =>
        if r = p then
          { n r with lsdb := ((n r).lsdb.install lsa nowMs).1, received := later }
        else n r

/-- Two drivers that have not started, each with its database. -/
def init (version : OspfVersion) (areaId : UInt32) (mtu : UInt16) (rid : Party → UInt32)
    (X : Party → Lsdb) : Link :=
  fun p => ⟨withVersion (rid p) areaId mtu version, X p, [], []⟩

@[simp] theorem commit_self (step : ExchangeStep) (inbox : List OspfPacket) :
    n.commit p x step inbox p =
      { n p with exchange := x, received := (n p).received ++ step.lsas, inbox } :=
  if_pos rfl

@[simp] theorem commit_other (step : ExchangeStep) (inbox : List OspfPacket) :
    n.commit p x step inbox p.other =
      { n p.other with inbox := (n p.other).inbox ++ step.outbound } :=
  if_neg p.other_ne

end

end Link

/-! ## The ledgers -/

/-- What a packet says. -/
def OspfPacket.msg (pkt : OspfPacket) : Option (Msg LsaKey Lsa Int) :=
  match pkt.body with
  | .dbDesc d => some (.describe (d.lsaHeaders.map LsaHeader.summary))
  | .lsRequest entries => some (.request entries)
  | .lsUpdate lsas => some (.update lsas)
  | .lsAck _ => none

/-- The phase as the abstract exchange sees it. -/
def Phase.stage : Phase → Stage
  | .exStart | .exchange => .describing
  | .loading => .loading
  | .full => .done

theorem Phase.stage_eq_loading {phase : Phase} : phase.stage = .loading ↔ phase = .loading := by
  cases phase <;> decide

/-- The ledger of a neighbour that started with the database `start`. -/
def Neighbour.ledger (start : Lsdb) (s : Neighbour) : Ledger LsaKey Lsa Int where
  stage := s.exchange.phase.stage
  store := s.lsdb.held
  received := s.received
  queue := s.exchange.lsrQueue
  undescribed := start.keys.drop s.exchange.ourCursor
  inbox := s.inbox.filterMap OspfPacket.msg

namespace Link
variable {pkt : OspfPacket}

/-- Both ends as the abstract exchange sees them. -/
def ledgers (X : Party → Lsdb) (n : Link) : Ledgers LsaKey Lsa Int := fun p => (n p).ledger (X p)

variable {X : Party → Lsdb} {n : Link} {p : Party} {x x' : DbExchange} {step step' : ExchangeStep}
  {rest : List OspfPacket} {nowMs : Nat}

theorem ledgers_commit :
    (n.commit p x step rest).ledgers X =
      (n.ledgers X).put p
        (Neighbour.ledger (X p)
          { n p with exchange := x, received := (n p).received ++ step.lsas, inbox := rest })
        (step.outbound.filterMap OspfPacket.msg) := by
  funext r
  rcases p.eq_or_other r with rfl | rfl
  · simp [ledgers]
  · simp [ledgers, Neighbour.ledger]

/-- The two databases at the start, as the abstract synchronisation sees them. -/
abbrev stores (X : Party → Lsdb) : Party → LsaKey → Option Lsa := fun p => (X p).held

/-- The ledgers are in step with the databases of the start. -/
abbrev InSync (X : Party → Lsdb) (n : Link) : Prop :=
  Synchronising Lsa.key Lsa.signedSeq (stores X) (n.ledgers X)

/-- The ledgers get by steps of the synchronisation to those after a step of a driver. -/
def Reaches (X : Party → Lsdb) (n : Link) (p : Party) (rest : List OspfPacket) (x : DbExchange)
    (step : ExchangeStep) : Prop :=
  Relation.ReflTransGen (Step Lsa.key Lsa.signedSeq) (n.ledgers X)
    ((n.commit p x step rest).ledgers X)

/-- The ledgers only see the stage, the queue and the cursor of a driver. -/
theorem Reaches.congr (h : Reaches X n p rest x step) (hstage : x'.phase.stage = x.phase.stage)
    (hqueue : x'.lsrQueue = x.lsrQueue) (hcursor : x'.ourCursor = x.ourCursor)
    (hout : step'.outbound = step.outbound) (hlsas : step'.lsas = step.lsas) :
    Reaches X n p rest x' step' := by
  rw [Reaches, ledgers_commit] at h ⊢
  simpa [Neighbour.ledger, hstage, hqueue, hcursor, hout, hlsas] using h

/-- As long as a neighbour describes its database, no key is added to it. -/
theorem InSync.keys_eq (hs : InSync X n) (hstage : (n p).exchange.phase.stage = .describing) :
    (n p).lsdb.keys = (X p).keys := by
  have hc := hs.consistent p
  exact Lsdb.keys_eq fun k => ⟨hc.known hstage k, hc.store.isSome⟩

/-- One step of the synchronisation, given by the new ledger and the messages. -/
theorem Reaches.single
    (h : Step Lsa.key Lsa.signedSeq (n.ledgers X) ((n.ledgers X).put p
      (Neighbour.ledger (X p)
        { n p with exchange := x, received := (n p).received ++ step.lsas, inbox := rest })
      (step.outbound.filterMap OspfPacket.msg))) :
    Reaches X n p rest x step := by
  rw [Reaches, ledgers_commit]
  exact .single h

theorem reaches_describe {d : DbDescBody} (hinbox : (n p).inbox = pkt :: rest)
    (hbody : pkt.body = .dbDesc d) (hstage : (n p).exchange.phase.stage = .describing)
    (hx : x.phase.stage = .describing) (hqueue : x.lsrQueue = (n p).exchange.lsrQueue)
    (hcursor : x.ourCursor = (n p).exchange.ourCursor) (hout : step.outbound = [])
    (hlsas : step.lsas = []) :
    Reaches X n p rest (x.processTheirHeaders d.lsaHeaders (n p).lsdb step).1
      (x.processTheirHeaders d.lsaHeaders (n p).lsdb step).2 := by
  obtain ⟨queue, heq, hmem⟩ := x.processTheirHeaders_eq d.lsaHeaders (n p).lsdb step
  rw [heq]
  apply Reaches.single
  have hmsg : (n.ledgers X p).inbox =
      .describe (d.lsaHeaders.map LsaHeader.summary) :: rest.filterMap OspfPacket.msg := by
    simp [ledgers, Neighbour.ledger, hinbox, OspfPacket.msg, hbody]
  rw [hqueue] at hmem
  have hstep : Step Lsa.key Lsa.signedSeq (n.ledgers X) _ := .describe hstage hmsg hmem
  convert hstep using 2
  · simp [ledgers, Neighbour.ledger, hx, hcursor, hlsas, hstage]
  · simp [ledgers, Neighbour.ledger, hout, filterMap_map, Function.comp_def,
      OspfPacket.msg, lsUpdatePacket, packet]

/-- A step of the synchronisation from where a driver's step got to, by the same neighbour. -/
theorem Reaches.tail (h : Reaches X n p rest x step) {l : Ledger LsaKey Lsa Int}
    {msgs : List (Msg LsaKey Lsa Int)}
    (hstep : Step Lsa.key Lsa.signedSeq ((n.commit p x step rest).ledgers X)
      (((n.commit p x step rest).ledgers X).put p l msgs))
    (hl : Neighbour.ledger (X p)
      { n p with exchange := x', received := (n p).received ++ step'.lsas, inbox := rest } = l)
    (hmsgs : step'.outbound.filterMap OspfPacket.msg =
      step.outbound.filterMap OspfPacket.msg ++ msgs) :
    Reaches X n p rest x' step' := by
  refine Relation.ReflTransGen.tail h ?_
  rw [ledgers_commit, Ledgers.put_put] at hstep
  rw [ledgers_commit, ledgers_commit, hl, hmsgs]
  exact hstep

theorem Reaches.page (h : Reaches X n p rest x step) (hs : InSync X n)
    (hstage : (n p).exchange.phase.stage = .describing) (hx : x.phase.stage = .describing)
    (role : UInt8) (nowMs : Nat) :
    Reaches X n p rest (x.sendPage role (n p).lsdb step nowMs).1
      (x.sendPage role (n p).lsdb step nowMs).2 := by
  have hkeys := hs.keys_eq hstage
  have hund : ((n.commit p x step rest).ledgers X p).undescribed =
      ((n p).lsdb.keys.drop x.ourCursor).take x.perPage ++
        (n p).lsdb.keys.drop (x.nextOurChunk (n p).lsdb).ourCursor := by
    rw [x.drop_nextOurChunk, take_append_drop]
    simp [ledgers, Neighbour.ledger, hkeys]
  refine h.tail (.page ?_ hund) ?_ ?_
  · simpa [ledgers, Neighbour.ledger] using hx
  · simp [ledgers, Neighbour.ledger, hkeys, sendPage, rememberDd,
      ExchangeStep.push, nextOurChunk]
  · simp [sendPage, ExchangeStep.push, OspfPacket.msg, dbDescPacket,
      packet, ledgers, Neighbour.ledger, x.map_summary_page]

theorem Reaches.finish (h : Reaches X n p rest x step) (hx : x.phase.stage = .describing)
    (nowMs : Nat) :
    Reaches X n p rest (x.finishExchange step nowMs).1 (x.finishExchange step nowMs).2 := by
  have hstage : ((n.commit p x step rest).ledgers X p).stage = .describing := by
    simpa [ledgers, Neighbour.ledger] using hx
  have hqueue : ((n.commit p x step rest).ledgers X p).queue = x.lsrQueue := by
    simp [ledgers, Neighbour.ledger]
  by_cases hempty : x.lsrQueue = []
  · refine h.tail (.finishDone hstage (hqueue.trans hempty)) ?_ ?_
    · simp [ledgers, Neighbour.ledger, finishExchange, hempty, ExchangeStep.emit,
        Phase.stage]
    · simp [finishExchange, hempty, ExchangeStep.emit]
  refine h.tail (.finishLoading hstage (by rwa [hqueue])) ?_ ?_
  · simp [ledgers, Neighbour.ledger, finishExchange, takeLsRequest, hempty,
      ExchangeStep.emit, ExchangeStep.push, Phase.stage]
  · simp [ledgers, Neighbour.ledger, finishExchange, takeLsRequest, hempty,
      ExchangeStep.emit, ExchangeStep.push, OspfPacket.msg, lsRequestPacket,
      packet]

theorem reaches_start (hstage : (n p).exchange.phase.stage = .describing) (seq : UInt32)
    (nowMs : Nat) :
    Reaches X n p (n p).inbox ((n p).exchange.initialDbDesc seq nowMs).1
      (ExchangeStep.default.push ((n p).exchange.initialDbDesc seq nowMs).2) := by
  apply Reaches.single
  have hstep : Step Lsa.key Lsa.signedSeq (n.ledgers X) _ :=
    .page hstage (nil_append (n.ledgers X p).undescribed).symm
  convert hstep using 2
  · simp [ledgers, Neighbour.ledger, initialDbDesc, rememberDd,
      ExchangeStep.default, ExchangeStep.push, apply_ite]
  · simp [ExchangeStep.default, ExchangeStep.push, initialDbDesc, OspfPacket.msg,
      dbDescPacket, packet, pageOf]

theorem reaches_lsAck {headers : List LsaHeader} (hinbox : (n p).inbox = pkt :: rest)
    (hbody : pkt.body = .lsAck headers) : Reaches X n p rest (n p).exchange .default := by
  have heq : (n.commit p (n p).exchange .default rest).ledgers X = n.ledgers X := by
    funext r
    rcases p.eq_or_other r with rfl | rfl
    · simp [ledgers, Neighbour.ledger, ExchangeStep.default, hinbox, OspfPacket.msg, hbody]
    · simp [ledgers, Neighbour.ledger, ExchangeStep.default]
  rw [Reaches, heq]

/-- A request for what the other neighbour wants is served. -/
theorem reaches_lsRequest {entries : List LsaKey} (hs : InSync X n)
    (hinbox : (n p).inbox = pkt :: rest) (hbody : pkt.body = .lsRequest entries)
    (hphase : (n p).exchange.phase ≠ .exStart) (nowMs : Nat) :
    ∃ packets, (n p).exchange.onLsRequest entries (n p).lsdb nowMs =
        ((n p).exchange, { ExchangeStep.default with outbound := packets }) ∧
      (∀ pkt ∈ packets, ∃ lsas, pkt.body = .lsUpdate lsas) ∧
      Reaches X n p rest (n p).exchange { ExchangeStep.default with outbound := packets } := by
  have hc := hs.consistent p
  have hmsg : (n.ledgers X p).inbox = .request entries :: rest.filterMap OspfPacket.msg := by
    simp [ledgers, Neighbour.ledger, hinbox, OspfPacket.msg, hbody]
  obtain ⟨-, hwanted⟩ : Sound Lsa.key Lsa.signedSeq (stores X) (n.ledgers X).Describing p
      (.request entries) := hc.inbox _ (by simp [hmsg])
  have hheld : ∀ k ∈ entries, ((n p).lsdb.held k).isSome := by
    intro k hk
    obtain ⟨l, hw⟩ := hwanted k hk
    exact hc.store.isSome (by simpa using Option.isSome_of_eq_some hw.1)
  obtain ⟨lsas, hlsas⟩ := exists_mapM hheld
  refine ⟨(batches ((n p).exchange.ifaceMtu.toNat - (n p).exchange.ddOverhead) lsas []
    0).map (n p).exchange.lsUpdatePacket, ?_, ?_, ?_⟩
  · rw [onLsRequest, if_neg hphase, hlsas]
  · intro pkt hpkt
    obtain ⟨batch, -, rfl⟩ := mem_map.mp hpkt
    exact ⟨batch, rfl⟩
  · apply Reaches.single
    have hstep : Step Lsa.key Lsa.signedSeq (n.ledgers X) _ :=
      .serve hmsg (hlsas.trans (congrArg some (batches_flatten
        ((n p).exchange.ifaceMtu.toNat - (n p).exchange.ddOverhead) lsas [] 0).symm))
    convert hstep using 2
    · simp [ledgers, Neighbour.ledger, ExchangeStep.default]
    · simp [filterMap_map, Function.comp_def, OspfPacket.msg, lsUpdatePacket,
        packet]

theorem reaches_lsUpdate {lsas : List Lsa} (hs : InSync X n) (hinbox : (n p).inbox = pkt :: rest)
    (hbody : pkt.body = .lsUpdate lsas)
    (hidle : (n p).exchange.phase = .exStart → (n p).exchange.lsrQueue = []) :
    Reaches X n p rest ((n p).exchange.onLsUpdate lsas).1 ((n p).exchange.onLsUpdate lsas).2 := by
  have hmsg : (n.ledgers X p).inbox = .update lsas :: rest.filterMap OspfPacket.msg := by
    simp [ledgers, Neighbour.ledger, hinbox, OspfPacket.msg, hbody]
  obtain ⟨phase, newlyFull, events, heq, hphase⟩ := (n p).exchange.onLsUpdate_eq lsas hidle
  rw [heq]
  have hstage : phase.stage = (n.ledgers X p).stage ∧ ((n.ledgers X p).stage = .loading →
        unanswered (n p).exchange.lsrQueue lsas ≠ []) ∨
      (n.ledgers X p).stage = .loading ∧
        unanswered (n p).exchange.lsrQueue lsas = [] ∧ phase.stage = .done := by
    rcases hphase with ⟨rfl, hne⟩ | ⟨hload, hempty, rfl⟩
    · refine .inl ⟨rfl, fun hload => hne ?_ ((hs.consistent p).loading hload).1⟩
      exact Phase.stage_eq_loading.mp hload
    · exact .inr ⟨Phase.stage_eq_loading.mpr hload, hempty, rfl⟩
  apply Reaches.single
  have hstep : Step Lsa.key Lsa.signedSeq (n.ledgers X) _ :=
    .accept hmsg (fun k => mem_unanswered) hstage
  exact hstep

/-- The ledgers after an LSA has been installed. -/
theorem reaches_install {lsa : Lsa} {later : List Lsa} (hs : InSync X n)
    (hreceived : (n p).received = lsa :: later) (nowMs : Nat) :
    Step Lsa.key Lsa.signedSeq (n.ledgers X) (ledgers X fun r =>
      if r = p then { n r with lsdb := ((n r).lsdb.install lsa nowMs).1, received := later }
      else n r) := by
  obtain ⟨hw, -⟩ := (hs.consistent p).received lsa (by simp [ledgers, Neighbour.ledger, hreceived])
  have hstorable : lsa.Storable := Lsdb.storable_of_held hw.1
  have hstep : Step Lsa.key Lsa.signedSeq (n.ledgers X) _ := .install hreceived
  convert hstep using 1
  funext r
  rcases p.eq_or_other r with rfl | rfl
  · simp only [ledgers, if_true, Ledgers.put_self, Neighbour.ledger, Ledger.mk.injEq, and_true,
      true_and]
    funext k
    exact (n r).lsdb.install_held hstorable nowMs k
  · simp [ledgers]

end Link

end LibRouting.Ospf
